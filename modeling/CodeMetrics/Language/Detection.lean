import CodeMetrics.Language.Basic
import CodeMetrics.Path
import CodeMetrics.Text.Lines
import CodeMetrics.Text.Shape
import CodeMetrics.Text.Utf8

/-! The language of a file. The extension decides first; a file whose extension says nothing may name
    its interpreter on the first line, or its language in a line for editors near either end. In
    doubt a file has no language. -/

namespace CodeMetrics.Detection

/-- The number of bytes looked at. -/
def sampleLength : Nat := 4096

/-! ### Shapes of lines -/

/-- Characters of an interpreter's name. -/
def isInterpreterChar (c : Char) : Bool :=
  c.isAlphanum || c == '_' || c == '.' || c == '+' || c == '-'

/-- Characters of a mode's name. -/
def isModeChar (c : Char) : Bool := c.isAlphanum || c == '_' || c == '+' || c == '-'

open Shape in
/-- An interpreter: after a path, and maybe after `env` and its options. -/
def interpreterShape : Shape :=
  inOrder
    [word "#!", .many blank, .maybe (.seq (.many ink) (char '/')),
     .maybe (inOrder
      [word "env", some blank, .many (inOrder [char '-', some ink, some blank])]),
     .keep (some (.one isInterpreterChar))]

open Shape in
/-- A mode between two marks of an arrow, alone or among other settings. -/
def arrowShape : Shape :=
  inOrder
    [word "-*-", .many blank, .maybe (inOrder [.few any, word "mode:", .many blank]),
     .keep (some (.one isModeChar)), .many blank, .maybe (.seq (char ';') (.many any)), word "-*-"]

open Shape in
/-- A file type after a colon. -/
def fileTypeShape : Shape :=
  inOrder
    [.either (.seq (word "vi") (.maybe (char 'm'))) (word "ex"), char ':', .few any, .edge,
     .either (word "ft") (.either (word "filetype") (word "syntax")), char '=',
     .keep (some (.one isModeChar))]

/-! ### Names -/

/-- The language of an interpreter. -/
def ofInterpreter? (name : String) : Option Language :=
  let name := lowerAscii name
  if "python".toList.isPrefixOf name.toList then some .python
  else match name with
    | "pypy" | "pypy3" => some .python
    | "ts-node" | "deno" | "bun" | "tsx" | "esno" => some .typeScript
    | "rust-script" | "run-cargo-script" | "cargo" => some .rust
    | "gorun" | "go" => some .go
    | _ => none

/-- The language of an editor's mode. -/
def ofMode? (name : String) : Option Language :=
  match lowerAscii name with
  | "python" | "py" | "python3" => some .python
  | "rust" | "rs" | "rustic" => some .rust
  | "go" | "golang" => some .go
  | "typescript" | "ts" => some .typeScript
  | "tsx" | "typescriptreact" => some .tsx
  | _ => none

/-! ### Content -/

/-- The language by interpreter, from the first line. -/
def byInterpreter? (lines : List (List Char)) : Option Language :=
  (lines.head?.bind interpreterShape.keptAtStart).bind ofInterpreter?

/-- The language that a line for editors names. -/
def modeIn? (line : List Char) : Option Language :=
  ((arrowShape.keptIn line).or (fileTypeShape.keptIn line)).bind ofMode?

/-- The lines where editors look: the first five in order, then the last five of the others
    backwards. -/
def editorLines (lines : List (List Char)) : List (List Char) :=
  lines.take 5 ++ lines.reverse.take (min 5 (lines.length - 5))

/-- The language by a line for editors. -/
def byMode? (lines : List (List Char)) : Option Language := (editorLines lines).findSome? modeIn?

/-- The language of content. -/
def ofContent? (sample : List UInt8) : Option Language :=
  let lines := linesOf (Utf8.validFront sample)
  (byInterpreter? lines).or (byMode? lines)

/-- Whether content is a catalogue of messages in XML, which shares an extension with
    TypeScript. -/
def isCatalogue (sample : List UInt8) : Bool :=
  let front := sample.dropWhile isAsciiBlank
  ["<?xml", "<!DOCTYPE TS", "<TS"].any fun s => (Utf8.encode s).isPrefixOf front

/-- The language of a file, from its path and, where there is one, a sample of its content. -/
def classify (path : RawPath) (sample : Option (List UInt8)) : Option Language :=
  match (Path.extension? path).bind Language.ofExtension? with
  | some .typeScript => if sample.any isCatalogue then none else some .typeScript
  | some l => some l
  | none => sample.bind ofContent?

end CodeMetrics.Detection

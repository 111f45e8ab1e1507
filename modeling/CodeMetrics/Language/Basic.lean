import CodeMetrics.Text.Blank

/-! The languages whose source can be measured. TypeScript with embedded markup has a grammar of its
    own and is still TypeScript to whoever asks for a language by name. -/

namespace CodeMetrics

/-- A language, by grammar. -/
inductive Language where
  | go
  | python
  | rust
  | typeScript
  | tsx
deriving DecidableEq, Repr

namespace Language

/-- All languages, in the order of reports. -/
def all : List Language := [.go, .python, .rust, .typeScript, .tsx]

/-- The name of a language's grammar. -/
def grammarName : Language → String
  | .go => "go"
  | .python => "python"
  | .rust => "rust"
  | .typeScript => "typescript"
  | .tsx => "tsx"

/-- The language that a grammar belongs to. -/
def family : Language → Language
  | .tsx => .typeScript
  | l => l

/-- The name of a language in reports. -/
def name (l : Language) : String := l.family.grammarName

/-- The language of a grammar, by the grammar's name. -/
def ofGrammarName? (s : String) : Option Language := all.find? fun l => l.grammarName == s

/-- The language a user asks for, in any case. -/
def ofName? (s : String) : Option Language :=
  match lowerAscii s with
  | "go" | "golang" => some .go
  | "python" | "py" => some .python
  | "rust" | "rs" => some .rust
  | "typescript" | "ts" => some .typeScript
  | "tsx" => some .tsx
  | _ => none

/-- The language of a file extension, in any case. -/
def ofExtension? (s : String) : Option Language :=
  match lowerAscii s with
  | "go" => some .go
  | "py" | "pyi" => some .python
  | "rs" => some .rust
  | "ts" | "mts" | "cts" => some .typeScript
  | "tsx" => some .tsx
  | _ => none

end Language

end CodeMetrics

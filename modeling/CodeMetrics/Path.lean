import CodeMetrics.Text.Utf8

/-! Paths. The system has a path as bytes, which need not be text. A path is split at slashes; empty
    parts and single dots name no step, except that a dot at the very front is kept as one. What is
    shown of a path is text, with a replacement character for everything that is not. -/

namespace CodeMetrics

/-- A path, or a name on it, as the system has it. -/
structure RawPath where
  bytes : List UInt8
deriving DecidableEq, Repr

namespace RawPath

/-- The path that a text names. -/
def ofText (text : String) : RawPath := ⟨Utf8.encode text⟩

instance : Coe String RawPath := ⟨ofText⟩

/-- The text of a path, with a replacement character for every broken one. -/
def text (path : RawPath) : String := Utf8.decodeLossy path.bytes

end RawPath

namespace Path

/-- The byte that divides a path. -/
def slash : UInt8 := 0x2F

def dot : UInt8 := 0x2E

/-- What stands between two slashes, or behind the last one. -/
def empty : RawPath := ⟨[]⟩

/-- The step that stays. -/
def here : RawPath := ⟨[dot]⟩

/-- The step that goes up. -/
def up : RawPath := ⟨[dot, dot]⟩

/-- The pieces between slashes, at least one. -/
def splitAtSlashes : List UInt8 → List (List UInt8)
  | [] => [[]]
  | b :: bs =>
    if b = slash then [] :: splitAtSlashes bs
    else match splitAtSlashes bs with
      | [] => [[b]]
      | piece :: pieces => (b :: piece) :: pieces

/-- The pieces of a path between its slashes. -/
def pieces (path : RawPath) : List RawPath := (splitAtSlashes path.bytes).map RawPath.mk

/-- Whether a path starts at the root of the file system. -/
def isAbsolute (path : RawPath) : Bool := path.bytes.head? == some slash

/-- The steps of a path that move: neither empty nor a single dot. -/
def steps (path : RawPath) : List RawPath := (pieces path).filter fun p => p != empty && p != here

/-- The last step of a path, if it names something. -/
def fileName? (path : RawPath) : Option RawPath := (steps path).getLast?.filter (· != up)

/-- What follows the last dot of a file name, unless the dot is its first byte or what follows is no
    text. -/
def extension? (path : RawPath) : Option String :=
  (fileName? path).bind fun name =>
    let fromEnd := name.bytes.reverse
    let after := fromEnd.takeWhile (· != dot)
    match fromEnd.drop after.length with
    | [] | [_] => none
    | _ :: _ :: _ => Utf8.decode? after.reverse

/-- A name below a directory. -/
def join (dir name : RawPath) : RawPath :=
  if dir.bytes.getLast? == some slash then ⟨dir.bytes ++ name.bytes⟩
  else ⟨dir.bytes ++ slash :: name.bytes⟩

/-- Some names with slashes between them. -/
def ofNames (names : List RawPath) : RawPath := ⟨List.intercalate [slash] (names.map (·.bytes))⟩

/-! ### Texts -/

/-- Slashes in place of backslashes. -/
def slashed (text : String) : String :=
  String.ofList (text.toList.map fun c => if c = '\\' then '/' else c)

/-- A text without the `./` at its front, however often it stands there. -/
def dropDots : List Char → List Char
  | '.' :: '/' :: rest => dropDots rest
  | cs => cs

/-- A path as reports show it: with slashes, and without `./` at its front. -/
def display (path : RawPath) : String := String.ofList (dropDots (slashed path.text).toList)

end Path

end CodeMetrics

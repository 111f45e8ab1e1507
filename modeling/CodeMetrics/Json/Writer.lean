import CodeMetrics.Decimal.Layout
import CodeMetrics.Json.Value

/-! JSON as text, one item or member a line. Only quotes, backslashes and control characters are
    escaped. -/

namespace CodeMetrics.Json

/-- Two characters of hexadecimal. -/
def hexPair (n : Nat) : List Char := [Nat.digitChar (n / 16), Nat.digitChar (n % 16)]

/-- One character of a text literal. -/
def escapeChar (c : Char) : List Char :=
  match c with
  | '"' => ['\\', '"']
  | '\\' => ['\\', '\\']
  | '\x08' => ['\\', 'b']
  | '\x0c' => ['\\', 'f']
  | '\n' => ['\\', 'n']
  | '\r' => ['\\', 'r']
  | '\t' => ['\\', 't']
  | c => if c.toNat < 0x20 then ['\\', 'u', '0', '0'] ++ hexPair c.toNat else [c]

/-- A text literal. -/
def textLiteral (s : String) : List Char := '"' :: s.toList.flatMap escapeChar ++ ['"']

/-- A number; one that is not finite is written `null`. -/
def Number.render : Number → List Char
  | .natural n => Decimal.digits n
  | .negative n => '-' :: Decimal.digits n
  | .real x => if x.isFinite then Decimal.text x else "null".toList

/-- A new line, indented by two spaces a level. -/
def newLine (level : Nat) : List Char := '\n' :: List.replicate (2 * level) ' '

namespace Value

mutual

/-- A value at a level of indentation. -/
def render (level : Nat) : Value → List Char
  | .null | .beyond => "null".toList
  | .bool true => "true".toList
  | .bool false => "false".toList
  | .number n => n.render
  | .text s => textLiteral s
  | .list [] => ['[', ']']
  | .list (v :: vs) =>
    '[' :: newLine (level + 1) ++ v.render (level + 1) ++ renderItems (level + 1) vs
      ++ newLine level ++ [']']
  | .object [] => ['\x7b', '\x7d']
  | .object ((name, v) :: rest) =>
    '\x7b' :: newLine (level + 1) ++ textLiteral name ++ [':', ' '] ++ v.render (level + 1)
      ++ renderMembers (level + 1) rest ++ newLine level ++ ['\x7d']

/-- The items after the first. -/
def renderItems (level : Nat) : List Value → List Char
  | [] => []
  | v :: vs => ',' :: newLine level ++ v.render level ++ renderItems level vs

/-- The members after the first. -/
def renderMembers (level : Nat) : List (String × Value) → List Char
  | [] => []
  | (name, v) :: rest =>
    ',' :: newLine level ++ textLiteral name ++ [':', ' '] ++ v.render level
      ++ renderMembers level rest

end

/-- A document: the value and a final line feed. -/
def document (v : Value) : String := String.ofList (v.render 0 ++ ['\n'])

end Value

end CodeMetrics.Json

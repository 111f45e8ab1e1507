import CodeMetrics.Decimal.Binary
import CodeMetrics.Json.Value
import CodeMetrics.Text.Digits

/-! Reading JSON. Every reader takes characters and gives what it read with the characters after it,
    or nothing where the text is malformed. A well-formed literal that stands for no text or number
    is `beyond`, so that a reader who does not care for it can pass over it. -/

namespace CodeMetrics.Json

/-- White space between tokens. -/
def isGap (c : Char) : Bool := c == ' ' || c == '\n' || c == '\t' || c == '\r'

/-- The characters from the next token on. -/
def skipGap (cs : List Char) : List Char := cs.dropWhile isGap

/-! ### Text -/

/-- The value of four hexadecimal digits. -/
def hexFour? (a b c d : Char) : Option Nat := do
  some ((← hexDigit? a) * 4096 + (← hexDigit? b) * 256 + (← hexDigit? c) * 16 + (← hexDigit? d))

/-- The code point of an escape of one letter. -/
def escaped? : Char → Option Nat
  | '"' => some 0x22
  | '\\' => some 0x5C
  | '/' => some 0x2F
  | 'b' => some 0x08
  | 'f' => some 0x0C
  | 'n' => some 0x0A
  | 'r' => some 0x0D
  | 't' => some 0x09
  | _ => none

/-- The code units of a text literal after its opening quote. -/
def readUnits : List Char → Option (List Nat × List Char)
  | [] => none
  | '"' :: rest => some ([], rest)
  | '\\' :: 'u' :: a :: b :: c :: d :: rest => do
    let unit ← hexFour? a b c d
    let (units, rest) ← readUnits rest
    some (unit :: units, rest)
  | '\\' :: c :: rest => do
    let unit ← escaped? c
    let (units, rest) ← readUnits rest
    some (unit :: units, rest)
  | c :: rest =>
    if c.toNat < 0x20 ∨ c = '\\' then none
    else do
      let (units, rest) ← readUnits rest
      some (c.toNat :: units, rest)

/-- The first half of a surrogate pair. -/
def isHigh (unit : Nat) : Bool := 0xD800 ≤ unit && unit ≤ 0xDBFF

/-- The second half of a surrogate pair. -/
def isLow (unit : Nat) : Bool := 0xDC00 ≤ unit && unit ≤ 0xDFFF

/-- The characters of code units; a half of a pair alone stands for none. -/
def joinUnits : List Nat → Option (List Char)
  | [] => some []
  | [unit] => if isHigh unit || isLow unit then none else some [Char.ofNat unit]
  | unit :: second :: rest =>
    if isHigh unit then
      if isLow second then
        (joinUnits rest).map
          (Char.ofNat (0x10000 + (unit - 0xD800) * 0x400 + (second - 0xDC00)) :: ·)
      else none
    else if isLow unit then none
    else (joinUnits (second :: rest)).map (Char.ofNat unit :: ·)

/-- A text literal after its opening quote; the inner `none` is a literal that stands for no
    text. -/
def readText (cs : List Char) : Option (Option String × List Char) := do
  let (units, rest) ← readUnits cs
  some ((joinUnits units).map String.ofList, rest)

/-! ### Numbers -/

/-- The number `±mantissa * 10 ^ exponent`, if it is in range. -/
def realOf? (minus : Bool) (mantissa : Nat) (exponent : Int) : Option Float :=
  let size := exponent + (Decimal.digitCount mantissa : Int)
  let x :=
    if mantissa = 0 ∨ size < -400 then 0.0
    else if 400 < size then 1.0 / 0.0
    else Float.ofScientific mantissa (exponent < 0) exponent.natAbs
  if x.isFinite then some (if minus then -x else x) else none

/-- The number of a literal without point and exponent. -/
def wholeOf? (minus : Bool) (n : Nat) : Option Number :=
  if minus then
    if 0 < n ∧ n ≤ Nat.pow 2 63 then some (.negative n) else (realOf? true n 0).map .real
  else if n < Nat.pow 2 64 then some (.natural n) else (realOf? false n 0).map .real

/-- The digits at the front, at least one. -/
def readDigits (cs : List Char) : Option (List Char × List Char) :=
  match cs.span Char.isDigit with
  | ([], _) => none
  | (ds, rest) => some (ds, rest)

/-- The digits before the point: no zero in front of others. -/
def readWhole (cs : List Char) : Option (List Char × List Char) :=
  match cs with
  | '0' :: rest => if rest.head?.any Char.isDigit then none else some (['0'], rest)
  | cs => readDigits cs

/-- The digits after the point; none where there is no point. -/
def readFraction (cs : List Char) : Option (List Char × List Char) :=
  match cs with
  | '.' :: rest => readDigits rest
  | cs => some ([], cs)

/-- The exponent, if there is one. -/
def readExponent (cs : List Char) : Option (Option Int × List Char) :=
  match cs with
  | 'e' :: rest | 'E' :: rest => do
    let (minus, rest) := match rest with
      | '-' :: rest => (true, rest)
      | '+' :: rest => (false, rest)
      | rest => (false, rest)
    let (ds, rest) ← readDigits rest
    let n : Int := Nat.ofDigitChars 10 ds 0
    some (some (if minus then -n else n), rest)
  | cs => some (none, cs)

/-- A number literal; the inner `none` is one out of range. -/
def readNumber (cs : List Char) : Option (Option Number × List Char) := do
  let (minus, cs) := match cs with
    | '-' :: rest => (true, rest)
    | cs => (false, cs)
  let (whole, cs) ← readWhole cs
  let (fraction, cs) ← readFraction cs
  let (exponent, cs) ← readExponent cs
  if fraction.isEmpty ∧ exponent.isNone then
    some (wholeOf? minus (Nat.ofDigitChars 10 whole 0), cs)
  else
    let mantissa := Nat.ofDigitChars 10 (whole ++ fraction) 0
    some ((realOf? minus mantissa (exponent.getD 0 - (fraction.length : Int))).map .real, cs)

/-! ### Values -/

/-- An object of members whose names may stand for no text. -/
def objectOf (members : List (Option String × Value)) : Value :=
  match members.mapM fun (name, v) => name.map (·, v) with
  | none => .beyond
  | some members => .object members

mutual

/-- One value. -/
def readValue : Nat → List Char → Option (Value × List Char)
  | 0, _ => none
  | fuel + 1, cs =>
    match skipGap cs with
    | 'n' :: 'u' :: 'l' :: 'l' :: rest => some (.null, rest)
    | 't' :: 'r' :: 'u' :: 'e' :: rest => some (.bool true, rest)
    | 'f' :: 'a' :: 'l' :: 's' :: 'e' :: rest => some (.bool false, rest)
    | '"' :: rest => do
      let (s, rest) ← readText rest
      some (s.elim .beyond .text, rest)
    | '[' :: rest =>
      match skipGap rest with
      | ']' :: rest => some (.list [], rest)
      | rest => do
        let (items, rest) ← readItems fuel rest
        some (.list items, rest)
    | '\x7b' :: rest =>
      match skipGap rest with
      | '\x7d' :: rest => some (.object [], rest)
      | rest => do
        let (members, rest) ← readMembers fuel rest
        some (objectOf members, rest)
    | cs => do
      let (n, rest) ← readNumber cs
      some (n.elim .beyond .number, rest)

/-- The items of a list, at least one, up to its end. -/
def readItems : Nat → List Char → Option (List Value × List Char)
  | 0, _ => none
  | fuel + 1, cs => do
    let (v, rest) ← readValue fuel cs
    match skipGap rest with
    | ']' :: rest => some ([v], rest)
    | ',' :: rest =>
      let (vs, rest) ← readItems fuel rest
      some (v :: vs, rest)
    | _ => none

/-- The members of an object, at least one, up to its end. -/
def readMembers : Nat → List Char → Option (List (Option String × Value) × List Char)
  | 0, _ => none
  | fuel + 1, cs =>
    match skipGap cs with
    | '"' :: rest => do
      let (name, rest) ← readText rest
      match skipGap rest with
      | ':' :: rest =>
        let (v, rest) ← readValue fuel rest
        match skipGap rest with
        | '\x7d' :: rest => some ([(name, v)], rest)
        | ',' :: rest =>
          let (members, rest) ← readMembers fuel rest
          some ((name, v) :: members, rest)
        | _ => none
      | _ => none
    | _ => none

end

/-- The value of a text that holds one value and nothing else. -/
def parse? (s : String) : Option Value := do
  let cs := s.toList
  let (v, rest) ← readValue (2 * cs.length + 2) cs
  if (skipGap rest).isEmpty then some v else none

end CodeMetrics.Json

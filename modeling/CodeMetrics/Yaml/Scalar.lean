import CodeMetrics.Text.Digits
import CodeMetrics.Yaml.Cursor

/-! Scalars: text without quotes, in single quotes and in double quotes. A gap inside a scalar that
    goes over a line ending is folded: one ending becomes a space, and of several the first is
    dropped. -/

namespace CodeMetrics.Yaml

/-- The line endings of a gap, written as line feeds where they are usual ones. -/
def breaksOf : List Char → List Char
  | [] => []
  | '\r' :: '\n' :: rest => '\n' :: breaksOf rest
  | c :: rest =>
    if c == '\n' || c == '\r' || c == '\u0085' then '\n' :: breaksOf rest
    else if isBreak c then c :: breaksOf rest
    else breaksOf rest

/-- What a gap inside a scalar comes to. -/
def fold (gap : List Char) : List Char :=
  match breaksOf gap with
  | [] => gap
  | ['\n'] => [' ']
  | '\n' :: more => more
  | breaks => breaks

/-! ### Without quotes -/

/-- Characters that end a scalar inside brackets. -/
def isFlowSign (c : Char) : Bool :=
  c == ',' || c == '[' || c == ']' || c == '\x7b' || c == '\x7d'

/-- The characters of a scalar up to a gap or a sign that ends it. Inside brackets a colon must not
    stand right before such a sign. -/
def plainChunk (inFlow : Bool) : List Char → Option (List Char × List Char)
  | [] => some ([], [])
  | c :: rest =>
    if isGap c then some ([], c :: rest)
    else if inFlow && c == ':' && rest.head?.any (fun d => isFlowSign d || d == '?') then none
    else if (c == ':' && isGapOrEnd rest.head?) || (inFlow && isFlowSign c) then some ([], c :: rest)
    else (plainChunk inFlow rest).map fun (chunk, rest) => (c :: chunk, rest)

/-- Whether a tab stands where a line is indented too little. -/
def hasBadTab (indent : Nat) (afterBreak : Bool) (column : Nat) : List Char → Bool
  | [] => false
  | c :: rest =>
    if isBreak c then hasBadTab indent true 0 rest
    else (afterBreak && column < indent && c == '\t') || hasBadTab indent afterBreak (column + 1) rest

/-- A scalar without quotes, after a gap inside it: its text, whether a line ended after it, and the
    place after it. -/
def plainFrom (inFlow : Bool) (indent : Nat) :
    Nat → List Char → Cursor → Option (List Char × Bool × Cursor)
  | 0, _, _ => none
  | fuel + 1, gap, c =>
    if c.atMark || c.peek == some '#' then some ([], gap.any isBreak, c)
    else do
      let (chunk, rest) ← plainChunk inFlow c.rest
      let c := c.moveTo rest
      let text := if chunk.isEmpty then [] else fold gap ++ chunk
      let next := c.gap
      if next.isEmpty then some (text, chunk.isEmpty && gap.any isBreak, c)
      else if hasBadTab indent false 0 next then none
      else
        let c := c.moveTo (c.rest.drop next.length)
        if !inFlow && c.column < indent then some (text, next.any isBreak, c)
        else
          let (more, broke, c) ← plainFrom inFlow indent fuel next c
          some (text ++ more, broke, c)

/-- A scalar without quotes. -/
def plainScalar (inFlow : Bool) (indent : Nat) (c : Cursor) :
    Option (List Char × Bool × Cursor) :=
  plainFrom inFlow indent (c.rest.length + 1) [] c

/-! ### In quotes -/

/-- What an escape of one letter stands for. -/
def escape? : Char → Option Char
  | '0' => some '\x00'
  | 'a' => some '\x07'
  | 'b' => some '\x08'
  | 't' | '\t' => some '\t'
  | 'n' => some '\n'
  | 'v' => some '\x0b'
  | 'f' => some '\x0c'
  | 'r' => some '\r'
  | 'e' => some '\x1b'
  | ' ' => some ' '
  | '"' => some '"'
  | '/' => some '/'
  | '\\' => some '\\'
  | 'N' => some '\u0085'
  | '_' => some '\u00a0'
  | 'L' => some '\u2028'
  | 'P' => some '\u2029'
  | _ => none

/-- The number of hexadecimal digits after a letter. -/
def hexLength? : Char → Option Nat
  | 'x' => some 2
  | 'u' => some 4
  | 'U' => some 8
  | _ => none

/-- The character of a code in hexadecimal digits. -/
def hexChar? (digits : List Char) : Option Char := do
  let n ← ofDigits? 16 digits
  if h : n.isValidChar then some (Char.ofNatAux n h) else none

/-- The character of an escape after its backslash, and what is left. -/
def readEscape (cs : List Char) : Option (Char × List Char) :=
  match cs with
  | [] => none
  | letter :: rest =>
    match hexLength? letter with
    | some count =>
      if count ≤ rest.length then (hexChar? (rest.take count)).map (·, rest.drop count) else none
    | none => (escape? letter).map (·, rest)

/-- The text of a scalar in quotes, up to the closing quote, and the place after it. -/
def quotedFrom (quote : Char) : Nat → Cursor → Option (List Char × Cursor)
  | 0, _ => none
  | fuel + 1, c =>
    if c.atMark then none
    else match c.rest with
      | [] => none
      | char :: rest =>
        let continueWith := fun (text : List Char) (c : Cursor) =>
          (quotedFrom quote fuel c).map fun (more, c) => (text ++ more, c)
        if isGap char then
          let gap := c.gap
          continueWith (fold gap) (c.moveTo (c.rest.drop gap.length))
        else if char == quote then
          if quote == '\'' && rest.head? == some '\'' then continueWith ['\''] c.next.next
          else some ([], c.next)
        else if quote == '"' && char == '\\' then
          if rest.head?.any isBreak then
            let c := c.next.next
            let gap := c.gap
            continueWith (breaksOf gap) (c.moveTo (c.rest.drop gap.length))
          else match readEscape rest with
            | none => none
            | some (char, rest) => continueWith [char] (c.moveTo rest)
        else continueWith [char] c.next

/-- A scalar in quotes, from its opening quote on. -/
def quotedScalar (quote : Char) (c : Cursor) : Option (List Char × Cursor) :=
  quotedFrom quote (c.rest.length + 1) c.next

end CodeMetrics.Yaml

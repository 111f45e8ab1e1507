import CodeMetrics.Yaml.Scalar

/-! The tokens of a YAML text. Indentation becomes tokens as well: a list or mapping starts where a
    dash or a key stands further right than what is around it, and ends where a line starts further
    left. What turns out to be a key only at its colon gets its tokens put in before it. -/

namespace CodeMetrics.Yaml

/-- A token. -/
inductive Token where
  | documentStart
  | documentEnd
  | listStart
  | mappingStart
  | blockEnd
  | openList
  | closeList
  | openMapping
  | closeMapping
  | dash
  | comma
  | key
  | value
  | scalar (text : String) (plain : Bool)
deriving DecidableEq, Repr

/-- Something that may turn out to be a key. -/
structure PossibleKey where
  /-- The number of tokens before it. -/
  index : Nat
  place : Cursor
  /-- It stands where a key must stand. -/
  required : Bool

/-- What was read, and how it was indented. -/
structure Scanner where
  cursor : Cursor
  tokens : List Token := []
  /-- The column of what is being read; none at the start. -/
  indent : Option Nat := none
  /-- The columns of what is around it. -/
  indents : List (Option Nat) := []
  keyAllowed : Bool := true
  /-- What may be a key, inside each open bracket and outside of all. -/
  possibleKeys : List (Option PossibleKey) := [none]

namespace Scanner

/-- Whether a bracket is open. -/
def inFlow (s : Scanner) : Bool := 1 < s.possibleKeys.length

/-- Adds a token. -/
def push (s : Scanner) (t : Token) : Scanner := { s with tokens := s.tokens ++ [t] }

/-- Whether a column is to the right of what is being read. -/
def isDeeper (s : Scanner) (column : Nat) : Bool := s.indent.all (· < column)

/-! ### Indentation -/

/-- Starts a list or mapping at a column, in front of the tokens from `index` on. -/
def roll (s : Scanner) (column index : Nat) (t : Token) : Scanner :=
  if s.inFlow || !s.isDeeper column then s
  else
    { s with
      indents := s.indent :: s.indents
      indent := some column
      tokens := s.tokens.insertIdx index t }

/-- Ends what is indented further than a column; `none` ends everything. -/
def unroll (column : Option Nat) : List (Option Nat) → Scanner → Scanner
  | [], s => { s with indents := [] }
  | outer :: rest, s =>
    let ends := match s.indent, column with
      | none, _ => false
      | some _, none => true
      | some indent, some column => column < indent
    if ends then unroll column rest { s.push .blockEnd with indent := outer, indents := rest } else s

/-- Ends what is indented further than a column, outside of brackets. -/
def unrollTo (s : Scanner) (column : Option Nat) : Scanner :=
  if s.inFlow then s else unroll column s.indents s

/-! ### Keys -/

/-- Forgets what might be a key; what must be one is an error. -/
def dropKey (s : Scanner) : Option Scanner :=
  match s.possibleKeys with
  | some k :: rest => if k.required then none else some { s with possibleKeys := none :: rest }
  | _ => some s

/-- Notes that a key may stand here. -/
def noteKey (s : Scanner) : Option Scanner :=
  if s.keyAllowed then do
    let s ← s.dropKey
    let required := !s.inFlow && s.indent == some s.cursor.column
    some { s with
      possibleKeys := some ⟨s.tokens.length, s.cursor, required⟩ :: s.possibleKeys.tail }
  else some s

/-- Whether something can no longer be a key: its colon must be on the same line and near. -/
def isStale (s : Scanner) (k : PossibleKey) : Bool :=
  k.place.line < s.cursor.line || k.place.taken + 1024 < s.cursor.taken

/-- Forgets what can no longer be a key. -/
def dropStaleKeys (s : Scanner) : Option Scanner :=
  if s.possibleKeys.any fun k => k.any fun k => k.required && s.isStale k then none
  else some { s with possibleKeys := s.possibleKeys.map fun k => k.filter fun k => !s.isStale k }

/-! ### Tokens -/

/-- Passes over spaces, comments and line endings. A tab counts as a space except where a line may
    start something. -/
def skipGap : Nat → Scanner → Scanner
  | 0, s => s
  | fuel + 1, s =>
    let go := fun (s : Scanner) => skipGap fuel { s with cursor := s.cursor.next }
    match s.cursor.peek with
    | none => s
    | some c =>
      if c == '\ufeff' && s.cursor.column == 0 then go s
      else if c == ' ' || (c == '\t' && (s.inFlow || !s.keyAllowed)) then go s
      else if c == '#' then
        let rest := s.cursor.rest.dropWhile fun d => !isBreak d
        skipGap fuel { s with cursor := s.cursor.moveTo rest }
      else if isBreak c then go (if s.inFlow then s else { s with keyAllowed := true })
      else s

/-- Takes the next character as a token. -/
def takeSign (s : Scanner) (t : Token) : Scanner := { s.push t with cursor := s.cursor.next }

/-- A mark of three characters. -/
def readMark (s : Scanner) (t : Token) : Option Scanner := do
  let s ← (s.unrollTo none).dropKey
  some { s.push t with cursor := s.cursor.next.next.next, keyAllowed := false }

/-- An opening bracket. -/
def readOpening (s : Scanner) (t : Token) : Option Scanner := do
  let s ← s.noteKey
  some (takeSign { s with possibleKeys := none :: s.possibleKeys, keyAllowed := true } t)

/-- A closing bracket. -/
def readClosing (s : Scanner) (t : Token) : Option Scanner := do
  let s ← s.dropKey
  let keys := if s.inFlow then s.possibleKeys.tail else s.possibleKeys
  some (takeSign { s with possibleKeys := keys, keyAllowed := false } t)

/-- A comma between brackets. -/
def readComma (s : Scanner) : Option Scanner := do
  let s ← s.dropKey
  some (takeSign { s with keyAllowed := true } .comma)

/-- A dash in front of an item. -/
def readDash (s : Scanner) : Option Scanner := do
  if !s.inFlow && !s.keyAllowed then none
  let s ← (s.roll s.cursor.column s.tokens.length .listStart).dropKey
  some (takeSign { s with keyAllowed := true } .dash)

/-- A question mark in front of a key. -/
def readKey (s : Scanner) : Option Scanner := do
  if !s.inFlow && !s.keyAllowed then none
  let s ← (s.roll s.cursor.column s.tokens.length .mappingStart).dropKey
  some (takeSign { s with keyAllowed := !s.inFlow } .key)

/-- A colon in front of a value. -/
def readColon (s : Scanner) : Option Scanner :=
  match s.possibleKeys with
  | some k :: rest =>
    let s := { s with tokens := s.tokens.insertIdx k.index .key }
    let s := s.roll k.place.column k.index .mappingStart
    some (takeSign { s with possibleKeys := none :: rest, keyAllowed := false } .value)
  | _ =>
    if !s.inFlow && !s.keyAllowed then none
    else
      let s := s.roll s.cursor.column s.tokens.length .mappingStart
      some (takeSign { s with keyAllowed := !s.inFlow } .value)

/-- A scalar in quotes. -/
def readQuoted (s : Scanner) (quote : Char) : Option Scanner := do
  let s ← s.noteKey
  let (text, c) ← quotedScalar quote s.cursor
  some { s.push (.scalar (String.ofList text) false) with cursor := c, keyAllowed := false }

/-- A scalar without quotes. -/
def readPlain (s : Scanner) : Option Scanner := do
  let s ← s.noteKey
  let (text, broke, c) ← plainScalar s.inFlow (s.indent.elim 0 (· + 1)) s.cursor
  some { s.push (.scalar (String.ofList text) true) with cursor := c, keyAllowed := broke }

/-- Signs that no scalar without quotes starts with. -/
def isSign (c : Char) : Bool := "-?:,[]\x7b\x7d#&*!|>'\"%@\x60".toList.contains c

/-- Whether a scalar without quotes starts here. -/
def startsPlain (s : Scanner) (c : Char) : Bool :=
  let second := s.cursor.peekSecond
  (!isGap c && !isSign c) || (c == '-' && !second.any isSpace)
    || (!s.inFlow && (c == '?' || c == ':') && !isGapOrEnd second)

/-- The next token, which starts with a character. -/
def readToken (s : Scanner) (c : Char) : Option Scanner :=
  let parted := isGapOrEnd s.cursor.peekSecond
  if s.cursor.column == 0 && c == '%' then none
  else if s.cursor.hasMark Cursor.startMark then s.readMark .documentStart
  else if s.cursor.hasMark Cursor.endMark then s.readMark .documentEnd
  else if c == '[' then s.readOpening .openList
  else if c == '\x7b' then s.readOpening .openMapping
  else if c == ']' then s.readClosing .closeList
  else if c == '\x7d' then s.readClosing .closeMapping
  else if c == ',' then s.readComma
  else if c == '-' && parted then s.readDash
  else if c == '?' && (s.inFlow || parted) then s.readKey
  else if c == ':' && (s.inFlow || parted) then s.readColon
  else if c == '\'' || c == '"' then s.readQuoted c
  else if s.startsPlain c then s.readPlain
  else none

/-- Reads all tokens. -/
def run : Nat → Scanner → Option Scanner
  | 0, _ => none
  | fuel + 1, s => do
    let s ← (skipGap (s.cursor.rest.length + 1) s).dropStaleKeys
    match s.cursor.peek with
    | none => (s.unrollTo none).dropKey
    | some c =>
      let s ← (s.unrollTo (some s.cursor.column)).readToken c
      run fuel s

end Scanner

/-- The tokens of a text. A byte order mark in front is passed over. -/
def tokens? (text : String) : Option (List Token) :=
  let cs := match text.toList with
    | '\ufeff' :: rest => rest
    | cs => cs
  if cs.all isAllowed then
    (Scanner.run (cs.length + 1) { cursor := { rest := cs } }).map (·.tokens)
  else none

end CodeMetrics.Yaml

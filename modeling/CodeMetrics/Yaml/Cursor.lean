/-! Places in a YAML text. Lines end at a line feed, a carriage return, both, or one of the three
    breaks beyond ASCII; columns decide what belongs together. -/

namespace CodeMetrics.Yaml

/-- A space or a tab. -/
def isSpace (c : Char) : Bool := c == ' ' || c == '\t'

/-- A character that ends a line. -/
def isBreak (c : Char) : Bool :=
  c == '\n' || c == '\r' || c == '\u0085' || c == '\u2028' || c == '\u2029'

/-- A character that stands between others. -/
def isGap (c : Char) : Bool := isSpace c || isBreak c

/-- A gap, or the end of the text. -/
def isGapOrEnd (c : Option Char) : Bool := c.all isGap

/-- A character that may stand in a text at all. -/
def isAllowed (c : Char) : Bool :=
  let n := c.toNat
  n == 0x09 || n == 0x0A || n == 0x0D || (0x20 ≤ n && n ≤ 0x7E) || n == 0x85
    || (0xA0 ≤ n && n ≤ 0xFFFD) || 0x10000 ≤ n

/-- What is left of a text, with the line, the column and the number of characters before it. -/
structure Cursor where
  rest : List Char
  line : Nat := 0
  column : Nat := 0
  taken : Nat := 0

namespace Cursor

/-- The place after the next character or line ending. -/
def next (c : Cursor) : Cursor :=
  match c.rest with
  | [] => c
  | '\r' :: '\n' :: rest => ⟨rest, c.line + 1, 0, c.taken + 2⟩
  | char :: rest =>
    if isBreak char then ⟨rest, c.line + 1, 0, c.taken + 1⟩
    else ⟨rest, c.line, c.column + 1, c.taken + 1⟩

/-- The first place where no more than `left` characters are left. -/
def advance (left : Nat) : Nat → Cursor → Cursor
  | 0, c => c
  | fuel + 1, c => if c.rest.length ≤ left then c else advance left fuel c.next

/-- The place in front of a given rest. -/
def moveTo (c : Cursor) (rest : List Char) : Cursor := advance rest.length c.rest.length c

/-- The next character. -/
def peek (c : Cursor) : Option Char := c.rest.head?

/-- The character after the next one. -/
def peekSecond (c : Cursor) : Option Char := c.rest.tail.head?

/-- The gap in front of the next character. -/
def gap (c : Cursor) : List Char := c.rest.takeWhile isGap

/-- Whether three characters that mark the start or the end of a document stand here. -/
def hasMark (c : Cursor) (mark : List Char) : Bool :=
  c.column == 0 && mark.isPrefixOf c.rest && isGapOrEnd (c.rest.drop mark.length).head?

/-- The mark of the start of a document. -/
def startMark : List Char := ['-', '-', '-']

/-- The mark of the end of a document. -/
def endMark : List Char := ['.', '.', '.']

/-- Whether a document starts or ends here. -/
def atMark (c : Cursor) : Bool := c.hasMark startMark || c.hasMark endMark

end Cursor

end CodeMetrics.Yaml

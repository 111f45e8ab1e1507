import CodeMetrics.Text.Blank
import CodeMetrics.Text.Word

/-! Shapes of text on one line. A shape is matched from a spot to the right; where it can match in
    several ways, the ways are tried in order of preference, longer repetitions first unless the
    repetition is reluctant. The first way that completes the whole shape counts. -/

namespace CodeMetrics

/-- What a stretch of text looks like. -/
inductive Shape where
  /-- One character of a class. -/
  | one (accepts : Char → Bool)
  /-- One shape after another. -/
  | seq (first second : Shape)
  /-- The first shape, or else the second. -/
  | either (first second : Shape)
  /-- The shape once, or else not at all. -/
  | maybe (shape : Shape)
  /-- The shape any number of times, as often as possible. -/
  | many (shape : Shape)
  /-- The shape any number of times, as rarely as possible. -/
  | few (shape : Shape)
  /-- The shape, whose text is kept. -/
  | keep (shape : Shape)
  /-- A word starts or ends here. -/
  | edge

namespace Shape

/-- A place in a line: the character before it, the text after it, the number of characters taken
    and the text kept so far. -/
structure Spot where
  before : Option Char
  rest : List Char
  taken : Nat
  kept : Option (List Char)

/-- The place in front of a text. -/
def Spot.front (before : Option Char) (rest : List Char) : Spot := ⟨before, rest, 0, none⟩

/-- Where repetitions of a step can end. A repetition that takes no text does not count. -/
def repeated (eager : Bool) (step : Spot → List Spot) : Nat → Spot → List Spot
  | 0, s => [s]
  | fuel + 1, s =>
    let further := ((step s).filter fun t => s.taken < t.taken).flatMap
      (repeated eager step fuel)
    if eager then further ++ [s] else s :: further

/-- Where a shape that starts at a spot can end, best way first. -/
def ends : Shape → Spot → List Spot
  | .one accepts, s =>
    match s.rest with
    | [] => []
    | c :: rest => if accepts c then [{ s with before := some c, rest := rest, taken := s.taken + 1 }] else []
  | .seq a b, s => (a.ends s).flatMap b.ends
  | .either a b, s => a.ends s ++ b.ends s
  | .maybe a, s => a.ends s ++ [s]
  | .many a, s => repeated true a.ends s.rest.length s
  | .few a, s => repeated false a.ends s.rest.length s
  | .keep a, s => (a.ends s).map fun t =>
      { t with kept := some (s.rest.take (t.taken - s.taken)) }
  | .edge, s =>
    let inWord := fun c : Option Char => c.any isWordChar
    if inWord s.before != inWord s.rest.head? then [s] else []

/-- The text kept by a shape that starts where the line starts. -/
def keptAtStart (shape : Shape) (line : List Char) : Option String :=
  match shape.ends (.front none line) with
  | [] => none
  | t :: _ => t.kept.map String.ofList

/-- The text kept by the leftmost match of a shape in a line. -/
def keptFrom (shape : Shape) (before : Option Char) : List Char → Option String
  | [] => (shape.ends (.front before [])).head?.bind fun t => t.kept.map String.ofList
  | c :: rest =>
    match shape.ends (.front before (c :: rest)) with
    | [] => keptFrom shape (some c) rest
    | t :: _ => t.kept.map String.ofList

/-- The text kept by the leftmost match of a shape in a line. -/
def keptIn (shape : Shape) (line : List Char) : Option String := shape.keptFrom none line

/-- A given character. -/
def char (c : Char) : Shape := .one (· == c)

/-- White space. -/
def blank : Shape := .one isBlank

/-- Anything but white space. -/
def ink : Shape := .one fun c => !isBlank c

/-- Any character of a line. -/
def any : Shape := .one (· != '\n')

/-- One shape after another, from a list. -/
def inOrder : List Shape → Shape
  | [] => .maybe (.one fun _ => false)
  | [a] => a
  | a :: rest => .seq a (inOrder rest)

/-- A given text. -/
def word (s : String) : Shape := inOrder (s.toList.map char)

/-- A shape at least once, as often as possible. -/
def some (a : Shape) : Shape := .seq a (.many a)

end Shape

end CodeMetrics

import CodeMetrics.Glob.Fault

/-! Globs. `?` is any byte and `*` any bytes, slashes included; `**` between slashes also stands for
    nothing at all; brackets hold a class of characters and braces alternatives. A backslash outside
    brackets takes the next character as it is. -/

namespace CodeMetrics.Glob

/-- A part of a glob. -/
inductive Token where
  | literal (c : Char)
  | any
  | star
  /-- Directories at the front, or none. -/
  | frontStars
  /-- Everything below a directory. -/
  | backStars
  /-- Directories in the middle, or none. -/
  | middleStars
  | oneOf (negated : Bool) (ranges : List (Char × Char))
  | alternatives (branches : List (List Token))
deriving Repr

/-- A class of characters that is not closed yet. -/
structure OpenClass where
  negated : Bool
  /-- The last one first. -/
  ranges : List (Char × Char) := []
  /-- A hyphen waits for the end of a range. -/
  inRange : Bool := false
deriving Repr

/-- A group of alternatives that is not closed yet. -/
structure OpenGroup where
  /-- The tokens before the group, the last one first. -/
  before : List Token
  /-- The branches so far, the last one first. -/
  branches : List (List Token) := []
deriving Repr

/-- What was read of a glob. -/
structure Reading where
  /-- The tokens of the branch, the last one first. -/
  current : List Token := []
  /-- The groups around it, innermost first. -/
  groups : List OpenGroup := []
  openClass : Option OpenClass := none
deriving Repr

namespace Reading

/-- Adds a token. -/
def push (r : Reading) (t : Token) : Reading := { r with current := t :: r.current }

/-- Puts a token in place of the last one, unless that one stands for directories already. -/
def replaceLast (r : Reading) (t : Token) : Reading :=
  match r.current with
  | .frontStars :: _ | .backStars :: _ => r
  | _ :: rest => { r with current := t :: rest }
  | [] => r.push t

/-- Starts a group. -/
def openGroup (r : Reading) : Reading :=
  { r with current := [], groups := ⟨r.current, []⟩ :: r.groups }

/-- Ends a branch. A comma outside a group is a character like others. -/
def comma (r : Reading) : Reading :=
  match r.groups with
  | [] => r.push (.literal ',')
  | g :: rest =>
    { r with
      current := []
      groups := { g with branches := r.current.reverse :: g.branches } :: rest }

/-- Ends a group. -/
def closeGroup (r : Reading) : Except Fault Reading :=
  match r.groups with
  | [] => .error .unopenedGroup
  | g :: rest =>
    .ok { r with
      current := .alternatives (r.current.reverse :: g.branches).reverse :: g.before
      groups := rest }

/-! ### Stars -/

/-- Whether two stars after a character may stand for directories. -/
def mayNest (r : Reading) (prev : Option Char) : Bool :=
  prev == some '/' || (!r.groups.isEmpty && (prev == some ',' || prev == some '\x7b'))

/-- Reads two stars between two characters, and tells whether they take the slash after them. -/
def stars (r : Reading) (prev next : Option Char) : Reading × Bool :=
  let plain := ((r.push .star).push .star, false)
  if r.current.isEmpty then
    if next.all (· == '/') then (r.push .frontStars, true) else plain
  else if !r.mayNest prev then plain
  else match next with
    | none => (r.replaceLast .backStars, false)
    | some '/' => (r.replaceLast .middleStars, true)
    | some c =>
      if !r.groups.isEmpty && (c == ',' || c == '\x7d') then (r.replaceLast .backStars, false)
      else plain

/-! ### Classes -/

/-- Ends a class. A hyphen at the end stands for itself. -/
def closeClass (r : Reading) (c : OpenClass) : Reading :=
  let ranges := if c.inRange then ('-', '-') :: c.ranges else c.ranges
  { r with openClass := none, current := .oneOf c.negated ranges.reverse :: r.current }

/-- Reads a character of a class: a bracket or a hyphen at the front stands for itself, and a hyphen
    between two characters makes a range of them. -/
def classChar (r : Reading) (c : OpenClass) (char : Char) : Except Fault Reading :=
  match c.ranges, c.inRange with
  | [], _ => .ok { r with openClass := some { c with ranges := [(char, char)] } }
  | (low, _) :: rest, true =>
    if char == ']' then .ok (r.closeClass c)
    else if char < low then .error (.reversedRange low char)
    else .ok { r with openClass := some { c with ranges := (low, char) :: rest, inRange := false } }
  | ranges, false =>
    if char == ']' then .ok (r.closeClass c)
    else if char == '-' then .ok { r with openClass := some { c with inRange := true } }
    else .ok { r with openClass := some { c with ranges := (char, char) :: ranges } }

/-! ### Whole globs -/

/-- Reads characters after the character `prev`. -/
def readFrom (r : Reading) (prev : Option Char) : List Char → Except Fault Reading
  | [] => .ok r
  | c :: rest =>
    match r.openClass with
    | some cls =>
      match r.classChar cls c with
      | .error fault => .error fault
      | .ok r => readFrom r (some c) rest
    | none =>
      match c, rest with
      | '\\', [] => .error .danglingEscape
      | '\\', c :: rest => readFrom (r.push (.literal c)) (some c) rest
      | '[', '!' :: rest => readFrom { r with openClass := some { negated := true } } (some '!') rest
      | '[', '^' :: rest => readFrom { r with openClass := some { negated := true } } (some '^') rest
      | '[', rest => readFrom { r with openClass := some { negated := false } } (some '[') rest
      | '*', '*' :: rest =>
        let (r, takesSlash) := r.stars prev rest.head?
        match rest with
        | [] => .ok r
        | c :: rest' =>
          if takesSlash then readFrom r (some c) rest' else readFrom r (some '*') (c :: rest')
      | '*', rest => readFrom (r.push .star) (some '*') rest
      | '?', rest => readFrom (r.push .any) (some '?') rest
      | '\x7b', rest => readFrom r.openGroup (some '\x7b') rest
      | '\x7d', rest =>
        match r.closeGroup with
        | .error fault => .error fault
        | .ok r => readFrom r (some '\x7d') rest
      | ',', rest => readFrom r.comma (some ',') rest
      | c, rest => readFrom (r.push (.literal c)) (some c) rest

end Reading

/-- The tokens of a glob. -/
def parse (pattern : String) : Except Fault (List Token) :=
  match Reading.readFrom {} none pattern.toList with
  | .error fault => .error fault
  | .ok r =>
    if r.openClass.isSome then .error .unclosedClass
    else if !r.groups.isEmpty then .error .unclosedGroup
    else .ok r.current.reverse

end CodeMetrics.Glob

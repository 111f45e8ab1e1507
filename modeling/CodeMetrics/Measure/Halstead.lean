import CodeMetrics.Language.Grammar

/-! Operators and operands of a routine, and what is derived from their number. Operators are words
    and signs of the language, told apart by kind; operands are names and literals, told apart by
    text. Closing brackets and separators are no operators. -/

namespace CodeMetrics

/-- The counts of a routine and what is derived from them. -/
structure Halstead where
  uniqueOperators : Nat
  uniqueOperands : Nat
  totalOperators : Nat
  totalOperands : Nat
  length : Nat
  vocabulary : Nat
  volume : Float
  difficulty : Float
  effort : Float
  /-- Seconds to write the routine. -/
  time : Float
  /-- Mistakes made on the way. -/
  bugs : Float
deriving BEq, Repr

/-- A number, or zero in place of one that is not finite. -/
def finiteOrZero (x : Float) : Float := if x.isFinite then x else 0.0

namespace Halstead

/-- What follows from the counts. -/
def ofCounts (uniqueOperators uniqueOperands totalOperators totalOperands : Nat) : Halstead :=
  let length := totalOperators + totalOperands
  let vocabulary := uniqueOperators + uniqueOperands
  let volume :=
    if 0 < vocabulary then Float.ofNat length * (Float.ofNat vocabulary).log2 else 0.0
  let difficulty :=
    if 0 < uniqueOperands then
      (Float.ofNat uniqueOperators / 2.0) * (Float.ofNat totalOperands / Float.ofNat uniqueOperands)
    else 0.0
  let effort := difficulty * volume
  { uniqueOperators, uniqueOperands, totalOperators, totalOperands, length, vocabulary
    volume := finiteOrZero volume
    difficulty := finiteOrZero difficulty
    effort := finiteOrZero effort
    time := finiteOrZero (effort / 18.0)
    bugs := finiteOrZero (effort.pow (2.0 / 3.0) / 3000.0) }

/-- An operand is not looked into, nor is a routine inside or what is not in the source. -/
def enters (g : Grammar) (parent child : Tree) : Bool :=
  !g.isOperand parent && child.isSolid && !g.isRoutine child

/-- The nodes that may be operators or operands of a routine. -/
def nodes (g : Grammar) (routine : Tree) : List Tree :=
  if routine.isSolid then routine.walk (enters g) else []

/-- A word or sign that is an operator. -/
def isOperator (g : Grammar) (t : Tree) : Bool :=
  t.isLeaf && !t.isNamed && t.coversText && !g.ignoredTokens.contains t.kind

/-- The operators of a routine, by kind. -/
def operators (g : Grammar) (routine : Tree) : List String :=
  ((nodes g routine).filter (isOperator g)).map (·.kind)

/-- The operands of a routine, by text. -/
def operands (g : Grammar) (source : List UInt8) (routine : Tree) : List (List UInt8) :=
  ((nodes g routine).filter g.isOperand).map (·.bytes source)

/-- The measures of a routine. -/
def of (g : Grammar) (source : List UInt8) (routine : Tree) : Halstead :=
  let operators := operators g routine
  let operands := operands g source routine
  ofCounts operators.eraseDups.length operands.eraseDups.length operators.length operands.length

end Halstead

end CodeMetrics

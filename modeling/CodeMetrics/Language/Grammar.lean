import CodeMetrics.Syntax.Pattern

/-! What is to be known of a grammar. The kinds of its nodes are sorted into the few notions that the
    measures speak of, so that a measure is the same for every language. -/

namespace CodeMetrics

/-- Control flow, as far as the measures tell it apart. -/
inductive Construct where
  /-- A choice with a condition. -/
  | branch
  /-- A further condition of a choice, as a clause of it. -/
  | elseIf
  /-- What happens otherwise, as a clause of a choice. -/
  | otherwise
  | switch
  | case
  | loop
  | handler
  | ternary
  | guard
  /-- An operator that leaves the routine where its operand is a failure. -/
  | tryOperator
  | exit
  | jump
deriving DecidableEq, Repr

/-- The kinds of routines. -/
inductive RoutineKind where
  | function
  | method
  | lambda
deriving DecidableEq, Repr

namespace RoutineKind

/-- The name of a kind. -/
def name : RoutineKind → String
  | .function => "function"
  | .method => "method"
  | .lambda => "lambda"

def all : List RoutineKind := [.function, .method, .lambda]

/-- A kind by its name. -/
def ofName? (s : String) : Option RoutineKind := all.find? fun k => k.name == s

/-- A node that is several kinds of routine at once is the one of the highest rank. -/
def rank : RoutineKind → Nat
  | .method => 3
  | .function => 2
  | .lambda => 1

/-- The kind of higher rank; the first one where they are equal. -/
def higher (a b : RoutineKind) : RoutineKind := if a.rank < b.rank then b else a

end RoutineKind

/-- What a pattern for routines marks: the routine and its name. -/
inductive RoutineMark where
  | routine (kind : RoutineKind)
  | name
deriving DecidableEq, Repr

namespace Pattern

/-- A routine in a field that says its own name. -/
def namedIn (field : Option String) (kind nameKind : String) (routine : RoutineKind) :
    Pattern RoutineMark :=
  .node field [kind] (some (.routine routine)) [.node (some "name") [nameKind] (some .name) []]

/-- A routine that says its own name. -/
def named (kind nameKind : String) (routine : RoutineKind) : Pattern RoutineMark :=
  namedIn none kind nameKind routine

/-- A routine, whatever it holds. -/
def bare (kind : String) (routine : RoutineKind) : Pattern RoutineMark :=
  .node none [kind] (some (.routine routine)) []

/-- Something right in the body of a node. -/
def inside (kind body : String) (parts : List (Pattern RoutineMark)) : Pattern RoutineMark :=
  .node none [kind] none [.node (some "body") [body] none parts]

/-- A lambda that is bound to a name. -/
def bound (kind nameField valueField : String) (lambdas : List String) : Pattern RoutineMark :=
  .node none [kind] none
    [.node (some nameField) ["identifier"] (some .name) [],
     .node (some valueField) lambdas (some (.routine .lambda)) []]

end Pattern

/-- A grammar, sorted. -/
structure Grammar where
  routines : List (Pattern RoutineMark)
  commentKinds : List String
  constructs : List (String × Construct)
  /-- Kind and operator of operations that may leave out their second operand. -/
  logicalOperators : List (String × String)
  /-- Kind and field of nodes that are guarded where they have the field. -/
  guardFields : List (String × String)
  routineKinds : List String
  statementKinds : List String
  operandKinds : List String
  /-- Words and signs that are no operators. -/
  ignoredTokens : List String
  labelKinds : List String
  /-- Parameters that may declare several names at once. -/
  groupedParameterKinds : List String
  /-- What stands among parameters and is none. -/
  parameterSeparators : List String
  assignmentKinds : List String
  /-- Kind and field of nodes that assign where they have the field. -/
  initializerFields : List (String × String)
  callKinds : List String
  /-- Kind and operator of comparisons. -/
  comparisonOperators : List (String × String)
  /-- What encloses the methods of a class. -/
  classKinds : List String
  /-- A string that stands alone is a comment. -/
  docstrings : Bool
  /-- The expression at the end of a block is a statement. -/
  tailExpressions : Bool

namespace Grammar

/-- Whether a node is named and of one of the kinds. -/
def isOf (kinds : List String) (t : Tree) : Bool := t.isNamed && kinds.contains t.kind

/-- Whether a node of some kind has a field, by a table of kinds and fields. -/
def hasFieldOf (table : List (String × String)) (t : Tree) : Bool :=
  table.any fun (kind, field) => kind == t.kind && (t.child? field).isSome

/-- The construct a named node is. -/
def construct? (g : Grammar) (t : Tree) : Option Construct :=
  if t.isNamed then g.constructs.lookup t.kind else none

def isRoutine (g : Grammar) (t : Tree) : Bool := isOf g.routineKinds t

def isStatement (g : Grammar) (t : Tree) : Bool := isOf g.statementKinds t

def isOperand (g : Grammar) (t : Tree) : Bool := isOf g.operandKinds t

def isLabel (g : Grammar) (t : Tree) : Bool := isOf g.labelKinds t

def isCall (g : Grammar) (t : Tree) : Bool := isOf g.callKinds t

def isClass (g : Grammar) (t : Tree) : Bool := isOf g.classKinds t

def isComment (g : Grammar) (t : Tree) : Bool := isOf g.commentKinds t

/-- Whether a node assigns, directly or by an initial value. -/
def isAssignment (g : Grammar) (t : Tree) : Bool :=
  isOf g.assignmentKinds t || (t.isNamed && hasFieldOf g.initializerFields t)

/-- Whether a node has a guard. -/
def isGuarded (g : Grammar) (t : Tree) : Bool := hasFieldOf g.guardFields t

/-- The operator of a node that may leave out its second operand. -/
def logicalOperator? (g : Grammar) (t : Tree) : Option String := do
  let operator ← t.child? "operator"
  if g.logicalOperators.contains (t.kind, operator.kind) then some operator.kind else none

/-- Whether a word or sign compares, as a child of a node. -/
def isComparison (g : Grammar) (parent token : Tree) : Bool :=
  !token.isNamed && g.comparisonOperators.contains (parent.kind, token.kind)

end Grammar

end CodeMetrics

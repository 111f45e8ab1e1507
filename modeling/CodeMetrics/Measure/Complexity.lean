import CodeMetrics.Language.Grammar
import CodeMetrics.Measure.Sum

/-! Control flow of a routine.

    Cyclomatic complexity is one more than the number of decisions. Cognitive complexity counts what
    breaks the reading: a construct that nests counts one more for each level around it, a further
    clause of a choice counts one and stays on the level of the choice, and so do a run of one
    logical operator, a guard, a jump to a label and a return before the end.

    A walk gives every node of the routine its place: the levels around it, its part in a choice and
    whether the routine ends after it. What a node adds follows from the node and its place. Routines
    inside are not entered; they are measured on their own. -/

namespace CodeMetrics

/-- The control-flow measures of a routine. -/
structure Complexity where
  cyclomatic : Nat
  cognitive : Nat
  nestingDepth : Nat
  exits : Nat
deriving DecidableEq, Repr

/-- The part of a node in a choice. -/
inductive Role where
  /-- It stands for itself. -/
  | statement
  /-- A choice that goes on with the choice before it. -/
  | chained
  /-- A clause of a choice. -/
  | clause
  /-- What happens otherwise, without a clause around it. -/
  | bareElse
deriving DecidableEq, Repr

/-- How a node stands to the end of the routine. -/
inductive Flow where
  /-- It is the routine. -/
  | routine
  /-- It holds nothing but the list of the routine's statements. -/
  | wrapper
  /-- Its parts are the routine's statements. -/
  | body
  /-- The routine ends after it. -/
  | tail
  /-- Something may come after it. -/
  | early
deriving DecidableEq, Repr

/-- The place of a node in a routine. -/
structure Place where
  /-- Levels around it that make reading harder. -/
  nesting : Nat
  /-- Levels of nested blocks around it. -/
  depth : Nat
  role : Role
  flow : Flow
  /-- The logical operator of the node right around it. -/
  run : Option String
deriving DecidableEq, Repr

/-- A node with its place. -/
structure Visit where
  tree : Tree
  place : Place

namespace Complexity

/-! ### Places -/

/-- The place of a routine itself. -/
def start : Place := ⟨0, 0, .statement, .routine, none⟩

/-- A child is the first one in a field. -/
def isFirstIn (field : String) (earlier : List Tree) (child : Tree) : Bool :=
  child.hasField field && !earlier.any (Tree.hasField field)

/-- A child is the last part of its parent. -/
def isLastPart (child : Tree) (later : List Tree) : Bool :=
  child.isPart && !later.any Tree.isPart

/-- A body that holds nothing but a list of statements. -/
def isWrapper (body : Tree) : Bool := body.onlyPart?.any fun only => only.kind == "statement_list"

/-- A clause that holds nothing but a choice goes on with the chain. -/
def goesOn (g : Grammar) (clause : Tree) : Bool :=
  clause.onlyPart?.any fun only => g.construct? only == some .branch

/-- How a child stands to the end of the routine. -/
def flowOf (g : Grammar) (parent : Tree) (flow : Flow) (earlier : List Tree) (child : Tree)
    (later : List Tree) : Flow :=
  match flow with
  | .routine =>
    if isFirstIn "body" earlier child then if isWrapper child then .wrapper else .body else .early
  | .wrapper => if child.isPart then .body else .early
  | .body => if isLastPart child later then .tail else .early
  | .tail =>
    match g.construct? parent with
    | some .branch | some .elseIf =>
      if isFirstIn "condition" earlier child then .early else .tail
    | some .otherwise | none => if isLastPart child later then .tail else .early
    | some _ => .early
  | .early => .early

/-- The levels that a construct adds around what it holds. -/
def levels : Option Construct → Nat × Nat
  | some .loop | some .handler | some .switch => (1, 1)
  | some .ternary => (1, 0)
  | _ => (0, 0)

/-- How the walk enters a child: the levels that it adds and the part in a choice that it gives. -/
abbrev Entry := (Nat × Nat) × Role

/-- A named child is entered as a statement. -/
def enterNamed (levels : Nat × Nat) (child : Tree) : Option Entry :=
  if child.isNamed then some (levels, .statement) else none

/-- All but the condition stands one level deeper. -/
def enterGuarded (earlier : List Tree) (child : Tree) : Option Entry :=
  enterNamed (if isFirstIn "condition" earlier child then (0, 0) else (1, 1)) child

/-- An alternative of a choice goes on with it, is a clause of it or stands one level deeper. -/
def enterAlternative (g : Grammar) (child : Tree) : Entry :=
  match g.construct? child with
  | some .branch => ((0, 0), .chained)
  | some .elseIf | some .otherwise => ((0, 0), .clause)
  | _ => ((1, 1), .bareElse)

/-- How the walk enters a child of a node, if it does. -/
def enter? (g : Grammar) (parent : Tree) (role : Role) (earlier : List Tree) (child : Tree) :
    Option Entry :=
  match role, g.construct? parent with
  | .clause, some .elseIf => enterGuarded earlier child
  | .clause, some .otherwise =>
    if goesOn g parent then if child.isPart then some ((0, 0), .chained) else none
    else enterNamed (1, 1) child
  | _, some .branch =>
    if child.hasField "alternative" then some (enterAlternative g child)
    else enterGuarded earlier child
  | _, construct => enterNamed (levels construct) child

/-- The place of a child, if the walk enters it. -/
def placeOf? (g : Grammar) (parent : Tree) (p : Place) (earlier : List Tree) (child : Tree)
    (later : List Tree) : Option Place :=
  (enter? g parent p.role earlier child).map fun (levels, role) =>
    { nesting := p.nesting + levels.1
      depth := p.depth + levels.2
      role
      flow := flowOf g parent p.flow earlier child later
      run := g.logicalOperator? parent }

mutual

/-- The visits at and below a node. -/
def visitsFrom (g : Grammar) (p : Place) : Tree → List Visit
  | .node label children =>
    ⟨.node label children, p⟩ ::
      (if g.isRoutine (.node label children) then []
       else visitsAmong g (.node label children) p [] children)

/-- The visits at and below some children of a node. -/
def visitsAmong (g : Grammar) (parent : Tree) (p : Place) (earlier : List Tree) :
    List Tree → List Visit
  | [] => []
  | c :: later =>
    (match placeOf? g parent p earlier c later with
     | none => []
     | some q => visitsFrom g q c)
      ++ visitsAmong g parent p (c :: earlier) later

end

theorem visitsFrom_eq (g : Grammar) (p : Place) (t : Tree) :
    visitsFrom g p t
      = ⟨t, p⟩ :: if g.isRoutine t then [] else visitsAmong g t p [] t.children := by
  cases t; rfl

theorem visitsAmong_cons (g : Grammar) (parent : Tree) (p : Place) (earlier : List Tree) (c : Tree)
    (later : List Tree) :
    visitsAmong g parent p earlier (c :: later)
      = ((placeOf? g parent p earlier c later).elim [] fun q => visitsFrom g q c)
        ++ visitsAmong g parent p (c :: earlier) later := by
  rw [visitsAmong]
  cases placeOf? g parent p earlier c later <;> rfl

/-- The nodes of a routine with their places. -/
def visits (g : Grammar) (routine : Tree) : List Visit :=
  visitsAmong g routine start [] routine.children

/-! ### Scores -/

/-- What one node adds; `reach` is the depth of nested blocks it reaches. -/
structure Score where
  cyclomatic : Nat := 0
  cognitive : Nat := 0
  reach : Nat := 0
  exits : Nat := 0
deriving DecidableEq, Repr

/-- A logical operation is a decision, and the first of its run breaks the reading; so does a
    guard. -/
def plainScore (g : Grammar) (t : Tree) (p : Place) : Score :=
  let operator := g.logicalOperator? t
  let logical := if operator.isSome then 1 else 0
  let runs := if operator.isSome && p.run != operator then 1 else 0
  let guarded := if g.isGuarded t then 1 else 0
  { cyclomatic := logical + guarded, cognitive := runs + guarded }

/-- What a node adds that stands for itself. -/
def statementScore (g : Grammar) (t : Tree) (p : Place) : Score :=
  match g.construct? t with
  | some .branch | some .loop | some .handler =>
    { cyclomatic := 1, cognitive := 1 + p.nesting, reach := p.depth + 1 }
  | some .switch => { cognitive := 1 + p.nesting, reach := p.depth + 1 }
  | some .ternary => { cyclomatic := 1, cognitive := 1 + p.nesting }
  | some .case => { cyclomatic := 1 }
  | some .guard => { cyclomatic := 1, cognitive := 1 }
  | some .tryOperator => { cyclomatic := 1, exits := 1 }
  | some .exit => { cognitive := if p.flow = .tail then 0 else 1, exits := 1 }
  | some .jump => { cognitive := if t.children.any g.isLabel then 1 else 0 }
  | some .elseIf | some .otherwise | none => plainScore g t p

/-- What a node adds. -/
def score (g : Grammar) (v : Visit) : Score :=
  match v.place.role with
  | .chained => { cyclomatic := 1, cognitive := 1, reach := v.place.depth + 1 }
  | .clause =>
    match g.construct? v.tree with
    | some .elseIf => { cyclomatic := 1, cognitive := 1 }
    | _ => { cognitive := if goesOn g v.tree then 0 else 1 }
  | .bareElse =>
    if g.isRoutine v.tree then { cognitive := 1 }
    else
      let own := statementScore g v.tree v.place
      { own with cognitive := 1 + own.cognitive }
  | .statement => if g.isRoutine v.tree then {} else statementScore g v.tree v.place

/-- The measures of some scores. -/
def ofScores (scores : List Score) : Complexity where
  cyclomatic := 1 + sumOf (scores.map (·.cyclomatic))
  cognitive := sumOf (scores.map (·.cognitive))
  nestingDepth := (scores.map (·.reach)).foldl max 0
  exits := sumOf (scores.map (·.exits))

/-- The measures of a routine. -/
def of (g : Grammar) (routine : Tree) : Complexity := ofScores ((visits g routine).map (score g))

end Complexity

end CodeMetrics

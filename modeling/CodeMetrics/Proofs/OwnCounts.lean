import CodeMetrics.Proofs.Decisions

/-! The cyclomatic complexity and the exits of one routine are counts over its own nodes.

    Each node is counted for what it is, not for where it stands, so two routines with the same
    decisions and exits have the same counts, however these are nested in branches, conditions and
    alternatives. -/

namespace CodeMetrics

/-- What makes a node a decision or an exit. -/
inductive Point where
  | construct (kind : Construct)
  | logical
  | guarded
deriving DecidableEq, Repr

namespace Point

/-- Whether it makes a node a decision: all of them do but some constructs. -/
def isDecision : Point → Bool
  | .construct kind => kind.isDecision
  | .logical | .guarded => true

/-- Whether it makes a node an exit. -/
def isExit : Point → Bool
  | .construct kind => kind.isExit
  | .logical | .guarded => false

end Point

namespace Grammar

variable (g : Grammar)

/-- What a node is, where it is named and a construct, a logical operation or guarded. -/
def point? (t : Tree) : Option Point :=
  if t.isNamed then
    match g.construct? t with
    | some kind => some (.construct kind)
    | none =>
      if (g.logicalOperator? t).isSome then some .logical
      else if g.isGuarded t then some .guarded else none
  else none

/-- The decisions and exits among the own nodes of a routine. -/
def points (routine : Tree) : List Point :=
  ((g.inside routine).filterMap g.point?).filter fun point => point.isDecision || point.isExit

variable {g}

theorem any_isDecision_point? (apart : g.Apart) (t : Tree) :
    g.isDecision t = (g.point? t).any Point.isDecision := by
  rw [isDecision, point?]
  cases t.isNamed with
  | false => rfl
  | true =>
    cases construct : g.construct? t with
    | some kind =>
      obtain ⟨logical, guarded⟩ := apart.construct t kind construct
      simp [logical, guarded, Point.isDecision]
    | none => cases g.logicalOperator? t <;> cases g.isGuarded t <;> rfl

theorem any_isExit_point? (t : Tree) : g.isExit t = (g.point? t).any Point.isExit := by
  rw [isExit, point?]
  cases construct : g.construct? t with
  | some kind => rw [isNamed_of_construct? construct]; rfl
  | none =>
    cases t.isNamed <;> cases (g.logicalOperator? t).isSome <;> cases g.isGuarded t <;> rfl

/-- A count over the own nodes of a routine is one over its decisions and exits, if it counts those
    only. -/
theorem countP_points {has : Tree → Bool} {counts : Point → Bool}
    (tells : ∀ t, has t = (g.point? t).any counts)
    (only : ∀ point, counts point = true → (point.isDecision || point.isExit) = true)
    (routine : Tree) : (g.inside routine).countP has = (g.points routine).countP counts := by
  rw [points, List.countP_filter, List.countP_filterMap]
  refine List.countP_congr fun t _ => ?_
  rw [tells t]
  cases g.point? t with
  | none => rfl
  | some point =>
    simp only [Option.any_some, Option.map_some, Option.getD_some, Bool.and_eq_true]
    exact ⟨fun h => ⟨h, only point h⟩, And.left⟩

end Grammar

namespace Complexity

variable {g : Grammar} {root : Tree} {s : Site}

theorem cyclomatic_eq (apart : g.Apart) (regular : g.Regular root) (hs : s ∈ root.sites) :
    (Complexity.of g s.tree).cyclomatic = 1 + (g.inside s.tree).countP g.isDecision := by
  rw [← amountOf_visits regular (tells_decision apart regular) hs]
  simp [Complexity.of, ofScores, amountOf, Function.comp_def]

theorem exits_eq (apart : g.Apart) (regular : g.Regular root) (hs : s ∈ root.sites) :
    (Complexity.of g s.tree).exits = (g.inside s.tree).countP g.isExit := by
  rw [← amountOf_visits regular (tells_exit apart regular) hs]
  simp [Complexity.of, ofScores, amountOf, Function.comp_def]

end Complexity

/-- The cyclomatic complexity of a routine is one more than the number of its own nodes that are a
    decision, and its exits are its own nodes that are an exit. Routines with the same decisions and
    exits have the same counts of them, however they are nested. -/
theorem cyclomatic_eq_countP (l : Language) (root : Tree) (regular : l.grammar.Regular root)
    (s : Site) (hs : s ∈ root.sites) :
    (Complexity.of l.grammar s.tree).cyclomatic
        = 1 + (l.grammar.inside s.tree).countP l.grammar.isDecision ∧
      (Complexity.of l.grammar s.tree).exits
        = (l.grammar.inside s.tree).countP l.grammar.isExit ∧
      ∀ other, l.grammar.Regular other → ∀ u ∈ other.sites,
        (l.grammar.points s.tree).Perm (l.grammar.points u.tree) →
          (Complexity.of l.grammar u.tree).cyclomatic
              = (Complexity.of l.grammar s.tree).cyclomatic ∧
            (Complexity.of l.grammar u.tree).exits = (Complexity.of l.grammar s.tree).exits := by
  have cyclomatic := Complexity.cyclomatic_eq l.apart regular hs
  have exits := Complexity.exits_eq l.apart regular hs
  refine ⟨cyclomatic, exits, fun other regular' u hu same => ⟨?_, ?_⟩⟩
  · have count := Grammar.countP_points (Grammar.any_isDecision_point? l.apart)
      fun point h => by rw [h, Bool.true_or]
    rw [cyclomatic, Complexity.cyclomatic_eq l.apart regular' hu, count, count, same.countP_eq]
  · have count := Grammar.countP_points (Grammar.any_isExit_point? (g := l.grammar))
      fun point h => by rw [h, Bool.or_true]
    rw [exits, Complexity.exits_eq l.apart regular' hu, count, count, same.countP_eq]

open CodeMetrics.Tree in
/-- A choice of two conditions at once. -/
def bothConditions (held : List Tree) : Tree :=
  part "if_statement" none
    [word "if", part "binary_expression" (some "condition")
      [part "identifier" (some "left") [],
       .node { kind := "&&", field := some "operator", named := false } [],
       part "identifier" (some "right") []],
     part "block" (some "consequence") held]

open CodeMetrics.Tree in
/-- A loop around some statements. -/
def loopAround (held : List Tree) : Tree :=
  part "for_statement" none [word "for", part "block" (some "body") held]

open CodeMetrics.Tree in
/-- A function of some statements. -/
def functionOf (held : List Tree) : Tree :=
  part "function_declaration" none
    [word "func", part "identifier" (some "name") [], part "block" (some "body") held]

open CodeMetrics.Tree in
/-- An exit in a choice in a loop. -/
def exitInside : Tree :=
  functionOf [loopAround [bothConditions [part "return_statement" none [word "return"]]]]

open CodeMetrics.Tree in
/-- A choice, a loop and an exit one after the other. -/
def exitAfter : Tree :=
  functionOf [bothConditions [], loopAround [], part "return_statement" none [word "return"]]

theorem cyclomatic_eq_countP_exitInside :
    Grammar.go.Regular exitInside ∧ Grammar.go.Regular exitAfter ∧
      (Grammar.go.points exitInside).Perm (Grammar.go.points exitAfter) ∧
      (Complexity.of .go exitInside).cyclomatic = 4 ∧ (Complexity.of .go exitInside).exits = 1 ∧
      (Complexity.of .go exitAfter).cyclomatic = 4 ∧ (Complexity.of .go exitAfter).exits = 1 := by
  have inside : Grammar.go.Regular exitInside :=
    ⟨by decide +kernel, by decide +kernel, by decide +kernel⟩
  have after : Grammar.go.Regular exitAfter :=
    ⟨by decide +kernel, by decide +kernel, by decide +kernel⟩
  have same : (Grammar.go.points exitInside).Perm (Grammar.go.points exitAfter) := by
    decide +kernel
  obtain ⟨cyclomatic, exits, others⟩ := cyclomatic_eq_countP .go exitInside inside
    ⟨exitInside, [], []⟩ (Tree.self_mem_sitesFrom _ _ _)
  obtain ⟨cyclomatic', exits'⟩ :=
    others exitAfter after ⟨exitAfter, [], []⟩ (Tree.self_mem_sitesFrom _ _ _) same
  have four := cyclomatic.trans (by decide +kernel : _ = 4)
  have one := exits.trans (by decide +kernel : _ = 1)
  exact ⟨inside, after, same, four, one, cyclomatic'.trans four, exits'.trans one⟩

end CodeMetrics

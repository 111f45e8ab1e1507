import Mathlib.Algebra.Group.Basic
import CodeMetrics.Measure.Abc
import CodeMetrics.Proofs.Chains

/-! Assignments, branches and conditions of code with chains of choices.

    The counts of a routine add up over its nodes, wherever the nodes stand. A choice and a further
    condition count nothing themselves, a clause for the rest is a condition. So what a chain counts
    depends on the clauses that a grammar writes: none where a further choice or a block is the
    alternative itself, one for the rest where further conditions are clauses of their own, and one
    for every alternative where a clause holds the next choice. -/

namespace CodeMetrics

/-! ### Counts -/

/-- Assignments, branches and conditions. -/
@[ext] structure AbcCounts where
  assignments : Nat := 0
  branches : Nat := 0
  conditions : Nat := 0
deriving DecidableEq, Repr

namespace AbcCounts

instance : Zero AbcCounts := ⟨{}⟩

instance : Add AbcCounts where
  add a b :=
    { assignments := a.assignments + b.assignments
      branches := a.branches + b.branches
      conditions := a.conditions + b.conditions }

instance : AddCommMonoid AbcCounts where
  add_assoc a b c := AbcCounts.ext (Nat.add_assoc _ _ _) (Nat.add_assoc _ _ _) (Nat.add_assoc _ _ _)
  zero_add a := AbcCounts.ext (Nat.zero_add _) (Nat.zero_add _) (Nat.zero_add _)
  add_zero a := AbcCounts.ext (Nat.add_zero _) (Nat.add_zero _) (Nat.add_zero _)
  add_comm a b := AbcCounts.ext (Nat.add_comm _ _) (Nat.add_comm _ _) (Nat.add_comm _ _)
  nsmul := nsmulRec

/-- Some conditions and nothing else. -/
def ofConditions (n : Nat) : AbcCounts := { conditions := n }

theorem ofConditions_add (m n : Nat) : ofConditions (m + n) = ofConditions m + ofConditions n := rfl

theorem ofConditions_zero : ofConditions 0 = 0 := rfl

/-- The counts with their length. -/
def abc (a : AbcCounts) : Abc := .ofCounts a.assignments a.branches a.conditions

theorem conditions_abc (a : AbcCounts) : a.abc.conditions = a.conditions := rfl

end AbcCounts

namespace Abc

variable {g : Grammar}

/-- What a node counts itself. -/
def own (g : Grammar) (t : Tree) : AbcCounts where
  assignments := if g.isAssignment t then 1 else 0
  branches := if g.isCall t then 1 else 0
  conditions := conditionsAt g t

/-- What some nodes count. -/
def countsOf (g : Grammar) : List Tree → AbcCounts
  | [] => 0
  | t :: rest => own g t + countsOf g rest

theorem countsOf_append (xs ys : List Tree) :
    countsOf g (xs ++ ys) = countsOf g xs + countsOf g ys := by
  induction xs with
  | nil => rw [List.nil_append, countsOf, zero_add]
  | cons t rest ih => rw [List.cons_append, countsOf, countsOf, ih, add_assoc]

/-- Whether a node is counted where it stands in a routine. -/
def isCounted (g : Grammar) (t : Tree) : Bool := t.isNamed && t.isSolid && !g.isRoutine t

/-- What the code at and below a node counts. -/
def countsFrom (g : Grammar) (t : Tree) : AbcCounts := countsOf g (t.walk (enters g))

/-- What some children of a node count. -/
def countsAmong (g : Grammar) : List Tree → AbcCounts
  | [] => 0
  | c :: rest => (if isCounted g c then countsFrom g c else 0) + countsAmong g rest

theorem countsAmong_append (xs ys : List Tree) :
    countsAmong g (xs ++ ys) = countsAmong g xs + countsAmong g ys := by
  induction xs with
  | nil => rw [List.nil_append, countsAmong, zero_add]
  | cons c rest ih => rw [List.cons_append, countsAmong, countsAmong, ih, add_assoc]

theorem countsAmong_cons (c : Tree) (rest : List Tree) :
    countsAmong g (c :: rest) = countsAmong g [c] + countsAmong g rest :=
  countsAmong_append [c] rest

/-- What is no part of its parent is not counted. -/
theorem countsAmong_parts (cs : List Tree) :
    countsAmong g cs = countsAmong g (cs.filter Tree.isPart) := by
  induction cs with
  | nil => rfl
  | cons c rest ih =>
    cases part : c.isPart with
    | true => rw [List.filter_cons_of_pos part, countsAmong, countsAmong, ih]
    | false =>
      have passed : isCounted g c = false := by
        rw [← Bool.not_eq_true]
        intro counted
        simp only [isCounted, Tree.isSolid, Bool.and_eq_true] at counted
        simp [Tree.isPart, counted.1.1, counted.1.2.1] at part
      rw [List.filter_cons_of_neg (by simp [part]), countsAmong, passed, ih]
      exact zero_add _

/-- A node counts what it counts itself and what its parts count. -/
theorem countsFrom_eq (t : Tree) : countsFrom g t = own g t + countsAmong g t.parts := by
  have among : ∀ cs : List Tree, countsOf g (cs.flatMap fun c =>
      if enters g t c then c.walk (enters g) else []) = countsAmong g cs := by
    intro cs
    induction cs with
    | nil => rfl
    | cons c rest ih =>
      rw [List.flatMap_cons, countsOf_append, ih, countsAmong]
      congr 1
      exact (apply_ite (countsOf g) _ _ _)
  rw [countsFrom, Tree.walk_eq, countsOf, among, Tree.parts, ← countsAmong_parts]

theorem countsAmong_singleton {t : Tree} (counted : isCounted g t = true) :
    countsAmong g [t] = own g t + countsAmong g t.parts := by
  rw [countsAmong, if_pos counted, countsAmong, add_zero, countsFrom_eq]

/-- The counts of a routine are those of its nodes. -/
theorem of_eq {t : Tree} (solid : t.isSolid = true) : Abc.of g t = (countsFrom g t).abc := by
  have sums : ∀ ts : List Tree, (countsOf g ts).assignments = ts.countP g.isAssignment ∧
      (countsOf g ts).branches = ts.countP g.isCall ∧
      (countsOf g ts).conditions = sumOf (ts.map (conditionsAt g)) := by
    intro ts
    induction ts with
    | nil => exact ⟨rfl, rfl, rfl⟩
    | cons t rest ih =>
      obtain ⟨h₁, h₂, h₃⟩ := ih
      simp only [List.countP_cons, List.map_cons, sumOf_cons, ← h₁, ← h₂, ← h₃]
      exact ⟨Nat.add_comm _ _, Nat.add_comm _ _, rfl⟩
  obtain ⟨h₁, h₂, h₃⟩ := sums (t.walk (enters g))
  rw [Abc.of, nodes, if_pos solid, ← h₁, ← h₂, ← h₃]
  rfl

end Abc

/-! ### What routines and constructs count -/

/-- Whether no kind of a routine or a construct is one that assigns, calls or compares. -/
def Grammar.countsApart (g : Grammar) : Bool :=
  (g.routineKinds ++ g.constructs.map (·.1)).all fun kind =>
    !g.assignmentKinds.contains kind && !g.initializerFields.any (·.1 == kind)
      && !g.callKinds.contains kind && !g.comparisonOperators.any (·.1 == kind)

theorem Language.countsApart (l : Language) : l.grammar.countsApart = true := by
  cases l <;> decide

namespace Abc

variable {g : Grammar}

/-- A node of a kind that assigns, calls and compares nothing is at most a condition. -/
theorem own_of_kind (apart : g.countsApart = true) {t : Tree}
    (listed : t.kind ∈ g.routineKinds ++ g.constructs.map (·.1)) :
    own g t = .ofConditions (if isCondition g t then 1 else 0) := by
  have absent := List.all_eq_true.1 apart _ listed
  simp only [Bool.and_eq_true, Bool.not_eq_true', List.any_eq_false, beq_iff_eq] at absent
  obtain ⟨⟨⟨assigns, starts⟩, calls⟩, compares⟩ := absent
  have assignment : g.isAssignment t = false := by
    have field : Grammar.hasFieldOf g.initializerFields t = false := by
      rw [Grammar.hasFieldOf, List.any_eq_false]
      intro entry hentry
      simp [starts entry hentry]
    rw [Grammar.isAssignment, Grammar.isOf, assigns, field]
    simp
  have call : g.isCall t = false := by rw [Grammar.isCall, Grammar.isOf, calls, Bool.and_false]
  have comparison : comparisons g t = 0 := by
    rw [comparisons, List.countP_eq_zero]
    intro c _ compared
    simp only [Grammar.isComparison, Bool.and_eq_true, List.contains_iff_mem] at compared
    exact compares _ compared.2.2 rfl
  rw [own, assignment, call, conditionsAt, comparison]
  rfl

theorem own_of_routine (apart : g.Apart) (countsApart : g.countsApart = true) {t : Tree}
    (routine : g.isRoutine t = true) : own g t = 0 := by
  obtain ⟨construct, _, guarded⟩ := apart.routine t routine
  have listed : t.kind ∈ g.routineKinds := by
    rw [Grammar.isRoutine, Grammar.isOf, Bool.and_eq_true] at routine
    exact List.contains_iff_mem.1 routine.2
  rw [own_of_kind countsApart (List.mem_append_left _ listed), isCondition, construct, guarded]
  rfl

theorem own_of_construct (countsApart : g.countsApart = true) {t : Tree} {k : Construct}
    (construct : g.construct? t = some k) :
    own g t = .ofConditions (if isCondition g t then 1 else 0) := by
  obtain ⟨entry, hentry, kind⟩ := List.any_eq_true.1 (Grammar.construct?_eq_some construct)
  have listed : t.kind ∈ g.constructs.map (·.1) :=
    List.mem_map.2 ⟨entry, hentry, beq_iff_eq.1 kind⟩
  exact own_of_kind countsApart (List.mem_append_right _ listed)

theorem isCounted_of_construct (apart : g.Apart) {t : Tree} {k : Construct}
    (construct : g.construct? t = some k) (solid : t.isSolid = true) : isCounted g t = true := by
  rw [isCounted, Grammar.isNamed_of_construct? construct, solid,
    Complexity.not_isRoutine_of_construct apart construct]
  rfl

end Abc

/-! ### Code and the trees that show it -/

mutual

/-- Code, by what it counts. -/
inductive Outline where
  /-- Code of which only the counts are told. -/
  | plain (counts : AbcCounts)
  | next (first rest : Outline)
  /-- Code inside of something that is counted as well. -/
  | within (own : AbcCounts) (inside : Outline)
  /-- A chain of choices. -/
  | choice (condition body : Outline) (rest : Alternative)

/-- How a chain of choices goes on. -/
inductive Alternative where
  | done
  | otherwise (body : Outline)
  | elseIf (condition body : Outline) (rest : Alternative)

end

open Abc Complexity

mutual

/-- Parts show code in a style. -/
inductive Outline.Shown (g : Grammar) : Style → Outline → List Tree → Prop
  | plain {style : Style} {counts : AbcCounts} {parts : List Tree}
      (same : countsAmong g parts = counts) : Outline.Shown g style (.plain counts) parts
  | next {style : Style} {first rest : Outline} {parts xs ys : List Tree}
      (split : parts = xs ++ ys) (shown : Outline.Shown g style first xs)
      (others : Outline.Shown g style rest ys) : Outline.Shown g style (.next first rest) parts
  /-- A node that counts nothing itself shows what it holds. -/
  | through {style : Style} {code : Outline} {t : Tree} (counted : isCounted g t = true)
      (nothing : own g t = 0) (shown : Outline.Shown g style code t.parts) :
      Outline.Shown g style code [t]
  | within {style : Style} {inside : Outline} {counts : AbcCounts} {t : Tree}
      (counted : isCounted g t = true) (same : own g t = counts)
      (shown : Outline.Shown g style inside t.parts) :
      Outline.Shown g style (.within counts inside) [t]
  | choice {style : Style} {condition body : Outline} {rest : Alternative} {t c held : Tree}
      {alternatives : List Tree} (branches : Branches g t c held alternatives)
      (solid : t.isSolid = true) (conditions : Outline.Shown g style condition [c])
      (guarded : Outline.Shown g style body [held])
      (others : Alternative.Shown g style rest alternatives) :
      Outline.Shown g style (.choice condition body rest) [t]

/-- The alternatives of a choice show how the chain goes on. -/
inductive Alternative.Shown (g : Grammar) : Style → Alternative → List Tree → Prop
  | done {style : Style} : Alternative.Shown g style .done []
  /-- A bare block. -/
  | bare {body : Outline} {t : Tree} (block : g.construct? t = none)
      (shown : Outline.Shown g .nested body [t]) : Alternative.Shown g .nested (.otherwise body) [t]
  /-- A block in a clause. -/
  | clause {style : Style} {body : Outline} {t held : Tree} (clauses : style ≠ .nested)
      (concludes : Concludes g t held) (solid : t.isSolid = true)
      (shown : Outline.Shown g style body [held]) : Alternative.Shown g style (.otherwise body) [t]
  /-- A choice by itself. -/
  | nested {condition body : Outline} {rest : Alternative} {t c held : Tree} {more : List Tree}
      (branches : Branches g t c held more) (solid : t.isSolid = true)
      (conditions : Outline.Shown g .nested condition [c])
      (guarded : Outline.Shown g .nested body [held])
      (others : Alternative.Shown g .nested rest more) :
      Alternative.Shown g .nested (.elseIf condition body rest) [t]
  /-- A clause with a condition, and the clauses after it. -/
  | flat {condition body : Outline} {rest : Alternative} {t c held : Tree} {more : List Tree}
      (continues : Continues g t c held) (solid : t.isSolid = true)
      (conditions : Outline.Shown g .flat condition [c])
      (guarded : Outline.Shown g .flat body [held])
      (others : Alternative.Shown g .flat rest more) :
      Alternative.Shown g .flat (.elseIf condition body rest) (t :: more)
  /-- A choice in a clause. -/
  | clausal {condition body : Outline} {rest : Alternative} {t next c held : Tree}
      {more : List Tree} (concludes : Concludes g t next) (solid : t.isSolid = true)
      (branches : Branches g next c held more) (solid' : next.isSolid = true)
      (conditions : Outline.Shown g .clausal condition [c])
      (guarded : Outline.Shown g .clausal body [held])
      (others : Alternative.Shown g .clausal rest more) :
      Alternative.Shown g .clausal (.elseIf condition body rest) [t]

end

/-- A routine shows code. -/
structure Outline.ShownBy (g : Grammar) (style : Style) (code : Outline) (t : Tree) : Prop where
  isRoutine : g.isRoutine t = true
  isSolid : t.isSolid = true
  parts : code.Shown g style t.parts

/-! ### What code counts -/

/-- What code counts in every style, and what the styles count differently: the chains that end with
    what happens otherwise, and the further choices. -/
structure ChainCounts where
  always : AbcCounts := 0
  lasts : Nat := 0
  furthers : Nat := 0
deriving DecidableEq, Repr

namespace ChainCounts

instance : Add ChainCounts where
  add a b :=
    { always := a.always + b.always
      lasts := a.lasts + b.lasts
      furthers := a.furthers + b.furthers }

/-- The conditions that a style writes where a chain ends with what happens otherwise. -/
def perLast : Style → Nat
  | .nested => 0
  | .flat | .clausal => 1

/-- The conditions that a style writes besides those of a further choice. -/
def perFurther : Style → Nat
  | .nested | .flat => 0
  | .clausal => 1

/-- The counts in a style. -/
def inStyle (style : Style) (a : ChainCounts) : AbcCounts :=
  a.always + .ofConditions (a.lasts * perLast style + a.furthers * perFurther style)

theorem inStyle_add (style : Style) (a b : ChainCounts) :
    (a + b).inStyle style = a.inStyle style + b.inStyle style := by
  have sum : (a.lasts + b.lasts) * perLast style + (a.furthers + b.furthers) * perFurther style
      = (a.lasts * perLast style + a.furthers * perFurther style)
        + (b.lasts * perLast style + b.furthers * perFurther style) := by
    rw [Nat.add_mul, Nat.add_mul, Nat.add_add_add_comm]
  rw [inStyle, inStyle, inStyle, add_add_add_comm, ← AbcCounts.ofConditions_add, ← sum]
  rfl

theorem conditions_inStyle (style : Style) (a : ChainCounts) :
    (a.inStyle style).conditions = a.always.conditions
      + (a.lasts * perLast style + a.furthers * perFurther style) := rfl

theorem inStyle_always (style : Style) (counts : AbcCounts) :
    inStyle style { always := counts } = counts := by
  simp [inStyle, AbcCounts.ofConditions_zero]

theorem inStyle_last (style : Style) :
    inStyle style { lasts := 1 } = .ofConditions (perLast style) := by
  simp [inStyle]

theorem inStyle_further (style : Style) :
    inStyle style { furthers := 1 } = .ofConditions (perFurther style) := by
  simp [inStyle]

end ChainCounts

open ChainCounts

mutual

def Outline.counts : Outline → ChainCounts
  | .plain counts => { always := counts }
  | .next first rest => first.counts + rest.counts
  | .within own inside => { always := own } + inside.counts
  | .choice condition body rest => condition.counts + (body.counts + rest.counts)

def Alternative.counts : Alternative → ChainCounts
  | .done => {}
  | .otherwise body => { lasts := 1 } + body.counts
  | .elseIf condition body rest =>
    { furthers := 1 } + (condition.counts + (body.counts + rest.counts))

end

variable {g : Grammar} {style : Style}

section Nodes

variable {t c held : Tree} {alternatives : List Tree} (apart : g.Apart)
  (countsApart : g.countsApart = true) (solid : t.isSolid = true)

include apart countsApart solid

/-- A construct counts what its parts count, and itself where it is a condition. -/
theorem countsAmong_construct {k : Construct} (construct : g.construct? t = some k) :
    countsAmong g [t]
      = .ofConditions (if isCondition g t then 1 else 0) + countsAmong g t.parts := by
  rw [countsAmong_singleton (isCounted_of_construct apart construct solid),
    own_of_construct countsApart construct]

/-- Neither a choice nor a further condition is a condition by itself. -/
theorem countsAmong_decision {k : Construct} (construct : g.construct? t = some k)
    (decision : k = .branch ∨ k = .elseIf) : countsAmong g [t] = countsAmong g t.parts := by
  have none : isCondition g t = false := by
    rw [isCondition, construct]
    rcases decision with rfl | rfl <;> exact (apart.construct t _ construct).2
  rw [countsAmong_construct apart countsApart solid construct, none]
  exact zero_add _

theorem countsAmong_branches (branches : Branches g t c held alternatives) :
    countsAmong g [t]
      = countsAmong g [c] + (countsAmong g [held] + countsAmong g alternatives) := by
  rw [countsAmong_decision apart countsApart solid branches.construct (Or.inl rfl), branches.parts,
    countsAmong_cons, countsAmong_cons held]

theorem countsAmong_continues (continues : Continues g t c held) :
    countsAmong g [t] = countsAmong g [c] + countsAmong g [held] := by
  rw [countsAmong_decision apart countsApart solid continues.construct (Or.inr rfl),
    continues.parts, countsAmong_cons]

/-- A clause for the rest is a condition. -/
theorem countsAmong_concludes (concludes : Concludes g t held) :
    countsAmong g [t] = .ofConditions 1 + countsAmong g [held] := by
  have construct := concludes.construct
  have condition : isCondition g t = true := by rw [isCondition, construct]
  rw [countsAmong_construct apart countsApart solid construct, condition, concludes.parts]
  rfl

end Nodes

section Shown

variable (apart : g.Apart) (countsApart : g.countsApart = true)

include apart countsApart

mutual

theorem Outline.Shown.counts : ∀ {style : Style} {code : Outline} {parts : List Tree},
    code.Shown g style parts → countsAmong g parts = code.counts.inStyle style
  | style, _, _, .plain same => by rw [same, Outline.counts, inStyle_always]
  | style, _, _, .next split shown others => by
    rw [split, countsAmong_append, shown.counts, others.counts, Outline.counts, inStyle_add]
  | _, _, _, .through counted nothing shown => by
    rw [countsAmong_singleton counted, nothing, zero_add, shown.counts]
  | _, _, _, .within counted same shown => by
    rw [countsAmong_singleton counted, same, shown.counts, Outline.counts, inStyle_add,
      inStyle_always]
  | _, _, _, .choice branches solid conditions guarded others => by
    rw [countsAmong_branches apart countsApart solid branches, conditions.counts, guarded.counts,
      others.counts, Outline.counts, inStyle_add, inStyle_add]

theorem Alternative.Shown.counts : ∀ {style : Style} {rest : Alternative} {parts : List Tree},
    rest.Shown g style parts → countsAmong g parts = rest.counts.inStyle style
  | style, _, _, .done => (inStyle_always style 0).symm
  | _, _, _, .bare _ shown => by
    rw [shown.counts, Alternative.counts, inStyle_add, inStyle_last]
    exact (zero_add _).symm
  | style, _, _, .clause clauses concludes solid shown => by
    have one : perLast style = 1 := by
      cases style with
      | nested => exact absurd rfl clauses
      | flat | clausal => rfl
    rw [countsAmong_concludes apart countsApart solid concludes, shown.counts, Alternative.counts,
      inStyle_add, inStyle_last, one]
  | _, _, _, .nested branches solid conditions guarded others => by
    rw [countsAmong_branches apart countsApart solid branches, conditions.counts, guarded.counts,
      others.counts, Alternative.counts, inStyle_add, inStyle_add, inStyle_add, inStyle_further]
    exact (zero_add _).symm
  | _, _, _, .flat continues solid conditions guarded others => by
    rw [countsAmong_cons, countsAmong_continues apart countsApart solid continues,
      conditions.counts, guarded.counts, others.counts, Alternative.counts, inStyle_add,
      inStyle_add, inStyle_add, inStyle_further, add_assoc]
    exact (zero_add _).symm
  | _, _, _, .clausal concludes solid branches solid' conditions guarded others => by
    rw [countsAmong_concludes apart countsApart solid concludes,
      countsAmong_branches apart countsApart solid' branches, conditions.counts, guarded.counts,
      others.counts, Alternative.counts, inStyle_add, inStyle_add, inStyle_add, inStyle_further]
    rfl

end

end Shown

/-- A routine counts what it shows. -/
theorem Outline.ShownBy.abc (l : Language) {code : Outline} {t : Tree}
    (h : code.ShownBy l.grammar style t) :
    Abc.of l.grammar t = (code.counts.inStyle style).abc := by
  rw [Abc.of_eq h.isSolid, countsFrom_eq, own_of_routine l.apart l.countsApart h.isRoutine,
    zero_add, h.parts.counts l.apart l.countsApart]

/-! ### A chain in three languages -/

/-- A chain of two choices that ends with what happens otherwise, after two parts without counts. -/
def emptyChain : Outline :=
  .next (.plain 0) <| .next (.plain 0) <|
    .choice (.plain 0) (.plain 0) (.elseIf (.plain 0) (.plain 0) (.otherwise (.plain 0)))

theorem goChain_shows_emptyChain : emptyChain.ShownBy Grammar.go .nested goChain := by
  refine ⟨by decide +kernel, by decide +kernel,
    .next (rfl : _ = [_] ++ _) (.plain (by decide +kernel)) ?_⟩
  -- the block and its list of statements
  refine .through (by decide +kernel) (by decide +kernel) ?_
  refine .through (by decide +kernel) (by decide +kernel) ?_
  refine .next (rfl : _ = [_] ++ _) (.plain (by decide +kernel)) ?_
  refine .choice ⟨by decide +kernel, by decide +kernel, rfl, by decide +kernel⟩ (by decide +kernel)
    (.plain (by decide +kernel)) (.plain (by decide +kernel)) ?_
  exact .nested ⟨by decide +kernel, by decide +kernel, rfl, by decide +kernel⟩ (by decide +kernel)
    (.plain (by decide +kernel)) (.plain (by decide +kernel))
    (.bare (by decide +kernel) (.plain (by decide +kernel)))

theorem pythonChain_shows_emptyChain : emptyChain.ShownBy Grammar.python .flat pythonChain := by
  refine ⟨by decide +kernel, by decide +kernel,
    .next (rfl : _ = [_, _] ++ _) (.plain (by decide +kernel)) ?_⟩
  refine .through (by decide +kernel) (by decide +kernel) ?_
  refine .next (rfl : _ = [_] ++ _) (.plain (by decide +kernel)) ?_
  refine .choice ⟨by decide +kernel, by decide +kernel, rfl, by decide +kernel⟩ (by decide +kernel)
    (.plain (by decide +kernel)) (.plain (by decide +kernel)) ?_
  exact .flat ⟨by decide +kernel, by decide +kernel, rfl⟩ (by decide +kernel)
    (.plain (by decide +kernel)) (.plain (by decide +kernel))
    (.clause (by decide) ⟨by decide +kernel, rfl⟩ (by decide +kernel) (.plain (by decide +kernel)))

theorem rustChain_shows_emptyChain : emptyChain.ShownBy Grammar.rust .clausal rustChain := by
  refine ⟨by decide +kernel, by decide +kernel,
    .next (rfl : _ = [_] ++ _) (.plain (by decide +kernel)) ?_⟩
  refine .through (by decide +kernel) (by decide +kernel) ?_
  refine .next (rfl : _ = [_] ++ _) (.plain (by decide +kernel)) ?_
  refine .choice ⟨by decide +kernel, by decide +kernel, rfl, by decide +kernel⟩ (by decide +kernel)
    (.plain (by decide +kernel)) (.plain (by decide +kernel)) ?_
  exact .clausal ⟨by decide +kernel, rfl⟩ (by decide +kernel)
    ⟨by decide +kernel, by decide +kernel, rfl, by decide +kernel⟩ (by decide +kernel)
    (.plain (by decide +kernel)) (.plain (by decide +kernel))
    (.clause (by decide) ⟨by decide +kernel, rfl⟩ (by decide +kernel) (.plain (by decide +kernel)))

/-! ### Styles count apart -/

/-- Chains of choices have the same assignments and branches in all styles. Flat clauses count a
    condition more for each chain that ends with what happens otherwise, clauses that hold the next
    choice one more again for each further choice. So the styles agree on code without either, and
    on no other. -/
theorem conditions_by_style (code : Outline) (l₁ l₂ l₃ : Language) {nested flat clausal : Tree}
    (h₁ : code.ShownBy l₁.grammar .nested nested) (h₂ : code.ShownBy l₂.grammar .flat flat)
    (h₃ : code.ShownBy l₃.grammar .clausal clausal) :
    ((Abc.of l₁.grammar nested).assignments = (Abc.of l₂.grammar flat).assignments ∧
      (Abc.of l₂.grammar flat).assignments = (Abc.of l₃.grammar clausal).assignments) ∧
    ((Abc.of l₁.grammar nested).branches = (Abc.of l₂.grammar flat).branches ∧
      (Abc.of l₂.grammar flat).branches = (Abc.of l₃.grammar clausal).branches) ∧
    (Abc.of l₂.grammar flat).conditions
      = (Abc.of l₁.grammar nested).conditions + code.counts.lasts ∧
    (Abc.of l₃.grammar clausal).conditions
      = (Abc.of l₂.grammar flat).conditions + code.counts.furthers ∧
    ((Abc.of l₁.grammar nested = Abc.of l₂.grammar flat ∧
        Abc.of l₂.grammar flat = Abc.of l₃.grammar clausal) ↔
      code.counts.lasts = 0 ∧ code.counts.furthers = 0) := by
  have flats : (Abc.of l₂.grammar flat).conditions
      = (Abc.of l₁.grammar nested).conditions + code.counts.lasts := by
    rw [h₁.abc, h₂.abc, AbcCounts.conditions_abc, AbcCounts.conditions_abc, conditions_inStyle,
      conditions_inStyle]
    simp [perLast, perFurther]
  have clausals : (Abc.of l₃.grammar clausal).conditions
      = (Abc.of l₂.grammar flat).conditions + code.counts.furthers := by
    rw [h₂.abc, h₃.abc, AbcCounts.conditions_abc, AbcCounts.conditions_abc, conditions_inStyle,
      conditions_inStyle]
    simp [perLast, perFurther, Nat.add_assoc]
  refine ⟨?_, ?_, flats, clausals, ?_, ?_⟩
  · rw [h₁.abc, h₂.abc, h₃.abc]
    exact ⟨rfl, rfl⟩
  · rw [h₁.abc, h₂.abc, h₃.abc]
    exact ⟨rfl, rfl⟩
  · rintro ⟨first, second⟩
    rw [first] at flats
    rw [second] at clausals
    omega
  · rintro ⟨lasts, furthers⟩
    rw [h₁.abc, h₂.abc, h₃.abc, inStyle, inStyle, inStyle, lasts, furthers]
    simp

theorem conditions_by_style_emptyChain :
    (emptyChain.ShownBy Language.go.grammar .nested goChain ∧
      emptyChain.ShownBy Language.python.grammar .flat pythonChain ∧
      emptyChain.ShownBy Language.rust.grammar .clausal rustChain) ∧
    (Abc.of Grammar.python pythonChain).conditions = (Abc.of Grammar.go goChain).conditions + 1 ∧
      (Abc.of Grammar.rust rustChain).conditions
        = (Abc.of Grammar.python pythonChain).conditions + 1 :=
  have styles := conditions_by_style emptyChain .go .python .rust goChain_shows_emptyChain
    pythonChain_shows_emptyChain rustChain_shows_emptyChain
  ⟨⟨goChain_shows_emptyChain, pythonChain_shows_emptyChain, rustChain_shows_emptyChain⟩,
    styles.2.2.1, styles.2.2.2.1⟩

/-- Trees that show the same code in the three styles need not count alike. -/
theorem chains_count_apart :
    ¬ ∀ (code : Outline) (l₁ l₂ l₃ : Language) (nested flat clausal : Tree),
      code.ShownBy l₁.grammar .nested nested → code.ShownBy l₂.grammar .flat flat →
      code.ShownBy l₃.grammar .clausal clausal →
      Abc.of l₁.grammar nested = Abc.of l₂.grammar flat ∧
        Abc.of l₂.grammar flat = Abc.of l₃.grammar clausal := by
  intro alike
  have same := (alike emptyChain .go .python .rust goChain pythonChain rustChain
    goChain_shows_emptyChain pythonChain_shows_emptyChain rustChain_shows_emptyChain).1
  have none : (Abc.of Grammar.go goChain).conditions = 0 := by decide +kernel
  have one : (Abc.of Grammar.python pythonChain).conditions = 1 := by decide +kernel
  exact absurd ((none.symm.trans (congrArg Abc.conditions same)).trans one) (by decide)

end CodeMetrics

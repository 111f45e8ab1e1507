import CodeMetrics.Measure.Metrics
import CodeMetrics.Proofs.Revision
import CodeMetrics.Proofs.Tally

/-! What is measured of a node is the same before and after comments were put in. A walk may come
    by a comment, but a comment adds nothing and moves nothing. -/

namespace CodeMetrics

variable {g : Grammar} {source source' : List UInt8} {x : Revision}

/-! ### Control flow -/

namespace Grammar.Remark

variable {t : Tree}

theorem isFiller (h : g.Remark t) : g.isFiller t = true := by
  have leaf : t.isLeaf = true := by rw [Tree.isLeaf, h.children]; rfl
  have neutral : g.isNeutral t = true :=
    isNeutral_iff.2 ⟨h.construct?, (plain_of_isLeaf leaf).1, (plain_of_isLeaf leaf).2⟩
  have quiet : g.isQuiet t = true := by rw [isQuiet_eq, neutral, h.children]; rfl
  exact Complexity.isFiller_iff.2 ⟨h.isPart, quiet, h.hasField _, h.hasField _, h.hasField _⟩

end Grammar.Remark

namespace Complexity

open Revision

theorem goesOn_after (tame : x.Tame g source source') : goesOn g x.after = goesOn g x.before := by
  refine rel_any tame.onlyPart? ?_
  rintro t t' ⟨y, _, rfl, rfl⟩
  rw [construct?_after]

theorem isWrapper_after (tame : x.Tame g source source') : isWrapper x.after = isWrapper x.before := by
  refine rel_any tame.onlyPart? ?_
  rintro t t' ⟨y, _, rfl, rfl⟩
  rw [kind_after]

/-- A child has the place that it had. -/
theorem placeOf?_after {y : Revision} (tame : x.Tame g source source')
    (tame' : y.Tame g source source') {earlier earlier' later later' : List Tree}
    (fields : ∀ name, earlier'.any (Tree.hasField name) = earlier.any (Tree.hasField name))
    (parts : later'.any Tree.isPart = later.any Tree.isPart) (p : Place) :
    placeOf? g x.after p earlier' y.after later' = placeOf? g x.before p earlier y.before later := by
  have first : ∀ name, isFirstIn name earlier' y.after = isFirstIn name earlier y.before := by
    intro name
    rw [isFirstIn, isFirstIn, hasField_after, fields]
  have last : isLastPart y.after later' = isLastPart y.before later := by
    rw [isLastPart, isLastPart, isPart_after, parts]
  have enters : enter? g x.after p.role earlier' y.after = enter? g x.before p.role earlier y.before := by
    simp only [enter?, enterGuarded, enterNamed, enterAlternative, first, construct?_after,
      isNamed_after, isPart_after, hasField_after, goesOn_after tame]
  have flows : flowOf g x.after p.flow earlier' y.after later'
      = flowOf g x.before p.flow earlier y.before later := by
    simp only [flowOf, first, last, construct?_after, isPart_after, isWrapper_after tame']
  rw [placeOf?, placeOf?, enters, flows, tame.logicalOperator?]

theorem score_after (tame : x.Tame g source source') (p : Place) :
    score g ⟨x.after, p⟩ = score g ⟨x.before, p⟩ := by
  have labels : x.after.children.any g.isLabel = x.before.children.any g.isLabel := by
    refine tame.padded.any_eq ?_ fun t ht => ht.isLabel
    rintro t t' ⟨y, _, rfl, rfl⟩
    exact isOf_after y _
  simp only [score, statementScore, plainScore, construct?_after, isRoutine_after, labels,
    goesOn_after tame, tame.logicalOperator?, tame.isGuarded]

theorem visitTally_after (tame : x.Tame g source source') (p : Place) :
    visitTally g ⟨x.after, p⟩ = visitTally g ⟨x.before, p⟩ := by
  simp only [visitTally, score_after tame, early?, construct?_after]

/-- What the children add, when each of them adds what it did. -/
theorem tallyAmong_after (tame : x.Tame g source source')
    (same : ∀ y ∈ x.children.kept, ∀ p, tallyFrom g p y.after = tallyFrom g p y.before) (p : Place)
    {cs cs' : List Tree} (h : Padded (Revised x.children.kept) g.Remark cs cs') :
    ∀ {earlier earlier' : List Tree},
      (∀ name, earlier'.any (Tree.hasField name) = earlier.any (Tree.hasField name)) →
      tallyAmong g x.after p earlier' cs' = tallyAmong g x.before p earlier cs := by
  induction h with
  | nil => intro earlier earlier' _; rw [tallyAmong_nil, tallyAmong_nil]
  | @keep t t' later later' ht rest ih =>
    intro earlier earlier' fields
    obtain ⟨y, hy, rfl, rfl⟩ := ht
    have parts : later'.any Tree.isPart = later.any Tree.isPart := by
      refine rest.any_eq ?_ fun t ht => ht.isPart
      rintro t t' ⟨z, _, rfl, rfl⟩
      exact isPart_after z
    have more : ∀ name, (y.after :: earlier').any (Tree.hasField name)
        = (y.before :: earlier).any (Tree.hasField name) := by
      intro name
      rw [List.any_cons, List.any_cons, hasField_after, fields]
    rw [tallyAmong_cons, tallyAmong_cons, placeOf?_after tame (tame.child hy) fields parts,
      ih more]
    congr 2
    funext q
    exact same y hy q
  | @put t later later' ht rest ih =>
    intro earlier earlier' fields
    have more : ∀ name, (t :: earlier').any (Tree.hasField name)
        = earlier.any (Tree.hasField name) := by
      intro name
      rw [List.any_cons, ht.hasField, Bool.false_or, fields]
    rw [tallyAmong_cons, tally_filler ht.isFiller, zero_add, ih more]

theorem tallyFrom_after : ∀ x : Revision, x.Tame g source source' →
    ∀ p, tallyFrom g p x.after = tallyFrom g p x.before := by
  refine Revision.induct fun x ih tame p => ?_
  have among := tallyAmong_after tame (fun y hy => ih y hy (tame.child hy)) p tame.padded
    fun _ => (rfl : [].any _ = [].any _)
  rw [tallyFrom_eq, tallyFrom_eq, visitTally_after tame, isRoutine_after, among]

theorem of_after (tame : x.Tame g source source') :
    Complexity.of g x.after = Complexity.of g x.before := by
  have among := tallyAmong_after tame (fun y hy => tallyFrom_after y (tame.child hy)) start
    tame.padded fun _ => (rfl : [].any _ = [].any _)
  rw [of_eq, of_eq]
  exact congrArg Tally.complexity among

end Complexity

/-! ### Walks -/

/-- A walk comes by the nodes that it came by, and maybe by remarks. -/
theorem Revision.walk_after {enters : Tree → Tree → Bool} (new : Tree → Prop)
    (same : ∀ x y : Revision, enters x.after y.after = enters x.before y.before)
    (put : ∀ (x : Revision) (t : Tree), g.Remark t → enters x.after t = true → new t) :
    ∀ x : Revision, x.Tame g source source' →
      Padded (Revised x.nodes) new (x.before.walk enters) (x.after.walk enters) := by
  refine Revision.induct fun x ih tame => ?_
  rw [Tree.walk_eq, Tree.walk_eq]
  refine .keep ⟨x, x.self_mem_nodes, rfl, rfl⟩ (tame.padded.flatMap ?_ ?_)
  · rintro t t' ⟨y, hy, rfl, rfl⟩
    rw [same]
    split
    · refine (ih y hy (tame.child hy)).imp ?_ fun _ h => h
      rintro t t' ⟨z, hz, before, after⟩
      exact ⟨z, mem_nodes_of_kept hy hz, before, after⟩
    · exact .nil
  · intro t ht
    split
    · next entered =>
      rw [Tree.walk_eq, ht.children]
      exact .put (put x t ht entered) .nil
    · exact .nil

/-- A walk over what is in the source comes by the nodes that it came by. -/
theorem Revision.solidWalk_after {enters : Tree → Tree → Bool}
    (same : ∀ x y : Revision, enters x.after y.after = enters x.before y.before)
    (solid : ∀ parent t, enters parent t = true → t.isSolid = true)
    (tame : x.Tame g source source') : Padded (Revised x.nodes) (fun _ => False)
      (if x.before.isSolid then x.before.walk enters else [])
      (if x.after.isSolid then x.after.walk enters else []) := by
  rw [isSolid_after]
  split
  · refine walk_after _ same (fun y t ht entered => ?_) x tame
    exact absurd (solid _ t entered) (by simp [ht.isSolid])
  · exact .nil

/-! ### Operators and operands -/

namespace Halstead

open Revision

theorem nodes_after (tame : x.Tame g source source') :
    Padded (Revised x.nodes) (fun _ => False) (nodes g x.before) (nodes g x.after) := by
  refine solidWalk_after (fun y z => ?_) (fun parent t entered => ?_) tame
  · simp only [enters, Grammar.isOperand, isOf_after, isSolid_after, isRoutine_after]
  · simp only [enters, Bool.and_eq_true] at entered
    exact entered.1.2

theorem isOperator_after (tame : x.Tame g source source') :
    isOperator g x.after = isOperator g x.before := by
  rw [isOperator, isOperator, tame.isLeaf, isNamed_after, kind_after]
  cases leaf : x.before.isLeaf with
  | false => rfl
  | true => rw [tame.covers x x.self_mem_nodes leaf]

theorem operators_after (tame : x.Tame g source source') :
    operators g x.after = operators g x.before := by
  refine (nodes_after tame).map_filter_eq ?_ (fun _ h => h.elim) ?_
  · rintro t t' ⟨y, hy, rfl, rfl⟩
    exact isOperator_after (tame.of_mem hy)
  · rintro t t' ⟨y, _, rfl, rfl⟩ _
    exact kind_after y

theorem operands_after (tame : x.Tame g source source') :
    operands g source' x.after = operands g source x.before := by
  refine (nodes_after tame).map_filter_eq ?_ (fun _ h => h.elim) ?_
  · rintro t t' ⟨y, _, rfl, rfl⟩
    exact isOf_after y _
  · rintro t t' ⟨y, hy, rfl, rfl⟩ operand
    exact tame.operands y hy operand

theorem of_after (tame : x.Tame g source source') :
    Halstead.of g source' x.after = Halstead.of g source x.before := by
  rw [Halstead.of, Halstead.of, operators_after tame, operands_after tame]

end Halstead

/-! ### Assignments, branches and conditions -/

namespace Abc

open Revision

theorem nodes_after (tame : x.Tame g source source') :
    Padded (Revised x.nodes) (fun _ => False) (nodes g x.before) (nodes g x.after) := by
  refine solidWalk_after (fun y z => ?_) (fun parent t entered => ?_) tame
  · simp only [enters, isNamed_after, isSolid_after, isRoutine_after]
  · simp only [enters, Bool.and_eq_true] at entered
    exact entered.1.2

theorem comparisons_after (tame : x.Tame g source source') :
    comparisons g x.after = comparisons g x.before := by
  refine tame.padded.countP_eq ?_ fun t ht => by rw [ht.isSolid, Bool.false_and]
  rintro t t' ⟨y, _, rfl, rfl⟩
  simp only [Grammar.isComparison, isSolid_after, isNamed_after, kind_after]

theorem conditionsAt_after (tame : x.Tame g source source') :
    conditionsAt g x.after = conditionsAt g x.before := by
  rw [conditionsAt, conditionsAt, comparisons_after tame, isCondition, isCondition,
    construct?_after, tame.isGuarded]

theorem of_after (tame : x.Tame g source source') : Abc.of g x.after = Abc.of g x.before := by
  have padded := nodes_after tame
  have assignments : (nodes g x.after).countP g.isAssignment
      = (nodes g x.before).countP g.isAssignment := by
    refine padded.countP_eq ?_ fun _ h => h.elim
    rintro t t' ⟨y, hy, rfl, rfl⟩
    exact (tame.of_mem hy).isAssignment
  have branches : (nodes g x.after).countP g.isCall = (nodes g x.before).countP g.isCall := by
    refine padded.countP_eq ?_ fun _ h => h.elim
    rintro t t' ⟨y, _, rfl, rfl⟩
    exact isOf_after y _
  have conditions : sumOf ((nodes g x.after).map (conditionsAt g))
      = sumOf ((nodes g x.before).map (conditionsAt g)) := by
    refine padded.sumOf_eq ?_ fun _ h => h.elim
    rintro t t' ⟨y, hy, rfl, rfl⟩
    exact conditionsAt_after (tame.of_mem hy)
  rw [Abc.of, Abc.of, assignments, branches, conditions]

end Abc

/-! ### Logical lines -/

namespace LineCounts

open Revision

theorem endsInExpression_after (tame : x.Tame g source source') :
    endsInExpression g x.after = endsInExpression g x.before := by
  rw [endsInExpression, endsInExpression, kind_after]
  congr 1
  refine rel_any (rel_getLast? tame.parts) ?_
  rintro t t' ⟨y, _, rfl, rfl⟩
  simp only [Grammar.isStatement, Grammar.isLabel, isOf_after]

theorem logicalAt_after (tame : x.Tame g source source') :
    logicalAt g x.after = logicalAt g x.before := by
  have statements : x.after.children.countP g.isStatement
      = x.before.children.countP g.isStatement := by
    refine tame.padded.countP_eq ?_ fun t ht => ht.isStatement
    rintro t t' ⟨y, _, rfl, rfl⟩
    exact isOf_after y _
  rw [logicalAt, logicalAt, statements, endsInExpression_after tame]

theorem logicalAt_remark {t : Tree} (h : g.Remark t) : logicalAt g t = 0 := by
  rw [logicalAt, endsInExpression, Tree.parts, h.children]
  simp

/-- A walk over named nodes counts the logical lines that it counted. -/
theorem logical_after {enters : Tree → Tree → Bool}
    (same : ∀ x y : Revision, enters x.after y.after = enters x.before y.before)
    (tame : x.Tame g source source') : sumOf ((x.after.walk enters).map (logicalAt g))
      = sumOf ((x.before.walk enters).map (logicalAt g)) := by
  refine (walk_after g.Remark same (fun _ _ ht _ => ht) x tame).sumOf_eq ?_ fun t ht => ?_
  · rintro t t' ⟨y, hy, rfl, rfl⟩
    exact logicalAt_after (tame.of_mem hy)
  · exact logicalAt_remark ht

theorem logicalOfRoutine_after (tame : x.Tame g source source') :
    logicalOfRoutine g x.after = logicalOfRoutine g x.before :=
  logical_after (fun _ y => by rw [isNamed_after, isRoutine_after]) tame

theorem logicalOfFile_after (tame : x.Tame g source source') :
    logicalOfFile g x.after = logicalOfFile g x.before :=
  logical_after (fun _ y => isNamed_after y) tame

end LineCounts

/-! ### Parameters -/

namespace RoutineMetrics

open Revision

theorem parametersAt_after (tame : x.Tame g source source') :
    parametersAt g x.after = parametersAt g x.before := by
  have names : (x.after.childrenIn "name").length = (x.before.childrenIn "name").length := by
    refine (tame.padded.filter ?_ fun t ht => ht.hasField "name").length_eq.symm
    rintro t t' ⟨y, _, rfl, rfl⟩
    exact hasField_after y "name"
  rw [parametersAt, parametersAt, isPart_after, kind_after, names]

theorem parameterCount_after (tame : x.Tame g source source') :
    parameterCount g x.after = parameterCount g x.before := by
  have list := tame.child? "parameters"
  have lone := rel_isSome (tame.child? "parameter")
  rw [parameterCount, parameterCount, lone]
  generalize x.before.child? "parameters" = o, x.after.child? "parameters" = o' at list
  cases list with
  | none => rfl
  | some h =>
    obtain ⟨y, hy, rfl, rfl⟩ := h
    refine (tame.child hy).padded.sumOf_eq ?_ fun t ht => by simp [parametersAt, ht.isPart]
    rintro t t' ⟨z, hz, rfl, rfl⟩
    exact parametersAt_after ((tame.child hy).child hz)

end RoutineMetrics

end CodeMetrics

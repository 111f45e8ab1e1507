import Mathlib.Data.List.Perm.Basic
import CodeMetrics.Language.Rust
import CodeMetrics.Measure.Lines
import CodeMetrics.Proofs.Sites

/-! Logical lines are counted in one place. The count of a file comes to all nodes that no word or
    sign is around; the count of a routine stops where another routine starts. So the nodes fall
    into regions, one for each routine and one outside all of them. A routine inside another one is
    a statement of the region around it, and what it holds makes up its own region. -/

namespace CodeMetrics

namespace Tree

/-- Words and signs hold nothing but words and signs. -/
def WordsHoldWords (root : Tree) : Prop :=
  ∀ t ∈ root.nodes, t.isNamed = false → ∀ c ∈ t.children, c.isNamed = false

instance (root : Tree) : Decidable root.WordsHoldWords :=
  inferInstanceAs (Decidable (∀ t ∈ root.nodes, _))

theorem WordsHoldWords.child {t c : Tree} (words : t.WordsHoldWords) (hc : c ∈ t.children) :
    c.WordsHoldWords := fun u hu => words u (mem_nodes_of_child hc hu)

end Tree

/-! ### Regions -/

namespace Grammar

variable (g : Grammar)

/-- The nodes of a routine that are in no routine inside it, words and signs apart. -/
def region (routine : Tree) : List Tree := routine.walk fun _ c => c.isNamed && !g.isRoutine c

/-- The routines at and below a node. -/
def routinesIn (t : Tree) : List Tree := t.nodes.filter g.isRoutine

/-- The routines properly below a node. -/
def routinesBelow (t : Tree) : List Tree := t.children.flatMap g.routinesIn

theorem routinesIn_eq (t : Tree) :
    g.routinesIn t = (if g.isRoutine t then [t] else []) ++ g.routinesBelow t := by
  rw [routinesIn, Tree.nodes_eq, List.filter_cons, List.filter_flatMap]
  split <;> rfl

/-- There is no routine in a word or sign. -/
theorem routinesIn_of_word {t : Tree} (words : t.WordsHoldWords) (word : t.isNamed = false) :
    g.routinesIn t = [] := by
  have all : ∀ u ∈ t.nodes, u.isNamed = false := Tree.nodes_induct word words
  refine List.filter_eq_nil_iff.2 fun u hu => ?_
  simp [isRoutine, isOf, all u hu]

/-- The nodes around which there is no word or sign are those in the region of the outermost node
    and those in the regions of the routines below. -/
theorem regions_perm (t : Tree) (words : t.WordsHoldWords) :
    (t.walk fun _ c => c.isNamed).Perm (g.region t ++ (g.routinesBelow t).flatMap g.region) := by
  induction t using Tree.induct with
  | node label children ih =>
    -- a child is in the region around it or starts one of its own
    have step : ∀ c ∈ children, (if c.isNamed then c.walk fun _ d => d.isNamed else []).Perm
        ((if c.isNamed && !g.isRoutine c then g.region c else [])
          ++ (g.routinesIn c).flatMap g.region) := by
      intro c hc
      have below := ih c hc (words.child hc)
      cases named : c.isNamed with
      | false => simp [routinesIn_of_word g (words.child hc) named]
      | true =>
        rw [routinesIn_eq]
        cases g.isRoutine c with
        | true => simpa using below
        | false => simpa using below
    rw [region, Tree.walk_eq, Tree.walk_eq, List.cons_append, routinesBelow, List.flatMap_assoc]
    refine List.Perm.cons _ ?_
    exact (List.Perm.flatMap_left _ step).trans (List.flatMap_append_perm _ _ _).symm

end Grammar

namespace LineCounts

/-- Every logical line of a file is counted in one place: outside all routines, or in one routine and
    in no routine inside it. -/
theorem logical_by_region (g : Grammar) (source : List UInt8) {root : Tree}
    (outside : g.isRoutine root = false) (words : root.WordsHoldWords) :
    (LineCounts.of g source root).logical
      = logicalOfRoutine g root
        + sumOf ((root.nodes.filter g.isRoutine).map (logicalOfRoutine g)) := by
  have routines : root.nodes.filter g.isRoutine = g.routinesBelow root := by
    have := g.routinesIn_eq root
    rwa [outside] at this
  calc (LineCounts.of g source root).logical
      = sumOf ((root.walk fun _ c => c.isNamed).map (logicalAt g)) := rfl
    _ = sumOf ((g.region root ++ (g.routinesBelow root).flatMap g.region).map (logicalAt g)) :=
        sumOf_perm ((g.regions_perm root words).map _)
    _ = logicalOfRoutine g root
          + sumOf ((root.nodes.filter g.isRoutine).map (logicalOfRoutine g)) := by
        rw [List.map_append, sumOf_append, List.map_flatMap, sumOf_flatMap, routines]
        rfl

open CodeMetrics.Tree in
/-- A function that binds a closure and ends in a call of it. The closure has a statement and ends in
    an expression, too. -/
def functionWithClosure : Tree :=
  let closure := part "closure_expression" (some "value")
    [word "||", part "block" (some "body")
      [part "expression_statement" none [part "call_expression" none []],
       part "integer_literal" none []]]
  part "source_file" none
    [part "function_item" none
      [word "fn", part "identifier" (some "name") [], part "block" (some "body")
        [part "let_declaration" none [word "let", part "identifier" (some "pattern") [], closure],
         part "call_expression" none []]]]

theorem logical_by_region_functionWithClosure :
    Grammar.rust.isRoutine functionWithClosure = false ∧ functionWithClosure.WordsHoldWords ∧
      logicalOfRoutine .rust functionWithClosure = 1 ∧
      (functionWithClosure.nodes.filter Grammar.rust.isRoutine).map (logicalOfRoutine .rust)
        = [2, 2] ∧
      (LineCounts.of .rust [] functionWithClosure).logical = 1 + (2 + 2) := by
  have outside : Grammar.rust.isRoutine functionWithClosure = false := by decide +kernel
  have words : functionWithClosure.WordsHoldWords := by decide +kernel
  have around : logicalOfRoutine .rust functionWithClosure = 1 := by decide +kernel
  have inside : (functionWithClosure.nodes.filter Grammar.rust.isRoutine).map
      (logicalOfRoutine .rust) = [2, 2] := by decide +kernel
  refine ⟨outside, words, around, inside, ?_⟩
  rw [logical_by_region .rust [] outside words, around, inside]
  rfl

end LineCounts

end CodeMetrics

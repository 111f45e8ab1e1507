import Mathlib.Data.Finset.Card
import Mathlib.Data.List.Perm.Basic
import CodeMetrics.Language.Python
import CodeMetrics.Measure.Halstead
import CodeMetrics.Proofs.Lists
import CodeMetrics.Proofs.Sites

/-! The operators and operands of a routine, node by node. A node counts for what it is where the
    way to it is open: everything on the way is in the source, and there is neither a routine inside
    nor an operand to pass. The nodes with an open way can be taken in any order; a traversal that
    opens a node puts its children among those that wait, and what waits and what is met do not
    change together. -/

namespace CodeMetrics

namespace Site

variable (g : Grammar)

/-- A node with an open way from the outermost node: it and the nodes around it are in the source,
    none of them but the outermost one is a routine, and no operand is around it. -/
structure Reached (s : Site) : Prop where
  solid : ∀ t ∈ s.tree :: s.above, t.isSolid = true
  own : ∀ t ∈ (s.tree :: s.above).dropLast, g.isRoutine t = false
  bare : ∀ t ∈ s.above, g.isOperand t = false

instance (s : Site) : Decidable (s.Reached g) :=
  decidable_of_iff (_ ∧ _ ∧ _) ⟨fun h => ⟨h.1, h.2.1, h.2.2⟩, fun h => ⟨h.1, h.2, h.3⟩⟩

/-- A name or literal with an open way. -/
def IsOperand (s : Site) : Prop :=
  s.Reached g ∧ s.tree.isNamed = true ∧ s.tree.kind ∈ g.operandKinds

/-- A word or sign with an open way that covers some source and is not passed over. -/
def IsOperator (s : Site) : Prop :=
  s.Reached g ∧ s.tree.isLeaf = true ∧ s.tree.isNamed = false ∧
    s.tree.label.start < s.tree.label.stop ∧ s.tree.kind ∉ g.ignoredTokens

instance (s : Site) : Decidable (s.IsOperand g) := inferInstanceAs (Decidable (_ ∧ _ ∧ _))

instance (s : Site) : Decidable (s.IsOperator g) :=
  inferInstanceAs (Decidable (_ ∧ _ ∧ _ ∧ _ ∧ _))

/-! ### One node further -/

/-- The nodes around a node let a way pass. -/
structure Offered (s : Site) : Prop where
  solid : ∀ t ∈ s.above, t.isSolid = true
  own : ∀ t ∈ s.above.dropLast, g.isRoutine t = false
  bare : ∀ t ∈ s.above, g.isOperand t = false

/-- A node lets a way come to it: it is in the source and no routine inside. -/
def Admits (s : Site) : Prop :=
  s.tree.isSolid = true ∧ (s.above ≠ [] → g.isRoutine s.tree = false)

instance (s : Site) : Decidable (s.Admits g) := inferInstanceAs (Decidable (_ ∧ _))

/-- The nodes to which ways go on from a node. -/
def onward (s : Site) : List Site := if g.isOperand s.tree then [] else s.children

variable {g} {s u v : Site}

theorem reached_iff : s.Reached g ↔ s.Offered g ∧ s.Admits g := by
  obtain ⟨t, above, way⟩ := s
  constructor
  · rintro ⟨solid, own, bare⟩
    obtain ⟨here, around⟩ := List.forall_mem_cons.1 solid
    refine ⟨⟨around, fun t ht => own t ?_, bare⟩, here, fun inner => own _ ?_⟩
    · cases above with
      | nil => cases ht
      | cons parent above => exact List.mem_cons_of_mem _ ht
    · rw [List.dropLast_cons_of_ne_nil inner]
      exact List.mem_cons_self
  · rintro ⟨⟨solid, own, bare⟩, here, inner⟩
    refine ⟨List.forall_mem_cons.2 ⟨here, solid⟩, ?_, bare⟩
    cases above with
    | nil => exact List.forall_mem_nil _
    | cons parent above => exact List.forall_mem_cons.2 ⟨inner (List.cons_ne_nil _ _), own⟩

/-- A way that comes to a node or below has come to the node. -/
theorem admits_of_reached (hv : v ∈ s.tree.sitesFrom s.above s.way) (reached : v.Reached g) :
    s.Admits g := by
  obtain ⟨front, split⟩ := around_suffix hv
  refine ⟨reached.solid _ ?_, fun inner => reached.own _ ?_⟩
  · rw [← split]
    exact List.mem_append_right _ List.mem_cons_self
  · rw [← split, List.dropLast_append_of_ne_nil (List.cons_ne_nil _ _),
      List.dropLast_cons_of_ne_nil inner]
    exact List.mem_append_right _ List.mem_cons_self

/-- A way that comes to a child or below has not passed an operand. -/
theorem not_isOperand_of_reached (hu : u ∈ s.children) (hv : v ∈ u.tree.sitesFrom u.above u.way)
    (reached : v.Reached g) : g.isOperand s.tree = false := by
  refine reached.bare _ ((Tree.above_suffix hv).subset ?_)
  rw [above_of_mem_children hu]
  exact List.mem_cons_self

theorem mem_onward : u ∈ s.onward g ↔ g.isOperand s.tree = false ∧ u ∈ s.children := by
  rw [onward]
  cases g.isOperand s.tree <;> simp

theorem offered_of_mem_onward (reached : s.Reached g) (hu : u ∈ s.onward g) : u.Offered g := by
  obtain ⟨plain, hu⟩ := mem_onward.1 hu
  have above := above_of_mem_children hu
  refine ⟨?_, ?_, ?_⟩ <;> rw [above]
  · exact reached.solid
  · exact reached.own
  · exact List.forall_mem_cons.2 ⟨plain, reached.bare⟩

theorem offered_top (g : Grammar) (root : Tree) : Offered g ⟨root, [], []⟩ :=
  ⟨List.forall_mem_nil _, List.forall_mem_nil _, List.forall_mem_nil _⟩

/-- The nodes with an open way at and below a node. -/
def reachedFrom (g : Grammar) (s : Site) : List Site :=
  (s.tree.sitesFrom s.above s.way).filter fun v => v.Reached g

/-- What can be reached from a node is itself, if the way comes to it, and what can be reached from
    the nodes to which it goes on. -/
theorem reachedFrom_eq (offered : s.Offered g) : s.reachedFrom g
    = if s.Admits g then s :: (s.onward g).flatMap (reachedFrom g) else [] := by
  split
  · next admits =>
    have below : (s.children.flatMap fun u => u.tree.sitesFrom u.above u.way).filter
        (fun v => v.Reached g) = (s.onward g).flatMap (reachedFrom g) := by
      rw [List.filter_flatMap, onward]
      split
      · next operand =>
        refine List.flatMap_eq_nil_iff.2 fun u hu => List.filter_eq_nil_iff.2 fun v hv reached => ?_
        rw [not_isOperand_of_reached hu hv (of_decide_eq_true reached)] at operand
        cases operand
      · rfl
    have here : s.Reached g := reached_iff.2 ⟨offered, admits⟩
    rw [reachedFrom, Tree.sitesFrom_site, List.filter_cons_of_pos (by simpa using here), below]
  · next out =>
    refine List.filter_eq_nil_iff.2 fun v hv reached => out ?_
    exact admits_of_reached hv (of_decide_eq_true reached)

end Site

/-! ### Traversals -/

/-- A traversal of the nodes that wait, with the nodes that it meets. Any of the nodes that wait may
    be the next one. -/
inductive Traversal (g : Grammar) : List Site → List Site → Prop where
  | done : Traversal g [] []
  | pass {waiting rest met : List Site} {s : Site} (next : waiting.Perm (s :: rest))
    (out : ¬ s.Admits g) (further : Traversal g rest met) : Traversal g waiting met
  | meet {waiting rest met : List Site} {s : Site} (next : waiting.Perm (s :: rest))
    (admits : s.Admits g) (further : Traversal g (s.onward g ++ rest) met) :
    Traversal g waiting (s :: met)

namespace Traversal

open Site (reachedFrom)

variable {g : Grammar} {waiting met : List Site}

/-- A traversal meets what can be reached from the nodes that wait, each node once. -/
theorem perm (traversal : Traversal g waiting met) (offered : ∀ s ∈ waiting, s.Offered g) :
    met.Perm (waiting.flatMap (reachedFrom g)) := by
  induction traversal with
  | done => exact .refl _
  | @pass waiting rest met s next out further ih =>
    obtain ⟨here, others⟩ := List.forall_mem_cons.1 fun u hu => offered u (next.mem_iff.2 hu)
    refine (ih others).trans (.trans ?_ (next.flatMap_right _).symm)
    rw [List.flatMap_cons, Site.reachedFrom_eq here, if_neg out, List.nil_append]
  | @meet waiting rest met s next admits further ih =>
    obtain ⟨here, others⟩ := List.forall_mem_cons.1 fun u hu => offered u (next.mem_iff.2 hu)
    have onward : ∀ u ∈ s.onward g ++ rest, u.Offered g := by
      intro u hu
      rcases List.mem_append.1 hu with hu | hu
      · exact Site.offered_of_mem_onward (Site.reached_iff.2 ⟨here, admits⟩) hu
      · exact others u hu
    refine ((ih onward).cons s).trans (.trans ?_ (next.flatMap_right _).symm)
    rw [List.flatMap_cons, Site.reachedFrom_eq here, if_pos admits, List.flatMap_append,
      List.cons_append]

/-- The number of nodes at and below those that wait. -/
def ahead (waiting : List Site) : ℕ := (waiting.flatMap fun s => s.tree.nodes).length

theorem ahead_onward_lt (g : Grammar) (s : Site) (rest : List Site) :
    ahead (s.onward g ++ rest) < ahead (s :: rest) := by
  have children : (s.children.flatMap fun u => u.tree.nodes)
      = s.tree.children.flatMap Tree.nodes := by
    rw [← Site.map_tree_children s, List.flatMap_map]
  rw [ahead, ahead, List.flatMap_append, List.flatMap_cons, Tree.nodes_eq s.tree, ← children,
    Site.onward]
  split <;>
    simp only [List.flatMap_nil, List.nil_append, List.cons_append, List.length_append,
      List.length_cons] <;>
    omega

/-- Nodes can always be taken until none is left. -/
theorem exists_met (g : Grammar) : ∀ waiting : List Site, ∃ met, Traversal g waiting met
  | [] => ⟨[], .done⟩
  | s :: rest => by
    have fewer := ahead_onward_lt g s rest
    by_cases admits : s.Admits g
    · obtain ⟨met, further⟩ := exists_met g (s.onward g ++ rest)
      exact ⟨s :: met, .meet (.refl _) admits further⟩
    · have : ahead rest < ahead (s :: rest) := by
        rw [ahead, List.flatMap_append, List.length_append] at fewer
        exact Nat.lt_of_le_of_lt (Nat.le_add_left _ _) fewer
      obtain ⟨met, further⟩ := exists_met g rest
      exact ⟨met, .pass (.refl _) admits further⟩
termination_by waiting => ahead waiting

end Traversal

namespace Halstead

open Site (reachedFrom)

variable {g : Grammar} {source : List UInt8}

/-! ### The nodes of a routine -/

/-- The walk enters a child to which a way goes on and that admits it. -/
theorem enters_iff {s u : Site} (hu : u ∈ s.children) :
    enters g s.tree u.tree = true ↔ u ∈ s.onward g ∧ u.Admits g := by
  have inner : u.above ≠ [] := by
    rw [Site.above_of_mem_children hu]
    exact List.cons_ne_nil _ _
  simp [enters, Site.mem_onward, Site.Admits, hu, inner, and_assoc]

/-- The walk comes to the nodes with an open way. -/
theorem map_tree_reachedFrom (t : Tree) : ∀ s : Site, s.tree = t → s.Offered g → s.Admits g →
    (s.reachedFrom g).map (·.tree) = t.walk (enters g) := by
  induction t using Tree.induct with
  | node label children ih =>
    intro s tree offered admits
    have reached : s.Reached g := Site.reached_iff.2 ⟨offered, admits⟩
    have child : ∀ u ∈ s.onward g, (u.reachedFrom g).map (·.tree)
        = if enters g s.tree u.tree then u.tree.walk (enters g) else [] := by
      intro u hu
      have hu' : u ∈ s.children := (Site.mem_onward.1 hu).2
      have offered' : u.Offered g := Site.offered_of_mem_onward reached hu
      split
      · next entered =>
        have mem : u.tree ∈ children := by
          rw [← Tree.children_node label children, ← tree, ← Site.map_tree_children s]
          exact List.mem_map_of_mem hu'
        exact ih u.tree mem u rfl offered' ((enters_iff hu').1 entered).2
      · next barred =>
        have out : ¬ u.Admits g := fun admits' => barred ((enters_iff hu').2 ⟨hu, admits'⟩)
        rw [Site.reachedFrom_eq offered', if_neg out, List.map_nil]
    -- the walk enters no child of an operand
    have children : s.children.flatMap (fun u =>
          if enters g s.tree u.tree then u.tree.walk (enters g) else [])
        = (s.onward g).flatMap fun u => (u.reachedFrom g).map (·.tree) := by
      rw [List.flatMap_congr child, Site.onward]
      split
      · next operand => simp [enters, operand]
      · rfl
    rw [Site.reachedFrom_eq offered, if_pos admits, List.map_cons, List.map_flatMap, ← children,
      ← tree, Tree.walk_eq, ← Site.map_tree_children s, List.flatMap_map]

theorem nodes_eq (g : Grammar) (routine : Tree) : nodes g routine
    = (routine.sites.filter fun s => s.Reached g).map (·.tree) := by
  have offered := Site.offered_top g routine
  have top : routine.sites.filter (fun s => s.Reached g) = reachedFrom g ⟨routine, [], []⟩ := rfl
  rw [top, nodes]
  split
  · next solid =>
    exact (map_tree_reachedFrom routine _ rfl offered ⟨solid, fun inner => absurd rfl inner⟩).symm
  · next gap =>
    rw [Site.reachedFrom_eq offered, if_neg fun admits => gap admits.1, List.map_nil]

theorem isOperand_iff {s : Site} :
    s.IsOperand g ↔ s.Reached g ∧ g.isOperand s.tree = true := by
  simp [Site.IsOperand, Grammar.isOperand, Grammar.isOf]

theorem isOperator_iff {s : Site} :
    s.IsOperator g ↔ s.Reached g ∧ isOperator g s.tree = true := by
  simp [Site.IsOperator, isOperator, Tree.coversText, and_assoc]

/-- What is read off the nodes of some sort is read off their sites. -/
theorem map_filter_nodes {β : Type} (g : Grammar) (routine : Tree) {has : Tree → Bool}
    {sort : Site → Prop} [DecidablePred sort]
    (tells : ∀ s, sort s ↔ s.Reached g ∧ has s.tree = true) (read : Tree → β) :
    ((nodes g routine).filter has).map read
      = (routine.sites.filter fun s => sort s).map fun s => read s.tree := by
  rw [nodes_eq, List.filter_map, List.filter_filter, List.map_map]
  congr 1
  refine List.filter_congr fun s _ => Bool.eq_iff_iff.2 ?_
  rw [decide_eq_true_iff, tells, Bool.and_eq_true, decide_eq_true_iff]
  exact and_comm

theorem operands_eq (g : Grammar) (source : List UInt8) (routine : Tree) :
    operands g source routine
      = (routine.sites.filter fun s => s.IsOperand g).map fun s => s.tree.bytes source :=
  map_filter_nodes g routine (fun _ => isOperand_iff) (Tree.bytes source)

theorem operators_eq (g : Grammar) (routine : Tree) :
    operators g routine
      = (routine.sites.filter fun s => s.IsOperator g).map fun s => s.tree.kind :=
  map_filter_nodes g routine (fun _ => isOperator_iff) Tree.kind

/-! ### Distinct texts and kinds -/

/-- The measures of a routine from its nodes in some order. -/
def ofNodes (g : Grammar) (source : List UInt8) (nodes : List Tree) : Halstead :=
  let operators := (nodes.filter (isOperator g)).map (·.kind)
  let operands := (nodes.filter g.isOperand).map (·.bytes source)
  ofCounts operators.eraseDups.length operands.eraseDups.length operators.length operands.length

theorem ofNodes_perm {nodes others : List Tree} (h : nodes.Perm others) :
    ofNodes g source nodes = ofNodes g source others := by
  have operators := (h.filter (isOperator g)).map Tree.kind
  have operands := (h.filter g.isOperand).map (Tree.bytes source)
  rw [ofNodes, ofNodes, length_eraseDups_perm operators, length_eraseDups_perm operands,
    operators.length_eq, operands.length_eq]

/-- The operators and operands of a routine are counted where an open way leads to them: all of them
    for the totals, and those with different kinds or texts for the vocabulary. There are no more
    different ones than there are in all, and none only where there are none at all. The nodes may
    be taken in any order. -/
theorem counts_open_ways (g : Grammar) (source : List UInt8) (routine : Tree) :
    let h := Halstead.of g source routine
    let operands := routine.sites.filter fun s => s.IsOperand g
    let operators := routine.sites.filter fun s => s.IsOperator g
    h.totalOperands = operands.length ∧
    h.uniqueOperands = (operands.map fun s => s.tree.bytes source).toFinset.card ∧
    h.totalOperators = operators.length ∧
    h.uniqueOperators = (operators.map fun s => s.tree.kind).toFinset.card ∧
    h.uniqueOperators ≤ h.totalOperators ∧ h.uniqueOperands ≤ h.totalOperands ∧
    (h.uniqueOperators = 0 ↔ h.totalOperators = 0) ∧
    (h.uniqueOperands = 0 ↔ h.totalOperands = 0) ∧
    h.vocabulary ≤ h.length ∧
    (∃ met, Traversal g [⟨routine, [], []⟩] met) ∧
    ∀ met, Traversal g [⟨routine, [], []⟩] met → ofNodes g source (met.map (·.tree)) = h := by
  intro h operands operators
  have fewerOperators := length_eraseDups_le (Halstead.operators g routine)
  have fewerOperands := length_eraseDups_le (Halstead.operands g source routine)
  refine ⟨?_, ?_, ?_, ?_, fewerOperators, fewerOperands, length_eraseDups_eq_zero,
    length_eraseDups_eq_zero, Nat.add_le_add fewerOperators fewerOperands,
    Traversal.exists_met g _, fun met traversal => ?_⟩
  · exact (congrArg List.length (operands_eq g source routine)).trans (List.length_map _)
  · exact (length_eraseDups _).trans (congrArg (·.toFinset.card) (operands_eq g source routine))
  · exact (congrArg List.length (operators_eq g routine)).trans (List.length_map _)
  · exact (length_eraseDups _).trans (congrArg (·.toFinset.card) (operators_eq g routine))
  · have offered : ∀ s ∈ [(⟨routine, [], []⟩ : Site)], s.Offered g := by
      simpa using Site.offered_top g routine
    have same := (traversal.perm offered).map (·.tree)
    rw [List.flatMap_singleton] at same
    exact (ofNodes_perm same).trans (congrArg (ofNodes g source) (nodes_eq g routine).symm)

open CodeMetrics.Tree in
/-- A function whose block holds a literal with a name in it and a name. Beside the block there are
    a lambda, a bracket that is missing and a comment. -/
def functionWithGaps : Tree :=
  let name (start : Nat) : Tree := partAt "identifier" none start (start + 1) []
  partAt "function_definition" none 0 22
    [wordAt "def" 0 3, name 4,
     wordAt ")" 5 6,
     partAt "block" none 7 13 [partAt "string" none 7 11 [name 9], name 12],
     partAt "lambda" none 14 17 [name 16],
     .node { kind := "(", named := false, missing := true, start := 17, stop := 17 } [],
     .node { kind := "comment", extra := true, start := 18, stop := 22 } []]

theorem counts_open_ways_functionWithGaps :
    let source := "def f) f'f' f x:f #abc".toUTF8.toList
    let h := Halstead.of .python source functionWithGaps
    h.totalOperands = 3 ∧ h.uniqueOperands = 2 ∧ h.totalOperators = 1 ∧ h.uniqueOperators = 1 ∧
      ∃ met, Traversal .python [⟨functionWithGaps, [], []⟩] met ∧
        met.map (·.tree.kind) = ["function_definition", "block", "identifier", "string", ")",
          "identifier", "def"] ∧
        ofNodes .python source (met.map (·.tree)) = h := by
  intro source h
  obtain ⟨operands, texts, operators, kinds, -, -, -, -, -, -, anyOrder⟩ :=
    counts_open_ways .python source functionWithGaps
  -- the order of a stack, on which the last child is taken first
  have stack : Traversal .python [⟨functionWithGaps, [], []⟩]
      ([0, 4, 7, 5, 3, 2, 1].map fun k =>
        functionWithGaps.sites.getD k ⟨functionWithGaps, [], []⟩) := by
    refine .meet (.refl _) (by decide +kernel) ?_
    -- comment, bracket and lambda are passed over
    refine .pass (List.reverse_perm _).symm (by decide +kernel) ?_
    refine .pass (.refl _) (by decide +kernel) ?_
    refine .pass (.refl _) (by decide +kernel) ?_
    -- the block and what it holds; the literal is not opened
    refine .meet (.refl _) (by decide +kernel) ?_
    refine .meet (.swap _ _ _) (by decide +kernel) ?_
    refine .meet (.refl _) (by decide +kernel) ?_
    -- bracket, name and word
    refine .meet (.refl _) (by decide +kernel) ?_
    refine .meet (.refl _) (by decide +kernel) ?_
    exact .meet (.refl _) (by decide +kernel) .done
  exact ⟨operands.trans (by decide +kernel), texts.trans (by decide +kernel),
    operators.trans (by decide +kernel), kinds.trans (by decide +kernel), _, stack,
    by decide +kernel, anyOrder _ stack⟩

end Halstead

end CodeMetrics

import CodeMetrics.Measure.Abc
import CodeMetrics.Proofs.OwnCounts

/-! Decisions and conditions. The cyclomatic complexity and the conditions of a routine are found by
    different walks, one with the parts of choices and one past all that is not in the source. Both
    see the same cases, handlers, ternaries, guards and operators that leave the routine, so the two
    counts differ by what only one of them counts: choices, loops and logical operations on one
    side, comparisons and clauses for the rest on the other. -/

namespace CodeMetrics

/-! ### The nodes of a routine -/

/-- A node that is neither a routine nor in one, the outermost node around it apart. -/
def Site.isWithin (g : Grammar) (s : Site) : Bool :=
  (s.tree :: s.above).dropLast.all fun t => !g.isRoutine t

/-- A word or sign that is a comparison of the node right around it. -/
def Site.compares (g : Grammar) (s : Site) : Bool :=
  s.above.head?.any fun parent => g.isComparison parent s.tree

namespace Grammar

variable (g : Grammar)

/-- The nodes of a routine without the routines inside. -/
def sitesWithin (routine : Tree) : List Site := routine.sites.filter (Site.isWithin g)

/-- A node that is one of some constructs. -/
def isAnyOf (kinds : List Construct) (t : Tree) : Bool := (g.construct? t).any kinds.contains

/-- A tree as parsers make it: words and signs hold nothing, a clause with a condition of its own
    stands as an alternative of a choice, and what is missing or may stand anywhere holds nothing
    and is neither a construct, a routine nor a comparison. -/
structure Filled (root : Tree) : Prop where
  leaves : ∀ s ∈ root.sites, s.tree.isNamed = false → s.tree.isLeaf = true
  elseIfs : ∀ s ∈ root.sites, g.construct? s.tree = some .elseIf →
    s.tree.hasField "alternative" = true ∧ s.above.head?.bind g.construct? = some .branch
  gaps : ∀ s ∈ root.sites, s.tree.isSolid = false → s.tree.isLeaf = true ∧
    g.lists s.tree.kind = false ∧ g.comparisonOperators.any (·.2 == s.tree.kind) = false

variable {g} {root : Tree} {s u : Site}

theorem Filled.regular (filled : g.Filled root) : g.Regular root where
  leaves := filled.leaves
  elseIfs := filled.elseIfs
  extras s hs extra := by
    obtain ⟨leaf, unlisted, -⟩ := filled.gaps s hs (by simp [Tree.isSolid, extra])
    exact ⟨leaf, unlisted⟩

theorem unlisted_of_lists {t : Tree} (unlisted : g.lists t.kind = false) :
    g.construct? t = none ∧ g.isRoutine t = false := by
  rw [lists, Bool.or_eq_false_iff] at unlisted
  rcases unlisted with ⟨construct, routine⟩
  constructor
  · rw [construct?, Option.isNone_iff_eq_none.1 (Option.isSome_eq_false_iff.1 construct), ite_self]
  · rw [isRoutine, isOf, routine, Bool.and_false]

/-! ### Nodes and their children -/

/-- A child of a node of a routine is one too, unless it is a routine itself. -/
theorem isWithin_child (hu : u ∈ s.children) (within : s.isWithin g = true) :
    u.isWithin g = !g.isRoutine u.tree := by
  rw [Site.isWithin] at within
  rw [Site.isWithin, Site.above_of_mem_children hu,
    List.dropLast_cons_of_ne_nil (List.cons_ne_nil _ _), List.all_cons, within, Bool.and_true]

/-- The nodes of a routine at and below a site. -/
def withinFrom (g : Grammar) (s : Site) : List Site :=
  (s.tree.sitesFrom s.above s.way).filter (Site.isWithin g)

theorem withinFrom_eq (within : s.isWithin g = true) :
    g.withinFrom s = s :: s.children.flatMap g.withinFrom := by
  rw [withinFrom, Tree.sitesFrom_site, List.filter_cons_of_pos within, List.filter_flatMap]
  rfl

/-- A routine inside holds no nodes of the routine around it. -/
theorem withinFrom_of_isRoutine (hu : u ∈ s.children) (inner : g.isRoutine u.tree = true) :
    g.withinFrom u = [] := by
  refine List.filter_eq_nil_iff.2 fun v hv within => ?_
  obtain ⟨front, split⟩ := Site.around_suffix hv
  rw [Site.above_of_mem_children hu] at split
  rw [Site.isWithin, ← split, List.dropLast_append_of_ne_nil (List.cons_ne_nil _ _),
    List.dropLast_cons_of_ne_nil (List.cons_ne_nil _ _), List.all_append, List.all_cons, inner]
    at within
  simp at within

/-- What holds of the children that are routines, and of any other child where it holds of the
    children below, holds of all children of the nodes of a routine. -/
@[elab_as_elim] theorem within_induct {P : Site → Site → Prop}
    (inner : ∀ s u, u ∈ s.children → g.isRoutine u.tree = true → P s u)
    (node : ∀ s u, u ∈ s.children → g.isRoutine u.tree = false → u.isWithin g = true →
      (∀ v ∈ u.children, P u v) → P s u)
    (within : s.isWithin g = true) (hu : u ∈ s.children) : P s u := by
  have all : ∀ t : Tree, ∀ s : Site, s.isWithin g = true → ∀ u ∈ s.children, u.tree = t →
      P s u := by
    intro t
    induction t using Tree.induct with
    | node label children ih =>
      rintro s within u hu tree
      cases routine : g.isRoutine u.tree with
      | true => exact inner s u hu routine
      | false =>
        have within' : u.isWithin g = true := by rw [isWithin_child hu within, routine]; rfl
        refine node s u hu routine within' fun v hv => ?_
        have mem : v.tree ∈ children := by
          rw [← Tree.children_node label children, ← tree, ← Site.map_tree_children u]
          exact List.mem_map_of_mem hv
        exact ih v.tree mem u within' v hv rfl
  exact all u.tree s within u hu rfl

theorem isWithin_top (g : Grammar) (routine : Tree) :
    Site.isWithin g ⟨routine, [], []⟩ = true := rfl

theorem sitesWithin_eq (g : Grammar) (routine : Tree) :
    g.sitesWithin routine = g.withinFrom ⟨routine, [], []⟩ := rfl

/-- The nodes of a routine are nodes of the tree that it stands in. -/
theorem exists_site_of_mem_sitesWithin (hs : s ∈ root.sites) (hu : u ∈ g.sitesWithin s.tree) :
    ∃ v ∈ root.sites, v.tree = u.tree :=
  ⟨_, Tree.mem_sites_append hs (List.mem_filter.1 hu).1, rfl⟩

/-! ### Nodes as trees -/

theorem map_tree_withinFrom (within : s.isWithin g = true) (hu : u ∈ s.children) :
    (g.withinFrom u).map (·.tree) = (g.own u.tree).filter fun c => !g.isRoutine c := by
  refine within_induct ?_ ?_ within hu
  · intro s u hu inner
    rw [withinFrom_of_isRoutine hu inner, own_eq, inner]
    simp [inner]
  · intro s u hu outer within below
    rw [withinFrom_eq within, List.map_cons, List.map_flatMap, List.flatMap_congr below, own_eq,
      outer, if_neg Bool.false_ne_true, List.filter_cons_of_pos (by simp [outer]), inside,
      ← Site.map_tree_children u, List.flatMap_map, List.filter_flatMap]

theorem map_tree_sitesWithin (g : Grammar) (routine : Tree) :
    (g.sitesWithin routine).map (·.tree)
      = routine :: (g.inside routine).filter fun c => !g.isRoutine c := by
  have within := isWithin_top g routine
  have below : ∀ u ∈ Site.children ⟨routine, [], []⟩, (g.withinFrom u).map (·.tree)
      = (g.own u.tree).filter fun c => !g.isRoutine c := fun u => map_tree_withinFrom within
  rw [sitesWithin_eq, withinFrom_eq within, List.map_cons, List.map_flatMap,
    List.flatMap_congr below, inside, ← Site.map_tree_children ⟨routine, [], []⟩, List.flatMap_map,
    List.filter_flatMap]

/-- What no routine is, is counted among the nodes of a routine as among its own nodes. -/
theorem countP_sitesWithin {has : Tree → Bool} (without : ∀ t, g.isRoutine t = true → has t = false)
    {routine : Tree} (top : g.isRoutine routine = true) :
    (g.sitesWithin routine).countP (fun u => has u.tree) = (g.inside routine).countP has := by
  calc (g.sitesWithin routine).countP (fun u => has u.tree)
      = ((g.sitesWithin routine).map (·.tree)).countP has := List.countP_map.symm
    _ = (g.inside routine).countP has := by
      rw [map_tree_sitesWithin, List.countP_cons_of_neg (by simp [without _ top]),
        List.countP_filter]
      refine List.countP_congr fun t _ => ?_
      cases inner : g.isRoutine t <;> simp [without, inner]

/-! ### Comparisons, by word and by node -/

/-- The comparisons that some nodes make, with the words and signs that are not in the source. -/
def comparisonsOf (g : Grammar) (sites : List Site) : ℕ :=
  sumOf (sites.map fun u => u.tree.children.countP (g.isComparison u.tree))

theorem comparisonsOf_cons (s : Site) (sites : List Site) : g.comparisonsOf (s :: sites)
    = s.tree.children.countP (g.isComparison s.tree) + g.comparisonsOf sites := rfl

theorem comparisonsOf_append (xs ys : List Site) :
    g.comparisonsOf (xs ++ ys) = g.comparisonsOf xs + g.comparisonsOf ys := by
  simp [comparisonsOf]

/-- Below a node, a word that compares is counted once by the node right around it. -/
theorem countP_compares_children
    (ih : ∀ u ∈ s.children, (g.withinFrom u).countP (Site.compares g)
      = (if g.isComparison s.tree u.tree then 1 else 0) + g.comparisonsOf (g.withinFrom u)) :
    (s.children.flatMap g.withinFrom).countP (Site.compares g)
      = s.tree.children.countP (g.isComparison s.tree)
        + g.comparisonsOf (s.children.flatMap g.withinFrom) := by
  rw [← Site.map_tree_children s, List.countP_map]
  generalize s.children = us at ih
  induction us with
  | nil => rfl
  | cons u us rest =>
    obtain ⟨here, others⟩ := List.forall_mem_cons.1 ih
    rw [List.flatMap_cons, List.countP_append, comparisonsOf_append, here, rest others,
      List.countP_cons, Function.comp_apply]
    omega

theorem countP_compares_from (within : s.isWithin g = true) (hu : u ∈ s.children) :
    (g.withinFrom u).countP (Site.compares g)
      = (if g.isComparison s.tree u.tree then 1 else 0) + g.comparisonsOf (g.withinFrom u) := by
  refine within_induct ?_ ?_ within hu
  · intro s u hu inner
    have named : u.tree.isNamed = true := by
      rw [isRoutine, isOf, Bool.and_eq_true] at inner
      exact inner.1
    rw [withinFrom_of_isRoutine hu inner]
    simp [isComparison, named, comparisonsOf]
  · intro s u hu _ within below
    have here : u.compares g = g.isComparison s.tree u.tree := by
      rw [Site.compares, Site.above_of_mem_children hu]
      rfl
    rw [withinFrom_eq within, List.countP_cons, comparisonsOf_cons, countP_compares_children below,
      here]
    omega

/-- The words of a routine that compare are the comparisons that its nodes make. -/
theorem countP_compares (g : Grammar) (routine : Tree) :
    (g.sitesWithin routine).countP (Site.compares g) = g.comparisonsOf (g.sitesWithin routine) := by
  have within := isWithin_top g routine
  rw [sitesWithin_eq, withinFrom_eq within, List.countP_cons_of_neg (by simp [Site.compares]),
    comparisonsOf_cons, countP_compares_children fun u => countP_compares_from within]

/-! ### The walk for conditions -/

section Walk

variable (filled : g.Filled root)

include filled

theorem Filled.isLeaf_of_not_entered (hs : s ∈ root.sites)
    (out : (s.tree.isNamed && s.tree.isSolid) = false) : s.tree.isLeaf = true := by
  rcases Bool.and_eq_false_iff.1 out with unnamed | gap
  · exact filled.leaves s hs unnamed
  · exact (filled.gaps s hs gap).1

/-- What the walk passes over makes no condition. -/
theorem Filled.conditionsAt_of_not_entered (hs : s ∈ root.sites)
    (out : (s.tree.isNamed && s.tree.isSolid) = false) : Abc.conditionsAt g s.tree = 0 := by
  have leaf := filled.isLeaf_of_not_entered hs out
  have construct : g.construct? s.tree = none := by
    rcases Bool.and_eq_false_iff.1 out with unnamed | gap
    · simp [construct?, unnamed]
    · exact (unlisted_of_lists (filled.gaps s hs gap).2.1).1
  have childless : s.tree.children = [] := List.isEmpty_iff.1 leaf
  simp [Abc.conditionsAt, Abc.isCondition, Abc.comparisons, construct, childless,
    (plain_of_isLeaf (g := g) leaf).2]

/-- The walk finds the conditions of all nodes of a routine. -/
theorem Filled.sumOf_walk (t : Tree) : ∀ s ∈ root.sites, s.tree = t →
    sumOf ((t.walk (Abc.enters g)).map (Abc.conditionsAt g)) = Abc.conditionsAt g t
      + sumOf (((g.inside t).filter fun c => !g.isRoutine c).map (Abc.conditionsAt g)) := by
  induction t using Tree.induct with
  | node label children ih =>
    rintro s hs tree
    have child : ∀ c ∈ children, sumOf ((if Abc.enters g s.tree c then c.walk (Abc.enters g)
        else []).map (Abc.conditionsAt g))
        = sumOf (((g.own c).filter fun c => !g.isRoutine c).map (Abc.conditionsAt g)) := by
      intro c hc
      obtain ⟨i, site⟩ := Tree.exists_site_of_child hs (by rw [tree]; exact hc)
      -- a routine inside, a node that the walk enters, or a leaf that it passes over
      cases inner : g.isRoutine c with
      | true => simp [Abc.enters, own_eq, inner]
      | false =>
        cases out : c.isNamed && c.isSolid with
        | true =>
          rw [Abc.enters, out, inner, Bool.not_false, Bool.and_true, if_pos rfl,
            ih c hc _ site rfl, own_eq, inner, if_neg Bool.false_ne_true,
            List.filter_cons_of_pos (by simp [inner]), List.map_cons, sumOf_cons]
        | false =>
          have leaf : c.isLeaf = true := filled.isLeaf_of_not_entered site out
          have nothing : Abc.conditionsAt g c = 0 := filled.conditionsAt_of_not_entered site out
          rw [own_of_isLeaf leaf]
          simp [Abc.enters, out, inner, nothing]
    rw [Tree.walk_eq, List.map_cons, sumOf_cons, List.map_flatMap, sumOf_flatMap, inside,
      List.filter_flatMap, List.map_flatMap, sumOf_flatMap, Tree.children_node, ← tree]
    exact congrArg (_ + sumOf ·) (List.map_congr_left child)

/-- The words that compare are in the source. -/
theorem Filled.comparisons_eq (hs : s ∈ root.sites) :
    Abc.comparisons g s.tree = s.tree.children.countP (g.isComparison s.tree) := by
  refine List.countP_congr fun c hc => ?_
  obtain ⟨i, site⟩ := Tree.exists_site_of_child hs hc
  cases solid : c.isSolid with
  | true => simp
  | false =>
    have unlisted := (filled.gaps _ site solid).2.2
    have no : g.isComparison s.tree c = false := by
      rw [isComparison, Bool.and_eq_false_iff]
      refine Or.inr (Bool.eq_false_iff.2 fun listed => ?_)
      exact List.any_eq_false.1 unlisted _ (List.contains_iff_mem.1 listed) (by simp [Site.down])
    simp [no]

theorem Filled.isSolid (hs : s ∈ root.sites) (routine : g.isRoutine s.tree = true) :
    s.tree.isSolid = true := by
  by_contra gap
  have unlisted := (filled.gaps s hs (Bool.eq_false_iff.2 gap)).2.1
  rw [(unlisted_of_lists unlisted).2] at routine
  cases routine

end Walk

/-! ### Decisions and conditions of a routine -/

/-- A node that is a decision is a condition, a choice, a loop or a logical operation, and a node
    that is a condition is a decision or a clause for the rest. -/
theorem decision_or_condition (apart : g.Apart) {t : Tree}
    (leaf : t.isNamed = false → t.isLeaf = true) :
    (if g.isDecision t then 1 else 0) + (if g.isAnyOf [.otherwise] t then 1 else 0)
      = (if Abc.isCondition g t then 1 else 0) + (if g.isAnyOf [.branch, .elseIf] t then 1 else 0)
        + (if g.isAnyOf [.loop] t then 1 else 0)
        + (if (g.logicalOperator? t).isSome then 1 else 0) := by
  rw [isDecision, isAnyOf, isAnyOf, isAnyOf, Abc.isCondition]
  cases construct : g.construct? t with
  | some kind =>
    obtain ⟨logical, guarded⟩ := apart.construct t kind construct
    rw [isNamed_of_construct? construct, logical, guarded]
    cases kind <;> rfl
  | none =>
    cases named : t.isNamed with
    | false =>
      obtain ⟨logical, guarded⟩ := plain_of_isLeaf (g := g) (leaf named)
      simp [logical, guarded]
    | true =>
      cases logical : (g.logicalOperator? t).isSome with
      | true => simp [apart.logical t logical]
      | false => simp

theorem countP_decision_or_condition (apart : g.Apart) {sites : List Site}
    (leaves : ∀ u ∈ sites, u.tree.isNamed = false → u.tree.isLeaf = true) :
    sites.countP (fun u => g.isDecision u.tree)
        + sites.countP (fun u => g.isAnyOf [.otherwise] u.tree)
      = sites.countP (fun u => Abc.isCondition g u.tree)
        + sites.countP (fun u => g.isAnyOf [.branch, .elseIf] u.tree)
        + sites.countP (fun u => g.isAnyOf [.loop] u.tree)
        + sites.countP (fun u => (g.logicalOperator? u.tree).isSome) := by
  induction sites with
  | nil => rfl
  | cons u sites ih =>
    obtain ⟨leaf, others⟩ := List.forall_mem_cons.1 leaves
    have here := decision_or_condition apart leaf
    have rest := ih others
    simp only [List.countP_cons]
    omega

theorem sumOf_conditionsAt (sites : List Site)
    (solid : ∀ u ∈ sites,
      Abc.comparisons g u.tree = u.tree.children.countP (g.isComparison u.tree)) :
    sumOf (sites.map fun u => Abc.conditionsAt g u.tree)
      = sites.countP (fun u => Abc.isCondition g u.tree) + g.comparisonsOf sites := by
  induction sites with
  | nil => rfl
  | cons u sites ih =>
    obtain ⟨here, others⟩ := List.forall_mem_cons.1 solid
    rw [List.map_cons, sumOf_cons, ih others, List.countP_cons, comparisonsOf_cons, ← here,
      Abc.conditionsAt]
    omega

/-- The decisions of a routine are counted among its nodes. -/
theorem Filled.cyclomatic_eq (apart : g.Apart) (filled : g.Filled root) (hs : s ∈ root.sites)
    (routine : g.isRoutine s.tree = true) : (Complexity.of g s.tree).cyclomatic
      = 1 + (g.sitesWithin s.tree).countP fun u => g.isDecision u.tree := by
  have without : ∀ t, g.isRoutine t = true → g.isDecision t = false := by
    intro t inner
    obtain ⟨construct, logical, guarded⟩ := apart.routine t inner
    simp [isDecision, construct, logical, guarded]
  rw [Complexity.cyclomatic_eq apart filled.regular hs, countP_sitesWithin without routine]

/-- The conditions of a routine are counted among its nodes, too. -/
theorem Filled.conditions_eq (filled : g.Filled root) (hs : s ∈ root.sites)
    (routine : g.isRoutine s.tree = true) : (Abc.of g s.tree).conditions
      = (g.sitesWithin s.tree).countP (fun u => Abc.isCondition g u.tree)
        + (g.sitesWithin s.tree).countP (Site.compares g) := by
  have solid : ∀ u ∈ g.sitesWithin s.tree,
      Abc.comparisons g u.tree = u.tree.children.countP (g.isComparison u.tree) := by
    intro u hu
    obtain ⟨v, hv, tree⟩ := exists_site_of_mem_sitesWithin hs hu
    rw [← tree, filled.comparisons_eq hv]
  calc (Abc.of g s.tree).conditions
      = sumOf ((s.tree.walk (Abc.enters g)).map (Abc.conditionsAt g)) := by
        rw [Abc.of, Abc.nodes, if_pos (filled.isSolid hs routine)]
        rfl
    _ = sumOf (((g.sitesWithin s.tree).map (·.tree)).map (Abc.conditionsAt g)) := by
        rw [filled.sumOf_walk s.tree s hs rfl, map_tree_sitesWithin]
        rfl
    _ = _ := by
        rw [List.map_map, countP_compares]
        exact sumOf_conditionsAt _ solid

end Grammar

/-- The cyclomatic complexity and the conditions of a routine agree on what both count: they differ
    by the comparisons and the clauses for the rest, which are conditions only, and by the choices,
    loops and logical operations, which are decisions only. -/
theorem conditions_share_decisions (l : Language) (root : Tree) (filled : l.grammar.Filled root)
    (s : Site) (hs : s ∈ root.sites) (routine : l.grammar.isRoutine s.tree = true) :
    let g := l.grammar
    let sites := g.sitesWithin s.tree
    (Complexity.of g s.tree).cyclomatic + sites.countP (Site.compares g)
        + sites.countP (fun u => g.isAnyOf [.otherwise] u.tree)
      = (Abc.of g s.tree).conditions + 1
        + sites.countP (fun u => g.isAnyOf [.branch, .elseIf] u.tree)
        + sites.countP (fun u => g.isAnyOf [.loop] u.tree)
        + sites.countP (fun u => (g.logicalOperator? u.tree).isSome) := by
  intro g sites
  have leaves : ∀ u ∈ sites, u.tree.isNamed = false → u.tree.isLeaf = true := by
    intro u hu
    obtain ⟨v, hv, tree⟩ := Grammar.exists_site_of_mem_sitesWithin hs hu
    rw [← tree]
    exact filled.leaves v hv
  have decisions : (Complexity.of g s.tree).cyclomatic
      = 1 + sites.countP fun u => g.isDecision u.tree := filled.cyclomatic_eq l.apart hs routine
  have conditions : (Abc.of g s.tree).conditions
      = sites.countP (fun u => Abc.isCondition g u.tree) + sites.countP (Site.compares g) :=
    filled.conditions_eq hs routine
  have balance := Grammar.countP_decision_or_condition (g := g) l.apart leaves
  omega

open CodeMetrics.Tree in
/-- A loop over a choice of two comparisons at once, with a clause for the rest that holds a lambda
    with a comparison of its own, and a word that is missing. -/
def comparingLoop : Tree :=
  let name := part "identifier" none []
  let compares (field : String) : Tree := part "binary_expression" (some field)
    [part "identifier" (some "left") [],
     .node { kind := "<", field := some "operator", named := false } [],
     part "identifier" (some "right") []]
  let both := part "binary_expression" (some "condition")
    [compares "left", .node { kind := "&&", field := some "operator", named := false } [],
     compares "right"]
  let lambda := part "closure_expression" none [part "closure_parameters" (some "parameters") [],
    compares "body"]
  let choice := part "if_expression" none
    [word "if", both,
     part "block" (some "consequence") [part "try_expression" none [name, word "?"]],
     part "else_clause" (some "alternative") [word "else", part "block" none [lambda]]]
  part "source_file" none
    [part "function_item" none
      [word "fn", part "identifier" (some "name") [],
       part "block" (some "body")
        [part "loop_expression" none [word "loop", part "block" (some "body") [choice]],
         .node { kind := ";", named := false, missing := true } []]]]

theorem conditions_share_decisions_comparingLoop :
    let s : Site := ⟨comparingLoop.children.headD comparingLoop, [comparingLoop], [0]⟩
    Grammar.rust.Filled comparingLoop ∧ s ∈ comparingLoop.sites ∧
      Grammar.rust.isRoutine s.tree = true ∧
      (Grammar.rust.sitesWithin s.tree).countP (Site.compares .rust) = 2 ∧
      (Complexity.of .rust s.tree).cyclomatic + 2 + 1
        = (Abc.of .rust s.tree).conditions + 1 + 1 + 1 + 1 := by
  intro s
  have filled : Grammar.rust.Filled comparingLoop :=
    ⟨by decide +kernel, by decide +kernel, by decide +kernel⟩
  have mem : s ∈ comparingLoop.sites :=
    Tree.mem_sites_of_child (Tree.self_mem_sitesFrom [] [] comparingLoop) rfl
  have routine : Grammar.rust.isRoutine s.tree = true := by decide +kernel
  have comparisons : (Grammar.rust.sitesWithin s.tree).countP (Site.compares .rust) = 2 := by
    decide +kernel
  have shared := conditions_share_decisions .rust comparingLoop filled s mem routine
  refine ⟨filled, mem, routine, comparisons, ?_⟩
  convert shared using 2 <;> decide +kernel

end CodeMetrics

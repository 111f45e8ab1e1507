import CodeMetrics.Proofs.Padded
import CodeMetrics.Proofs.Paths

/-! Cognitive complexity and nesting depth as sums over paths.

    Each own node of a routine adds an amount that its construct and the path to it tell. The walk
    visits the nodes with the places that their paths tell, so it scores these amounts, and what it
    leaves out adds nothing. -/

namespace CodeMetrics

/-! ### What a node adds, by its path -/

namespace Site

open Complexity (goesOn)

variable (g : Grammar)

/-- What a node adds to the cognitive complexity of a routine. An alternative that is no clause
    counts once more, for the `else` that is not there. -/
def weight (routine : Tree) (s : Site) : Nat :=
  (if s.isAlternative g && !isChoice g s.tree then 1 else 0) +
  match g.construct? s.tree with
  | some .switch | some .loop | some .handler | some .ternary => 1 + s.nesting g
  | some .branch => if s.continuesChain g then 1 else 1 + s.nesting g
  | some .elseIf => if s.isAlternative g then 1 else 0
  | some .otherwise => if s.isAlternative g && !goesOn g s.tree then 1 else 0
  | some .guard => 1
  | some .exit => if s.ends g routine then 0 else 1
  | some .jump => if s.tree.children.any g.isLabel then 1 else 0
  | some .case | some .tryOperator => 0
  | none => (if s.startsRun g then 1 else 0) + if g.isGuarded s.tree then 1 else 0

/-- The depth of nested blocks that a node reaches. -/
def reach (s : Site) : Nat :=
  match g.construct? s.tree with
  | some .branch | some .switch | some .loop | some .handler => s.depth g + 1
  | _ => 0

/-- A named node inside the outermost node around it, and in no routine in between. -/
def isOwn (s : Site) : Bool :=
  s.tree.isNamed && !s.above.isEmpty && s.above.dropLast.all fun t => !g.isRoutine t

end Site

namespace Grammar

/-- The named nodes of a routine that are in no routine inside it. -/
def ownSites (g : Grammar) (routine : Tree) : List Site := routine.sites.filter (Site.isOwn g)

/-- A tree in which words and signs hold nothing, an alternative of a choice is named and no routine,
    and what may stand anywhere holds nothing and is neither a construct nor a routine. -/
structure Orderly (g : Grammar) (root : Tree) : Prop where
  leaves : ∀ s ∈ root.sites, s.tree.isNamed = false → s.tree.isLeaf = true
  alternatives : ∀ s ∈ root.sites, s.isAlternative g = true →
    s.tree.isNamed = true ∧ g.isRoutine s.tree = false
  extras : ∀ s ∈ root.sites, s.tree.label.extra = true →
    s.tree.isLeaf = true ∧ g.lists s.tree.kind = false

/-- What stands in an orderly tree is orderly. -/
theorem Orderly.below {g : Grammar} {root : Tree} (orderly : g.Orderly root) {s : Site}
    (hs : s ∈ root.sites) : g.Orderly s.tree where
  leaves u hu := (orderly.leaves _ (Tree.mem_sites_append hs hu) :)
  alternatives u hu h := by
    have there := orderly.alternatives _ (Tree.mem_sites_append hs hu)
    refine there ?_
    -- a node that is an alternative has a node around it inside the tree
    rw [Site.isAlternative] at h ⊢
    cases above : u.above with
    | nil => simp [above] at h
    | cons parent rest => simpa [above] using h
  extras u hu := (orderly.extras _ (Tree.mem_sites_append hs hu) :)

end Grammar

namespace Complexity

variable {g : Grammar} {routine : Tree}

/-! ### What a visit scores -/

section Adds

variable {s : Site} {p : Place}

theorem plainScore_of_construct (apart : g.Apart) {t : Tree} {k : Construct}
    (h : g.construct? t = some k) : (plainScore g t p).cognitive = 0 := by
  obtain ⟨logical, guarded⟩ := apart.construct t k h
  simp [plainScore, logical, guarded]

/-- What a node adds that goes on with no choice: once more where it is an alternative. -/
theorem weight_eq_statementScore (apart : g.Apart) (placed : PlacedAt g routine s p)
    (alternative : s.isAlternative g = true → Site.isChoice g s.tree = false)
    (chained : g.construct? s.tree = some .branch → s.continuesChain g = false) :
    s.weight g routine
      = (if s.isAlternative g then 1 else 0) + (statementScore g s.tree p).cognitive := by
  have bare : (s.isAlternative g && !Site.isChoice g s.tree) = s.isAlternative g := by
    cases h : s.isAlternative g with
    | true => rw [alternative h]; rfl
    | false => rfl
  rw [Site.weight, bare, statementScore]
  congr 1
  cases hc : g.construct? s.tree with
  | none => simp [plainScore, Site.startsRun, placed.run]
  | some k =>
    cases k with
    | branch => simp [chained hc, placed.nesting]
    | elseIf | otherwise =>
      have outside : s.isAlternative g = false := Bool.eq_false_iff.2 fun h => by
        have := alternative h
        simp [Site.isChoice, hc] at this
      simp [outside, plainScore_of_construct apart hc]
    | exit =>
      by_cases tail : p.flow = .tail
      · simp [placed.ends.2 tail, tail]
      · simp [Bool.eq_false_iff.2 (mt placed.ends.1 tail), tail]
    | switch | loop | handler | ternary => simp [placed.nesting]
    | guard | jump | case | tryOperator => rfl

theorem reach_eq_statementScore (placed : PlacedAt g routine s p) :
    s.reach g = (statementScore g s.tree p).reach := by
  rw [Site.reach, statementScore]
  cases g.construct? s.tree with
  | none => rfl
  | some k =>
    cases k with
    | branch | switch | loop | handler => simp [placed.depth]
    | _ => rfl

/-- A routine adds nothing to the routine around it. -/
theorem weight_of_isRoutine (apart : g.Apart) (routine : Tree) (h : g.isRoutine s.tree = true)
    (outside : s.isAlternative g = false) : s.weight g routine = 0 ∧ s.reach g = 0 := by
  obtain ⟨construct, logical, guarded⟩ := apart.routine _ h
  constructor
  · simp [Site.weight, Site.startsRun, construct, logical, guarded, outside]
  · simp [Site.reach, construct]

/-- A node adds what its path tells. -/
theorem score_eq (apart : g.Apart) (placed : PlacedAt g routine s p)
    (alternative : s.isAlternative g = true → g.isRoutine s.tree = false) :
    (score g ⟨s.tree, p⟩).cognitive = s.weight g routine ∧
      (score g ⟨s.tree, p⟩).reach = s.reach g := by
  have role := placed.role
  rw [roleOf] at role
  rw [score]
  cases alt : s.isAlternative g with
  | true =>
    rw [alt, if_pos rfl] at role
    split at role
    · next hc =>
      simp [role, Site.weight, Site.reach, alt, hc, Site.isChoice, Site.continuesChain, placed.depth]
    · next hc => simp [role, Site.weight, Site.reach, alt, hc, Site.isChoice]
    · next hc =>
      simp only [role, Site.weight, Site.reach, alt, hc, Site.isChoice]
      cases goesOn g s.tree <;> simp
    · next branch elseIf otherwise =>
      have bare : Site.isChoice g s.tree = false := by
        simpa [Site.isChoice] using ⟨⟨branch, elseIf⟩, otherwise⟩
      rw [weight_eq_statementScore apart placed (fun _ => bare) fun h => absurd h branch,
        reach_eq_statementScore placed]
      simp [role, alt, alternative alt]
  | false =>
    cases chained : s.inChainedElse g with
    | true =>
      rw [alt, chained] at role
      have hc := placed.chained role
      simp [role, Site.weight, Site.reach, alt, hc, Site.continuesChain, chained, placed.depth]
    | false =>
      rw [alt, chained] at role
      cases inner : g.isRoutine s.tree with
      | true => simp [role, weight_of_isRoutine apart routine inner alt]
      | false =>
        rw [weight_eq_statementScore apart placed (by simp [alt])
          fun _ => by simp [Site.continuesChain, alt, chained], reach_eq_statementScore placed]
        simp [role, alt]

end Adds

/-! ### The walk and the nodes of a routine -/

section Walk

variable {s : Site} {p : Place}

/-- A visit and a node, where the visit scores what the node adds. -/
def Scores (g : Grammar) (routine : Tree) (v : Visit) (s : Site) : Prop :=
  (score g v).cognitive = s.weight g routine ∧ (score g v).reach = s.reach g

/-- A node that adds nothing. -/
def Silent (g : Grammar) (routine : Tree) (s : Site) : Prop :=
  s.weight g routine = 0 ∧ s.reach g = 0

/-- The visits score what the own nodes of the routine add, and the nodes without a visit add
    nothing. -/
abbrev Covers (g : Grammar) (routine : Tree) (visits : List Visit) (sites : List Site) : Prop :=
  Padded (Scores g routine) (Silent g routine) visits (sites.filter (Site.isOwn g))

/-- What a routine inside holds are no own nodes. -/
theorem filter_isOwn_of_isRoutine (inner : s.above ≠ []) (h : g.isRoutine s.tree = true) :
    (Tree.sitesAmong (s.tree :: s.above) s.way 0 s.tree.children).filter (Site.isOwn g) = [] := by
  refine List.filter_eq_nil_iff.2 fun u hu own => ?_
  obtain ⟨i, c, _, hu⟩ := Tree.mem_sitesAmong.1 hu
  obtain ⟨before, after⟩ := Tree.above_suffix hu
  rw [Site.isOwn, Bool.and_eq_true, ← after, List.dropLast_append_of_ne_nil (List.cons_ne_nil _ _),
    List.dropLast_cons_of_ne_nil inner, List.all_append, List.all_cons, h] at own
  simp at own

theorem sitesFrom_of_isLeaf {t : Tree} (h : t.isLeaf = true) (above : List Tree) (way : List Nat) :
    t.sitesFrom above way = [⟨t, above, way⟩] := by
  rw [Tree.sitesFrom_eq, List.isEmpty_iff.1 h, Tree.sitesAmong]

/-- A named child that is not entered may stand anywhere, and the clause around it holds nothing
    else but a choice. -/
theorem extra_of_not_entered {index : Nat} {c : Tree} (named : c.isNamed = true)
    (h : isEntered g (s.down index c) = false) :
    c.label.extra = true ∧ g.construct? s.tree = some .otherwise := by
  rw [isEntered, tree_down, named, Bool.true_and, Bool.or_eq_false_iff, Bool.not_eq_false',
    inChainedElse_down, Bool.and_eq_true, Bool.and_eq_true, Tree.isPart, named, Bool.true_and,
    Bool.not_eq_false'] at h
  exact ⟨h.2, eq_of_beq h.1.1.1⟩

/-- What may stand anywhere adds nothing, unless it is an alternative. -/
theorem silent_of_extra (orderly : g.Orderly routine) (hs : s ∈ routine.sites)
    (extra : s.tree.label.extra = true) (outside : s.isAlternative g = false) :
    Silent g routine s := by
  obtain ⟨leaf, unlisted⟩ := orderly.extras s hs extra
  obtain ⟨logical, guarded⟩ := Grammar.plain_of_isLeaf (g := g) leaf
  have construct : g.construct? s.tree = none := by
    rw [Grammar.lists, Bool.or_eq_false_iff] at unlisted
    rw [Grammar.construct?, Option.isNone_iff_eq_none.1 (Option.isSome_eq_false_iff.1 unlisted.1),
      ite_self]
  constructor
  · simp [Site.weight, Site.startsRun, construct, logical, guarded, outside]
  · simp [Site.reach, construct]

theorem covers_of_not_entered (orderly : g.Orderly routine) {index : Nat} {c : Tree}
    (hu : s.down index c ∈ routine.sites) (h : isEntered g (s.down index c) = false) :
    Covers g routine [] (c.sitesFrom (s.down index c).above (s.down index c).way) := by
  cases named : c.isNamed with
  | false =>
    have leaf : c.isLeaf = true := orderly.leaves _ hu named
    rw [Covers, sitesFrom_of_isLeaf leaf, List.filter_cons_of_neg (by simp [Site.isOwn, named])]
    exact .nil
  | true =>
    obtain ⟨extra, otherwise⟩ := extra_of_not_entered named h
    have leaf : c.isLeaf = true := (orderly.extras _ hu extra).1
    have silent := silent_of_extra orderly hu extra (by simp [isAlternative_down, otherwise])
    rw [Covers, sitesFrom_of_isLeaf leaf, List.filter_cons]
    split
    · exact .put silent .nil
    · exact .nil

/-- A named child of an own node that is no routine is an own node. -/
theorem isOwn_down (own : s.isOwn g = true) (h : g.isRoutine s.tree = false) (index : Nat) {c : Tree}
    (named : c.isNamed = true) : (s.down index c).isOwn g = true := by
  simp only [Site.isOwn, Bool.and_eq_true, Bool.not_eq_true'] at own ⊢
  obtain ⟨⟨_, inner⟩, clear⟩ := own
  have ne : s.above ≠ [] := fun top => by rw [top] at inner; cases inner
  refine ⟨⟨named, rfl⟩, ?_⟩
  rw [Site.down, List.dropLast_cons_of_ne_nil ne, List.all_cons, h, clear]
  rfl

/-- The visits among the children of a site cover what it holds, if those from each child cover
    what is below it. -/
theorem covers_among (orderly : g.Orderly routine) (hs : s ∈ routine.sites)
    (placed : PlacedAt g routine s p) (inner : s.above ≠ [] → g.isRoutine s.tree = false)
    (own : ∀ i c, c.isNamed = true → (s.down i c).isOwn g = true)
    (ih : ∀ c ∈ s.tree.children, ∀ u ∈ routine.sites, u.tree = c → u.isOwn g = true →
      ∀ q, PlacedAt g routine u q →
        Covers g routine (visitsFrom g q c) (c.sitesFrom u.above u.way)) :
    ∀ earlier later, s.tree.children = earlier.reverse ++ later →
      Covers g routine (visitsAmong g s.tree p earlier later)
        (Tree.sitesAmong (s.tree :: s.above) s.way earlier.length later)
  | earlier, [], _ => by rw [visitsAmong, Tree.sitesAmong]; exact .nil
  | earlier, c :: later, split => by
    have rest := covers_among orderly hs placed inner own ih (c :: earlier) later
      (by rw [split, List.reverse_cons, List.append_assoc]; rfl)
    have there := getElem?_of_split split
    have hu := Tree.mem_sites_of_child hs there
    rw [visitsAmong_cons, Tree.sitesAmong, Covers, List.filter_append]
    refine .append ?_ rest
    cases entered : isEntered g (s.down earlier.length c) with
    | true =>
      have named : c.isNamed = true := (Bool.and_eq_true _ _ ▸ entered : _ ∧ _).1
      obtain ⟨q, place, placed⟩ := placedAt_down placed split inner (fun _ => named) entered
      rw [place]
      exact ih c (List.mem_of_getElem? there) _ hu rfl (own _ _ named) q placed
    | false =>
      have none : placeOf? g s.tree p earlier c later = none := by
        rw [placeOf?, placed.role, enter?_eq split fun h => (orderly.alternatives _ hu h).1,
          entryAt?, entered]
        rfl
      rw [none]
      exact covers_of_not_entered orderly hu entered

/-- The visits from a node cover the own nodes at and below it. -/
theorem covers_from (apart : g.Apart) (orderly : g.Orderly routine) (t : Tree) :
    ∀ u ∈ routine.sites, u.tree = t → u.isOwn g = true → ∀ q, PlacedAt g routine u q →
      Covers g routine (visitsFrom g q t) (t.sitesFrom u.above u.way) := by
  induction t using Tree.induct with
  | node label children ih =>
    rintro u hu tree own q placed
    have here : Scores g routine ⟨u.tree, q⟩ u :=
      score_eq apart placed fun h => (orderly.alternatives u hu h).2
    have inner : u.above ≠ [] := fun top => by simp [Site.isOwn, top] at own
    rw [← tree, visitsFrom_eq, Tree.sitesFrom_eq, Covers, List.filter_cons_of_pos own]
    refine .keep here ?_
    cases nested : g.isRoutine u.tree with
    | true =>
      rw [filter_isOwn_of_isRoutine inner nested]
      exact .nil
    | false =>
      exact covers_among orderly hu placed (fun _ => nested)
        (fun i _ named => isOwn_down own nested i named) (by rw [tree]; exact ih) [] _ rfl

/-- The walk of a routine covers its own nodes. -/
theorem covers_visits (apart : g.Apart) (orderly : g.Orderly routine) :
    Padded (Scores g routine) (Silent g routine) (visits g routine) (g.ownSites routine) := by
  have top : (⟨routine, [], []⟩ : Site) ∈ routine.sites := Tree.self_mem_sitesFrom _ _ _
  rw [Grammar.ownSites, Tree.sites, Tree.sitesFrom_eq, List.filter_cons_of_neg (by simp [Site.isOwn])]
  exact covers_among orderly top placedAt_start (fun h => absurd rfl h)
    (fun i c named => by simp [Site.isOwn, Site.down, named])
    (fun c _ => covers_from apart orderly c) [] _ rfl

end Walk

end Complexity

/-- The cognitive complexity of a routine is the sum of what its own nodes add, each by its
    construct and the path to it, and its nesting depth is the depth that the deepest of them
    reaches. -/
theorem cognitive_eq_sumOf_weight (l : Language) (root : Tree) (orderly : l.grammar.Orderly root)
    (s : Site) (hs : s ∈ root.sites) :
    (Complexity.of l.grammar s.tree).cognitive
        = sumOf ((l.grammar.ownSites s.tree).map (Site.weight l.grammar s.tree)) ∧
      (Complexity.of l.grammar s.tree).nestingDepth
        = ((l.grammar.ownSites s.tree).map (Site.reach l.grammar)).foldl max 0 := by
  have covers := Complexity.covers_visits l.apart (orderly.below hs)
  simp only [Complexity.of, Complexity.ofScores, List.map_map]
  constructor
  · exact (covers.sumOf_eq (fun _ _ h => h.1.symm) fun _ h => h.1).symm
  · exact (covers.foldl_max_eq (fun _ _ h => h.2.symm) (fun _ h => h.2) 0).symm

/-- The function of `loopWithLambda`. -/
def loopFunction : Site := ⟨loopWithLambda.children.headD loopWithLambda, [loopWithLambda], [0]⟩

theorem cognitive_eq_sumOf_weight_loopFunction :
    Grammar.go.Orderly loopWithLambda ∧ loopFunction ∈ loopWithLambda.sites ∧
      (Complexity.of .go loopFunction.tree).cognitive = 6 ∧
      (Complexity.of .go loopFunction.tree).nestingDepth = 2 := by
  have orderly : Grammar.go.Orderly loopWithLambda :=
    ⟨by decide +kernel, by decide +kernel, by decide +kernel⟩
  have there : loopFunction ∈ loopWithLambda.sites :=
    List.mem_of_getElem? (rfl : loopWithLambda.sites[1]? = some loopFunction)
  obtain ⟨cognitive, depth⟩ :=
    cognitive_eq_sumOf_weight .go loopWithLambda orderly loopFunction there
  exact ⟨orderly, there, cognitive.trans (by decide +kernel), depth.trans (by decide +kernel)⟩

end CodeMetrics

import CodeMetrics.Proofs.VisitedSites

/-! Which exits of a routine are early.

    A routine ends after its last statement, after the last part of what it ends after, and after
    every branch of a choice that it ends after. These nodes are the least set with these rules,
    told from the statements of the routine downwards; the same is told from a node outwards by
    climbing to the statements. An exit that the walk visits is early exactly if it is not in the
    set. -/

namespace CodeMetrics

/-- The nodes that a routine ends after. What a choice holds besides its condition is taken in where
    it is one of the nodes that `takes` tells. -/
inductive Concluding (g : Grammar) (takes : Tree → Prop) (routine : Tree) : Site → Prop
  /-- The last part of the node that holds the statements of the routine. -/
  | statement {s : Site} {index : Nat} {c : Tree} (site : s ∈ routine.sites)
      (statements : routine.statementsWay? = some s.way) (child : s.tree.children[index]? = some c)
      (last : s.tree.endsAt index = true) : Concluding g takes routine (s.down index c)
  /-- The last part of a node, where the node is no construct or an `else`. -/
  | part {s : Site} {index : Nat} {c : Tree} (around : Concluding g takes routine s)
      (inner : g.isRoutine s.tree = false)
      (construct : g.construct? s.tree = none ∨ g.construct? s.tree = some .otherwise)
      (child : s.tree.children[index]? = some c) (last : s.tree.endsAt index = true) :
      Concluding g takes routine (s.down index c)
  /-- What a choice holds, its condition apart. -/
  | branch {s : Site} {index : Nat} {c : Tree} (around : Concluding g takes routine s)
      (construct : g.construct? s.tree = some .branch ∨ g.construct? s.tree = some .elseIf)
      (child : s.tree.children[index]? = some c) (taken : takes c)
      (guarded : s.tree.indexOf? "condition" ≠ some index) :
      Concluding g takes routine (s.down index c)

namespace Concluding

variable {g : Grammar} {takes : Tree → Prop} {routine : Tree}

/-- The nodes that a routine ends after lie below the node that holds its statements. -/
theorem below_statements {u : Site} (h : Concluding g takes routine u) :
    ∃ way, routine.statementsWay? = some way ∧ way.length < u.way.length := by
  induction h with
  | statement _ statements _ _ => exact ⟨_, statements, Nat.lt_succ_self _⟩
  | part _ _ _ _ _ ih | branch _ _ _ _ _ ih =>
    obtain ⟨way, statements, lt⟩ := ih
    exact ⟨way, statements, Nat.lt_succ_of_lt lt⟩

theorem above_ne_nil {u : Site} (h : Concluding g takes routine u) : u.above ≠ [] := by
  cases h <;> exact List.cons_ne_nil _ _

theorem mono {takes' : Tree → Prop} (sub : ∀ t, takes t → takes' t) {u : Site}
    (h : Concluding g takes routine u) : Concluding g takes' routine u := by
  induction h with
  | statement site here child last => exact .statement site here child last
  | part _ inner construct child last ih => exact .part ih inner construct child last
  | branch _ construct child taken guarded ih =>
    exact .branch ih construct child (sub _ taken) guarded

/-- A child of the node that holds the statements is in the set by the first rule, and no other
    child is. -/
theorem down_cases {s : Site} {index : Nat} {c : Tree}
    (h : Concluding g takes routine (s.down index c)) :
    (routine.statementsWay? = some s.way ∧ s.tree.endsAt index = true) ∨
    (routine.statementsWay? ≠ some s.way ∧ Concluding g takes routine s ∧
      Site.comesLast g s.tree index = true) := by
  have apart : ∀ u : Site, Concluding g takes routine u →
      routine.statementsWay? ≠ some u.way := by
    intro u inside here
    obtain ⟨way, statements, lt⟩ := inside.below_statements
    obtain rfl := Option.some.inj (here.symm.trans statements)
    exact Nat.lt_irrefl _ lt
  generalize same : s.down index c = u at h
  cases h with
  | statement _ statements _ last =>
    obtain ⟨rfl, rfl, rfl⟩ := Site.down_inj same
    exact Or.inl ⟨statements, last⟩
  | part around _ construct _ last =>
    obtain ⟨rfl, rfl, rfl⟩ := Site.down_inj same
    refine Or.inr ⟨apart s around, around, ?_⟩
    rcases construct with construct | construct <;> rw [Site.comesLast, construct] <;> exact last
  | branch around construct _ _ guarded =>
    obtain ⟨rfl, rfl, rfl⟩ := Site.down_inj same
    refine Or.inr ⟨apart s around, around, ?_⟩
    rcases construct with construct | construct <;> rw [Site.comesLast, construct] <;>
      exact bne_iff_ne.2 guarded

/-- The rules below the statements, in one. -/
theorem down {s : Site} {index : Nat} {c : Tree} (around : Concluding g takes routine s)
    (inner : g.isRoutine s.tree = false) (child : s.tree.children[index]? = some c)
    (taken : takes c) (last : Site.comesLast g s.tree index = true) :
    Concluding g takes routine (s.down index c) := by
  rw [Site.comesLast] at last
  split at last
  · next construct => exact .branch around (Or.inl construct) child taken (bne_iff_ne.1 last)
  · next construct => exact .branch around (Or.inr construct) child taken (bne_iff_ne.1 last)
  · next construct => exact .part around inner (Or.inr construct) child last
  · next construct => exact .part around inner (Or.inl construct) child last
  · cases last

end Concluding

/-- All alternatives of choices are named. -/
def Grammar.NamesAlternatives (g : Grammar) (root : Tree) : Prop :=
  ∀ u ∈ root.sites, u.isAlternative g = true → u.tree.isNamed = true

namespace Complexity

variable {g : Grammar} {routine : Tree}

/-! ### What the walk knows of the end -/

/-- The walk knows of each node it comes to whether climbing from it leads to the end. -/
theorem flow_of_place? : ∀ s ∈ routine.sites, ∀ p, s.place? g = some p →
    FlowAt routine s p.flow ∧ (s.ends g routine = true ↔ p.flow = .tail) := by
  refine Tree.sites_induct ?_ ?_
  · rintro p placed
    obtain rfl : start = p := Option.some.inj placed
    exact ⟨rfl, by simp [start, Site.ends, Site.endsFrom]⟩
  · rintro s _ ih index c child q placed
    obtain ⟨earlier, later, p, split, rfl, before, inner, entered⟩ :=
      place?_down_eq_some child placed
    obtain ⟨flow, ends⟩ := ih p before
    obtain ⟨e, _, rfl⟩ := Option.map_eq_some_iff.1 entered
    exact ⟨flowAt_down split flow, ends_down_iff split inner flow ends⟩

/-- Climbing from a node that the walk comes to leads to the end where the routine ends after it. -/
theorem ends_iff_concluding : ∀ s ∈ routine.sites, ∀ p, s.place? g = some p →
    (s.ends g routine = true ↔ Concluding g (fun _ => True) routine s) := by
  refine Tree.sites_induct ?_ ?_
  · intro p _
    constructor
    · intro h
      cases h
    · exact fun h => absurd rfl h.above_ne_nil
  · rintro s hs ih index c child q placed
    obtain ⟨_, _, p, _, _, before, inner, _⟩ := place?_down_eq_some child placed
    have around := ih p before
    rw [ends_down]
    by_cases statements : routine.statementsWay? = some s.way
    · rw [if_pos statements]
      refine ⟨.statement hs statements child, fun h => ?_⟩
      rcases h.down_cases with ⟨_, last⟩ | ⟨off, _⟩
      · exact last
      · exact absurd statements off
    · rw [if_neg statements, Bool.and_eq_true, Bool.and_eq_true, Bool.not_eq_true', around]
      constructor
      · rintro ⟨⟨nested, last⟩, concluding⟩
        exact concluding.down nested child trivial last
      · intro h
        rcases h.down_cases with ⟨here, _⟩ | ⟨_, concluding, last⟩
        · exact absurd here statements
        · exact ⟨⟨inner concluding.above_ne_nil, last⟩, concluding⟩

/-- The walk enters a child that is named, or an alternative of a choice. -/
theorem named_of_enter? {parent c : Tree} {role : Role} {earlier : List Tree} {e : Entry}
    (h : enter? g parent role earlier c = some e) : c.isNamed = true ∨
      (c.hasField "alternative" = true ∧ g.construct? parent = some .branch) := by
  have named : ∀ {levels : Nat × Nat}, enterNamed levels c = some e → c.isNamed = true := by
    intro levels h
    rw [enterNamed] at h
    split at h
    · assumption
    · cases h
  unfold enter? at h
  split at h
  · exact Or.inl (named h)
  · split at h
    · split at h
      · next part => exact Or.inl (Bool.and_eq_true _ _ ▸ part).1
      · cases h
    · exact Or.inl (named h)
  · next construct =>
    split at h
    · next alternative => exact Or.inr ⟨alternative, construct⟩
    · exact Or.inl (named h)
  · exact Or.inl (named h)

/-- Where all alternatives are named, nothing is lost if only named nodes are taken in. -/
theorem concluding_named (named : g.NamesAlternatives routine) :
    ∀ s ∈ routine.sites, ∀ p, s.place? g = some p → Concluding g (fun _ => True) routine s →
      Concluding g (fun t => t.isNamed = true) routine s := by
  refine Tree.sites_induct ?_ ?_
  · exact fun p _ h => absurd rfl h.above_ne_nil
  · rintro s hs ih index c child q placed h
    obtain ⟨_, _, p, _, _, before, inner, entered⟩ := place?_down_eq_some child placed
    rcases h.down_cases with ⟨statements, last⟩ | ⟨_, around, last⟩
    · exact .statement hs statements child last
    · have concluding := ih p before around
      obtain ⟨e, entry, _⟩ := Option.map_eq_some_iff.1 entered
      have taken : c.isNamed = true := by
        rcases named_of_enter? entry with h | ⟨alternative, construct⟩
        · exact h
        · refine named _ (Tree.mem_sites_of_child hs child) ?_
          simp [isAlternative_down, alternative, construct]
      exact concluding.down (inner around.above_ne_nil) child taken last

theorem early?_of_exit {v : Visit} (exit : g.construct? v.tree = some .exit)
    (h : early? g v ≠ some false) : early? g v = some true := by
  rw [early?, if_pos exit] at h ⊢
  cases flow : v.place.flow != .tail with
  | true => rfl
  | false => exact absurd (congrArg some flow) h

/-- An exit that the walk visits is early exactly if the routine does not end after it. -/
theorem early?_eq_some_false_iff {s : Site} (hs : s ∈ routine.sites) {v : Visit}
    (visited : s.visit? g = some v) (exit : g.construct? s.tree = some .exit) :
    early? g v = some false ↔ Concluding g (fun _ => True) routine s := by
  obtain ⟨_, tree, placed⟩ := Site.visit?_eq_some g visited
  rw [← ends_iff_concluding s hs _ placed, (flow_of_place? s hs _ placed).2, early?, tree,
    if_pos exit, Option.some.injEq, bne_eq_false_iff_eq]

end Complexity

/-- The walk of a routine visits its sites, and an exit among them is not early exactly if it is in
    the least set of nodes that the routine ends after. Where alternatives are named, only named
    nodes need be taken into the set. Without a body every exit is early. -/
theorem early_iff_not_concluding (g : Grammar) (routine : Tree) :
    Complexity.visits g routine = routine.sites.filterMap (Site.visit? g) ∧
    ∀ s ∈ routine.sites, ∀ v, s.visit? g = some v → g.construct? s.tree = some .exit →
      (Complexity.early? g v = some false ↔ Concluding g (fun _ => True) routine s) ∧
      (g.NamesAlternatives routine → (Complexity.early? g v = some false ↔
        Concluding g (fun t => t.isNamed = true) routine s)) ∧
      (routine.child? "body" = none → Complexity.early? g v = some true) := by
  refine ⟨Complexity.visits_eq_filterMap g routine, fun s hs v visited exit => ?_⟩
  have any := Complexity.early?_eq_some_false_iff hs visited exit
  obtain ⟨_, tree, placed⟩ := Site.visit?_eq_some g visited
  refine ⟨any, fun named => any.trans ⟨?_, Concluding.mono fun _ _ => trivial⟩, fun without => ?_⟩
  · exact Complexity.concluding_named named s hs _ placed
  · refine Complexity.early?_of_exit (tree ▸ exit) fun h => ?_
    obtain ⟨_, statements, _⟩ := (any.1 h).below_statements
    obtain ⟨index, body, _⟩ := Complexity.statementsWay?_eq_some statements
    obtain ⟨lt, has, _⟩ := List.findIdx?_eq_some_iff_getElem.1 body
    exact List.find?_eq_none.1 without _ (List.getElem_mem lt) has

open CodeMetrics.Tree in
/-- A routine with a choice that exits before the end, and then a choice with an exit in each branch
    and a comment after it. -/
def guardThenChoice : Tree :=
  let condition := part "identifier" (some "condition") []
  let exits (field : String) :=
    part "block" (some field) [part "return_statement" none [word "return"]]
  let comment := .node { kind := "comment", extra := true } []
  part "function_declaration" none
    [word "func", part "identifier" (some "name") [], part "block" (some "body")
      [part "if_statement" none [word "if", condition, exits "consequence"], comment,
       part "if_statement" none
         [word "if", condition, exits "consequence", word "else", exits "alternative"], comment]]

/-- The exit in its first choice. -/
def exitInGuard : Site := guardThenChoice.sites.getD 8 ⟨guardThenChoice, [], []⟩

/-- The exit in the alternative of its last choice. -/
def exitInElse : Site := guardThenChoice.sites.getD 19 ⟨guardThenChoice, [], []⟩

theorem early_iff_not_concluding_guardThenChoice :
    Grammar.go.NamesAlternatives guardThenChoice ∧
      exitInGuard ∈ guardThenChoice.sites ∧ exitInElse ∈ guardThenChoice.sites ∧
      ¬ Concluding .go (fun t => t.isNamed = true) guardThenChoice exitInGuard ∧
      Concluding .go (fun t => t.isNamed = true) guardThenChoice exitInElse := by
  have named : Grammar.go.NamesAlternatives guardThenChoice := by
    unfold Grammar.NamesAlternatives
    decide +kernel
  have first : exitInGuard ∈ guardThenChoice.sites :=
    List.mem_of_getElem? (rfl : guardThenChoice.sites[8]? = some exitInGuard)
  have last : exitInElse ∈ guardThenChoice.sites :=
    List.mem_of_getElem? (rfl : guardThenChoice.sites[19]? = some exitInElse)
  obtain ⟨_, exits⟩ := early_iff_not_concluding .go guardThenChoice
  obtain ⟨_, early, _⟩ := exits exitInGuard first
    ⟨exitInGuard.tree, 1, 1, .statement, .early, none⟩ rfl rfl
  obtain ⟨_, late, _⟩ := exits exitInElse last
    ⟨exitInElse.tree, 1, 1, .statement, .tail, none⟩ rfl rfl
  exact ⟨named, first, last, fun h => absurd ((early named).2 h) (by decide +kernel),
    (late named).1 (by decide +kernel)⟩

end CodeMetrics

import Mathlib.Data.List.Forall2
import Mathlib.Data.Prod.Lex
import CodeMetrics.Language.Descriptor
import CodeMetrics.Measure.Routine
import CodeMetrics.Proofs.Sites

/-! The routines of a tree are the sites of routines that a pattern finds, each of them once.

    What a pattern marks can be read off the pattern: a match has its marks in order, and each falls
    on a site of the kinds that stand with the mark. In every grammar a pattern marks one routine,
    and only kinds of routines. -/

namespace CodeMetrics

namespace Pattern

variable {μ : Type}

mutual

/-- The marks of a pattern in order, each with the kinds it asks for. -/
def marked : Pattern μ → List (μ × List String)
  | .node _ kinds mark parts => mark.toList.map (·, kinds) ++ markedAmong parts

/-- The marks of some patterns in order. -/
def markedAmong : List (Pattern μ) → List (μ × List String)
  | [] => []
  | p :: ps => marked p ++ markedAmong ps

end

/-- What a match says of one mark of its pattern. -/
structure Falls (root : Tree) (found : μ × Site) (mark : μ × List String) : Prop where
  same : found.1 = mark.1
  site : found.2 ∈ root.sites
  kind : accepts none mark.2 found.2.tree = true

theorem mem_splits {α : Type} {a : α} {later : List α} : ∀ {l : List α},
    (a, later) ∈ splits l → a ∈ l ∧ ∀ b ∈ later, b ∈ l
  | _ :: rest, h => by
    rcases List.mem_cons.1 h with h | h
    · cases h
      exact ⟨List.mem_cons_self, fun b hb => List.mem_cons_of_mem _ hb⟩
    · obtain ⟨ha, hlater⟩ := mem_splits h
      exact ⟨List.mem_cons_of_mem _ ha, fun b hb => List.mem_cons_of_mem _ (hlater b hb)⟩

theorem accepts_kinds {field : Option String} {kinds : List String} {t : Tree}
    (h : accepts field kinds t = true) : accepts none kinds t = true := by
  simp only [accepts, Bool.and_eq_true] at h ⊢
  exact ⟨⟨h.1.1, rfl⟩, h.2⟩

mutual

theorem matchesAt_falls {root : Tree} : ∀ (p : Pattern μ) {s : Site}, s ∈ root.sites →
    ∀ found ∈ p.matchesAt s, List.Forall₂ (Falls root) found p.marked
  | .node field kinds mark parts, s, hs, found, h => by
    rw [matchesAt] at h
    split at h
    · next hacc =>
      obtain ⟨below, hbelow, rfl⟩ := List.mem_map.1 h
      have rest := matchesAmong_falls parts (fun _ hu => Tree.mem_sites_of_mem_children hs hu)
        below hbelow
      rw [marked]
      cases mark with
      | none => exact rest
      | some m => exact List.Forall₂.cons ⟨rfl, hs, accepts_kinds hacc⟩ rest
    · cases h

theorem matchesAmong_falls {root : Tree} : ∀ (ps : List (Pattern μ)) {sites : List Site},
    (∀ s ∈ sites, s ∈ root.sites) →
    ∀ found ∈ matchesAmong ps sites, List.Forall₂ (Falls root) found (markedAmong ps)
  | [], _, _, found, h => by
    rw [matchesAmong, List.mem_singleton] at h
    rw [h, markedAmong]
    exact List.Forall₂.nil
  | p :: ps, sites, sub, found, h => by
    rw [matchesAmong, List.mem_flatMap] at h
    obtain ⟨⟨s, later⟩, hsplit, h⟩ := h
    obtain ⟨first, hfirst, h⟩ := List.mem_flatMap.1 h
    obtain ⟨others, hothers, rfl⟩ := List.mem_map.1 h
    obtain ⟨hs, hlater⟩ := mem_splits hsplit
    rw [markedAmong]
    exact List.rel_append (matchesAt_falls p (sub s hs) first hfirst)
      (matchesAmong_falls ps (fun u hu => sub u (hlater u hu)) others hothers)

end

/-- The kinds that stand with the routines that a pattern marks. -/
def routineKinds (p : Pattern RoutineMark) : List (List String) :=
  p.marked.filterMap fun
    | (.routine _, kinds) => some kinds
    | (.name, _) => none

end Pattern

/-- A pattern that marks one routine, and only kinds of routines. -/
def Grammar.marksRoutine (g : Grammar) (p : Pattern RoutineMark) : Bool :=
  match p.routineKinds with
  | [kinds] => !kinds.isEmpty && kinds.all fun kind => g.routineKinds.contains kind
  | _ => false

theorem Language.marksRoutine (l : Language) :
    ∀ p ∈ l.grammar.routines, l.grammar.marksRoutine p = true := by
  cases l <;> decide

namespace Finding

variable {g : Grammar} {root : Tree}

/-- A match marks one routine, and it is a site of a routine. -/
theorem routinesIn_of_match (marks : ∀ p ∈ g.routines, g.marksRoutine p = true)
    {found : List (RoutineMark × Site)} (h : found ∈ Pattern.matchesIn g.routines root) :
    ∃ s kind, routinesIn found = [(s, kind)] ∧ s ∈ root.sites ∧ g.isRoutine s.tree = true := by
  rw [Pattern.matchesIn, List.mem_flatMap] at h
  obtain ⟨at_, hat, h⟩ := h
  obtain ⟨p, hp, h⟩ := List.mem_flatMap.1 h
  have falls := Pattern.matchesAt_falls p hat found h
  have routines : List.Forall₂ (fun (x : Site × RoutineKind) kinds =>
      x.1 ∈ root.sites ∧ Pattern.accepts none kinds x.1.tree = true)
      (routinesIn found) p.routineKinds := by
    refine List.rel_filterMap ?_ falls
    rintro ⟨m, s⟩ ⟨m', kinds⟩ hfall
    obtain rfl : m = m' := hfall.same
    cases m with
    | routine kind => exact Option.Rel.some ⟨hfall.site, hfall.kind⟩
    | name => exact Option.Rel.none
  have one := marks p hp
  rw [Grammar.marksRoutine] at one
  split at one
  · next kinds hkinds =>
    rw [hkinds] at routines
    obtain ⟨⟨s, kind⟩, rest, ⟨hs, hacc⟩, hrest, hfound⟩ := List.forall₂_cons_right_iff.1 routines
    rw [List.forall₂_nil_right_iff.1 hrest] at hfound
    refine ⟨s, kind, hfound, hs, ?_⟩
    simp only [Bool.and_eq_true, Bool.not_eq_true', List.all_eq_true] at one
    simp only [Pattern.accepts, one.1, Bool.false_or, Bool.and_eq_true] at hacc
    rw [Grammar.isRoutine, Grammar.isOf, hacc.1.1, Bool.true_and]
    exact one.2 _ (List.contains_iff_mem.1 hacc.2)
  · cases one

theorem ofMatch?_of_routine (source : List UInt8) {found : List (RoutineMark × Site)} {s : Site}
    {kind : RoutineKind} (h : routinesIn found = [(s, kind)]) :
    ∃ f, ofMatch? source found = some f ∧ f.site = s := by
  rw [ofMatch?, h]
  exact ⟨_, rfl, rfl⟩

/-- A finding is at a site of a routine. -/
theorem site_of_mem_all (marks : ∀ p ∈ g.routines, g.marksRoutine p = true) {source : List UInt8}
    {f : Finding} (h : f ∈ all g source root) :
    f.site ∈ root.sites ∧ g.isRoutine f.site.tree = true := by
  obtain ⟨found, hfound, hf⟩ := List.mem_filterMap.1 h
  obtain ⟨s, kind, hone, hs, hroutine⟩ := routinesIn_of_match marks hfound
  obtain ⟨f', hf', rfl⟩ := ofMatch?_of_routine source hone
  rw [hf] at hf'
  cases hf'
  exact ⟨hs, hroutine⟩

/-- Where a match marks a routine there is a finding. -/
theorem exists_of_mark (marks : ∀ p ∈ g.routines, g.marksRoutine p = true) (source : List UInt8)
    {found : List (RoutineMark × Site)} (h : found ∈ Pattern.matchesIn g.routines root)
    {u : Site} {kind : RoutineKind} (hu : (u, kind) ∈ routinesIn found) :
    ∃ f ∈ all g source root, f.site = u := by
  obtain ⟨s, kind', hone, _, _⟩ := routinesIn_of_match marks h
  rw [hone, List.mem_singleton] at hu
  cases hu
  obtain ⟨f, hf, hfs⟩ := ofMatch?_of_routine source hone
  exact ⟨f, List.mem_filterMap.2 ⟨found, h, hf⟩, hfs⟩

/-! ### One finding for each node -/

theorem mem_of_mem_distinct {f : Finding} : ∀ {l : List Finding}, f ∈ distinct l → f ∈ l
  | _ :: rest, h => by
    rcases List.mem_cons.1 h with rfl | h
    · exact List.mem_cons_self
    · exact List.mem_cons_of_mem _ (mem_of_mem_distinct (List.mem_filter.1 h).1)

theorem exists_mem_distinct {f : Finding} : ∀ {l : List Finding}, f ∈ l →
    ∃ f' ∈ distinct l, f'.site.way = f.site.way
  | a :: rest, h => by
    rcases List.mem_cons.1 h with rfl | h
    · exact ⟨f, List.mem_cons_self, rfl⟩
    · obtain ⟨f', hf', hway⟩ := exists_mem_distinct h
      by_cases e : f'.site.way = a.site.way
      · exact ⟨a, List.mem_cons_self, e.symm.trans hway⟩
      · refine ⟨f', List.mem_cons_of_mem _ (List.mem_filter.2 ⟨hf', ?_⟩), hway⟩
        simpa using e

theorem distinct_nodup : ∀ l : List Finding, ((distinct l).map (·.site.way)).Nodup
  | [] => List.nodup_nil
  | f :: rest => by
    rw [distinct, List.map_cons, List.nodup_cons]
    refine ⟨fun h => ?_, ?_⟩
    · obtain ⟨f', hf', hway⟩ := List.mem_map.1 h
      have := (List.mem_filter.1 hf').2
      rw [hway] at this
      simp at this
    · exact (distinct_nodup rest).sublist (List.filter_sublist.map _)

end Finding

/-! ### The order of routines -/

namespace Routine

/-- Where the node of a routine starts and where it ends. -/
def place (r : Routine) : ℕ ×ₗ ℕ := toLex (r.tree.label.start, r.tree.label.stop)

theorem notAfter_iff (a b : Routine) : notAfter a b = true ↔ a.place ≤ b.place := by
  rw [place, place, Prod.Lex.toLex_le_toLex]
  simp [notAfter, tree]

/-- Routines are in the order of their places. -/
theorem sorted_mergeSort (routines : List Routine) :
    (routines.mergeSort notAfter).Pairwise fun a b => a.place ≤ b.place := by
  refine (List.pairwise_mergeSort ?_ ?_ routines).imp fun {a b} h => (notAfter_iff a b).1 h
  · intro a b c
    simp only [notAfter_iff]
    exact le_trans
  · intro a b
    simp only [Bool.or_eq_true, notAfter_iff]
    exact le_total _ _

theorem sorted_all (g : Grammar) (source : List UInt8) (root : Tree) :
    (Routine.all g source root).Pairwise fun a b => a.place ≤ b.place := sorted_mergeSort _

/-- A routine comes from a finding. -/
theorem exists_finding {g : Grammar} {source : List UInt8} {root : Tree} {r : Routine}
    (h : r ∈ Routine.all g source root) :
    ∃ f ∈ Finding.all g source root, r = ofFindings g source (Finding.all g source root) f := by
  obtain ⟨f, hf, rfl⟩ := List.mem_map.1 (List.mem_mergeSort.1 h)
  exact ⟨f, Finding.mem_of_mem_distinct hf, rfl⟩

end Routine

/-- Whether a pattern finds a routine at a site. -/
def Grammar.finds (g : Grammar) (root : Tree) (s : Site) : Bool :=
  (Pattern.matchesIn g.routines root).any fun found =>
    (Finding.routinesIn found).any fun (u, _) => u.way == s.way

/-- Every node of a kind of routines is found by a pattern. -/
def Grammar.FindsRoutines (g : Grammar) (root : Tree) : Prop :=
  ∀ s ∈ root.sites, g.isRoutine s.tree = true → g.finds root s = true

/-- Where every routine is found, the routines are the sites of routines, each of them once. -/
theorem Routine.sites_perm {g : Grammar} {root : Tree} (source : List UInt8)
    (marks : ∀ p ∈ g.routines, g.marksRoutine p = true) (finds : g.FindsRoutines root) :
    ((Routine.all g source root).map (·.site)).Perm
      (root.sites.filter fun s => g.isRoutine s.tree) := by
  have sorted : ((Routine.all g source root).map (·.site)).Perm
      ((Finding.distinct (Finding.all g source root)).map (·.site)) := by
    have := (List.mergeSort_perm ((Finding.distinct (Finding.all g source root)).map
      (ofFindings g source (Finding.all g source root))) notAfter).map (·.site)
    rwa [List.map_map] at this
  have nodup : ((Finding.distinct (Finding.all g source root)).map (·.site)).Nodup := by
    refine List.Nodup.of_map (·.way) ?_
    rw [List.map_map]
    exact Finding.distinct_nodup _
  have nodup' : root.sites.Nodup := List.Nodup.of_map _ (Tree.ways_nodup root)
  refine sorted.trans ((List.perm_ext_iff_of_nodup nodup (nodup'.filter _)).2 fun s => ?_)
  rw [List.mem_map, List.mem_filter]
  constructor
  · rintro ⟨f, hf, rfl⟩
    exact Finding.site_of_mem_all marks (Finding.mem_of_mem_distinct hf)
  · rintro ⟨hs, hroutine⟩
    obtain ⟨found, hfound, h⟩ := List.any_eq_true.1 (finds s hs hroutine)
    obtain ⟨⟨u, kind⟩, hu, hus⟩ := List.any_eq_true.1 h
    obtain ⟨f, hf, rfl⟩ := Finding.exists_of_mark marks source hfound hu
    obtain ⟨f', hf', hway⟩ := Finding.exists_mem_distinct hf
    have hs' := (Finding.site_of_mem_all marks (Finding.mem_of_mem_distinct hf')).1
    exact ⟨f', hf', Tree.eq_of_way hs' hs (hway.trans (by simpa using hus))⟩

end CodeMetrics

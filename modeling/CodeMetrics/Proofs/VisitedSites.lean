import CodeMetrics.Proofs.Paths

/-! The sites that the walk of a routine visits.

    A visit tells a node and its place, but two nodes may look alike. Here the place of a node is
    found from the path to it: the walk comes to a child where it has come to the node around it,
    and that is no routine inside. The visits of a routine are then those of its sites, in order. -/

namespace CodeMetrics

namespace Tree

/-- A child splits the children of its parent. -/
theorem split_of_getElem? {t c : Tree} {index : Nat} (h : t.children[index]? = some c) :
    ∃ earlier later : List Tree,
      t.children = earlier.reverse ++ c :: later ∧ earlier.length = index := by
  obtain ⟨lt, rfl⟩ := List.getElem?_eq_some_iff.1 h
  refine ⟨(t.children.take index).reverse, t.children.drop (index + 1), ?_, ?_⟩
  · rw [List.reverse_reverse, List.getElem_cons_drop, List.take_append_drop]
  · rw [List.length_reverse, List.length_take]
    omega

end Tree

/-! ### The place of a site -/

namespace Site

open Complexity (start placeOf?)

variable (g : Grammar)

/-- The place that the walk of the outermost node gives to a node, by the nodes around it and the
    way to it, if the walk comes there. -/
def placeFrom? : Tree → List Tree → List Nat → Option Place
  | t, parent :: above, index :: way =>
    (placeFrom? parent above way).bind fun p =>
      if !above.isEmpty && g.isRoutine parent then none
      else placeOf? g parent p (parent.children.take index).reverse t
        (parent.children.drop (index + 1))
  | _, _, _ => some start

/-- The place that the walk of the outermost node gives to a node, if the walk comes there. -/
def place? (s : Site) : Option Place := placeFrom? g s.tree s.above s.way

/-- The visit of a node by the walk of the outermost node around it. -/
def visit? (s : Site) : Option Visit :=
  if s.above.isEmpty then none else (s.place? g).map fun p => ⟨s.tree, p⟩

theorem down_inj {s u : Site} {i j : Nat} {c d : Tree} (h : s.down i c = u.down j d) :
    s = u ∧ i = j ∧ c = d := by
  obtain ⟨s, above, way⟩ := s
  obtain ⟨u, above', way'⟩ := u
  simp only [down, mk.injEq, List.cons.injEq] at h
  obtain ⟨rfl, ⟨rfl, rfl⟩, rfl, rfl⟩ := h
  exact ⟨rfl, rfl, rfl⟩

theorem visit?_eq_some {s : Site} {v : Visit} (h : s.visit? g = some v) :
    s.above ≠ [] ∧ v.tree = s.tree ∧ s.place? g = some v.place := by
  rw [visit?] at h
  split at h
  · cases h
  · next inner =>
    obtain ⟨p, place, rfl⟩ := Option.map_eq_some_iff.1 h
    exact ⟨fun top => inner (List.isEmpty_iff.2 top), rfl, place⟩

end Site

namespace Complexity

variable {g : Grammar} {routine : Tree} {s : Site} {c : Tree} {earlier later : List Tree}

theorem place?_down (split : s.tree.children = earlier.reverse ++ c :: later) :
    (s.down earlier.length c).place? g = (s.place? g).bind fun p =>
      if !s.above.isEmpty && g.isRoutine s.tree then none
      else placeOf? g s.tree p earlier c later := by
  have before : (s.tree.children.take earlier.length).reverse = earlier := by
    rw [split, ← List.length_reverse, List.take_left, List.reverse_reverse]
  have after : s.tree.children.drop (earlier.length + 1) = later := by
    rw [split, ← List.length_reverse, List.drop_length_add_append]
    rfl
  rw [Site.place?, Site.down, Site.placeFrom?, before, after]
  rfl

/-- The walk comes to a child only where it comes to its parent, and the parent is no routine
    inside. -/
theorem place?_down_eq_some {index : Nat} {q : Place} (there : s.tree.children[index]? = some c)
    (h : (s.down index c).place? g = some q) :
    ∃ earlier later p, s.tree.children = earlier.reverse ++ c :: later ∧ earlier.length = index ∧
      s.place? g = some p ∧ (s.above ≠ [] → g.isRoutine s.tree = false) ∧
      placeOf? g s.tree p earlier c later = some q := by
  obtain ⟨earlier, later, split, rfl⟩ := Tree.split_of_getElem? there
  rw [place?_down split] at h
  obtain ⟨p, placed, h⟩ := Option.bind_eq_some_iff.1 h
  split at h
  · cases h
  · next entered =>
    refine ⟨earlier, later, p, split, rfl, placed, fun inner => ?_, h⟩
    rw [← Bool.not_eq_true]
    intro routine
    exact entered (by simp [inner, routine])

/-! ### The visits of the sites -/

/-- Where the walk does not come, it comes to nothing below. -/
theorem place?_below (t : Tree) : ∀ u : Site, u.tree = t → u.place? g = none →
    ∀ v ∈ t.sitesFrom u.above u.way, v.place? g = none := by
  induction t using Tree.induct with
  | node label children ih =>
    intro u tree unplaced v hv
    rw [Tree.sitesFrom_eq, ← tree] at hv
    rcases List.mem_cons.1 hv with rfl | hv
    · exact unplaced
    · obtain ⟨i, c, hc, hv⟩ := Tree.mem_sitesAmong.1 hv
      rw [Nat.zero_add] at hv
      obtain ⟨earlier, later, split, rfl⟩ := Tree.split_of_getElem? hc
      have mem : c ∈ children := by
        have := List.mem_of_getElem? hc
        rwa [tree] at this
      refine ih c mem (u.down _ c) rfl ?_ v hv
      rw [place?_down split, unplaced]
      rfl

theorem visits_of_unplaced (h : s.place? g = none) :
    (s.tree.sitesFrom s.above s.way).filterMap (Site.visit? g) = [] := by
  refine List.filterMap_eq_nil_iff.2 fun v hv => ?_
  rw [Site.visit?, place?_below s.tree s rfl h v hv, Option.map_none, ite_self]

/-- The visits among the children of a site are those of the sites there, if those from each child
    are. -/
theorem visitsAmong_sites {p : Place} (placed : s.place? g = some p)
    (inner : s.above ≠ [] → g.isRoutine s.tree = false)
    (ih : ∀ c ∈ s.tree.children, ∀ u : Site, u.tree = c → u.above ≠ [] → ∀ q,
      u.place? g = some q →
        visitsFrom g q c = (c.sitesFrom u.above u.way).filterMap (Site.visit? g)) :
    ∀ earlier later : List Tree, s.tree.children = earlier.reverse ++ later →
      visitsAmong g s.tree p earlier later
        = (Tree.sitesAmong (s.tree :: s.above) s.way earlier.length later).filterMap
            (Site.visit? g)
  | earlier, [], _ => by rw [visitsAmong, Tree.sitesAmong]; rfl
  | earlier, c :: later, split => by
    have rest := visitsAmong_sites placed inner ih (c :: earlier) later
      (by rw [split, List.reverse_cons, List.append_assoc]; rfl)
    have mem : c ∈ s.tree.children := by rw [split]; simp
    have outside : (!s.above.isEmpty && g.isRoutine s.tree) = false := by
      cases above : s.above with
      | nil => rfl
      | cons parent rest => rw [inner (by rw [above]; exact List.cons_ne_nil _ _), Bool.and_false]
    have place : (s.down earlier.length c).place? g = placeOf? g s.tree p earlier c later := by
      rw [place?_down split, placed, Option.bind_some, outside]
      rfl
    rw [visitsAmong_cons, Tree.sitesAmong, List.filterMap_append, rest]
    congr 1
    cases entered : placeOf? g s.tree p earlier c later with
    | none => exact (visits_of_unplaced (s := s.down earlier.length c) (place.trans entered)).symm
    | some q =>
      exact ih c mem (s.down earlier.length c) rfl (List.cons_ne_nil _ _) q (place.trans entered)

theorem visitsFrom_sites (t : Tree) : ∀ u : Site, u.tree = t → u.above ≠ [] → ∀ q,
    u.place? g = some q →
      visitsFrom g q t = (t.sitesFrom u.above u.way).filterMap (Site.visit? g) := by
  induction t using Tree.induct with
  | node label children ih =>
    intro u tree inner q placed
    have here : u.visit? g = some ⟨u.tree, q⟩ := by
      rw [Site.visit?, placed, if_neg (by simpa using inner)]
      rfl
    rw [← tree, visitsFrom_eq, Tree.sitesFrom_eq, List.filterMap_cons_some here]
    congr 1
    cases nested : g.isRoutine u.tree with
    | true =>
      -- the walk does not enter a routine inside
      refine (List.filterMap_eq_nil_iff.2 fun v hv => ?_).symm
      obtain ⟨i, c, hc, hv⟩ := Tree.mem_sitesAmong.1 hv
      rw [Nat.zero_add] at hv
      obtain ⟨earlier, later, split, rfl⟩ := Tree.split_of_getElem? hc
      have unplaced : (u.down earlier.length c).place? g = none := by
        rw [place?_down split, placed, Option.bind_some, nested]
        simp [inner]
      rw [Site.visit?, place?_below c (u.down earlier.length c) rfl unplaced v hv, Option.map_none,
        ite_self]
    | false =>
      exact visitsAmong_sites placed (fun _ => nested) (by rw [tree]; exact ih) [] _ rfl

/-- The walk of a routine visits its sites, in order. -/
theorem visits_eq_filterMap (g : Grammar) (routine : Tree) :
    visits g routine = routine.sites.filterMap (Site.visit? g) := by
  have placed : Site.place? g ⟨routine, [], []⟩ = some start := rfl
  rw [visits, Tree.sites, Tree.sitesFrom_eq, List.filterMap_cons_none rfl]
  exact visitsAmong_sites placed (fun inner => absurd rfl inner)
    (fun c _ => visitsFrom_sites c) [] _ rfl

end Complexity

end CodeMetrics

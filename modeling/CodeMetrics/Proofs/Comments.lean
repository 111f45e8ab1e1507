import CodeMetrics.Proofs.RevisionMeasures
import CodeMetrics.Proofs.RevisionSites
import CodeMetrics.Proofs.Routines

/-! Comments do not change what is measured. Patterns overlook remarks, so they find the routines
    that they found, at the sites that face the old ones; the order of routines and the measures of
    each stay as they were. -/

namespace CodeMetrics

open Revision

variable {g : Grammar} {source source' : List UInt8} {root : Revision}

/-! ### Patterns -/

namespace Grammar

/-- No pattern asks for any node at all: each names kinds, or a field. -/
def isSpecific (g : Grammar) : Bool :=
  (Pattern.shapesAmong g.routines).all fun (field, kinds) => field.isSome || !kinds.isEmpty

/-- A shape of a pattern that no remark has. -/
def Overlooks (g : Grammar) (shape : Option String × List String) : Prop :=
  ∀ t, g.Remark t → Pattern.accepts shape.1 shape.2 t = false

theorem overlooks (specific : g.isSpecific = true) :
    ∀ shape ∈ Pattern.shapesAmong g.routines, g.Overlooks shape := by
  rintro ⟨field, kinds⟩ hshape t ht
  have asked := List.all_eq_true.1 specific _ hshape
  have kind : kinds.contains t.kind = false :=
    Bool.eq_false_iff.2 (List.any_eq_false.1 ht.unasked.2.2.2 _ hshape)
  cases field with
  | some name => simp [Pattern.accepts, ht.hasField]
  | none =>
    have named : kinds.isEmpty = false := by simpa using asked
    rw [Pattern.accepts, named, kind, Bool.or_false, Bool.and_false]

end Grammar

theorem Language.isSpecific (l : Language) : l.grammar.isSpecific = true := by
  cases l <;> decide

/-- What the languages call comments is nothing that they ask for. -/
theorem Language.asksFor_comment (l : Language) :
    ∀ kind ∈ l.grammar.commentKinds, l.grammar.asksFor kind = false := by
  cases l <;> decide

namespace Pattern

variable {μ : Type}

/-- A mark on a site before and the same mark on the site that faces it. -/
def Marked (root : Revision) (m m' : μ × Site) : Prop := m.1 = m'.1 ∧ root.Facing m.2 m'.2

theorem accepts_facing {field : Option String} {kinds : List String} {s s' : Site}
    (facing : root.Facing s s') : accepts field kinds s'.tree = accepts field kinds s.tree := by
  obtain ⟨x, faces⟩ := facing
  simp only [accepts, faces.before, faces.after, isNamed_after, hasField_after, kind_after]

theorem matchesAt_remark {s : Site} (remark : g.Remark s.tree) :
    ∀ p : Pattern μ, (∀ shape ∈ p.shapes, g.Overlooks shape) → p.matchesAt s = []
  | .node field kinds mark parts, overlooked => by
    rw [matchesAt, overlooked (field, kinds) List.mem_cons_self s.tree remark]
    rfl

theorem splits_padded {R : Site → Site → Prop} {new : Site → Prop} {l l' : List Site}
    (h : Padded R new l l') : Padded (fun a b => R a.1 b.1 ∧ Padded R new a.2 b.2)
      (fun b => new b.1) (splits l) (splits l') := by
  induction h with
  | nil => exact .nil
  | keep hab rest ih => exact .keep ⟨hab, rest⟩ ih
  | put hb _ ih => exact .put hb ih

mutual

/-- A pattern matches where it matched. -/
theorem matchesAt_facing (tame : root.Tame g source source') : ∀ p : Pattern μ,
    (∀ shape ∈ p.shapes, g.Overlooks shape) → ∀ {s s' : Site}, root.Facing s s' →
      List.Forall₂ (List.Forall₂ (Marked root)) (p.matchesAt s) (p.matchesAt s')
  | .node field kinds mark parts, overlooked, s, s', facing => by
    rw [matchesAt, matchesAt, accepts_facing facing]
    split
    · obtain ⟨x, faces⟩ := facing
      have children : Padded root.Facing (fun u => g.Remark u.tree) s.children s'.children :=
        (faces.children tame).imp (fun u u' ⟨y, _, h⟩ => ⟨y, h⟩) fun _ h => h
      have below := matchesAmong_facing tame parts
        (fun shape h => overlooked shape (List.mem_cons_of_mem _ h)) children
      refine List.rel_map ?_ below
      intro found found' h
      cases mark with
      | none => exact h
      | some m => exact .cons ⟨rfl, x, faces⟩ h
    · exact .nil

theorem matchesAmong_facing (tame : root.Tame g source source') : ∀ ps : List (Pattern μ),
    (∀ shape ∈ shapesAmong ps, g.Overlooks shape) → ∀ {l l' : List Site},
      Padded root.Facing (fun u => g.Remark u.tree) l l' →
      List.Forall₂ (List.Forall₂ (Marked root)) (matchesAmong ps l) (matchesAmong ps l')
  | [], _, l, l', _ => by
    rw [matchesAmong, matchesAmong]
    exact .cons .nil .nil
  | p :: ps, overlooked, l, l', padded => by
    have first : ∀ shape ∈ p.shapes, g.Overlooks shape :=
      fun shape h => overlooked shape (List.mem_append_left _ h)
    have others : ∀ shape ∈ shapesAmong ps, g.Overlooks shape :=
      fun shape h => overlooked shape (List.mem_append_right _ h)
    rw [matchesAmong, matchesAmong]
    refine (splits_padded padded).forall₂_flatMap ?_ ?_
    · rintro ⟨s, later⟩ ⟨s', later'⟩ ⟨facing, rest⟩
      refine List.rel_flatMap (matchesAt_facing tame p first facing) ?_
      intro found found' h
      refine List.rel_map ?_ (matchesAmong_facing tame ps others rest)
      intro more more' h'
      exact List.rel_append h h'
    · rintro ⟨s, later⟩ remark
      show (matchesAt p s).flatMap _ = []
      rw [matchesAt_remark remark p first, List.flatMap_nil]

end

theorem shapes_subset {ps : List (Pattern μ)} {p : Pattern μ} (hp : p ∈ ps) :
    ∀ shape ∈ p.shapes, shape ∈ shapesAmong ps := by
  intro shape h
  induction ps with
  | nil => cases hp
  | cons q ps ih =>
    rw [shapesAmong]
    rcases List.mem_cons.1 hp with rfl | hp
    · exact List.mem_append_left _ h
    · exact List.mem_append_right _ (ih hp)

theorem matchesIn_facing (tame : root.Tame g source source') {ps : List (Pattern μ)}
    (overlooked : ∀ shape ∈ shapesAmong ps, g.Overlooks shape) :
    List.Forall₂ (List.Forall₂ (Marked root)) (matchesIn ps root.before)
      (matchesIn ps root.after) := by
  have each : ∀ p ∈ ps, ∀ shape ∈ p.shapes, g.Overlooks shape :=
    fun p hp shape h => overlooked shape (shapes_subset hp shape h)
  refine (all_sites_facing tame).forall₂_flatMap ?_ ?_
  · intro s s' facing
    have same : List.Forall₂ (fun p q => p = q ∧ p ∈ ps) ps ps :=
      List.forall₂_same.2 fun p hp => ⟨rfl, hp⟩
    refine List.rel_flatMap same ?_
    rintro p _ ⟨rfl, hp⟩
    exact matchesAt_facing tame p (each p hp) facing
  · intro s remark
    exact List.flatMap_eq_nil_iff.2 fun p hp => matchesAt_remark remark p (each p hp)

end Pattern

/-! ### Routines -/

/-- The ways to the names that patterns find. -/
def Grammar.nameWays (g : Grammar) (root : Tree) : List (List Nat) :=
  (Pattern.matchesIn g.routines root).flatMap fun found => (Finding.namesIn found).map (·.way)

/-- Besides, names have the text that they had, and routines start and stop in the order in which
    they did. -/
structure Revision.Sound (g : Grammar) (source source' : List UInt8) (r : Revision) : Prop
    extends r.Tame g source source' where
  names : ∀ way way' x, r.Leads way way' x → way ∈ g.nameWays r.before →
    x.after.bytes source' = x.before.bytes source
  starts : ∀ x ∈ r.nodes, ∀ y ∈ r.nodes, g.isRoutine x.before = true → g.isRoutine y.before = true →
    (x.after.label.start < y.after.label.start ↔ x.before.label.start < y.before.label.start)
  stops : ∀ x ∈ r.nodes, ∀ y ∈ r.nodes, g.isRoutine x.before = true → g.isRoutine y.before = true →
    (x.after.label.stop < y.after.label.stop ↔ x.before.label.stop < y.before.label.stop)

namespace Finding

/-- The same finding before and after. -/
structure Kept (root : Revision) (f f' : Finding) : Prop where
  site : root.Facing f.site f'.site
  kind : f'.kind = f.kind
  name : f'.name = f.name

theorem nameAt_facing {s s' : Site} (same : s'.tree.bytes source' = s.tree.bytes source) :
    nameAt source' s' = nameAt source s := by rw [nameAt, nameAt, same]

theorem ofMatch?_facing {found found' : List (RoutineMark × Site)}
    (marked : List.Forall₂ (Pattern.Marked root) found found')
    (names : ∀ s ∈ namesIn found, ∀ s', root.Facing s s' →
      s'.tree.bytes source' = s.tree.bytes source) :
    Option.Rel (Kept root) (ofMatch? source found) (ofMatch? source' found') := by
  have routines : List.Forall₂ (fun r r' => root.Facing r.1 r'.1 ∧ r'.2 = r.2)
      (routinesIn found) (routinesIn found') := by
    refine List.rel_filterMap ?_ marked
    rintro ⟨m, s⟩ ⟨m', s'⟩ ⟨rfl, facing⟩
    cases m with
    | routine kind => exact .some ⟨facing, rfl⟩
    | name => exact .none
  have named : List.Forall₂ (fun s s' => nameAt source' s' = nameAt source s)
      (namesIn found) (namesIn found') := by
    have facing : List.Forall₂ root.Facing (namesIn found) (namesIn found') := by
      refine List.rel_filterMap ?_ marked
      rintro ⟨m, s⟩ ⟨m', s'⟩ ⟨rfl, facing⟩
      cases m with
      | routine kind => exact .none
      | name => exact .some facing
    exact forall₂_mem facing fun s hs s' h => nameAt_facing (names s hs s' h)
  have name : (namesIn found').getLast?.bind (nameAt source')
      = (namesIn found).getLast?.bind (nameAt source) := by
    have last := rel_getLast? named
    generalize (namesIn found).getLast? = o, (namesIn found').getLast? = o' at last
    cases last with
    | none => rfl
    | some h => exact h
  have last := rel_getLast? routines
  rw [ofMatch?, ofMatch?, name]
  generalize (routinesIn found).getLast? = o, (routinesIn found').getLast? = o' at last
  cases last with
  | none => exact .none
  | some h => exact .some ⟨h.1, h.2, rfl⟩

theorem all_facing (sound : root.Sound g source source')
    (overlooked : ∀ shape ∈ Pattern.shapesAmong g.routines, g.Overlooks shape) :
    List.Forall₂ (Kept root) (all g source root.before) (all g source' root.after) := by
  have matches_ := Pattern.matchesIn_facing sound.toTame overlooked
  have kept := forall₂_mem matches_ (S := fun found found' =>
    Option.Rel (Kept root) (ofMatch? source found) (ofMatch? source' found')) ?_
  · exact List.rel_filterMap (fun _ _ h => h) kept
  · intro found hfound found' marked
    refine ofMatch?_facing marked fun s hs s' ⟨x, faces⟩ => ?_
    rw [faces.before, faces.after]
    refine sound.names s.way s'.way x faces.leads ?_
    exact List.mem_flatMap.2 ⟨found, hfound, List.mem_map_of_mem hs⟩

theorem way_facing {f f' h h' : Finding} (kept : Kept root f f') (kept' : Kept root h h') :
    f.site.way = h.site.way ↔ f'.site.way = h'.site.way :=
  kept.site.way_iff kept'.site

theorem distinct_facing {l l' : List Finding} (kept : List.Forall₂ (Kept root) l l') :
    List.Forall₂ (Kept root) (distinct l) (distinct l') := by
  induction kept with
  | nil => exact .nil
  | cons hf _ ih =>
    rw [distinct, distinct]
    refine .cons hf (List.rel_filter ?_ ih)
    intro h h' kept'
    simpa using not_congr (way_facing kept' hf)

theorem alike_facing {l l' : List Finding} (kept : List.Forall₂ (Kept root) l l') {f f' : Finding}
    (hf : Kept root f f') : List.Forall₂ (Kept root) (alike l f) (alike l' f') := by
  refine List.rel_filter ?_ kept
  intro h h' kept'
  simpa using way_facing kept' hf

theorem bestKind_facing {l l' : List Finding} (kept : List.Forall₂ (Kept root) l l')
    {f f' : Finding} (hf : Kept root f f') : f'.bestKind l' = f.bestKind l := by
  rw [bestKind, bestKind, hf.kind]
  generalize f.kind = kind
  induction kept generalizing kind with
  | nil => rfl
  | cons hh _ ih => rw [List.foldl_cons, List.foldl_cons, hh.kind, ih]

theorem firstName_facing {l l' : List Finding} (kept : List.Forall₂ (Kept root) l l') :
    firstName l' = firstName l := by
  induction kept with
  | nil => rfl
  | cons hh _ ih =>
    rw [firstName, firstName, List.findSome?_cons, List.findSome?_cons, hh.name]
    cases Finding.name _ with
    | none => exact ih
    | some name => rfl

end Finding

namespace Routine

/-- The same routine before and after. -/
structure Kept (g : Grammar) (root : Revision) (r r' : Routine) : Prop where
  site : root.Facing r.site r'.site
  routine : g.isRoutine r.site.tree = true
  name : r'.name = r.name
  kind : r'.kind = r.kind
  depth : r'.depth = r.depth

theorem ofFindings_facing {l l' : List Finding} (kept : List.Forall₂ (Finding.Kept root) l l')
    {f f' : Finding} (hf : Finding.Kept root f f') (routine : g.isRoutine f.site.tree = true) :
    Kept g root (ofFindings g source l f) (ofFindings g source' l' f') := by
  have alike := Finding.alike_facing kept hf
  obtain ⟨x, faces⟩ := hf.site
  have above : List.Forall₂ (Revised root.nodes) (f.site.above.filter g.isRoutine)
      (f'.site.above.filter g.isRoutine) := by
    refine List.rel_filter ?_ faces.above
    rintro t t' ⟨y, _, rfl, rfl⟩
    simp only [isRoutine_after]
  exact
    { site := hf.site
      routine
      name := congrArg (Option.getD · anonymous) (Finding.firstName_facing alike)
      kind := Finding.bestKind_facing alike hf
      depth := above.length_eq.symm }

/-- Routines are in the order that they were in. -/
theorem notAfter_facing (sound : root.Sound g source source') {a a' b b' : Routine}
    (ha : Kept g root a a') (hb : Kept g root b b') : notAfter a b = notAfter a' b' := by
  obtain ⟨x, hx⟩ := ha.site
  obtain ⟨y, hy⟩ := hb.site
  have routine := ha.routine
  have routine' := hb.routine
  rw [hx.before] at routine
  rw [hy.before] at routine'
  have mem := hx.leads.mem_nodes
  have mem' := hy.leads.mem_nodes
  have starts := sound.starts x mem y mem' routine routine'
  have starts' := sound.starts y mem' x mem routine' routine
  have stops := sound.stops y mem' x mem routine' routine
  rw [Bool.eq_iff_iff]
  simp only [notAfter, hx.before, hx.after, hy.before, hy.after, Bool.or_eq_true, Bool.and_eq_true,
    decide_eq_true_eq, beq_iff_eq]
  omega

/-- The routines that are found after are the routines that were found before. -/
theorem all_facing (sound : root.Sound g source source') (specific : g.isSpecific = true)
    (marks : ∀ p ∈ g.routines, g.marksRoutine p = true) :
    List.Forall₂ (Kept g root) (all g source root.before) (all g source' root.after) := by
  have findings := Finding.all_facing sound (Grammar.overlooks specific)
  refine forall₂_mergeSort ?_ fun a a' b b' ha hb => notAfter_facing sound ha hb
  rw [List.forall₂_map_left_iff, List.forall₂_map_right_iff]
  refine forall₂_mem (Finding.distinct_facing findings) fun f hf f' kept => ?_
  have routine := (Finding.site_of_mem_all marks (Finding.mem_of_mem_distinct hf)).2
  exact ofFindings_facing findings kept routine

end Routine

/-! ### Measures -/

/-- Measures that agree but for where the routine stands and how many lines it covers. -/
structure RoutineMetrics.Agrees (m m' : RoutineMetrics) : Prop where
  name : m'.name = m.name
  kind : m'.kind = m.kind
  scopeDepth : m'.scopeDepth = m.scopeDepth
  cyclomatic : m'.cyclomatic = m.cyclomatic
  cognitive : m'.cognitive = m.cognitive
  nestingDepth : m'.nestingDepth = m.nestingDepth
  exits : m'.exits = m.exits
  parameters : m'.parameters = m.parameters
  logicalLines : m'.logicalLines = m.logicalLines
  halstead : m'.halstead = m.halstead
  abc : m'.abc = m.abc

theorem Routine.Kept.agrees (tame : root.Tame g source source') {r r' : Routine}
    (kept : Routine.Kept g root r r') :
    (RoutineMetrics.of g source r).Agrees (RoutineMetrics.of g source' r') := by
  obtain ⟨x, faces⟩ := kept.site
  have tame := tame.of_mem faces.leads.mem_nodes
  have before : r.tree = x.before := faces.before
  have after : r'.tree = x.after := faces.after
  have flow : Complexity.of g r'.tree = Complexity.of g r.tree := by
    rw [before, after, Complexity.of_after tame]
  exact
    { name := kept.name
      kind := kept.kind
      scopeDepth := kept.depth
      cyclomatic := congrArg Complexity.cyclomatic flow
      cognitive := congrArg Complexity.cognitive flow
      nestingDepth := congrArg Complexity.nestingDepth flow
      exits := congrArg Complexity.exits flow
      parameters := by
        simp only [RoutineMetrics.of, before, after, RoutineMetrics.parameterCount_after tame]
      logicalLines := by
        simp only [RoutineMetrics.of, before, after, LineCounts.logicalOfRoutine_after tame]
      halstead := by simp only [RoutineMetrics.of, before, after, Halstead.of_after tame]
      abc := by simp only [RoutineMetrics.of, before, after, Abc.of_after tame] }

/-- Putting in comments changes no measure. The routines of the tree with comments are those of the
    tree without, in the same order, each at the site that faces its old one, with the name, the
    kind, the depth and the measures that it had; and the file has the logical lines that it had. -/
theorem measures_with_comments (l : Language) {source source' : List UInt8} {r : Revision}
    (sound : r.Sound l.grammar source source') :
    List.Forall₂ (fun u u' => r.Facing u.site u'.site ∧
        (RoutineMetrics.of l.grammar source u).Agrees (RoutineMetrics.of l.grammar source' u'))
      (Routine.all l.grammar source r.before) (Routine.all l.grammar source' r.after) ∧
    (LineCounts.of l.grammar source' r.after).logical
      = (LineCounts.of l.grammar source r.before).logical := by
  have routines := Routine.all_facing sound l.isSpecific l.marksRoutine
  exact ⟨routines.imp fun _ _ kept => ⟨kept.site, kept.agrees sound.toTame⟩,
    LineCounts.logicalOfFile_after sound.toTame⟩

/-- Comments among the parameters and in the body of a function that returns a function. -/
theorem measures_with_comments_arrow :
    let g := Language.typeScript.grammar
    let word (kind : String) (start stop start' stop' : Nat) : Revision :=
      .node { kind, named := false, start, stop } start' stop' .nil
    let part (kind : String) (field : Option String) (start stop start' stop' : Nat) :=
      Revision.node { kind, field, start, stop } start' stop'
    let comment (start stop : Nat) : Label := { kind := "comment", extra := true, start, stop }
    let name := part "identifier" (some "name") 9 10 9 10 .nil
    let parameters := part "formal_parameters" (some "parameters") 10 13 10 18
      (.keep (word "(" 10 11 10 11) (.put (comment 11 16)
        (.keep (part "identifier" none 11 12 16 17 .nil) (.keep (word ")" 12 13 17 18) .nil))))
    let noParameters := part "formal_parameters" (some "parameters") 20 22 30 32
      (.keep (word "(" 20 21 30 31) (.keep (word ")" 21 22 31 32) .nil))
    let arrow := part "arrow_function" none 20 25 30 35
      (.keep noParameters (.keep (word "=>" 22 24 32 34)
        (.keep (part "identifier" (some "body") 24 25 34 35 .nil) .nil)))
    let body := part "statement_block" (some "body") 13 26 18 36
      (.keep (word "\x7b" 13 14 18 19) (.put (comment 19 24)
        (.keep (part "return_statement" none 14 25 24 35
            (.keep (word "return" 14 20 24 30) (.keep arrow .nil)))
          (.keep (word "\x7d" 25 26 35 36) .nil))))
    let r := part "program" none 0 26 0 36
      (.keep (part "function_declaration" none 0 26 0 36
        (.keep (word "function" 0 8 0 8) (.keep name (.keep parameters (.keep body .nil))))) .nil)
    let source := "function f(a)\x7breturn()=>a\x7d".toUTF8.toList
    let source' := "function f(/*c*/a)\x7b/*d*/return()=>a\x7d".toUTF8.toList
    (Routine.all g source r.before).length = 2 ∧
    List.Forall₂ (fun u u' => r.Facing u.site u'.site ∧
        (RoutineMetrics.of g source u).Agrees (RoutineMetrics.of g source' u'))
      (Routine.all g source r.before) (Routine.all g source' r.after) ∧
    (LineCounts.of g source' r.after).logical = (LineCounts.of g source r.before).logical := by
  intro g word part comment name parameters noParameters arrow body r source source'
  have lead : r.Leads [1, 0] [1, 0] name := .down (.down .here .here) (.keep .here)
  have ways : g.nameWays r.before = [[1, 0]] := by decide +kernel
  have tame : r.Tame g source source' := by constructor <;> decide +kernel
  have names : ∀ way way' x, r.Leads way way' x → way ∈ g.nameWays r.before →
      x.after.bytes source' = x.before.bytes source := by
    intro way way' x leads named
    rw [ways, List.mem_singleton] at named
    subst named
    obtain ⟨-, rfl⟩ := leads.unique lead
    decide +kernel
  refine ⟨?_, measures_with_comments .typeScript ⟨tame, names, ?_, ?_⟩⟩
  · rw [Routine.all, Routine.collect, List.length_mergeSort]
    decide +kernel
  · decide +kernel
  · decide +kernel

end CodeMetrics

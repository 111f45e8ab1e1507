import CodeMetrics.Language.Descriptor
import CodeMetrics.Syntax.Site

/-! What the grammars promise. No kind of node is in two of the tables of routines, constructs,
    logical operations and guards, so a node is at most one of them. What the parsers promise is
    stated of a tree. -/

namespace CodeMetrics

namespace Grammar

/-- Whether a kind is one of a construct or of a routine. -/
def lists (g : Grammar) (kind : String) : Bool :=
  (g.constructs.lookup kind).isSome || g.routineKinds.contains kind

/-- A tree as parsers make it: words and signs hold nothing, a clause with a condition of its own
    stands as an alternative of a choice, and what may stand anywhere holds nothing and is neither a
    construct nor a routine. -/
structure Regular (g : Grammar) (root : Tree) : Prop where
  leaves : ∀ s ∈ root.sites, s.tree.isNamed = false → s.tree.isLeaf = true
  elseIfs : ∀ s ∈ root.sites, g.construct? s.tree = some .elseIf →
    s.tree.hasField "alternative" = true ∧ s.above.head?.bind g.construct? = some .branch
  extras : ∀ s ∈ root.sites, s.tree.label.extra = true →
    s.tree.isLeaf = true ∧ g.lists s.tree.kind = false

/-! ### Tables without common kinds -/

/-- Whether no kind is in two of the tables of routines, constructs, logical operations and
    guards. -/
def tablesApart (g : Grammar) : Bool :=
  (g.routineKinds.all fun kind => !g.constructs.any (·.1 == kind)
    && !g.logicalOperators.any (·.1 == kind) && !g.guardFields.any (·.1 == kind))
  && (g.constructs.all fun (kind, _) => !g.logicalOperators.any (·.1 == kind)
    && !g.guardFields.any (·.1 == kind))
  && g.logicalOperators.all fun (kind, _) => !g.guardFields.any (·.1 == kind)

/-- A node is at most one of a routine, a construct, a logical operation and a guarded node. -/
structure Apart (g : Grammar) : Prop where
  routine : ∀ t, g.isRoutine t = true →
    g.construct? t = none ∧ g.logicalOperator? t = none ∧ g.isGuarded t = false
  construct : ∀ t c, g.construct? t = some c →
    g.logicalOperator? t = none ∧ g.isGuarded t = false
  logical : ∀ t, (g.logicalOperator? t).isSome = true → g.isGuarded t = false

theorem isNamed_of_construct? {g : Grammar} {t : Tree} {c : Construct}
    (h : g.construct? t = some c) : t.isNamed = true := by
  rw [construct?] at h
  split at h
  · assumption
  · cases h

theorem construct?_eq_some {g : Grammar} {t : Tree} {c : Construct} (h : g.construct? t = some c) :
    (g.constructs.any (·.1 == t.kind)) = true := by
  rw [construct?] at h
  split at h
  · obtain ⟨before, after, happ, _⟩ := List.lookup_eq_some_iff.1 h
    rw [happ]
    simp
  · cases h

theorem logicalOperator?_isSome {g : Grammar} {t : Tree}
    (h : (g.logicalOperator? t).isSome = true) :
    (g.logicalOperators.any (·.1 == t.kind)) = true := by
  obtain ⟨op, hop⟩ := Option.isSome_iff_exists.1 h
  rw [logicalOperator?] at hop
  obtain ⟨o, _, ho⟩ := Option.bind_eq_some_iff.1 hop
  split at ho
  · next hmem =>
    exact List.any_eq_true.2 ⟨_, List.contains_iff_mem.1 hmem, by simp⟩
  · cases ho

theorem isGuarded_eq_true {g : Grammar} {t : Tree} (h : g.isGuarded t = true) :
    (g.guardFields.any (·.1 == t.kind)) = true := by
  obtain ⟨entry, hentry, hand⟩ := List.any_eq_true.1 h
  exact List.any_eq_true.2 ⟨entry, hentry, (Bool.and_eq_true _ _ ▸ hand).1⟩

theorem apart_of_tablesApart {g : Grammar} (h : g.tablesApart = true) : g.Apart := by
  simp only [tablesApart, Bool.and_eq_true, List.all_eq_true, Bool.not_eq_true'] at h
  obtain ⟨⟨routines, constructs⟩, logicals⟩ := h
  have noLogical : ∀ {t : Tree}, (g.logicalOperators.any (·.1 == t.kind)) = false →
      g.logicalOperator? t = none := fun hk => by
    rw [← Option.not_isSome_iff_eq_none]
    intro hs
    rw [logicalOperator?_isSome hs] at hk
    cases hk
  have noGuard : ∀ {t : Tree}, (g.guardFields.any (·.1 == t.kind)) = false →
      g.isGuarded t = false := fun hk => by
    rw [← Bool.not_eq_true]
    intro hs
    rw [isGuarded_eq_true hs] at hk
    cases hk
  refine ⟨fun t ht => ?_, fun t c hc => ?_, fun t ht => ?_⟩
  · rw [isRoutine, isOf, Bool.and_eq_true] at ht
    obtain ⟨⟨h₁, h₂⟩, h₃⟩ := routines _ (List.contains_iff_mem.1 ht.2)
    refine ⟨?_, noLogical h₂, noGuard h₃⟩
    cases hc : g.construct? t with
    | none => rfl
    | some c => rw [construct?_eq_some hc] at h₁; cases h₁
  · obtain ⟨⟨kind, c'⟩, hmem, hkind⟩ := List.any_eq_true.1 (construct?_eq_some hc)
    obtain rfl : kind = t.kind := by simpa using hkind
    obtain ⟨h₁, h₂⟩ := constructs _ hmem
    exact ⟨noLogical h₁, noGuard h₂⟩
  · obtain ⟨⟨kind, op⟩, hmem, hkind⟩ := List.any_eq_true.1 (logicalOperator?_isSome ht)
    obtain rfl : kind = t.kind := by simpa using hkind
    exact noGuard (logicals _ hmem)

/-- A node that holds nothing is neither a logical operation nor guarded. -/
theorem plain_of_isLeaf {g : Grammar} {t : Tree} (h : t.isLeaf = true) :
    g.logicalOperator? t = none ∧ g.isGuarded t = false := by
  have childless : ∀ name, t.child? name = none := fun name => by
    rw [Tree.child?, List.isEmpty_iff.1 h, List.find?_nil]
  refine ⟨by rw [logicalOperator?, childless]; rfl, ?_⟩
  rw [isGuarded, hasFieldOf, List.any_eq_false]
  intro entry _
  simp [childless]

end Grammar

theorem Language.apart (l : Language) : l.grammar.Apart :=
  Grammar.apart_of_tablesApart (by cases l <;> decide)

end CodeMetrics

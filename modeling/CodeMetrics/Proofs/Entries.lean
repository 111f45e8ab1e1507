import CodeMetrics.Measure.Complexity

/-! How the walk over a routine enters the children of a node: as statements, unless the node is a
    choice or a clause of one. -/

namespace CodeMetrics.Complexity

variable {g : Grammar}

theorem enterNamed_eq {levels : Nat × Nat} {c : Tree} {e : Entry}
    (h : enterNamed levels c = some e) : e = (levels, .statement) := by
  rw [enterNamed] at h
  split at h <;> cases h
  rfl

theorem enterNamed_eq_none {levels : Nat × Nat} {c : Tree} (h : enterNamed levels c = none) :
    c.isPart = false := by
  cases hn : c.isNamed with
  | true => simp [enterNamed, hn] at h
  | false => simp [Tree.isPart, hn]

/-- What is no clause of a choice and no choice is entered as a statement. -/
theorem enter?_plain {parent : Tree} {role : Role} (branch : g.construct? parent ≠ some .branch)
    (clause : role = .clause → g.construct? parent ≠ some .elseIf ∧
      g.construct? parent ≠ some .otherwise) (earlier : List Tree) (c : Tree) :
    enter? g parent role earlier c = enterNamed (levels (g.construct? parent)) c := by
  unfold enter?
  split
  · next h => exact absurd h (clause rfl).1
  · next h => exact absurd h (clause rfl).2
  · next h => exact absurd h branch
  · rfl

/-- What the walk does not enter is no part of what its parent says. -/
theorem isPart_of_enter?_none {parent c : Tree} {role : Role} {earlier : List Tree}
    (h : enter? g parent role earlier c = none) : c.isPart = false := by
  unfold enter? at h
  split at h
  · exact enterNamed_eq_none h
  · split at h
    · split at h
      · cases h
      · exact Bool.not_eq_true _ ▸ ‹¬ c.isPart = true›
    · exact enterNamed_eq_none h
  · split at h
    · cases h
    · exact enterNamed_eq_none h
  · exact enterNamed_eq_none h

end CodeMetrics.Complexity

import Mathlib.Data.Prod.Lex
import Mathlib.Order.Monotone.Basic
import CodeMetrics.Proofs.Sites
import CodeMetrics.Syntax.Position

/-! Positions of byte offsets. Going on by one byte either starts a row or goes on in one, so
    positions come in the order of reading: by row, and by column within a row. -/

namespace CodeMetrics

namespace Position

variable {source : List UInt8} {offset : ℕ} {b : UInt8}

/-- The place of a position in the order of reading. -/
def order (p : Position) : ℕ ×ₗ ℕ := toLex (p.row, p.column)

theorem take_add_one (h : source[offset]? = some b) :
    source.take (offset + 1) = source.take offset ++ [b] := by
  rw [List.take_add_one, h, Option.toList_some]

/-- A line feed ends its row. -/
theorem of_add_one_lineFeed (h : source[offset]? = some lineFeed) :
    Position.of source (offset + 1) = ⟨(Position.of source offset).row + 1, 0⟩ := by
  simp [Position.of, take_add_one h]

/-- Any other byte goes on in its row. -/
theorem of_add_one_other (h : source[offset]? = some b) (other : b ≠ lineFeed) :
    Position.of source (offset + 1)
      = ⟨(Position.of source offset).row, (Position.of source offset).column + 1⟩ := by
  simp [Position.of, take_add_one h, other]

/-- There is nothing behind the end. -/
theorem of_add_one_behind (h : source[offset]? = none) :
    Position.of source (offset + 1) = Position.of source offset := by
  simp only [Position.of, List.take_add_one, h, Option.toList_none, List.append_nil]

/-- Positions come in the order of reading. -/
theorem order_monotone (source : List UInt8) :
    Monotone fun offset => (Position.of source offset).order := by
  refine monotone_nat_of_le_succ fun offset => ?_
  rw [order, order, Prod.Lex.toLex_le_toLex]
  cases h : source[offset]? with
  | none =>
    rw [of_add_one_behind h]
    exact Or.inr ⟨rfl, le_rfl⟩
  | some b =>
    by_cases feed : b = lineFeed
    · subst feed
      rw [of_add_one_lineFeed h]
      exact Or.inl (Nat.lt_succ_self _)
    · rw [of_add_one_other h feed]
      exact Or.inr ⟨rfl, Nat.le_succ _⟩

/-- Rows do not go back. -/
theorem row_le (source : List UInt8) {first last : ℕ} (h : first ≤ last) :
    (Position.of source first).row ≤ (Position.of source last).row := by
  rcases Prod.Lex.toLex_le_toLex.1 (order_monotone source h) with less | ⟨same, -⟩
  · exact le_of_lt less
  · exact le_of_eq same

end Position

/-! ### Trees over a source -/

namespace Tree

/-- The nodes of a tree run forward and lie within the source. -/
def Within (source : List UInt8) (root : Tree) : Prop :=
  ∀ s ∈ root.sites, s.tree.label.start ≤ s.tree.label.stop ∧ s.tree.label.stop ≤ source.length

instance (source : List UInt8) (root : Tree) : Decidable (root.Within source) :=
  inferInstanceAs (Decidable (∀ s ∈ root.sites, _))

/-- A walk comes to sites of the tree only. -/
theorem exists_site_of_mem_walk {root : Tree} {enters : Tree → Tree → Bool} (t : Tree) :
    ∀ s ∈ root.sites, s.tree = t → ∀ u ∈ t.walk enters, ∃ s' ∈ root.sites, s'.tree = u := by
  induction t using induct with
  | node label children ih =>
    intro s hs tree u hu
    rw [walk_eq] at hu
    rcases List.mem_cons.1 hu with rfl | hu
    · exact ⟨s, hs, tree⟩
    · obtain ⟨c, hc, hu⟩ := List.mem_flatMap.1 hu
      split at hu
      · obtain ⟨i, hi⟩ := exists_site_of_child hs (by rwa [tree])
        exact ih c hc _ hi rfl u hu
      · cases hu

theorem site_of_mem_walk {root u : Tree} {enters : Tree → Tree → Bool}
    (h : u ∈ root.walk enters) : ∃ s ∈ root.sites, s.tree = u :=
  exists_site_of_mem_walk root ⟨root, [], []⟩ (self_mem_sitesFrom _ _ _) rfl u h

end Tree

end CodeMetrics

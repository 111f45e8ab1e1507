import Mathlib.Data.List.Nodup
import Mathlib.Data.List.Perm.Subperm
import Mathlib.Data.Prod.Lex
import Mathlib.Data.String.Basic
import Mathlib.Order.OrderDual
import CodeMetrics.Proofs.Heap
import CodeMetrics.Report.Offender

/-! The list of the worst routines is what sorting all of them would put in front. Of the entries
    offered so far the heap keeps as many as there is room for, and no entry that was turned away is
    worse than one that is kept. -/

namespace CodeMetrics

/-! ### The order of entries -/

namespace Offender

/-- What entries are ranked by: the more complex first, then by place. -/
def key (o : Offender) : ℕᵒᵈ ×ₗ String ×ₗ ℕ ×ₗ ℕ ×ₗ String :=
  toLex (OrderDual.toDual o.cognitive, toLex (o.path, toLex (o.startLine,
    toLex (o.startColumn, o.name))))

theorem then_ne_gt {x y : Ordering} : x.then y ≠ .gt ↔ x = .lt ∨ x = .eq ∧ y ≠ .gt := by
  cases x <;> simp

theorem rank_eq_lt (a b : Offender) : a.rank b = .lt ↔ a.key < b.key := by
  simp only [rank, key, Ordering.then_eq_lt, Prod.Lex.toLex_lt_toLex, compare_lt_iff_lt,
    compare_eq_iff_eq, OrderDual.toDual_lt_toDual, OrderDual.toDual_inj]
  rw [@eq_comm _ b.cognitive]

theorem notMilder_iff (a b : Offender) : a.notMilder b = true ↔ a.key ≤ b.key := by
  simp only [notMilder, bne_iff_ne, rank, key, then_ne_gt, Prod.Lex.toLex_le_toLex,
    compare_lt_iff_lt, compare_eq_iff_eq, OrderDual.toDual_lt_toDual, OrderDual.toDual_inj]
  rw [@eq_comm _ b.cognitive, ← not_lt, Ne, compare_gt_iff_gt]

theorem orders_notMilder : Heap.Orders notMilder where
  trans a b c h₁ h₂ := by
    rw [notMilder_iff] at h₁ h₂ ⊢
    exact h₁.trans h₂
  total a b := by
    rw [Bool.or_eq_true, notMilder_iff, notMilder_iff]
    exact le_total _ _

end Offender

namespace TopOffenders

open Offender (key notMilder orders_notMilder notMilder_iff rank_eq_lt)

/-! ### What is kept and what is turned away -/

/-- The entries offered so far are those kept and those turned away. -/
structure Keeps (limit : Nat) (offered : List Offender) (top : TopOffenders)
    (rejected : List Offender) : Prop where
  limit_eq : top.limit = limit
  heap : Heap.IsHeap notMilder top.heap top.heap.size
  perm : offered.Perm (top.heap.toList ++ rejected)
  size : top.heap.size = min limit offered.length
  /-- No entry that was turned away is worse than one that is kept. -/
  worst : ∀ o ∈ top.heap.toList, ∀ r ∈ rejected, o.key ≤ r.key

theorem keeps_start (limit : Nat) : Keeps limit [] ⟨limit, #[]⟩ [] where
  limit_eq := rfl
  heap _ _ h := absurd h (Nat.not_lt_zero _)
  perm := .refl _
  size := (Nat.min_zero limit).symm
  worst _ _ _ h := absurd h List.not_mem_nil

namespace Keeps

variable {limit : Nat} {offered rejected : List Offender} {top : TopOffenders}

theorem length_offered (h : Keeps limit offered top rejected) :
    offered.length = top.heap.size + rejected.length := by
  rw [h.perm.length_eq, List.length_append, Array.length_toList]

/-- While there is room, nothing is turned away. -/
theorem rejected_eq_nil (h : Keeps limit offered top rejected) (room : top.heap.size < limit) :
    rejected = [] := by
  have := h.length_offered
  have := h.size
  exact List.length_eq_zero_iff.1 (by omega)

/-- An entry that is turned away, since those kept are at least as bad. -/
theorem turnAway (h : Keeps limit offered top rejected) (full : top.heap.size = limit)
    {o : Offender} (mild : ∀ k ∈ top.heap.toList, k.key ≤ o.key) :
    Keeps limit (o :: offered) top (o :: rejected) where
  limit_eq := h.limit_eq
  heap := h.heap
  perm := (h.perm.cons o).trans List.perm_middle.symm
  size := by
    have := h.length_offered
    rw [List.length_cons]
    omega
  worst k hk r hr := by
    rcases List.mem_cons.1 hr with rfl | hr
    · exact mild k hk
    · exact h.worst k hk r hr

/-- An entry that there is room for. -/
theorem takeIn (h : Keeps limit offered top rejected) (room : top.heap.size < limit)
    (o : Offender) :
    Keeps limit (o :: offered) { top with heap := Heap.push notMilder top.heap o } rejected := by
  obtain ⟨heap, perm, size⟩ := Heap.push_spec orders_notMilder h.heap o
  obtain rfl := h.rejected_eq_nil room
  refine ⟨h.limit_eq, heap, ?_, ?_, fun _ _ _ hr => absurd hr List.not_mem_nil⟩
  · rw [List.append_nil]
    have same := h.perm
    rw [List.append_nil] at same
    exact (same.cons o).trans perm.symm
  · have := h.size
    have := h.length_offered
    rw [size, List.length_cons]
    omega

/-- An entry that is worse than the mildest one kept: one of the mildest gives way. -/
theorem replace (h : Keeps limit offered top rejected) (full : top.heap.size = limit)
    {o mildest : Offender} (kept : mildest ∈ top.heap.toList) (worse : o.key < mildest.key) :
    ∃ rejected', Keeps limit (o :: offered)
      { top with heap := Heap.pop notMilder (Heap.push notMilder top.heap o) } rejected' := by
  obtain ⟨pushed, perm, size⟩ := Heap.push_spec orders_notMilder h.heap o
  have nonempty : 0 < (Heap.push notMilder top.heap o).size := by omega
  obtain ⟨popped, split, greatest⟩ := Heap.pop_spec orders_notMilder pushed nonempty
  have length := split.length_eq
  rw [List.length_cons, Array.length_toList, Array.length_toList] at length
  refine ⟨(Heap.push notMilder top.heap o)[0] :: rejected, h.limit_eq, popped, ?_, ?_, ?_⟩
  · calc o :: offered
      _ |>.Perm (o :: (top.heap.toList ++ rejected)) := h.perm.cons o
      _ |>.Perm ((Heap.push notMilder top.heap o).toList ++ rejected) :=
        perm.symm.append_right rejected
      _ |>.Perm _ := (split.append_right rejected).trans List.perm_middle.symm
  · have := h.length_offered
    simp only [List.length_cons]
    omega
  · intro k hk r hr
    have member : k ∈ (Heap.push notMilder top.heap o).toList :=
      split.mem_iff.2 (List.mem_cons_of_mem _ hk)
    rcases List.mem_cons.1 hr with rfl | before
    · exact (notMilder_iff _ _).1 (greatest k member)
    · rcases List.mem_cons.1 (perm.mem_iff.1 member) with rfl | old
      · exact worse.le.trans (h.worst mildest kept r before)
      · exact h.worst k old r before

/-- What one more entry does. -/
theorem offer (h : Keeps limit offered top rejected) (o : Offender) :
    ∃ rejected', Keeps limit (o :: offered) (top.offer o) rejected' := by
  have size := h.size
  have root : ∀ (nonempty : 0 < top.heap.size), ∀ k ∈ top.heap.toList,
      k.key ≤ top.heap[0].key := by
    intro nonempty k hk
    obtain ⟨_, _, greatest⟩ := Heap.pop_spec orders_notMilder h.heap nonempty
    exact (notMilder_iff _ _).1 (greatest k hk)
  rw [TopOffenders.offer]
  split
  · next none =>
    -- no room at all
    rw [h.limit_eq] at none
    have empty : top.heap.size = 0 := by omega
    refine ⟨_, h.turnAway (by omega) fun k hk => ?_⟩
    rw [Array.size_eq_zero_iff.1 empty] at hk
    exact absurd hk List.not_mem_nil
  · next some =>
    rw [h.limit_eq] at some
    split
    · next rejects =>
      obtain ⟨full, mild⟩ := rejects
      rw [h.limit_eq] at full
      have nonempty : 0 < top.heap.size := by omega
      rw [Array.getElem?_eq_getElem nonempty, Option.any_some, bne_iff_ne, Ne, rank_eq_lt,
        not_lt] at mild
      exact ⟨_, h.turnAway full fun k hk => (root nonempty k hk).trans mild⟩
    · next accepts =>
      obtain ⟨_, _, grown⟩ := Heap.push_spec orders_notMilder h.heap o
      simp only [h.limit_eq, grown] at accepts ⊢
      split
      · next exceeds =>
        have full : top.heap.size = limit := by omega
        have nonempty : 0 < top.heap.size := by omega
        have worse : o.key < top.heap[0].key := by
          rw [← rank_eq_lt]
          simpa [full, Array.getElem?_eq_getElem nonempty] using accepts
        obtain ⟨rejected', kept⟩ := h.replace full
          (Array.mem_toList_iff.2 (Array.getElem_mem nonempty)) worse
        exact ⟨rejected', by rwa [h.limit_eq] at kept⟩
      · next room =>
        have kept := h.takeIn (by omega) o
        exact ⟨rejected, by rwa [h.limit_eq] at kept⟩

end Keeps

theorem keeps_foldl (limit : Nat) (offered : List Offender) :
    ∃ rejected, Keeps limit offered (offered.foldl TopOffenders.offer ⟨limit, #[]⟩) rejected := by
  suffices h : ∀ (more seen : List Offender) (top : TopOffenders) (rejected : List Offender),
      Keeps limit seen top rejected → ∃ rejected',
        Keeps limit (more.reverse ++ seen) (more.foldl TopOffenders.offer top) rejected' by
    obtain ⟨rejected, kept⟩ := h offered [] _ [] (keeps_start limit)
    rw [List.append_nil] at kept
    have length := kept.size
    rw [List.length_reverse] at length
    exact ⟨rejected, kept.limit_eq, kept.heap, (List.reverse_perm offered).symm.trans kept.perm,
      length, kept.worst⟩
  intro more
  induction more with
  | nil => exact fun seen top rejected h => ⟨rejected, h⟩
  | cons o more ih =>
    intro seen top rejected h
    obtain ⟨rejected', h⟩ := h.offer o
    rw [List.reverse_cons, List.append_assoc, List.singleton_append]
    exact ih _ _ _ h

/-! ### The list of the worst -/

/-- The keys of a sorted list are the sorted keys. -/
theorem keys_eq {sorted offered : List Offender} (perm : sorted.Perm offered)
    (ordered : sorted.Pairwise fun a b => a.key ≤ b.key) :
    sorted.map key = (offered.map key).mergeSort fun a b => decide (a ≤ b) := by
  have merged : ((offered.map key).mergeSort fun a b => decide (a ≤ b)).Pairwise (· ≤ ·) := by
    refine (List.pairwise_mergeSort ?_ ?_ _).imp of_decide_eq_true
    · intro a b c hab hbc
      exact decide_eq_true ((of_decide_eq_true hab).trans (of_decide_eq_true hbc))
    · intro a b
      rw [Bool.or_eq_true, decide_eq_true_iff, decide_eq_true_iff]
      exact le_total a b
  refine List.Perm.eq_of_pairwise (fun a b _ _ => le_antisymm)
    (List.pairwise_map.2 ordered) merged ?_
  exact (perm.map key).trans (List.mergeSort_perm _ _).symm

/-- What is listed, and what is not. -/
theorem select_split (limit : Nat) (offered : List Offender) :
    ∃ rest, offered.Perm (select limit offered ++ rest) ∧
      (select limit offered).length = min limit offered.length ∧
      (select limit offered ++ rest).Pairwise fun a b => a.key ≤ b.key := by
  obtain ⟨rejected, kept⟩ := keeps_foldl limit offered
  obtain ⟨sorted, perm⟩ := Heap.toSorted_spec orders_notMilder kept.heap
  have rest := List.pairwise_mergeSort (fun a b c => orders_notMilder.trans a b c)
    orders_notMilder.total rejected
  have restPerm := List.mergeSort_perm rejected notMilder
  refine ⟨rejected.mergeSort notMilder, kept.perm.trans (perm.symm.append restPerm.symm), ?_, ?_⟩
  · rw [← kept.size, ← Array.length_toList]
    exact perm.length_eq
  · refine List.pairwise_append.2 ⟨sorted.imp (notMilder_iff _ _).1,
      rest.imp (notMilder_iff _ _).1, fun o ho r hr => ?_⟩
    exact kept.worst o (perm.mem_iff.1 ho) r (restPerm.mem_iff.1 hr)

theorem subperm_select (limit : Nat) (offered : List Offender) :
    (select limit offered).Subperm offered := by
  obtain ⟨rest, perm, _, _⟩ := select_split limit offered
  exact (List.sublist_append_left _ rest).subperm.trans perm.symm.subperm

/-- The keys of the list are those in front, in whichever order the entries were offered. -/
theorem keys_select {limit : Nat} {offered reordered : List Offender}
    (same : reordered.Perm offered) : (select limit reordered).map key
      = ((offered.map key).mergeSort fun a b => decide (a ≤ b)).take limit := by
  obtain ⟨rest, perm, length, ordered⟩ := select_split limit reordered
  have total := perm.length_eq
  rw [List.length_append] at total
  rw [← keys_eq (perm.symm.trans same) ordered, List.map_append]
  rcases le_total limit reordered.length with few | many
  · rw [Nat.min_eq_left few] at length
    rw [List.take_left' (by rw [List.length_map, length])]
  · -- nothing was turned away
    obtain rfl : rest = [] := List.length_eq_zero_iff.1 (by omega)
    rw [List.map_nil, List.append_nil, List.take_of_length_le (by rw [List.length_map]; omega)]

/-- Entries that are known by their keys are listed alike where their keys are. -/
theorem eq_of_keys {offered xs ys : List Offender} (distinct : (offered.map key).Nodup)
    (hx : ∀ o ∈ xs, o ∈ offered) (hy : ∀ o ∈ ys, o ∈ offered) (keys : xs.map key = ys.map key) :
    xs = ys := by
  induction xs generalizing ys with
  | nil => exact (List.map_eq_nil_iff.1 keys.symm).symm
  | cons x xs ih =>
    cases ys with
    | nil => cases keys
    | cons y ys =>
      obtain ⟨head, tail⟩ := List.cons.inj keys
      obtain ⟨hx, hxs⟩ := List.forall_mem_cons.1 hx
      obtain ⟨hy, hys⟩ := List.forall_mem_cons.1 hy
      rw [List.inj_on_of_nodup_map distinct hx hy head, ih hxs hys tail]

/-- The list of the worst holds, of the entries offered, as many as there is room for, and by rank
    it is the front of all of them sorted. Where ranks tell all entries apart, the order in which
    they are offered does not show. -/
theorem select_eq_front (limit : Nat) (offered : List Offender) :
    (select limit offered).Subperm offered ∧
      (select limit offered).length = min limit offered.length ∧
      (select limit offered).map key
        = ((offered.map key).mergeSort fun a b => decide (a ≤ b)).take limit ∧
      ((offered.map key).Nodup → ∀ reordered : List Offender, reordered.Perm offered →
        select limit reordered = select limit offered) := by
  obtain ⟨_, _, length, _⟩ := select_split limit offered
  refine ⟨subperm_select limit offered, length, keys_select (.refl offered),
    fun distinct reordered same => ?_⟩
  refine eq_of_keys distinct (fun o ho => ?_) (fun o ho => (subperm_select _ _).subset ho) ?_
  · exact same.mem_iff.1 ((subperm_select _ _).subset ho)
  · rw [keys_select same, keys_select (.refl offered)]

/-- Three routines, two of them as complex as each other and in one line. -/
theorem select_eq_front_three :
    let entry (name : String) (column cognitive : Nat) : Offender :=
      ⟨"a.go", "go", name, .function, 1, column, 1, 1, cognitive, 0⟩
    let offered := [entry "f" 9 4, entry "g" 1 4, entry "h" 1 7]
    (offered.map key).Nodup ∧ select 2 offered.reverse = select 2 offered := by
  intro entry offered
  have distinct : (offered.map key).Nodup := by decide
  exact ⟨distinct, (select_eq_front 2 offered).2.2.2 distinct _ (List.reverse_perm offered)⟩

end TopOffenders

end CodeMetrics

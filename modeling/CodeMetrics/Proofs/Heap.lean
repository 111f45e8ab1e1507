import Mathlib.Logic.Equiv.Basic
import CodeMetrics.Report.Heap

/-! A heap stays a heap. Everything is done by exchanging elements, so all that is ever said is how
    the elements at two positions compare, and an exchange only renames positions. While an element
    moves, the heap is in order but for the pairs around its position, and the children of that
    position are still below its parent. -/

namespace CodeMetrics.Heap

variable {α : Type} {le : α → α → Bool} {a b : Array α} {n i j k m : Nat}

/-- An order in which any two elements can be compared. -/
structure Orders (le : α → α → Bool) : Prop where
  trans : ∀ x y z, le x y = true → le y z = true → le x z = true
  total : ∀ x y, (le x y || le y x) = true

/-! ### Comparing positions -/

theorem leAt_eq (hi : i < a.size) (hj : j < a.size) : leAt le a i j = le a[i] a[j] := by
  simp [leAt, hi, hj]

theorem leAt_trans (orders : Orders le) (h₁ : leAt le a i j = true) (h₂ : leAt le a j k = true) :
    leAt le a i k = true := by
  unfold leAt at h₁ h₂ ⊢
  split at h₁
  · next x y hx hy =>
    split at h₂
    · next y' z hy' hz =>
      cases hy.symm.trans hy'
      simp only [hx, hz]
      exact orders.trans x y z h₁ h₂
    · cases h₂
  · cases h₁

theorem leAt_total (orders : Orders le) (hi : i < a.size) (hj : j < a.size)
    (h : leAt le a i j ≠ true) : leAt le a j i = true := by
  have total := orders.total a[i] a[j]
  rw [leAt_eq hi hj] at h
  rw [leAt_eq hj hi]
  simpa [h] using total

theorem leAt_refl (orders : Orders le) (hi : i < a.size) : leAt le a i i = true := by
  rw [leAt_eq hi hi]
  simpa using orders.total a[i] a[i]

/-- Positions compare after an exchange as the exchanged ones did before. -/
theorem leAt_swap (le : α → α → Bool) (hi : i < a.size) (hj : j < a.size) (k m : Nat) :
    leAt le (a.swapIfInBounds i j) k m
      = leAt le a (Equiv.swap i j k) (Equiv.swap i j m) := by
  have found : ∀ k : Nat, (a.swapIfInBounds i j)[k]? = a[Equiv.swap i j k]? := by
    intro k
    rw [Array.swapIfInBounds_def, dif_pos hi, dif_pos hj, Array.getElem?_swap]
    by_cases hkj : j = k
    · subst hkj
      simp [hi]
    · by_cases hki : i = k
      · subst hki
        simp [hkj, hj]
      · rw [if_neg hkj, if_neg hki, Equiv.swap_apply_of_ne_of_ne (Ne.symm hki) (Ne.symm hkj)]
  simp only [leAt, found]

theorem leAt_pop (hk : k < a.size - 1) (hm : m < a.size - 1) :
    leAt le a.pop k m = leAt le a k m := by
  simp only [leAt, Array.getElem?_pop, if_pos hk, if_pos hm]

/-! ### Exchanges -/

/-- The second array comes from the first by exchanges before a position. -/
inductive Shuffled (n : Nat) (a : Array α) : Array α → Prop
  | refl : Shuffled n a a
  | swap {b : Array α} {i j : Nat} (before : Shuffled n a b) (hi : i < n) (hj : j < n) :
    Shuffled n a (b.swapIfInBounds i j)

namespace Shuffled

theorem trans {c : Array α} (h₁ : Shuffled n a b) (h₂ : Shuffled n b c) : Shuffled n a c := by
  induction h₂ with
  | refl => exact h₁
  | swap _ hi hj ih => exact ih.swap hi hj

theorem size (h : Shuffled n a b) : b.size = a.size := by
  induction h with
  | refl => rfl
  | swap _ _ _ ih => rw [Array.size_swapIfInBounds, ih]

theorem perm (h : Shuffled n a b) : b.toList.Perm a.toList := by
  induction h with
  | refl => exact .refl _
  | @swap b i j _ _ _ ih =>
    refine List.Perm.trans ?_ ih
    rw [Array.swapIfInBounds_def]
    split
    · split
      · exact Array.perm_iff_toList_perm.1 (Array.swap_perm _ _)
      · exact .refl _
    · exact .refl _

/-- What comes later is above all before it, however that is shuffled. -/
theorem above (h : Shuffled n a b) (hn : n ≤ a.size)
    (above : ∀ i j, i < j → n ≤ j → j < a.size → leAt le a i j = true) :
    ∀ i j, i < j → n ≤ j → j < b.size → leAt le b i j = true := by
  induction h with
  | refl => exact above
  | @swap b u v before hu hv ih =>
    intro i j hij hj hjb
    have size := before.size
    rw [Array.size_swapIfInBounds] at hjb
    have fixed : Equiv.swap u v j = j :=
      Equiv.swap_apply_of_ne_of_ne (by omega) (by omega)
    rw [leAt_swap le (by omega) (by omega), fixed]
    refine ih _ j ?_ hj hjb
    -- a position before `n` stays before `n`, any other stays where it is
    rcases eq_or_ne i u with rfl | hiu
    · rw [Equiv.swap_apply_left]; omega
    rcases eq_or_ne i v with rfl | hiv
    · rw [Equiv.swap_apply_right]; omega
    · rwa [Equiv.swap_apply_of_ne_of_ne hiu hiv]

end Shuffled

/-! ### Heaps -/

/-- The position above another one. -/
def parent (i : Nat) : Nat := (i - 1) / 2

/-- No element before a position is greater than the one above it. -/
def IsHeap (le : α → α → Bool) (a : Array α) (n : Nat) : Prop :=
  ∀ k, 0 < k → k < n → leAt le a k (parent k) = true

theorem parent_lt (h : 0 < k) : parent k < k := by unfold parent; omega

theorem child_cases (h : 0 < k) : k = 2 * parent k + 1 ∨ k = 2 * parent k + 2 := by
  unfold parent; omega

/-- The first element is one of the greatest. -/
theorem IsHeap.le_root (orders : Orders le) (heap : IsHeap le a n) (hn : n ≤ a.size) :
    ∀ k < n, leAt le a k 0 = true := by
  intro k
  induction k using Nat.strongRecOn with
  | ind k ih =>
    intro hk
    rcases Nat.eq_zero_or_pos k with rfl | pos
    · exact leAt_refl orders (by omega)
    · have lt := parent_lt pos
      exact leAt_trans orders (heap k pos hk) (ih (parent k) lt (by omega))

/-- In order but for the pairs around a position. -/
structure Around (le : α → α → Bool) (a : Array α) (n i : Nat) : Prop where
  apart : ∀ k, 0 < k → k < n → k ≠ i → parent k ≠ i → leAt le a k (parent k) = true
  /-- The children of the position are below its parent. -/
  across : ∀ k, 0 < k → k < n → parent k = i → 0 < i → leAt le a k (parent i) = true

theorem Around.heap (around : Around le a n i)
    (above : 0 < i → i < n → leAt le a i (parent i) = true)
    (below : ∀ k, 0 < k → k < n → parent k = i → leAt le a k i = true) : IsHeap le a n := by
  intro k pos hk
  by_cases hki : k = i
  · subst hki; exact above pos hk
  by_cases hp : parent k = i
  · rw [hp]; exact below k pos hk hp
  · exact around.apart k pos hk hki hp

/-! ### Moving up -/

/-- An element that goes up a step stands above its new children. -/
theorem Around.up (orders : Orders le) (hn : n ≤ a.size) (hi : i < n) (pos : 0 < i)
    (around : Around le a n i) (greater : leAt le a i (parent i) ≠ true) :
    Around le (a.swapIfInBounds i (parent i)) n (parent i) ∧
      ∀ k, 0 < k → k < n → parent k = parent i →
        leAt le (a.swapIfInBounds i (parent i)) k (parent i) = true := by
  have lt := parent_lt pos
  have swapped := leAt_swap (a := a) (i := i) (j := parent i) le (by omega) (by omega)
  have risen : leAt le a (parent i) i = true :=
    leAt_total orders (by omega) (by omega) greater
  refine ⟨⟨fun k kpos hk hkp hpp => ?_, fun k kpos hk hp ppos => ?_⟩, fun k kpos hk hp => ?_⟩
  · have hki : k ≠ i := fun h => hpp (h ▸ rfl)
    rw [swapped, Equiv.swap_apply_of_ne_of_ne hki hkp]
    by_cases hp : parent k = i
    · rw [hp, Equiv.swap_apply_left]
      exact around.across k kpos hk hp pos
    · rw [Equiv.swap_apply_of_ne_of_ne hp hpp]
      exact around.apart k kpos hk hki hp
  · have above := around.apart (parent i) ppos (by omega) (by omega)
      (by have := parent_lt ppos; omega)
    have grand := parent_lt ppos
    rw [swapped, Equiv.swap_apply_of_ne_of_ne (a := i) (b := parent i) (x := parent (parent i))
      (by omega) (by omega)]
    by_cases hki : k = i
    · rw [hki, Equiv.swap_apply_left]
      exact above
    · have := parent_lt kpos
      rw [Equiv.swap_apply_of_ne_of_ne hki (by omega)]
      have sibling := around.apart k kpos hk hki (by omega)
      rw [hp] at sibling
      exact leAt_trans orders sibling above
  · rw [swapped, Equiv.swap_apply_right]
    by_cases hki : k = i
    · rw [hki, Equiv.swap_apply_left]
      exact risen
    · have := parent_lt kpos
      rw [Equiv.swap_apply_of_ne_of_ne hki (by omega)]
      have sibling := around.apart k kpos hk hki (by omega)
      rw [hp] at sibling
      exact leAt_trans orders sibling risen

theorem siftUp_spec (orders : Orders le) (hi : i < a.size) (around : Around le a a.size i)
    (below : ∀ k, 0 < k → k < a.size → parent k = i → leAt le a k i = true) :
    IsHeap le (siftUp le a i) a.size ∧ Shuffled a.size a (siftUp le a i) := by
  induction a, i using siftUp.induct le with
  | case1 a =>
    rw [siftUp, if_pos rfl]
    exact ⟨around.heap (fun h => absurd h (by omega)) below, .refl⟩
  | case2 a i nonzero p stays =>
    rw [siftUp, if_neg nonzero]
    simp only [p, stays, if_true]
    exact ⟨around.heap (fun _ _ => stays) below, .refl⟩
  | case3 a i nonzero p rises ih =>
    have pos : 0 < i := by omega
    obtain ⟨around', below'⟩ := around.up orders (Nat.le_refl _) hi pos rises
    rw [siftUp, if_neg nonzero]
    simp only [p, rises]
    simp only [Array.size_swapIfInBounds] at ih
    obtain ⟨heap, shuffled⟩ := ih (by omega) around' below'
    exact ⟨heap, (Shuffled.refl.swap hi (by omega)).trans shuffled⟩

/-- A new element. -/
theorem push_spec (orders : Orders le) (heap : IsHeap le a a.size) (x : α) :
    IsHeap le (push le a x) (push le a x).size ∧
      (push le a x).toList.Perm (x :: a.toList) ∧ (push le a x).size = a.size + 1 := by
  have old : ∀ k m, k < a.size → m < a.size → leAt le (a.push x) k m = leAt le a k m := by
    intro k m hk hm
    simp only [leAt, Array.getElem?_push, if_neg (Nat.ne_of_lt hk), if_neg (Nat.ne_of_lt hm)]
  have size : (a.push x).size = a.size + 1 := Array.size_push _
  -- the new element is a leaf
  have childless : ∀ k, 0 < k → k < (a.push x).size → parent k ≠ a.size := by
    intro k pos hk
    have := parent_lt pos
    omega
  have around : Around le (a.push x) (a.push x).size a.size := by
    refine ⟨fun k pos hk hne _ => ?_, fun k pos hk hp => absurd hp (childless k pos hk)⟩
    have := parent_lt pos
    rw [old k _ (by omega) (by omega)]
    exact heap k pos (by omega)
  obtain ⟨sifted, shuffled⟩ := siftUp_spec orders (by omega) around
    fun k pos hk hp => absurd hp (childless k pos hk)
  rw [push, shuffled.size]
  refine ⟨sifted, shuffled.perm.trans ?_, size⟩
  rw [Array.toList_push]
  exact List.perm_append_singleton x a.toList

/-! ### Moving down -/

/-- A child that is at least its sibling. -/
structure Greatest (le : α → α → Bool) (a : Array α) (n i c : Nat) : Prop where
  pos : 0 < c
  lt : c < n
  parent_eq : parent c = i
  sibling : ∀ k, 0 < k → k < n → parent k = i → leAt le a k c = true

theorem greatest_greaterChild (orders : Orders le) (hn : n ≤ a.size) (h : 2 * i + 2 < n) :
    Greatest le a n i (greaterChild le a i) := by
  have children : ∀ k, 0 < k → parent k = i → k = 2 * i + 1 ∨ k = 2 * i + 2 := by
    rintro k pos rfl
    exact child_cases pos
  unfold greaterChild
  split
  · next second =>
    refine ⟨by omega, h, by unfold parent; omega, fun k pos _ hp => ?_⟩
    rcases children k pos hp with rfl | rfl
    · exact second
    · exact leAt_refl orders (by omega)
  · next first =>
    refine ⟨by omega, by omega, by unfold parent; omega, fun k pos _ hp => ?_⟩
    rcases children k pos hp with rfl | rfl
    · exact leAt_refl orders (by omega)
    · exact leAt_total orders (by omega) (by omega) first

theorem greatest_only (orders : Orders le) (hn : n ≤ a.size) (h : 2 * i + 2 = n) :
    Greatest le a n i (2 * i + 1) := by
  refine ⟨by omega, by omega, by unfold parent; omega, fun k pos hk hp => ?_⟩
  obtain rfl : k = 2 * i + 1 := by
    have := child_cases pos
    omega
  exact leAt_refl orders (by omega)

/-- An element that goes down to its greatest child. -/
theorem Around.down {c : Nat} (hn : n ≤ a.size) (around : Around le a n i)
    (greatest : Greatest le a n i c) : Around le (a.swapIfInBounds i c) n c := by
  obtain ⟨cpos, hc, rfl, sibling⟩ := greatest
  have lt := parent_lt cpos
  have swapped := leAt_swap (a := a) (i := parent c) (j := c) le (by omega) (by omega)
  refine ⟨fun k pos hk hkc hpc => ?_, fun k pos hk hp _ => ?_⟩
  · rw [swapped]
    by_cases hki : k = parent c
    · subst hki
      have := parent_lt pos
      rw [Equiv.swap_apply_left, Equiv.swap_apply_of_ne_of_ne (by omega) (by omega)]
      exact around.across c cpos hc rfl pos
    rw [Equiv.swap_apply_of_ne_of_ne hki hkc]
    by_cases hp : parent k = parent c
    · rw [hp, Equiv.swap_apply_left]
      exact sibling k pos hk hp
    · rw [Equiv.swap_apply_of_ne_of_ne hp hpc]
      exact around.apart k pos hk hki hp
  · have := parent_lt pos
    rw [swapped, Equiv.swap_apply_left, Equiv.swap_apply_of_ne_of_ne (by omega) (by omega)]
    have above := around.apart k pos hk (by omega) (by omega)
    rwa [hp] at above

theorem sinkToBottom_spec (orders : Orders le) (hi : i < a.size) (around : Around le a a.size i) :
    Around le (sinkToBottom le a i).1 a.size (sinkToBottom le a i).2 ∧
      Shuffled a.size a (sinkToBottom le a i).1 ∧ (sinkToBottom le a i).2 < a.size ∧
      a.size ≤ 2 * (sinkToBottom le a i).2 + 1 := by
  induction a, i using sinkToBottom.induct le with
  | case1 a i two _ ih =>
    have greatest := greatest_greaterChild orders (Nat.le_refl _) two
    rw [sinkToBottom, if_pos two]
    simp only [Array.size_swapIfInBounds] at ih
    obtain ⟨sunk, shuffled, bounds⟩ := ih greatest.lt (around.down (Nat.le_refl _) greatest)
    exact ⟨sunk, (Shuffled.refl.swap hi greatest.lt).trans shuffled, bounds⟩
  | case2 a i two one =>
    have greatest := greatest_only orders (Nat.le_refl _) one
    rw [sinkToBottom, if_neg two, if_pos one]
    have shuffled : Shuffled a.size a (a.swapIfInBounds i (2 * i + 1)) :=
      Shuffled.refl.swap hi greatest.lt
    exact ⟨around.down (Nat.le_refl _) greatest, shuffled, by omega, by omega⟩
  | case3 a i two one =>
    rw [sinkToBottom, if_neg two, if_neg one]
    exact ⟨around, .refl, hi, by omega⟩

/-- The last element in place of the first. -/
def replaceFirst (a : Array α) : Array α := (a.swapIfInBounds 0 (a.size - 1)).pop

theorem size_replaceFirst (a : Array α) : (replaceFirst a).size = a.size - 1 := by
  rw [replaceFirst, Array.size_pop, Array.size_swapIfInBounds]

theorem perm_replaceFirst (nonempty : 0 < a.size) :
    a.toList.Perm (a[0] :: (replaceFirst a).toList) := by
  have exchanged : Shuffled a.size a (a.swapIfInBounds 0 (a.size - 1)) :=
    Shuffled.refl.swap nonempty (by omega)
  have last : (a.swapIfInBounds 0 (a.size - 1)).toList = (replaceFirst a).toList ++ [a[0]] := by
    rw [← Array.toList_push]
    congr 1
    refine Array.ext (by simp [size_replaceFirst]; omega) fun k hk _ => ?_
    rw [Array.size_swapIfInBounds] at hk
    by_cases hkl : k = a.size - 1
    · subst hkl
      simp only [Array.getElem_swapIfInBounds, Array.getElem_push, size_replaceFirst]
      rw [dif_neg (Nat.lt_irrefl _)]
      split
      · next alone => exact getElem_congr_idx alone.1
      · rw [dif_pos ⟨trivial, nonempty⟩]
    · rw [Array.getElem_push_lt (by rw [size_replaceFirst]; omega)]
      simp [replaceFirst]
  refine exchanged.perm.symm.trans ?_
  rw [last]
  exact List.perm_append_singleton _ _

theorem around_replaceFirst (heap : IsHeap le a a.size) :
    Around le (replaceFirst a) (replaceFirst a).size 0 := by
  refine ⟨fun k pos hk _ hp => ?_, fun _ _ _ _ h => absurd h (by omega)⟩
  have lt := parent_lt pos
  rw [size_replaceFirst] at hk
  rw [replaceFirst, leAt_pop (by simp; omega) (by simp; omega), leAt_swap le (by omega) (by omega),
    Equiv.swap_apply_of_ne_of_ne (by omega) (by omega),
    Equiv.swap_apply_of_ne_of_ne (by omega) (by omega)]
  exact heap k pos (by omega)

theorem pop_eq (a : Array α) : pop le a = siftUp le (sinkToBottom le (replaceFirst a) 0).1
    (sinkToBottom le (replaceFirst a) 0).2 := rfl

/-- The first element of a heap is taken away. It is one of the greatest, and the others are a
    heap. -/
theorem pop_spec (orders : Orders le) (heap : IsHeap le a a.size) (nonempty : 0 < a.size) :
    IsHeap le (pop le a) (pop le a).size ∧
      a.toList.Perm (a[0] :: (pop le a).toList) ∧ (∀ x ∈ a.toList, le x a[0] = true) := by
  have greatest : ∀ x ∈ a.toList, le x a[0] = true := by
    intro x hx
    obtain ⟨k, hk, rfl⟩ := List.mem_iff_getElem.1 hx
    have root := heap.le_root orders (Nat.le_refl _) k hk
    rwa [leAt_eq hk nonempty] at root
  have split := perm_replaceFirst nonempty
  by_cases empty : (replaceFirst a).size = 0
  · -- nothing is left to move
    have sunk : sinkToBottom le (replaceFirst a) 0 = (replaceFirst a, 0) := by
      rw [sinkToBottom, if_neg (by omega), if_neg (by omega)]
    have stays : pop le a = replaceFirst a := by
      rw [pop_eq, sunk, siftUp, if_pos rfl]
    rw [stays]
    exact ⟨fun k _ hk => absurd hk (by omega), split, greatest⟩
  · obtain ⟨sunk, shuffled, bound, bottom⟩ := sinkToBottom_spec orders (by omega)
      (around_replaceFirst heap)
    have same := shuffled.size
    rw [← same] at sunk bound bottom
    obtain ⟨sifted, moved⟩ := siftUp_spec orders bound sunk fun k pos hk hp => by
      have := child_cases pos
      omega
    rw [pop_eq, moved.size]
    exact ⟨sifted, split.trans (.cons _ (moved.perm.trans shuffled.perm).symm), greatest⟩

/-! ### Sorting -/

theorem siftDown_spec (orders : Orders le) (hn : n ≤ a.size) (hi : i < n)
    (around : Around le a n i) (above : 0 < i → leAt le a i (parent i) = true) :
    IsHeap le (siftDown le a i n) n ∧ Shuffled n a (siftDown le a i n) := by
  induction a, i using siftDown.induct le n with
  | case1 a i two _ stays =>
    have greatest := greatest_greaterChild orders hn two
    rw [siftDown, if_pos two]
    simp only [stays, if_true]
    refine ⟨around.heap (fun pos _ => above pos) fun k pos hk hp => ?_, .refl⟩
    exact leAt_trans orders (greatest.sibling k pos hk hp) stays
  | case2 a i two _ sinks ih =>
    have greatest := greatest_greaterChild orders hn two
    have risen : leAt le a i (greaterChild le a i) = true :=
      leAt_total orders (by have := greatest.lt; omega) (by omega) sinks
    rw [siftDown, if_pos two]
    simp only [sinks]
    obtain ⟨heap, shuffled⟩ := ih (by rwa [Array.size_swapIfInBounds]) greatest.lt
      (around.down hn greatest) fun _ => by
        rw [greatest.parent_eq, leAt_swap le (by omega) (by have := greatest.lt; omega),
          Equiv.swap_apply_right, Equiv.swap_apply_left]
        exact risen
    exact ⟨heap, (Shuffled.refl.swap hi greatest.lt).trans shuffled⟩
  | case3 a i two only =>
    obtain ⟨one, sinks⟩ := Bool.and_eq_true_iff.1 only
    have one := of_decide_eq_true one
    have sinks : leAt le a (2 * i + 1) i ≠ true := by simpa using sinks
    have greatest := greatest_only orders hn one
    rw [siftDown, if_neg two, if_pos only]
    refine ⟨(around.down hn greatest).heap (fun _ _ => ?_) fun k pos hk hp => ?_,
      Shuffled.refl.swap hi greatest.lt⟩
    · rw [greatest.parent_eq, leAt_swap le (by omega) (by omega), Equiv.swap_apply_right,
        Equiv.swap_apply_left]
      exact leAt_total orders (by omega) (by omega) sinks
    · have := child_cases pos
      omega
  | case4 a i two only =>
    rw [siftDown, if_neg two, if_neg only]
    refine ⟨around.heap (fun pos _ => above pos) fun k pos hk hp => ?_, .refl⟩
    -- there is one child at most, and it is not greater
    have := child_cases pos
    obtain rfl : k = 2 * i + 1 := by omega
    have one : 2 * i + 2 = n := by omega
    simpa [one] using only

/-- A heap in front, and from there on elements that are above all before them. -/
structure Sorting (le : α → α → Bool) (a : Array α) (n : Nat) : Prop where
  heap : IsHeap le a n
  above : ∀ i j, i < j → n ≤ j → j < a.size → leAt le a i j = true

/-- The first element of the heap goes behind it. -/
theorem Sorting.step (orders : Orders le) (sorting : Sorting le a (n + 2)) (hn : n + 2 ≤ a.size) :
    let b := siftDown le (a.swapIfInBounds 0 (n + 1)) 0 (n + 1)
    Sorting le b (n + 1) ∧ Shuffled (n + 2) a b := by
  intro b
  have swapped := leAt_swap (a := a) (i := 0) (j := n + 1) le (by omega) (by omega)
  have size : (a.swapIfInBounds 0 (n + 1)).size = a.size := Array.size_swapIfInBounds
  have around : Around le (a.swapIfInBounds 0 (n + 1)) (n + 1) 0 := by
    refine ⟨fun k pos hk _ hp => ?_, fun _ _ _ _ h => absurd h (by omega)⟩
    have := parent_lt pos
    rw [swapped, Equiv.swap_apply_of_ne_of_ne (by omega) (by omega),
      Equiv.swap_apply_of_ne_of_ne (by omega) (by omega)]
    exact sorting.heap k pos (by omega)
  obtain ⟨heap, shuffled⟩ := siftDown_spec orders (by omega) (Nat.succ_pos n) around
    fun h => absurd h (by omega)
  have exchanged : Shuffled (n + 2) a (a.swapIfInBounds 0 (n + 1)) :=
    Shuffled.refl.swap (by omega) (by omega)
  have later := exchanged.above hn sorting.above
  have moved : Shuffled (n + 2) (a.swapIfInBounds 0 (n + 1)) b := by
    have weaken : ∀ c, Shuffled (n + 1) (a.swapIfInBounds 0 (n + 1)) c →
        Shuffled (n + 2) (a.swapIfInBounds 0 (n + 1)) c := by
      intro c h
      induction h with
      | refl => exact .refl
      | swap _ hi hj ih => exact ih.swap (by omega) (by omega)
    exact weaken b shuffled
  refine ⟨⟨heap, shuffled.above (by omega) fun i j hij hj hjs => ?_⟩, exchanged.trans moved⟩
  rcases Nat.eq_or_lt_of_le hj with rfl | hj
  · -- the former first element, above the rest of the heap
    rw [swapped, Equiv.swap_apply_right]
    refine sorting.heap.le_root orders hn _ ?_
    rcases Nat.eq_zero_or_pos i with rfl | pos
    · rw [Equiv.swap_apply_left]; omega
    · rw [Equiv.swap_apply_of_ne_of_ne (by omega) (by omega)]; omega
  · exact later i j hij hj hjs

theorem sortFront_spec (orders : Orders le) (hn : n ≤ a.size) (sorting : Sorting le a n) :
    (∀ i j, i < j → j < a.size → leAt le (sortFront le a n) i j = true) ∧
      (sortFront le a n).toList.Perm a.toList ∧ (sortFront le a n).size = a.size := by
  induction a, n using sortFront.induct le with
  | case1 a =>
    rw [sortFront]
    exact ⟨fun i j hij hj => sorting.above i j hij (by omega) hj, .refl _, rfl⟩
  | case2 a =>
    rw [sortFront]
    exact ⟨fun i j hij hj => sorting.above i j hij (by omega) hj, .refl _, rfl⟩
  | case3 a n ih =>
    obtain ⟨sorting, shuffled⟩ := sorting.step orders hn
    have size := shuffled.size
    obtain ⟨sorted, perm, same⟩ := ih (by omega) sorting
    rw [sortFront]
    rw [size] at sorted same
    exact ⟨sorted, perm.trans shuffled.perm, same⟩

/-- The elements of a heap come out in order. -/
theorem toSorted_spec (orders : Orders le) (heap : IsHeap le a a.size) :
    (toSorted le a).Pairwise (fun x y => le x y = true) ∧ (toSorted le a).Perm a.toList := by
  have sorting : Sorting le a a.size := ⟨heap, fun _ _ _ h₁ h₂ => absurd h₂ (by omega)⟩
  obtain ⟨sorted, perm, size⟩ := sortFront_spec orders (Nat.le_refl _) sorting
  refine ⟨List.pairwise_iff_getElem.2 fun i j hi hj hij => ?_, perm⟩
  simp only [toSorted, Array.length_toList] at hi hj
  have le_at := sorted i j hij (by omega)
  rwa [leAt_eq hi hj] at le_at

end CodeMetrics.Heap

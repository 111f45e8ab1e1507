import Mathlib.Data.List.Forall2
import CodeMetrics.Measure.Sum

/-! Lists that something was put into. What does not look at the new elements is the same for both
    lists. -/

namespace CodeMetrics

section Related

variable {α β : Type} {R : α → β → Prop}

theorem rel_head? {l : List α} {l' : List β} (h : List.Forall₂ R l l') :
    Option.Rel R l.head? l'.head? := by
  cases h with
  | nil => exact .none
  | cons hab _ => exact .some hab

theorem rel_getLast? {l : List α} {l' : List β} (h : List.Forall₂ R l l') :
    Option.Rel R l.getLast? l'.getLast? := by
  rw [← List.head?_reverse, ← List.head?_reverse]
  exact rel_head? (List.forall₂_reverse_iff.2 h)

theorem rel_any {o : Option α} {o' : Option β} (h : Option.Rel R o o') {p : α → Bool}
    {p' : β → Bool} (same : ∀ a b, R a b → p' b = p a) : o'.any p' = o.any p := by
  cases h with
  | none => rfl
  | some hab => exact same _ _ hab

theorem rel_isSome {o : Option α} {o' : Option β} (h : Option.Rel R o o') :
    o'.isSome = o.isSome := by
  cases h <;> rfl

/-- What holds of the first elements may be used for each pair. -/
theorem forall₂_mem {S : α → β → Prop} {l : List α} {l' : List β} (h : List.Forall₂ R l l')
    (more : ∀ a ∈ l, ∀ b, R a b → S a b) : List.Forall₂ S l l' := by
  induction h with
  | nil => exact .nil
  | cons hab _ ih =>
    obtain ⟨first, rest⟩ := List.forall_mem_cons.1 more
    exact .cons (first _ hab) (ih rest)

/-- Related lists are sorted alike where they are compared alike. -/
theorem forall₂_mergeSort {r : α → α → Bool} {s : β → β → Bool} {l : List α} {l' : List β}
    (h : List.Forall₂ R l l') (same : ∀ a b c d, R a b → R c d → r a c = s b d) :
    List.Forall₂ R (l.mergeSort r) (l'.mergeSort s) := by
  obtain ⟨length, related⟩ := List.forall₂_iff_zip.1 h
  have first : l = (l.zip l').map Prod.fst := by rw [List.map_fst_zip (Nat.le_of_eq length)]
  have second : l' = (l.zip l').map Prod.snd := by rw [List.map_snd_zip (Nat.le_of_eq length.symm)]
  -- both are sorted as the list of pairs is
  let both : α × β → α × β → Bool := fun p q => r p.1 q.1
  have sorted : (l.mergeSort r) = ((l.zip l').mergeSort both).map Prod.fst := by
    rw [List.map_mergeSort (s := r) fun _ _ _ _ => rfl, ← first]
  have sorted' : (l'.mergeSort s) = ((l.zip l').mergeSort both).map Prod.snd := by
    rw [List.map_mergeSort (s := s) fun p hp q hq => same _ _ _ _ (related hp) (related hq),
      ← second]
  rw [sorted, sorted', List.forall₂_map_left_iff, List.forall₂_map_right_iff, List.forall₂_same]
  exact fun p hp => related (List.mem_mergeSort.1 hp)

end Related

/-- The second list is the first one with new elements put in anywhere. What was there before is
    still there, in its order, and `R` relates it to what became of it. -/
inductive Padded {α β : Type} (R : α → β → Prop) (new : β → Prop) : List α → List β → Prop
  | nil : Padded R new [] []
  | keep {a : α} {b : β} {l : List α} {l' : List β} :
      R a b → Padded R new l l' → Padded R new (a :: l) (b :: l')
  | put {b : β} {l : List α} {l' : List β} :
      new b → Padded R new l l' → Padded R new l (b :: l')

namespace Padded

variable {α β γ δ : Type} {R : α → β → Prop} {new : β → Prop} {l : List α} {l' : List β}

theorem imp {S : α → β → Prop} {fresh : β → Prop} (kept : ∀ a b, R a b → S a b)
    (put : ∀ b, new b → fresh b) (h : Padded R new l l') : Padded S fresh l l' := by
  induction h with
  | nil => exact .nil
  | keep hab _ ih => exact .keep (kept _ _ hab) ih
  | put hb _ ih => exact .put (put _ hb) ih

theorem append {k : List α} {k' : List β} (h : Padded R new l l') (h' : Padded R new k k') :
    Padded R new (l ++ k) (l' ++ k') := by
  induction h with
  | nil => exact h'
  | keep hab _ ih => exact .keep hab ih
  | put hb _ ih => exact .put hb ih

/-- What is made of the elements grows with them. -/
theorem flatMap {S : γ → δ → Prop} {fresh : δ → Prop} {f : α → List γ} {f' : β → List δ}
    (kept : ∀ a b, R a b → Padded S fresh (f a) (f' b)) (put : ∀ b, new b → Padded S fresh [] (f' b))
    (h : Padded R new l l') : Padded S fresh (l.flatMap f) (l'.flatMap f') := by
  induction h with
  | nil => exact .nil
  | keep hab _ ih =>
    rw [List.flatMap_cons, List.flatMap_cons]
    exact (kept _ _ hab).append ih
  | put hb _ ih =>
    rw [List.flatMap_cons]
    exact (put _ hb).append ih

theorem forall₂_flatMap {S : γ → δ → Prop} {f : α → List γ} {f' : β → List δ}
    (kept : ∀ a b, R a b → List.Forall₂ S (f a) (f' b)) (put : ∀ b, new b → f' b = [])
    (h : Padded R new l l') : List.Forall₂ S (l.flatMap f) (l'.flatMap f') := by
  induction h with
  | nil => exact .nil
  | keep hab _ ih =>
    rw [List.flatMap_cons, List.flatMap_cons]
    exact List.rel_append (kept _ _ hab) ih
  | put hb _ ih => rwa [List.flatMap_cons, put _ hb]

section Tests

variable {p : α → Bool} {p' : β → Bool}

/-- A test that no new element passes finds what it found before. -/
theorem filter (h : Padded R new l l') (kept : ∀ a b, R a b → p' b = p a)
    (put : ∀ b, new b → p' b = false) : List.Forall₂ R (l.filter p) (l'.filter p') := by
  induction h with
  | nil => exact .nil
  | @keep a b _ _ hab _ ih =>
    rw [List.filter_cons, List.filter_cons, kept a b hab]
    split
    · exact .cons hab ih
    · exact ih
  | @put b _ _ hb _ ih => rwa [List.filter_cons, put b hb, if_neg Bool.false_ne_true]

theorem map_filter_eq {f : α → γ} {f' : β → γ} (h : Padded R new l l')
    (kept : ∀ a b, R a b → p' b = p a) (put : ∀ b, new b → p' b = false)
    (same : ∀ a b, R a b → p a = true → f' b = f a) :
    (l'.filter p').map f' = (l.filter p).map f := by
  induction h with
  | nil => rfl
  | @keep a b _ _ hab _ ih =>
    rw [List.filter_cons, List.filter_cons, kept a b hab]
    split
    · next pass => rw [List.map_cons, List.map_cons, same a b hab pass, ih]
    · exact ih
  | @put b _ _ hb _ ih => rwa [List.filter_cons, put b hb, if_neg Bool.false_ne_true]

theorem countP_eq (h : Padded R new l l') (kept : ∀ a b, R a b → p' b = p a)
    (put : ∀ b, new b → p' b = false) : l'.countP p' = l.countP p := by
  rw [List.countP_eq_length_filter, List.countP_eq_length_filter,
    (h.filter kept put).length_eq]

theorem find? (h : Padded R new l l') (kept : ∀ a b, R a b → p' b = p a)
    (put : ∀ b, new b → p' b = false) : Option.Rel R (l.find? p) (l'.find? p') := by
  rw [← List.head?_filter, ← List.head?_filter]
  exact rel_head? (h.filter kept put)

theorem any_eq (h : Padded R new l l') (kept : ∀ a b, R a b → p' b = p a)
    (put : ∀ b, new b → p' b = false) : l'.any p' = l.any p := by
  induction h with
  | nil => rfl
  | keep hab _ ih => rw [List.any_cons, List.any_cons, kept _ _ hab, ih]
  | put hb _ ih => rw [List.any_cons, put _ hb, Bool.false_or, ih]

end Tests

theorem sumOf_eq {f : α → Nat} {f' : β → Nat} (h : Padded R new l l')
    (kept : ∀ a b, R a b → f' b = f a) (put : ∀ b, new b → f' b = 0) :
    sumOf (l'.map f') = sumOf (l.map f) := by
  induction h with
  | nil => rfl
  | keep hab _ ih => rw [List.map_cons, List.map_cons, sumOf_cons, sumOf_cons, kept _ _ hab, ih]
  | put hb _ ih => rw [List.map_cons, sumOf_cons, put _ hb, ih, Nat.zero_add]

/-- The greatest of some numbers is not changed by zeros. -/
theorem foldl_max_eq {f : α → Nat} {f' : β → Nat} (h : Padded R new l l')
    (kept : ∀ a b, R a b → f' b = f a) (put : ∀ b, new b → f' b = 0) (least : Nat) :
    (l'.map f').foldl max least = (l.map f).foldl max least := by
  induction h generalizing least with
  | nil => rfl
  | keep hab _ ih =>
    rw [List.map_cons, List.map_cons, List.foldl_cons, List.foldl_cons, kept _ _ hab, ih]
  | put hb _ ih => rw [List.map_cons, List.foldl_cons, put _ hb, Nat.max_zero, ih]

end Padded

end CodeMetrics

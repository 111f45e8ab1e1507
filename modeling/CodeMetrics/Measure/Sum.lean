/-! Sums of counts. -/

namespace CodeMetrics

/-- The sum of some counts. -/
def sumOf : List Nat → Nat
  | [] => 0
  | n :: rest => n + sumOf rest

/-- The sum of no counts. -/
@[simp] theorem sumOf_nil : sumOf [] = 0 := rfl

/-- One more count in front. -/
@[simp] theorem sumOf_cons (n : Nat) (rest : List Nat) : sumOf (n :: rest) = n + sumOf rest := rfl

/-- The sum of two lists of counts. -/
@[simp] theorem sumOf_append (xs ys : List Nat) : sumOf (xs ++ ys) = sumOf xs + sumOf ys := by
  induction xs with
  | nil => simp
  | cons n rest ih => simp [ih, Nat.add_assoc]

/-- The order of the counts does not matter. -/
theorem sumOf_perm {xs ys : List Nat} (h : xs.Perm ys) : sumOf xs = sumOf ys := by
  induction h with
  | nil => rfl
  | cons n _ ih => rw [sumOf_cons, sumOf_cons, ih]
  | swap m n rest => simp only [sumOf_cons, Nat.add_left_comm]
  | trans _ _ ih₁ ih₂ => exact ih₁.trans ih₂

/-- A sum of ones counts them. -/
theorem sumOf_one {α : Type} (l : List α) : sumOf (l.map fun _ => 1) = l.length := by
  induction l with
  | nil => rfl
  | cons a l ih => rw [List.map_cons, sumOf_cons, ih, List.length_cons, Nat.add_comm]

/-- The sum of some lists of counts. -/
theorem sumOf_flatMap {α : Type} (counts : α → List Nat) (l : List α) :
    sumOf (l.flatMap counts) = sumOf (l.map fun a => sumOf (counts a)) := by
  induction l with
  | nil => rfl
  | cons a l ih => rw [List.flatMap_cons, sumOf_append, ih, List.map_cons, sumOf_cons]

end CodeMetrics

/-! A binary heap in an array. The children of position `i` are at `2 * i + 1` and `2 * i + 2`; no
    element is less than its children, so the first is one of the greatest. -/

namespace CodeMetrics.Heap

variable {α : Type}

/-- Whether the element at one position is at most the one at another. -/
def leAt (le : α → α → Bool) (a : Array α) (i j : Nat) : Bool :=
  match a[i]?, a[j]? with
  | some x, some y => le x y
  | _, _ => false

/-- Moves an element up until its parent is not less. -/
def siftUp (le : α → α → Bool) (a : Array α) (i : Nat) : Array α :=
  if i = 0 then a
  else
    let parent := (i - 1) / 2
    if leAt le a i parent then a else siftUp le (a.swapIfInBounds i parent) parent
termination_by i
decreasing_by omega

/-- The greater child of a position, the second one where they are equal. -/
def greaterChild (le : α → α → Bool) (a : Array α) (i : Nat) : Nat :=
  if leAt le a (2 * i + 1) (2 * i + 2) then 2 * i + 2 else 2 * i + 1

/-- A greater child comes after its parent. -/
theorem lt_greaterChild (le : α → α → Bool) (a : Array α) (i : Nat) : i < greaterChild le a i := by
  unfold greaterChild; split <;> omega

/-- Moves an element down along the greater children to the bottom, and tells where it ends. -/
def sinkToBottom (le : α → α → Bool) (a : Array α) (i : Nat) : Array α × Nat :=
  if 2 * i + 2 < a.size then
    have := lt_greaterChild le a i
    sinkToBottom le (a.swapIfInBounds i (greaterChild le a i)) (greaterChild le a i)
  else if 2 * i + 2 = a.size then (a.swapIfInBounds i (2 * i + 1), 2 * i + 1)
  else (a, i)
termination_by a.size - i
decreasing_by simp only [Array.size_swapIfInBounds]; omega

/-- Moves an element down until no child before `stop` is greater. -/
def siftDown (le : α → α → Bool) (a : Array α) (i stop : Nat) : Array α :=
  if 2 * i + 2 < stop then
    have := lt_greaterChild le a i
    if leAt le a (greaterChild le a i) i then a
    else siftDown le (a.swapIfInBounds i (greaterChild le a i)) (greaterChild le a i) stop
  else if 2 * i + 2 = stop && !leAt le a (2 * i + 1) i then a.swapIfInBounds i (2 * i + 1)
  else a
termination_by stop - i
decreasing_by omega

/-- Adds an element. -/
def push (le : α → α → Bool) (a : Array α) (x : α) : Array α := siftUp le (a.push x) a.size

/-- Takes away the first element: the last one takes its place, sinks to the bottom and moves up
    from there. -/
def pop (le : α → α → Bool) (a : Array α) : Array α :=
  let rest := (a.swapIfInBounds 0 (a.size - 1)).pop
  let (sunk, i) := sinkToBottom le rest 0
  siftUp le sunk i

/-- Sorts the elements before `stop`, least first. -/
def sortFront (le : α → α → Bool) (a : Array α) : Nat → Array α
  | 0 | 1 => a
  | stop + 2 =>
    sortFront le (siftDown le (a.swapIfInBounds 0 (stop + 1)) 0 (stop + 1)) (stop + 1)

/-- The elements, least first. -/
def toSorted (le : α → α → Bool) (a : Array α) : List α := (sortFront le a a.size).toList

end CodeMetrics.Heap

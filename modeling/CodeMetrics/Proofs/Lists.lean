import Mathlib.Data.Finset.Card
import Mathlib.Data.List.Nodup
import Mathlib.Data.List.Range

/-! Lists, and steps that can fail, where the library says nothing on them: steps taken one after
    the other, lists without repetitions, lists that are gathered by a key, and lists by the numbers
    of their items. -/

namespace CodeMetrics

/-! ### Steps that can fail -/

theorem bind_eq_ok {ε α β : Type} {x : Except ε α} {f : α → Except ε β} {b : β} :
    (x >>= f) = .ok b ↔ ∃ a, x = .ok a ∧ f a = .ok b := by
  cases x with
  | error e =>
    constructor
    · intro h
      cases h
    · rintro ⟨_, h, _⟩
      cases h
  | ok a =>
    constructor
    · exact fun h => ⟨a, rfl, h⟩
    · rintro ⟨_, ⟨⟩, h⟩
      exact h

theorem discard_eq_ok {ε α : Type} {x : Except ε α} {u : Unit} :
    discard x = .ok u ↔ ∃ a, x = .ok a := by
  cases x with
  | error e =>
    constructor
    · intro h
      cases h
    · rintro ⟨_, h⟩
      cases h
  | ok a => exact ⟨fun _ => ⟨a, rfl⟩, fun _ => rfl⟩

instance decidableExistsOkAnd {ε α : Type} {p : α → Prop} [DecidablePred p] :
    (x : Except ε α) → Decidable (∃ a, x = .ok a ∧ p a)
  | .error _ => .isFalse fun ⟨_, h, _⟩ => nomatch h
  | .ok a =>
    decidable_of_iff (p a) ⟨fun h => ⟨a, rfl, h⟩, fun ⟨_, h, found⟩ => Except.ok.inj h ▸ found⟩

instance decidableExistsOk {ε α : Type} (x : Except ε α) : Decidable (∃ a, x = .ok a) :=
  decidable_of_iff (∃ a, x = .ok a ∧ True) (by simp only [and_true])

section Except

variable {ε α β : Type} {f : α → Except ε β} {inputs : List α} {outputs : List β}

theorem exists_mapM_eq_ok (each : ∀ a ∈ inputs, ∃ b, f a = .ok b) :
    ∃ outputs, inputs.mapM f = .ok outputs := by
  induction inputs with
  | nil => exact ⟨[], rfl⟩
  | cons a inputs ih =>
    rw [List.forall_mem_cons] at each
    obtain ⟨⟨b, first⟩, others⟩ := each
    obtain ⟨outputs, rest⟩ := ih others
    exact ⟨b :: outputs, by rw [List.mapM_cons, first, rest]; rfl⟩

theorem exists_of_mapM_ok (h : inputs.mapM f = .ok outputs) :
    ∀ a ∈ inputs, ∃ b ∈ outputs, f a = .ok b := by
  induction inputs generalizing outputs with
  | nil => exact List.forall_mem_nil _
  | cons a inputs ih =>
    rw [List.mapM_cons, bind_eq_ok] at h
    obtain ⟨b, first, h⟩ := h
    obtain ⟨bs, rest, h⟩ := bind_eq_ok.1 h
    cases h
    refine List.forall_mem_cons.2 ⟨⟨b, List.mem_cons_self, first⟩, fun x hx => ?_⟩
    obtain ⟨y, hy, found⟩ := ih rest x hx
    exact ⟨y, List.mem_cons_of_mem _ hy, found⟩

theorem mem_of_mapM_ok (h : inputs.mapM f = .ok outputs) {b : β} (hb : b ∈ outputs) :
    ∃ a ∈ inputs, f a = .ok b := by
  induction inputs generalizing outputs with
  | nil => cases h; cases hb
  | cons a inputs ih =>
    rw [List.mapM_cons, bind_eq_ok] at h
    obtain ⟨first, ha, h⟩ := h
    obtain ⟨rest, hrest, h⟩ := bind_eq_ok.1 h
    cases h
    rcases List.mem_cons.1 hb with rfl | hb
    · exact ⟨a, List.mem_cons_self, ha⟩
    · obtain ⟨a', ha', hf⟩ := ih hrest hb
      exact ⟨a', List.mem_cons_of_mem _ ha', hf⟩

end Except

section Option

variable {α β : Type} {f : α → Option β} {l : List α}

/-- Items are read one by one. -/
theorem mapM_eq_some {l' : List β} (length : l.length = l'.length)
    (h : ∀ (i : Nat) (a : α) (b : β), l[i]? = some a → l'[i]? = some b → f a = some b) :
    l.mapM f = some l' := by
  induction l generalizing l' with
  | nil =>
    obtain rfl := List.length_eq_zero_iff.1 length.symm
    rfl
  | cons a l ih =>
    obtain ⟨b, l', rfl⟩ := List.exists_cons_of_length_eq_add_one length.symm
    have first := h 0 a b rfl rfl
    have rest := ih (Nat.succ.inj length) fun i => h (i + 1)
    simp [List.mapM_cons, first, rest]

/-- An item that is not read ends the reading. -/
theorem mapM_eq_none {a : α} (mem : a ∈ l) (h : f a = none) : l.mapM f = none := by
  induction mem with
  | head l => simp [List.mapM_cons, h]
  | tail b _ ih =>
    rw [List.mapM_cons, ih]
    cases f b <;> rfl

end Option

/-! ### Lists without repetitions -/

section Distinct

variable {α : Type} [BEq α] [LawfulBEq α]

theorem nodup_eraseDups : ∀ l : List α, l.eraseDups.Nodup
  | [] => List.nodup_nil
  | a :: rest => by
    rw [List.eraseDups_cons, List.nodup_cons]
    refine ⟨?_, nodup_eraseDups _⟩
    simp [List.mem_eraseDups]
termination_by l => l.length
decreasing_by exact Nat.lt_succ_of_le (List.length_filter_le _ _)

theorem eraseDups_of_nodup {l : List α} (h : l.Nodup) : l.eraseDups = l := by
  induction l with
  | nil => rfl
  | cons a rest ih =>
    obtain ⟨ha, hrest⟩ := List.nodup_cons.1 h
    have hfilter : (rest.filter fun b => !b == a) = rest := by
      rw [List.filter_eq_self]
      intro b hb
      simpa using fun e : b = a => ha (e ▸ hb)
    rw [List.eraseDups_cons, hfilter, ih hrest]

variable [DecidableEq α]

/-- What is left without repetitions is as many as there are distinct values. -/
theorem length_eraseDups (l : List α) : l.eraseDups.length = l.toFinset.card := by
  have same : l.eraseDups.toFinset = l.toFinset := by
    ext a
    rw [List.mem_toFinset, List.mem_toFinset, List.mem_eraseDups]
  rw [← same, List.toFinset_card_of_nodup (nodup_eraseDups l)]

theorem length_eraseDups_perm {l m : List α} (h : l.Perm m) :
    l.eraseDups.length = m.eraseDups.length := by
  rw [length_eraseDups, length_eraseDups, List.toFinset_eq_of_perm _ _ h]

theorem length_eraseDups_le (l : List α) : l.eraseDups.length ≤ l.length := by
  rw [length_eraseDups]
  exact List.toFinset_card_le l

theorem length_eraseDups_eq_zero {l : List α} : l.eraseDups.length = 0 ↔ l.length = 0 := by
  rw [length_eraseDups, Finset.card_eq_zero, List.toFinset_eq_empty_iff, List.length_eq_zero_iff]

end Distinct

/-- Gathering by distinct keys rearranges. -/
theorem perm_flatMap_filter {α : Type} (key : α → String) {keys : List String} {l : List α}
    (distinct : keys.Nodup) (covered : ∀ a ∈ l, key a ∈ keys) :
    (keys.flatMap fun k => l.filter fun a => key a == k).Perm l := by
  induction keys generalizing l with
  | nil =>
    rw [List.eq_nil_iff_forall_not_mem.2 fun a ha => List.not_mem_nil (covered a ha)]
    rfl
  | cons k keys ih =>
    obtain ⟨fresh, distinct⟩ := List.nodup_cons.1 distinct
    have others := ih (l := l.filter fun a => !(key a == k)) distinct (by
      intro a ha
      obtain ⟨ha, other⟩ := List.mem_filter.1 ha
      exact (List.mem_cons.1 (covered a ha)).resolve_left (by simpa using other))
    -- none of the keys left is `k`, so they find in all of `l` what they find without `k`
    have same : ∀ m ∈ keys, (l.filter fun a => !(key a == k)).filter (fun a => key a == m)
        = l.filter fun a => key a == m := by
      intro m hm
      have ne : m ≠ k := fun h => fresh (h ▸ hm)
      rw [List.filter_filter]
      refine List.filter_congr fun a _ => ?_
      by_cases h : key a = m <;> simp [h, ne]
    rw [List.flatMap_congr same] at others
    exact (others.append_left _).trans (List.filter_append_perm _ l)

/-! ### Items by number -/

section Numbers

variable {α : Type}

theorem mapIdx_eq_self {f : ℕ → α → α} (h : ∀ i a, f i a = a) (l : List α) : l.mapIdx f = l := by
  refine List.ext_getElem? fun i => ?_
  rw [List.getElem?_mapIdx, funext (h i)]
  exact Option.map_id_apply

theorem zipIdx_eq_map_range (d : α) (l : List α) :
    l.zipIdx = (List.range l.length).map fun i => (l.getD i d, i) := by
  refine List.ext_getElem? fun i => ?_
  by_cases hi : i < l.length
  · simp [hi]
  · simp [hi]

theorem map_some_eq (l : List α) : l.map some = (List.range l.length).map fun i => l[i]? :=
  List.ext_getElem (by simp) (by simp)

theorem drop_range (start count : ℕ) :
    (List.range count).drop start = List.range' start (count - start) := by
  rw [List.range_eq_range', List.drop_range', Nat.zero_add, Nat.mul_one]

end Numbers

end CodeMetrics

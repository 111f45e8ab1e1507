import CodeMetrics.Report.Rollup

/-! A rollup does not show the order in which files came in.

    A list that is filled by `insertFirst` is in the strict order of its keys, and under each key it
    holds the first value that came with it. Those two facts fix the list. So two orders of adding
    the same files, where files under one path are alike, end in the same rollup, and everything in
    a report is computed from that. Nothing is asked of the addition of measures. -/

namespace CodeMetrics.Rollup

/-! ### Lists by their keys -/

section Keys

variable {α : Type} {key : α → String}

/-- In the strict order of keys, so that no key is there twice. -/
def Ordered (key : α → String) (l : List α) : Prop :=
  l.Pairwise fun a b => compare (key a) (key b) = .lt

/-- The first value under a key. -/
def first? (key : α → String) (k : String) (seen : List α) : Option α :=
  seen.find? fun a => key a == k

/-- What is held of the values seen so far: under each key the first one, in the order of keys. -/
structure Holds (key : α → String) (seen l : List α) : Prop where
  ordered : Ordered key l
  firsts : ∀ b, b ∈ l ↔ first? key (key b) seen = some b

theorem ne_of_compare_lt {x y : String} (h : compare x y = .lt) : x ≠ y := by
  rintro rfl
  rw [Std.compare_self] at h
  cases h

theorem key_of_first? {k : String} {seen : List α} {a : α} (h : first? key k seen = some a) :
    key a = k := by
  simpa using List.find?_some h

theorem mem_of_first? {k : String} {seen : List α} {a : α} (h : first? key k seen = some a) :
    a ∈ seen := List.mem_of_find?_eq_some h

/-- There is a first value wherever there is a value. -/
theorem first?_isSome (key : α → String) {seen : List α} {a : α} (h : a ∈ seen) :
    ∃ b, first? key (key a) seen = some b := by
  rw [← Option.isSome_iff_exists, first?, List.find?_isSome]
  exact ⟨a, h, by simp⟩

/-- A list in order holds what was in it and the new value, where its key is new. -/
theorem mem_insertFirst (a b : α) {l : List α} (ordered : Ordered key l) :
    b ∈ insertFirst key a l ↔ b ∈ l ∨ (b = a ∧ ∀ c ∈ l, key c ≠ key a) := by
  induction l with
  | nil => simp [insertFirst]
  | cons d rest ih =>
    obtain ⟨below, tail⟩ := List.pairwise_cons.1 ordered
    rw [insertFirst]
    split
    · -- every key that follows is greater still
      next hlt =>
      have hne : ∀ c ∈ d :: rest, key c ≠ key a := by
        intro c hc heq
        rcases List.mem_cons.1 hc with rfl | hc
        · exact ne_of_compare_lt hlt heq.symm
        · exact ne_of_compare_lt (Std.TransCmp.lt_trans hlt (below c hc)) heq.symm
      constructor
      · intro hb
        rcases List.mem_cons.1 hb with rfl | hb
        · exact Or.inr ⟨rfl, hne⟩
        · exact Or.inl hb
      · rintro (hb | ⟨rfl, _⟩)
        · exact List.mem_cons_of_mem _ hb
        · exact List.mem_cons_self
    · next heq =>
      have hkey : key a = key d := Std.LawfulEqCmp.eq_of_compare heq
      constructor
      · exact Or.inl
      · rintro (hb | ⟨rfl, hne⟩)
        · exact hb
        · exact absurd hkey.symm (hne d List.mem_cons_self)
    · next hgt =>
      have hd : key d ≠ key a := ne_of_compare_lt (Std.OrientedCmp.lt_of_gt hgt)
      rw [List.mem_cons, ih tail, List.mem_cons, List.forall_mem_cons]
      constructor
      · rintro (h | h | ⟨h, hne⟩)
        · exact Or.inl (Or.inl h)
        · exact Or.inl (Or.inr h)
        · exact Or.inr ⟨h, hd, hne⟩
      · rintro ((h | h) | ⟨h, _, hne⟩)
        · exact Or.inl h
        · exact Or.inr (Or.inl h)
        · exact Or.inr (Or.inr ⟨h, hne⟩)

theorem ordered_insertFirst (a : α) {l : List α} (ordered : Ordered key l) :
    Ordered key (insertFirst key a l) := by
  induction l with
  | nil => simp [insertFirst, Ordered]
  | cons d rest ih =>
    obtain ⟨below, tail⟩ := List.pairwise_cons.1 ordered
    rw [insertFirst]
    split
    · next hlt =>
      refine List.pairwise_cons.2 ⟨fun c hc => ?_, ordered⟩
      rcases List.mem_cons.1 hc with rfl | hc
      · exact hlt
      · exact Std.TransCmp.lt_trans hlt (below c hc)
    · exact ordered
    · next hgt =>
      refine List.pairwise_cons.2 ⟨fun c hc => ?_, ih tail⟩
      rcases (mem_insertFirst a c tail).1 hc with hc | ⟨rfl, _⟩
      · exact below c hc
      · exact Std.OrientedCmp.lt_of_gt hgt

/-- Whether a key is taken can be asked of what is held. -/
theorem Holds.taken_iff {seen l : List α} (h : Holds key seen l) (k : String) :
    (∀ c ∈ l, key c ≠ k) ↔ first? key k seen = none := by
  constructor
  · intro free
    cases hf : first? key k seen with
    | none => rfl
    | some c =>
      have hk := key_of_first? hf
      exact absurd hk (free c ((h.firsts c).2 (hk ▸ hf)))
  · intro hnone c hc hk
    rw [h.firsts c, hk, hnone] at hc
    cases hc

/-- One more value. -/
theorem Holds.insert {seen l : List α} (h : Holds key seen l) (a : α) :
    Holds key (seen ++ [a]) (insertFirst key a l) := by
  refine ⟨ordered_insertFirst a h.ordered, fun b => ?_⟩
  rw [mem_insertFirst a b h.ordered, h.taken_iff, h.firsts b]
  simp only [first?, List.find?_append, Option.or_eq_some_iff, List.find?_cons, List.find?_nil]
  constructor
  · rintro (hb | ⟨rfl, hnone⟩)
    · exact Or.inl hb
    · exact Or.inr ⟨hnone, by simp⟩
  · rintro (hb | ⟨hnone, hb⟩)
    · exact Or.inl hb
    · split at hb
      · next hkey =>
        have hab : a = b := by simpa using hb
        subst hab
        exact Or.inr ⟨rfl, hnone⟩
      · cases hb

theorem Holds.empty : Holds key [] [] := ⟨List.Pairwise.nil, fun b => by simp [first?]⟩

/-- A list in order is known by its members. -/
theorem Ordered.eq_of_mem_iff {l l' : List α} (h : Ordered key l) (h' : Ordered key l')
    (same : ∀ a, a ∈ l ↔ a ∈ l') : l = l' := by
  have irrefl : ∀ {m : List α}, Ordered key m → m.Nodup := fun hm =>
    hm.imp fun hab heq => ne_of_compare_lt hab (congrArg key heq)
  have asymm : ∀ a b, a ∈ l → b ∈ l' → compare (key a) (key b) = .lt →
      compare (key b) (key a) = .lt → a = b := fun a b _ _ hab hba =>
    absurd hba (Std.OrientedCmp.not_lt_of_lt hab)
  exact List.Perm.eq_of_pairwise asymm h h'
    ((List.perm_ext_iff_of_nodup (irrefl h) (irrefl h')).2 same)

/-- What is held is fixed by the first values. -/
theorem Holds.unique {seen seen' l l' : List α} (h : Holds key seen l) (h' : Holds key seen' l')
    (same : ∀ k, first? key k seen = first? key k seen') : l = l' :=
  h.ordered.eq_of_mem_iff h'.ordered fun a => by rw [h.firsts, h'.firsts, same]

/-- Under a key stands the first value and nothing else. -/
theorem Holds.filter_key {seen l : List α} (h : Holds key seen l) (k : String) :
    (l.filter fun a => key a == k) = (first? key k seen).toList := by
  cases hf : first? key k seen with
  | none =>
    rw [Option.toList_none, List.filter_eq_nil_iff]
    intro c hc
    simpa using (h.taken_iff k).2 hf c hc
  | some a =>
    rw [Option.toList_some]
    have single : Ordered key [a] := List.pairwise_singleton _ _
    refine Ordered.eq_of_mem_iff (List.Pairwise.filter _ h.ordered) single fun b => ?_
    rw [List.mem_filter, h.firsts, List.mem_singleton, beq_iff_eq]
    constructor
    · rintro ⟨hb, rfl⟩
      rw [hf] at hb
      exact (Option.some.inj hb).symm
    · rintro rfl
      have hk := key_of_first? hf
      exact ⟨hk ▸ hf, hk⟩

/-- Where values under one key are alike, each of them is the first. -/
theorem first?_of_mem {seen : List α} (alike : ∀ a ∈ seen, ∀ b ∈ seen, key a = key b → a = b)
    {a : α} (h : a ∈ seen) : first? key (key a) seen = some a := by
  obtain ⟨b, hb⟩ := first?_isSome key h
  rw [hb, alike a h b (mem_of_first? hb) (key_of_first? hb).symm]

/-- Where values under one key are alike, the first ones do not depend on the order. -/
theorem first?_perm {seen seen' : List α} (order : seen.Perm seen')
    (alike : ∀ a ∈ seen, ∀ b ∈ seen, key a = key b → a = b) (k : String) :
    first? key k seen = first? key k seen' := by
  cases h : first? key k seen with
  | none =>
    cases h' : first? key k seen' with
    | none => rfl
    | some a =>
      obtain ⟨b, hb⟩ := first?_isSome key (order.mem_iff.2 (mem_of_first? h'))
      rw [key_of_first? h', h] at hb
      cases hb
  | some a =>
    have alike' : ∀ a ∈ seen', ∀ b ∈ seen', key a = key b → a = b := fun a ha b hb =>
      alike a (order.mem_iff.2 ha) b (order.mem_iff.2 hb)
    have := first?_of_mem alike' (order.mem_iff.1 (mem_of_first? h))
    rw [key_of_first? h] at this
    exact this.symm

/-- What comes after all others is put last. -/
theorem insertSorted_last {name : String} (a : α) {l : List (String × α)}
    (below : ∀ p ∈ l, compare p.1 name = .lt) : insertSorted name a l = l ++ [(name, a)] := by
  induction l with
  | nil => rfl
  | cons p l ih =>
    obtain ⟨hp, hl⟩ := List.forall_mem_cons.1 below
    rw [insertSorted, Std.OrientedCmp.gt_of_lt hp, ih hl, List.cons_append]

/-- A list in the strict order of names is not changed by putting it in order. -/
theorem foldl_insertSorted {l : List (String × α)} (ordered : Ordered Prod.fst l) :
    l.foldl (fun sorted p => insertSorted p.1 p.2 sorted) [] = l := by
  have fold : ∀ done rest : List (String × α), Ordered Prod.fst (done ++ rest) →
      rest.foldl (fun sorted p => insertSorted p.1 p.2 sorted) done = done ++ rest := by
    intro done rest
    induction rest generalizing done with
    | nil => simp
    | cons p rest ih =>
      intro ordered
      have below : ∀ q ∈ done, compare q.1 p.1 = .lt := fun q hq =>
        (List.pairwise_append.1 ordered).2.2 q hq p List.mem_cons_self
      rw [List.foldl_cons, insertSorted_last p.2 below,
        ih (done ++ [p]) (by simpa using ordered), List.append_assoc, List.singleton_append]
  exact fold [] l ordered

end Keys

/-! ### Steps of a rollup -/

/-- What can be done to a rollup. -/
inductive Step where
  /-- A file comes in. -/
  | file (file : FileReport)
  /-- A path was left out. -/
  | skip (path : String)

namespace Step

def file? : Step → Option FileReport
  | .file f => some f
  | .skip _ => none

def path? : Step → Option String
  | .file _ => none
  | .skip path => some path

end Step

/-- Takes a step. -/
def take (r : Rollup) : Step → Rollup
  | .file file => r.add file
  | .skip path => r.skip path

/-- The rollup of some steps, in their order. -/
def ofSteps (top : Nat) (steps : List Step) : Rollup := steps.foldl take { top }

/-- Files under one path are alike. -/
def Consistent (steps : List Step) : Prop :=
  ∀ a b, .file a ∈ steps → .file b ∈ steps → a.path = b.path → a = b

/-- What a rollup is, by the steps that led to it. -/
structure After (top : Nat) (steps : List Step) (r : Rollup) : Prop where
  top : r.top = top
  files : Holds FileReport.path (steps.filterMap Step.file?) r.files
  skipped : Holds id (steps.filterMap Step.path?) r.skipped

theorem After.take {top : Nat} {steps : List Step} {r : Rollup} (h : After top steps r)
    (s : Step) : After top (steps ++ [s]) (r.take s) := by
  cases s with
  | file file =>
    refine ⟨h.top, ?_, ?_⟩
    · rw [List.filterMap_append]; exact h.files.insert file
    · rw [List.filterMap_append, List.filterMap_cons_none rfl, List.filterMap_nil, List.append_nil]
      exact h.skipped
  | skip path =>
    refine ⟨h.top, ?_, ?_⟩
    · rw [List.filterMap_append, List.filterMap_cons_none rfl, List.filterMap_nil, List.append_nil]
      exact h.files
    · rw [List.filterMap_append]; exact h.skipped.insert path

theorem After.takeAll {top : Nat} {seen : List Step} {r : Rollup} (h : After top seen r)
    (steps : List Step) : After top (seen ++ steps) (steps.foldl Rollup.take r) := by
  induction steps generalizing seen r with
  | nil => simpa using h
  | cons s steps ih => simpa [List.append_assoc] using ih (h.take s)

theorem after_ofSteps (top : Nat) (steps : List Step) : After top steps (ofSteps top steps) := by
  have start : After top [] { top } := ⟨rfl, .empty, .empty⟩
  exact start.takeAll steps

/-- A rollup is fixed by the first file under each path and the first mention of each path that was
    left out. -/
theorem After.unique {top : Nat} {steps steps' : List Step} {r r' : Rollup}
    (h : After top steps r) (h' : After top steps' r')
    (files : ∀ k, first? FileReport.path k (steps.filterMap Step.file?)
      = first? FileReport.path k (steps'.filterMap Step.file?))
    (paths : ∀ k, first? id k (steps.filterMap Step.path?)
      = first? id k (steps'.filterMap Step.path?)) : r = r' := by
  have hf := h.files.unique h'.files files
  have hs := h.skipped.unique h'.skipped paths
  have ht := h.top.trans h'.top.symm
  cases r; cases r'
  simp only at hf hs ht
  rw [hf, hs, ht]

/-- Steps in another order lead to the same rollup. -/
theorem ofSteps_perm (top : Nat) {steps steps' : List Step} (order : steps.Perm steps')
    (consistent : Consistent steps) : ofSteps top steps = ofSteps top steps' := by
  refine (after_ofSteps top steps).unique (after_ofSteps top steps') ?_ ?_
  · refine first?_perm (order.filterMap _) fun a ha b hb hab => ?_
    obtain ⟨s, hs, hsa⟩ := List.mem_filterMap.1 ha
    obtain ⟨t, ht, htb⟩ := List.mem_filterMap.1 hb
    cases s <;> cases t <;> simp only [Step.file?, Option.some.injEq, reduceCtorEq] at hsa htb
    subst hsa htb
    exact consistent _ _ hs ht hab
  · exact first?_perm (order.filterMap _) fun _ _ _ _ h => h

/-- The order of steps does not show in the report: every list, count, mean and sum in it is the
    same, whatever the addition of measures does with the order of its terms. -/
theorem finish_eq_of_perm (top : Nat) (generatedAt : Option String) (cancelled : Bool)
    {steps steps' : List Step} (order : steps.Perm steps') (consistent : Consistent steps) :
    (ofSteps top steps).finish generatedAt cancelled
        = (ofSteps top steps').finish generatedAt cancelled ∧
      ∀ plus : Float → Float → Float,
        (ofSteps top steps).finishBy plus generatedAt cancelled
          = (ofSteps top steps').finishBy plus generatedAt cancelled := by
  rw [ofSteps_perm top order consistent]
  exact ⟨rfl, fun _ => rfl⟩

/-- A measured file that comes in twice, a failed one and two paths, the other way round. -/
theorem finish_eq_reversed :
    let a := FileReport.measured "lib/a.go" .go ⟨[], { total := 2, blank := 1 }, []⟩ []
    let b := FileReport.failed "b.py" (some .python) (.parseFailure (.noTree "python"))
    let steps : List Step := [.file a, .skip "notes", .file b, .skip "data", .file a]
    steps.Perm steps.reverse ∧ Consistent steps ∧
      (ofSteps 3 steps).finish none true = (ofSteps 3 steps.reverse).finish none true := by
  intro a b steps
  have order : steps.Perm steps.reverse := (List.reverse_perm steps).symm
  have hne : a.path ≠ b.path := by decide
  have consistent : Consistent steps := by
    intro x y hx hy hxy
    have hx : x = a ∨ x = b := by simpa [steps, or_comm, or_left_comm] using hx
    have hy : y = a ∨ y = b := by simpa [steps, or_comm, or_left_comm] using hy
    rcases hx with rfl | rfl <;> rcases hy with rfl | rfl
    · rfl
    · exact absurd hxy hne
    · exact absurd hxy.symm hne
    · rfl
  exact ⟨order, consistent, (finish_eq_of_perm 3 none true order consistent).1⟩

end CodeMetrics.Rollup

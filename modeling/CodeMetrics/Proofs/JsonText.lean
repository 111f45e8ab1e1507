import CodeMetrics.Json.Writer
import CodeMetrics.Proofs.JsonGrammar

/-! Reading a document gives back the value that was written: what is written of a value is one of
    the texts that denote it. -/

namespace CodeMetrics.Json

/-! ### Texts -/

theorem hexFour?_hexPair : ∀ n < 0x20,
    hexFour? '0' '0' (Nat.digitChar (n / 16)) (Nat.digitChar (n % 16)) = some n := by
  decide

/-- Each character is written in one of the ways that it can be. -/
theorem units_escapeChar (c : Char) {cs : List Char} {units : List Nat} (more : Units cs units) :
    Units (escapeChar c ++ cs) (c.toNat :: units) := by
  unfold escapeChar
  split
  case h_8 quote slash _ _ _ _ _ =>
    split
    · next control => exact .hex (hexFour?_hexPair c.toNat control) more
    · next ordinary => exact .plain (Nat.not_lt.1 ordinary) quote slash more
  all_goals exact .letter rfl more

theorem units_escaped (s : List Char) : Units (s.flatMap escapeChar) (s.map Char.toNat) := by
  induction s with
  | nil => exact .nil
  | cons c s ih =>
    rw [List.flatMap_cons, List.map_cons]
    exact units_escapeChar c ih

/-- A character is no half of a surrogate pair. -/
theorem not_surrogate (c : Char) : isHigh c.toNat = false ∧ isLow c.toNat = false := by
  simp only [isHigh, isLow, Bool.and_eq_false_iff, decide_eq_false_iff_not]
  rcases c.valid with below | ⟨above, _⟩
  · have : c.toNat < 0xD800 := below
    omega
  · have : 0xDFFF < c.toNat := above
    omega

theorem joinUnits_chars (s : List Char) : joinUnits (s.map Char.toNat) = some s := by
  induction s with
  | nil => rfl
  | cons c s ih =>
    obtain ⟨high, low⟩ := not_surrogate c
    cases s with
    | nil => simp [joinUnits, high, low]
    | cons d s =>
      rw [List.map_cons] at ih
      rw [List.map_cons, List.map_cons, joinUnits, high, low, if_neg Bool.false_ne_true,
        if_neg Bool.false_ne_true, ih, Char.ofNat_toNat]
      rfl

theorem textOf_chars (s : String) : textOf (s.toList.map Char.toNat) = some s := by
  rw [textOf, joinUnits_chars, Option.map_some, String.ofList_toList]

/-! ### Values -/

/-- Values that can be read back. -/
inductive Plain : Value → Prop
  | null : Plain .null
  | bool (b : Bool) : Plain (.bool b)
  | number {n : Number} (h : n.Plain) : Plain (.number n)
  | text (s : String) : Plain (.text s)
  | list {items : List Value} (h : ∀ v ∈ items, Plain v) : Plain (.list items)
  | object {members : List (String × Value)} (h : ∀ m ∈ members, Plain m.2) :
    Plain (.object members)

/-- No gap. -/
def Gap.none : Gap := ⟨[], List.forall_mem_nil _⟩

/-- The gap before what stands on a line of its own. -/
def Gap.line (level : Nat) : Gap where
  chars := newLine level
  isGap := by
    refine List.forall_mem_cons.2 ⟨rfl, fun c hc => ?_⟩
    rw [(List.mem_replicate.1 hc).2]
    rfl

def Gap.space : Gap := ⟨[' '], List.forall_mem_singleton.2 rfl⟩

/-- The member of a name and a value as it is written. -/
def Member.written (level : Nat) (after : Gap) (m : String × Value) : Member where
  before := .line level
  name := m.1.toList.flatMap escapeChar
  units := m.1.toList.map Char.toNat
  isName := units_escaped m.1.toList
  between := .none
  item := ⟨.space, m.2.render level, after, m.2⟩

theorem Member.entry_written (level : Nat) (after : Gap) (m : String × Value) :
    (written level after m).entry = (some m.1, m.2) := by
  rw [entry, written, textOf_chars]

theorem Member.spelling_written (level : Nat) (after : Gap) (m : String × Value) :
    (written level after m).spelling = newLine level ++ (textLiteral m.1 ++ (':' :: ' ' ::
      (m.2.render level ++ after.chars))) := by
  simp [spelling, written, Item.spelling, Gap.line, Gap.none, Gap.space, textLiteral]

/-- The items of a list, each on its line, with commas between them. -/
theorem items_render (level outer : Nat) {v : Value} {vs : List Value}
    (h : ∀ w ∈ v :: vs, Denotes (w.render level) w) :
    ∃ items : List Item, (∀ i ∈ items, Denotes i.text i.value) ∧ items.map Item.value = v :: vs ∧
      commas (items.map Item.spelling) = newLine level ++ (v.render level ++
        (Value.renderItems level vs ++ newLine outer)) := by
  induction vs generalizing v with
  | nil =>
    refine ⟨[⟨.line level, v.render level, .line outer, v⟩], ?_, rfl, ?_⟩
    · exact List.forall_mem_singleton.2 (h v List.mem_cons_self)
    · rfl
  | cons w vs ih =>
    obtain ⟨hv, h⟩ := List.forall_mem_cons.1 h
    obtain ⟨items, denote, values, spelling⟩ := ih h
    obtain ⟨i, items, rfl⟩ : ∃ i is, items = i :: is :=
      List.exists_cons_of_ne_nil fun none => by simp [none] at values
    refine ⟨⟨.line level, v.render level, .none, v⟩ :: i :: items, ?_, ?_, ?_⟩
    · exact List.forall_mem_cons.2 ⟨hv, denote⟩
    · rw [List.map_cons, values]
    · rw [List.map_cons] at spelling ⊢
      rw [List.map_cons, commas_cons, spelling]
      simp [Item.spelling, Gap.line, Gap.none, Value.renderItems]

/-- The members of an object, each on its line, with commas between them. -/
theorem members_render (level outer : Nat) {m : String × Value} {ms : List (String × Value)}
    (h : ∀ k ∈ m :: ms, Denotes (k.2.render level) k.2) :
    ∃ members : List Member, (∀ k ∈ members, Denotes k.item.text k.item.value) ∧
      members.map Member.entry = (m :: ms).map (fun k => (some k.1, k.2)) ∧
      commas (members.map Member.spelling) = newLine level ++ (textLiteral m.1 ++ (':' :: ' ' ::
        (m.2.render level ++ (Value.renderMembers level ms ++ newLine outer)))) := by
  induction ms generalizing m with
  | nil =>
    refine ⟨[.written level (.line outer) m], ?_, ?_, ?_⟩
    · exact List.forall_mem_singleton.2 (h m List.mem_cons_self)
    · rw [List.map_singleton, Member.entry_written]; rfl
    · rw [List.map_singleton, commas, Member.spelling_written]; rfl
  | cons k ms ih =>
    obtain ⟨hm, h⟩ := List.forall_mem_cons.1 h
    obtain ⟨members, denote, entries, spelling⟩ := ih h
    obtain ⟨n, members, rfl⟩ : ∃ n ns, members = n :: ns :=
      List.exists_cons_of_ne_nil fun none => by simp [none] at entries
    refine ⟨.written level .none m :: n :: members, ?_, ?_, ?_⟩
    · exact List.forall_mem_cons.2 ⟨hm, denote⟩
    · rw [List.map_cons, entries, Member.entry_written]; rfl
    · rw [List.map_cons] at spelling ⊢
      rw [List.map_cons, commas_cons, spelling, Member.spelling_written]
      simp [Gap.none, Value.renderMembers]

/-- A name is read with its value, so no member is lost. -/
theorem objectOf_named (ms : List (String × Value)) :
    objectOf (ms.map fun m => (some m.1, m.2)) = .object ms := by
  have named : (ms.map fun m => (some m.1, m.2)).mapM (fun m => m.1.map (·, m.2)) = some ms := by
    induction ms with
    | nil => rfl
    | cons m ms ih => simp [List.mapM_cons, ih]
  rw [objectOf]
  split
  · next none => cases named.symm.trans none
  · next members some =>
    cases named.symm.trans some
    rfl

/-- What is written of a value denotes it. -/
theorem Plain.denotes {v : Value} (h : Plain v) (level : Nat) : Denotes (v.render level) v := by
  induction h generalizing level with
  | null => exact .null
  | bool b =>
    cases b with
    | true => exact .yes
    | false => exact .no
  | number plain => exact .number (literal_render plain)
  | text s =>
    have text := Denotes.text (units_escaped s.toList)
    rwa [textOf_chars] at text
  | @list items plain ih =>
    cases items with
    | nil => exact .noItems .none
    | cons v vs =>
      obtain ⟨items, denote, values, spelling⟩ :=
        items_render (level + 1) level fun w hw => ih w hw (level + 1)
      have list := Denotes.items (fun none => by simp [none] at values) denote
      rw [values, spelling] at list
      simpa [Value.render] using list
  | @object members plain ih =>
    cases members with
    | nil => exact .noMembers .none
    | cons m ms =>
      obtain ⟨members, denote, entries, spelling⟩ :=
        members_render (level + 1) level fun k hk => ih k hk (level + 1)
      have object := Denotes.members (fun none => by simp [none] at entries) denote
      rw [entries, objectOf_named, spelling] at object
      simpa [Value.render] using object

/-- A document is read back. -/
theorem parse?_document {v : Value} (h : Plain v) : parse? v.document = some v :=
  parse?_denotes (h.denotes 0) .none (.line 0)

end CodeMetrics.Json

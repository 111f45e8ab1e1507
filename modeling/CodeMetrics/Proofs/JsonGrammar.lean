import CodeMetrics.Proofs.Decimals

/-! The grammar of JSON texts, and that every text of the grammar is read. A text denotes a value
    whatever gaps are between its tokens, whichever characters its texts escape and however its
    numbers are spelled. -/

namespace CodeMetrics.Json

/-! ### Gaps between tokens -/

/-- White space, or nothing. -/
structure Gap where
  chars : List Char
  isGap : ∀ c ∈ chars, isGap c = true

theorem skipGap_skipGap (cs : List Char) : skipGap (skipGap cs) = skipGap cs :=
  List.dropWhile_idempotent isGap cs

theorem skipGap_of_not_isGap {c : Char} (h : isGap c = false) (cs : List Char) :
    skipGap (c :: cs) = c :: cs := by
  rw [skipGap, List.dropWhile_cons, h]; rfl

namespace Gap

theorem skip (g : Gap) (cs : List Char) : skipGap (g.chars ++ cs) = skipGap cs :=
  List.dropWhile_append_of_pos g.isGap

theorem skip_cons (g : Gap) {c : Char} (h : Json.isGap c = false) (cs : List Char) :
    skipGap (g.chars ++ c :: cs) = c :: cs := by
  rw [g.skip, skipGap_of_not_isGap h]

/-- No number goes on with a gap. -/
theorem follows (g : Gap) {rest : List Char} (h : Follows rest) : Follows (g.chars ++ rest) := by
  rcases g with ⟨chars, gap⟩
  cases chars with
  | nil => exact h
  | cons c chars =>
    rintro c ⟨⟩
    have first := gap c List.mem_cons_self
    simp only [Json.isGap, Bool.or_eq_true, beq_iff_eq] at first
    rcases first with ((rfl | rfl) | rfl) | rfl <;> decide

end Gap

/-! ### Texts -/

/-- The characters between the quotes of a text, with their code units. -/
inductive Units : List Char → List Nat → Prop
  | nil : Units [] []
  | plain {c : Char} {cs : List Char} {units : List Nat} (control : 0x20 ≤ c.toNat)
      (quote : c ≠ '"') (slash : c ≠ '\\') (more : Units cs units) :
      Units (c :: cs) (c.toNat :: units)
  | letter {c : Char} {unit : Nat} {cs : List Char} {units : List Nat}
      (h : escaped? c = some unit) (more : Units cs units) : Units ('\\' :: c :: cs) (unit :: units)
  | hex {a b c d : Char} {unit : Nat} {cs : List Char} {units : List Nat}
      (h : hexFour? a b c d = some unit) (more : Units cs units) :
      Units ('\\' :: 'u' :: a :: b :: c :: d :: cs) (unit :: units)

theorem Units.read {cs : List Char} {units : List Nat} (h : Units cs units) (rest : List Char) :
    readUnits (cs ++ '"' :: rest) = some (units, rest) := by
  induction h with
  | nil => simp [readUnits]
  | @plain c cs units control quote slash _ ih =>
    have plain : ¬(c.toNat < 0x20 ∨ c = '\\') := fun h => h.elim (Nat.not_lt.2 control) slash
    rw [List.cons_append, readUnits]
    · rw [if_neg plain, ih]; rfl
    · exact quote
    · exact fun _ _ _ _ _ h => absurd h slash
    · exact fun _ _ h => absurd h slash
  | @letter c unit cs units h _ ih =>
    have notHex : c ≠ 'u' := by
      rintro rfl
      cases h
    rw [List.cons_append, List.cons_append, readUnits]
    · rw [h, ih]; rfl
    · exact fun _ _ _ _ _ h => absurd h notHex
  | hex h _ ih =>
    simp only [List.cons_append, readUnits, h, ih]
    rfl

/-- The text of code units, if they have one. -/
def textOf (units : List Nat) : Option String := (joinUnits units).map String.ofList

theorem Units.readText {cs : List Char} {units : List Nat} (h : Units cs units)
    (rest : List Char) : readText (cs ++ '"' :: rest) = some (textOf units, rest) := by
  rw [Json.readText, h.read]; rfl

/-! ### Values -/

/-- An item of a list with the gaps around it. -/
structure Item where
  before : Gap
  text : List Char
  after : Gap
  value : Value

def Item.spelling (i : Item) : List Char := i.before.chars ++ (i.text ++ i.after.chars)

/-- A member of an object: its name between quotes, and its value after a colon. -/
structure Member where
  before : Gap
  name : List Char
  units : List Nat
  isName : Units name units
  between : Gap
  item : Item

def Member.spelling (m : Member) : List Char :=
  m.before.chars ++ '"' :: (m.name ++ '"' :: (m.between.chars ++ ':' :: m.item.spelling))

def Member.entry (m : Member) : Option String × Value := (textOf m.units, m.item.value)

/-- Parts with commas between them. -/
def commas : List (List Char) → List Char
  | [] => []
  | [cs] => cs
  | cs :: ds :: more => cs ++ ',' :: commas (ds :: more)

/-- The texts of a value. -/
inductive Denotes : List Char → Value → Prop
  | null : Denotes "null".toList .null
  | yes : Denotes "true".toList (.bool true)
  | no : Denotes "false".toList (.bool false)
  | number {text : List Char} {n : Option Number} (h : Literal text n) :
      Denotes text (n.elim .beyond .number)
  | text {cs : List Char} {units : List Nat} (h : Units cs units) :
      Denotes ('"' :: (cs ++ ['"'])) ((textOf units).elim .beyond .text)
  | noItems (gap : Gap) : Denotes ('[' :: (gap.chars ++ [']'])) (.list [])
  | items {items : List Item} (nonempty : items ≠ []) (h : ∀ i ∈ items, Denotes i.text i.value) :
      Denotes ('[' :: (commas (items.map Item.spelling) ++ [']'])) (.list (items.map Item.value))
  | noMembers (gap : Gap) : Denotes ('\x7b' :: (gap.chars ++ ['\x7d'])) (.object [])
  | members {members : List Member} (nonempty : members ≠ [])
      (h : ∀ m ∈ members, Denotes m.item.text m.item.value) :
      Denotes ('\x7b' :: (commas (members.map Member.spelling) ++ ['\x7d']))
        (objectOf (members.map Member.entry))

/-- What a value starts with: no gap, and nothing that ends a list. -/
theorem Denotes.start {text : List Char} {v : Value} (h : Denotes text v) :
    ∃ c tail, text = c :: tail ∧ isGap c = false ∧ c ≠ ']' := by
  cases h with
  | null => exact ⟨'n', _, rfl, rfl, by decide⟩
  | yes => exact ⟨'t', _, rfl, rfl, by decide⟩
  | no => exact ⟨'f', _, rfl, rfl, by decide⟩
  | number literal =>
    obtain ⟨c, tail, start, first⟩ := literal.start
    refine ⟨c, tail, start, ?_⟩
    rcases first with rfl | digit
    · decide
    · constructor
      · by_contra h
        simp only [isGap, Bool.not_eq_false, Bool.or_eq_true, beq_iff_eq] at h
        rcases h with ((rfl | rfl) | rfl) | rfl <;> cases digit
      · rintro rfl
        cases digit
  | text => exact ⟨'"', _, rfl, rfl, by decide⟩
  | noItems => exact ⟨'[', _, rfl, rfl, by decide⟩
  | items => exact ⟨'[', _, rfl, rfl, by decide⟩
  | noMembers => exact ⟨'\x7b', _, rfl, rfl, by decide⟩
  | members => exact ⟨'\x7b', _, rfl, rfl, by decide⟩

theorem Denotes.skip {text : List Char} {v : Value} (h : Denotes text v) (g : Gap)
    (rest : List Char) : skipGap (g.chars ++ (text ++ rest)) = text ++ rest := by
  obtain ⟨c, tail, rfl, gap, -⟩ := h.start
  exact g.skip_cons gap _

/-! ### Items and members, one after the other -/

/-- A text is read as a value, whatever gap is before it. -/
def ReadAs (text : List Char) (v : Value) : Prop :=
  ∀ (fuel : Nat) {cs rest : List Char}, text.length ≤ fuel → Follows rest →
    skipGap cs = text ++ rest → readValue fuel cs = some (v, rest)

section Steps

variable {fuel : Nat} {cs rest rest' rest'' after : List Char} {v : Value}

theorem readItems_last (first : readValue fuel cs = some (v, rest))
    (close : skipGap rest = ']' :: rest') : readItems (fuel + 1) cs = some ([v], rest') := by
  simp [readItems, first, close]

theorem readItems_more {vs : List Value} (first : readValue fuel cs = some (v, rest))
    (comma : skipGap rest = ',' :: rest') (more : readItems fuel rest' = some (vs, rest'')) :
    readItems (fuel + 1) cs = some (v :: vs, rest'') := by
  simp [readItems, first, comma, more]

theorem readMembers_last {m : Member}
    (start : skipGap cs = '"' :: (m.name ++ '"' :: (m.between.chars ++ ':' :: after)))
    (value : readValue fuel after = some (m.item.value, rest))
    (close : skipGap rest = '\x7d' :: rest') :
    readMembers (fuel + 1) cs = some ([m.entry], rest') := by
  rw [readMembers, start]
  simp [m.isName.readText, m.between.skip, skipGap_of_not_isGap, value, close, Member.entry, isGap]

theorem readMembers_more {m : Member} {members : List (Option String × Value)}
    (start : skipGap cs = '"' :: (m.name ++ '"' :: (m.between.chars ++ ':' :: after)))
    (value : readValue fuel after = some (m.item.value, rest)) (comma : skipGap rest = ',' :: rest')
    (more : readMembers fuel rest' = some (members, rest'')) :
    readMembers (fuel + 1) cs = some (m.entry :: members, rest'') := by
  rw [readMembers, start]
  simp [m.isName.readText, m.between.skip, skipGap_of_not_isGap, value, comma, more, Member.entry,
    isGap]

theorem readValue_number {c : Char} {tail : List Char} (start : c = '-' ∨ c.isDigit)
    (h : skipGap cs = c :: tail) :
    readValue (fuel + 1) cs = (readNumber (c :: tail)).bind fun (n, rest) =>
      some (n.elim .beyond .number, rest) := by
  rw [readValue, h]
  -- no other token starts with a sign or a digit
  split
  all_goals simp_all

theorem readValue_items {vs : List Value} (start : skipGap cs = '[' :: rest)
    (first : skipGap rest = after) (more : ∀ tail, after ≠ ']' :: tail)
    (items : readItems fuel after = some (vs, rest')) :
    readValue (fuel + 1) cs = some (.list vs, rest') := by
  rw [readValue, start]
  simp [first, items]

theorem readValue_members {members : List (Option String × Value)}
    (start : skipGap cs = '\x7b' :: rest) (first : skipGap rest = after)
    (more : ∀ tail, after ≠ '\x7d' :: tail)
    (read : readMembers fuel after = some (members, rest')) :
    readValue (fuel + 1) cs = some (objectOf members, rest') := by
  rw [readValue, start]
  simp [first, read]

end Steps

theorem follows_of_not {c : Char} (h : c = ',' ∨ c = ']' ∨ c = '\x7d') (cs : List Char) :
    Follows (c :: cs) := by
  rintro c ⟨⟩
  rcases h with rfl | rfl | rfl <;> decide

theorem commas_cons (cs ds : List Char) (more : List (List Char)) :
    commas (cs :: ds :: more) = cs ++ ',' :: commas (ds :: more) := rfl

theorem commas_start (cs : List Char) (more : List (List Char)) :
    ∃ tail, commas (cs :: more) = cs ++ tail := by
  cases more with
  | nil => exact ⟨[], (List.append_nil cs).symm⟩
  | cons ds more => exact ⟨_, commas_cons cs ds more⟩

theorem readItems_commas {i : Item} {items : List Item}
    (denotes : ∀ j ∈ i :: items, Denotes j.text j.value)
    (reads : ∀ j ∈ i :: items, ReadAs j.text j.value) {fuel : Nat} {cs rest : List Char}
    (enough : (commas ((i :: items).map Item.spelling)).length < fuel)
    (h : skipGap cs = skipGap (commas ((i :: items).map Item.spelling) ++ ']' :: rest)) :
    readItems fuel cs = some ((i :: items).map Item.value, rest) := by
  induction items generalizing i fuel cs with
  | nil =>
    obtain ⟨fuel, rfl⟩ := Nat.exists_eq_add_one_of_ne_zero (by omega : fuel ≠ 0)
    have hi := denotes i List.mem_cons_self
    simp only [List.map_cons, List.map_nil, commas, Item.spelling, List.append_assoc,
      List.length_append] at enough h
    rw [hi.skip] at h
    have close := i.after.follows (follows_of_not (Or.inr (Or.inl rfl)) rest)
    have first := reads i List.mem_cons_self fuel (by omega) close h
    exact readItems_last first (i.after.skip_cons rfl rest)
  | cons j items ih =>
    obtain ⟨fuel, rfl⟩ := Nat.exists_eq_add_one_of_ne_zero (by omega : fuel ≠ 0)
    obtain ⟨hi, denotes⟩ := List.forall_mem_cons.1 denotes
    obtain ⟨read, reads⟩ := List.forall_mem_cons.1 reads
    rw [List.map_cons, List.map_cons, commas_cons, Item.spelling] at enough h
    simp only [List.append_assoc, List.cons_append, List.length_append, List.length_cons]
      at enough h
    rw [hi.skip] at h
    have first := read fuel (by omega) (i.after.follows (follows_of_not (Or.inl rfl) _)) h
    exact readItems_more first (i.after.skip_cons rfl _)
      (ih denotes reads (by rw [List.map_cons]; omega) rfl)

theorem readMembers_commas {m : Member} {members : List Member}
    (denotes : ∀ k ∈ m :: members, Denotes k.item.text k.item.value)
    (reads : ∀ k ∈ m :: members, ReadAs k.item.text k.item.value) {fuel : Nat}
    {cs rest : List Char} (enough : (commas ((m :: members).map Member.spelling)).length < fuel)
    (h : skipGap cs = skipGap (commas ((m :: members).map Member.spelling) ++ '\x7d' :: rest)) :
    readMembers fuel cs = some ((m :: members).map Member.entry, rest) := by
  induction members generalizing m fuel cs with
  | nil =>
    obtain ⟨fuel, rfl⟩ := Nat.exists_eq_add_one_of_ne_zero (by omega : fuel ≠ 0)
    have hm := denotes m List.mem_cons_self
    simp only [List.map_cons, List.map_nil, commas, Member.spelling, Item.spelling,
      List.append_assoc, List.cons_append, List.length_append, List.length_cons] at enough h
    rw [m.before.skip_cons rfl] at h
    have close := m.item.after.follows (follows_of_not (Or.inr (Or.inr rfl)) rest)
    have value := reads m List.mem_cons_self fuel (by omega) close (hm.skip m.item.before _)
    exact readMembers_last h value (m.item.after.skip_cons rfl rest)
  | cons k members ih =>
    obtain ⟨fuel, rfl⟩ := Nat.exists_eq_add_one_of_ne_zero (by omega : fuel ≠ 0)
    obtain ⟨hm, denotes⟩ := List.forall_mem_cons.1 denotes
    obtain ⟨read, reads⟩ := List.forall_mem_cons.1 reads
    rw [List.map_cons, List.map_cons, commas_cons, Member.spelling, Item.spelling] at enough h
    simp only [List.append_assoc, List.cons_append, List.length_append, List.length_cons]
      at enough h
    rw [m.before.skip_cons rfl] at h
    exact readMembers_more h
      (read fuel (by omega) (m.item.after.follows (follows_of_not (Or.inl rfl) _))
        (hm.skip m.item.before _))
      (m.item.after.skip_cons rfl _) (ih denotes reads (by rw [List.map_cons]; omega) rfl)

/-- Every text of the grammar is read as what it denotes. -/
theorem Denotes.readAs {text : List Char} {v : Value} (h : Denotes text v) : ReadAs text v := by
  induction h with
  | null | yes | no =>
    rintro (_ | fuel) cs rest enough _ h
    · cases enough
    · rw [readValue, h]; rfl
  | number literal =>
    intro fuel cs rest enough follows h
    have read := readNumber_literal literal follows
    obtain ⟨c, tail, rfl, first⟩ := literal.start
    rw [List.length_cons] at enough
    rw [List.cons_append] at h read
    obtain ⟨fuel, rfl⟩ := Nat.exists_eq_add_one_of_ne_zero (by omega : fuel ≠ 0)
    rw [readValue_number first h, read]
    rfl
  | text units =>
    rintro (_ | fuel) cs rest enough _ h
    · cases enough
    · rw [readValue, h, List.cons_append, List.append_assoc]
      simp [units.readText]
  | noItems gap =>
    rintro (_ | fuel) cs rest enough _ h
    · cases enough
    · rw [readValue, h, List.cons_append, List.append_assoc]
      simp [gap.skip, skipGap_of_not_isGap, isGap]
  | @items items nonempty denotes ih =>
    rintro (_ | fuel) cs rest enough _ h
    · cases enough
    obtain ⟨i, items, rfl⟩ := List.exists_cons_of_ne_nil nonempty
    simp only [List.length_cons, List.length_append, List.cons_append, List.append_assoc,
      List.nil_append] at enough h
    refine readValue_items h rfl ?_ (readItems_commas denotes ih (by omega) (skipGap_skipGap _))
    obtain ⟨tail, start⟩ := commas_start i.spelling (items.map Item.spelling)
    obtain ⟨c, text, first, -, notClose⟩ := (denotes i List.mem_cons_self).start
    intro tail'
    rw [List.map_cons, start]
    simp only [Item.spelling, List.append_assoc]
    rw [(denotes i List.mem_cons_self).skip, first]
    exact fun h => notClose (List.cons.inj h).1
  | noMembers gap =>
    rintro (_ | fuel) cs rest enough _ h
    · cases enough
    · rw [readValue, h, List.cons_append, List.append_assoc]
      simp [gap.skip, skipGap_of_not_isGap, isGap]
  | @members members nonempty denotes ih =>
    rintro (_ | fuel) cs rest enough _ h
    · cases enough
    obtain ⟨m, members, rfl⟩ := List.exists_cons_of_ne_nil nonempty
    simp only [List.length_cons, List.length_append, List.cons_append, List.append_assoc,
      List.nil_append] at enough h
    refine readValue_members h rfl ?_ (readMembers_commas denotes ih (by omega) (skipGap_skipGap _))
    obtain ⟨tail, start⟩ := commas_start m.spelling (members.map Member.spelling)
    intro tail'
    rw [List.map_cons, start]
    simp only [Member.spelling, List.append_assoc, List.cons_append]
    rw [m.before.skip_cons rfl]
    exact fun h => absurd (List.cons.inj h).1 (by decide)

/-- A text that denotes a value, with gaps around it, is parsed. -/
theorem parse?_denotes {text : List Char} {v : Value} (h : Denotes text v) (before after : Gap) :
    parse? (String.ofList (before.chars ++ (text ++ after.chars))) = some v := by
  set cs := before.chars ++ (text ++ after.chars) with cs_eq
  have follows : Follows after.chars := by
    have nothing : Follows [] := by rintro c ⟨⟩
    have := after.follows nothing
    rwa [List.append_nil] at this
  have read : readValue (2 * cs.length + 2) cs = some (v, after.chars) := by
    refine h.readAs _ ?_ follows (h.skip before _)
    rw [cs_eq, List.length_append, List.length_append]
    omega
  have none : skipGap after.chars = [] := by
    have := after.skip []
    rwa [List.append_nil] at this
  rw [parse?, String.toList_ofList]
  simp only [read]
  simp [none]

end CodeMetrics.Json

import Mathlib.Order.Bounds.Basic
import CodeMetrics.Text.Utf8

/-! Characters as bytes. A character is read off the front of a byte string exactly if its encoding
    stands there (`next_eq_some_iff`): the ranges that `next` tests leave out every overlong form,
    every surrogate and everything above 10FFFF, and nothing else. So `scan` reads off the longest
    front that is text (`isGreatest_validLength`).

        form      lead byte    second byte                      others
        one       00 to 7F
        two       C2 to DF     80 to BF
        three     E0 to EF     80 to BF, E0 from A0, ED to 9F   80 to BF
        four      F0 to F4     80 to BF, F0 from 90, F4 to 8F   80 to BF -/

namespace CodeMetrics.Utf8

/-! ### The forms of a character -/

theorem isTail_iff {b : UInt8} : isTail b = true ↔ 128 ≤ b.toNat ∧ b.toNat ≤ 191 := by
  simp [isTail, UInt8.le_iff_toNat_le]

theorem leadsThree_iff {a b : UInt8} : leadsThree a b = true ↔
    224 ≤ a.toNat ∧ a.toNat ≤ 239 ∧ 128 ≤ b.toNat ∧ b.toNat ≤ 191 ∧
      (a.toNat = 224 → 160 ≤ b.toNat) ∧ (a.toNat = 237 → b.toNat ≤ 159) := by
  simp only [leadsThree, isTail, Bool.or_eq_true, Bool.and_eq_true, decide_eq_true_eq, beq_iff_eq,
    UInt8.le_iff_toNat_le, ← UInt8.toNat_inj, UInt8.reduceToNat]
  omega

theorem leadsFour_iff {a b : UInt8} : leadsFour a b = true ↔
    240 ≤ a.toNat ∧ a.toNat ≤ 244 ∧ 128 ≤ b.toNat ∧ b.toNat ≤ 191 ∧
      (a.toNat = 240 → 144 ≤ b.toNat) ∧ (a.toNat = 244 → b.toNat ≤ 143) := by
  simp only [leadsFour, isTail, Bool.or_eq_true, Bool.and_eq_true, decide_eq_true_eq, beq_iff_eq,
    UInt8.le_iff_toNat_le, ← UInt8.toNat_inj, UInt8.reduceToNat]
  omega

theorem val_ofNat {v : Nat} (valid : v.isValidChar) : (Char.ofNat v).val.toNat = v := by
  rw [Char.ofNat, dif_pos valid]
  rfl

theorem ofNat_eq {v : Nat} {a : UInt8} (h : v = a.toNat) : UInt8.ofNat v = a := by
  rw [h, UInt8.ofNat_toNat]

/-- The forms that characters take, and the numbers that they stand for. -/
inductive Form : List UInt8 → Nat → Prop where
  | one {a : UInt8} {v : Nat} (lead : a.toNat < 128) (value : v = a.toNat) : Form [a] v
  | two {a b : UInt8} {v : Nat} (lead : 194 ≤ a.toNat ∧ a.toNat ≤ 223) (tail : isTail b = true)
    (value : v = (a.toNat - 192) * 64 + tailBits b) : Form [a, b] v
  | three {a b c : UInt8} {v : Nat} (lead : leadsThree a b = true) (tail : isTail c = true)
    (value : v = (a.toNat - 224) * 4096 + tailBits b * 64 + tailBits c) : Form [a, b, c] v
  | four {a b c d : UInt8} {v : Nat} (lead : leadsFour a b = true) (tail : isTail c = true)
    (last : isTail d = true)
    (value : v = (a.toNat - 240) * 262144 + tailBits b * 4096 + tailBits c * 64 + tailBits d) :
    Form [a, b, c, d] v

namespace Form

variable {front bs r : List UInt8} {v : Nat} {c : Char}

/-- A form is the shortest encoding of its character. -/
theorem encode (form : Form front v) : String.utf8EncodeChar (Char.ofNat v) = front := by
  cases form with
  | one lead value =>
    have valid : v.isValidChar := Or.inl (by omega)
    rw [String.utf8EncodeChar, val_ofNat valid, if_pos (by omega), ofNat_eq value]
  | @two a b _ lead tail value =>
    unfold tailBits at value
    have tail := isTail_iff.1 tail
    have valid : v.isValidChar := Or.inl (by omega)
    have first : UInt8.ofNat (v / 64 % 32 + 192) = a := ofNat_eq (by omega)
    have second : UInt8.ofNat (v % 64 + 128) = b := ofNat_eq (by omega)
    rw [String.utf8EncodeChar, val_ofNat valid, if_neg (by omega), if_pos (by omega), first, second]
  | @three a b c _ lead tail value =>
    unfold tailBits at value
    have lead := leadsThree_iff.1 lead
    have tail := isTail_iff.1 tail
    have valid : v.isValidChar := by unfold Nat.isValidChar; omega
    have first : UInt8.ofNat (v / 4096 % 16 + 224) = a := ofNat_eq (by omega)
    have second : UInt8.ofNat (v / 64 % 64 + 128) = b := ofNat_eq (by omega)
    have third : UInt8.ofNat (v % 64 + 128) = c := ofNat_eq (by omega)
    rw [String.utf8EncodeChar, val_ofNat valid, if_neg (by omega), if_neg (by omega),
      if_pos (by omega), first, second, third]
  | @four a b c d _ lead tail last value =>
    unfold tailBits at value
    have lead := leadsFour_iff.1 lead
    have tail := isTail_iff.1 tail
    have last := isTail_iff.1 last
    have valid : v.isValidChar := by unfold Nat.isValidChar; omega
    have first : UInt8.ofNat (v / 262144 % 8 + 240) = a := ofNat_eq (by omega)
    have second : UInt8.ofNat (v / 4096 % 64 + 128) = b := ofNat_eq (by omega)
    have third : UInt8.ofNat (v / 64 % 64 + 128) = c := ofNat_eq (by omega)
    have fourth : UInt8.ofNat (v % 64 + 128) = d := ofNat_eq (by omega)
    rw [String.utf8EncodeChar, val_ofNat valid, if_neg (by omega), if_neg (by omega),
      if_neg (by omega), first, second, third, fourth]

/-- What is read as a character has the form of it. -/
theorem of_next (h : Utf8.next bs = some (c, r)) :
    ∃ front v, Form front v ∧ bs = front ++ r ∧ c = Char.ofNat v := by
  unfold Utf8.next at h
  repeat' split at h
  all_goals
    simp only [reduceCtorEq, Option.some.injEq, Prod.mk.injEq] at h
  all_goals
    obtain ⟨rfl, rfl⟩ := h
  · next lead => exact ⟨_, _, .one (UInt8.lt_iff_toNat_lt.1 lead) rfl, rfl, rfl⟩
  · next lead =>
    simp only [Bool.and_eq_true, decide_eq_true_eq, UInt8.le_iff_toNat_le] at lead
    exact ⟨_, _, .two lead.1 lead.2 rfl, rfl, rfl⟩
  · next lead =>
    rw [Bool.and_eq_true] at lead
    exact ⟨_, _, .three lead.1 lead.2 rfl, rfl, rfl⟩
  · next lead =>
    simp only [Bool.and_eq_true] at lead
    exact ⟨_, _, .four lead.1.1 lead.1.2 lead.2 rfl, rfl, rfl⟩

/-- A form is read as its character, whatever follows. -/
theorem next (form : Form front v) : Utf8.next (front ++ r) = some (Char.ofNat v, r) := by
  have small {a : UInt8} : a < 0x80 ↔ a.toNat < 128 := UInt8.lt_iff_toNat_lt
  have short {a : UInt8} : (decide (0xC2 ≤ a) && decide (a ≤ 0xDF)) = true
      ↔ 194 ≤ a.toNat ∧ a.toNat ≤ 223 := by
    simp [UInt8.le_iff_toNat_le]
  unfold Utf8.next
  cases form with
  | one lead value =>
    rw [value]
    exact if_pos (small.2 lead)
  | two lead tail value =>
    rw [value]
    simp only [List.cons_append, List.nil_append, small, short.2 lead, tail, Bool.and_self, if_true]
    rw [if_neg (by omega)]
  | @three a b c _ lead tail value =>
    rw [value]
    have range := leadsThree_iff.1 lead
    have long : (decide (0xC2 ≤ a) && decide (a ≤ 0xDF)) = false := by
      rw [← Bool.not_eq_true, short]
      omega
    simp only [List.cons_append, List.nil_append, small, long, lead, tail, Bool.and_self,
      Bool.false_and, Bool.false_eq_true, if_false, if_true]
    rw [if_neg (by omega)]
  | @four a b c d _ lead tail last value =>
    rw [value]
    have range := leadsFour_iff.1 lead
    have long : (decide (0xC2 ≤ a) && decide (a ≤ 0xDF)) = false := by
      rw [← Bool.not_eq_true, short]
      omega
    have longer : leadsThree a b = false := by
      rw [← Bool.not_eq_true, leadsThree_iff]
      omega
    simp only [List.cons_append, List.nil_append, small, long, longer, lead, tail, last,
      Bool.and_self, Bool.false_and, Bool.false_eq_true, if_false, if_true]
    rw [if_neg (by omega)]

/-- Every scalar value has a form. -/
theorem exists_of_valid {v : Nat} (valid : v.isValidChar) : ∃ front, Form front v := by
  unfold Nat.isValidChar at valid
  by_cases one : v < 128
  · have first := UInt8.toNat_ofNat_of_lt' (show v < 256 by omega)
    exact ⟨[UInt8.ofNat v], .one (by omega) first.symm⟩
  by_cases two : v < 2048
  · have first := UInt8.toNat_ofNat_of_lt' (show v / 64 + 192 < 256 by omega)
    have second := UInt8.toNat_ofNat_of_lt' (show v % 64 + 128 < 256 by omega)
    exact ⟨[UInt8.ofNat (v / 64 + 192), UInt8.ofNat (v % 64 + 128)],
      .two (by omega) (isTail_iff.2 (by omega)) (by unfold tailBits; omega)⟩
  by_cases three : v < 65536
  · have first := UInt8.toNat_ofNat_of_lt' (show v / 4096 + 224 < 256 by omega)
    have second := UInt8.toNat_ofNat_of_lt' (show v / 64 % 64 + 128 < 256 by omega)
    have third := UInt8.toNat_ofNat_of_lt' (show v % 64 + 128 < 256 by omega)
    exact ⟨[UInt8.ofNat (v / 4096 + 224), UInt8.ofNat (v / 64 % 64 + 128),
        UInt8.ofNat (v % 64 + 128)],
      .three (leadsThree_iff.2 (by omega)) (isTail_iff.2 (by omega)) (by unfold tailBits; omega)⟩
  · have first := UInt8.toNat_ofNat_of_lt' (show v / 262144 + 240 < 256 by omega)
    have second := UInt8.toNat_ofNat_of_lt' (show v / 4096 % 64 + 128 < 256 by omega)
    have third := UInt8.toNat_ofNat_of_lt' (show v / 64 % 64 + 128 < 256 by omega)
    have fourth := UInt8.toNat_ofNat_of_lt' (show v % 64 + 128 < 256 by omega)
    exact ⟨[UInt8.ofNat (v / 262144 + 240), UInt8.ofNat (v / 4096 % 64 + 128),
        UInt8.ofNat (v / 64 % 64 + 128), UInt8.ofNat (v % 64 + 128)],
      .four (leadsFour_iff.2 (by omega)) (isTail_iff.2 (by omega)) (isTail_iff.2 (by omega))
        (by unfold tailBits; omega)⟩

end Form

/-! ### Reading characters -/

/-- A character is read where its encoding stands, and nowhere else. -/
theorem next_eq_some_iff {bs r : List UInt8} {c : Char} :
    next bs = some (c, r) ↔ bs = String.utf8EncodeChar c ++ r := by
  constructor
  · intro h
    obtain ⟨front, v, form, rfl, rfl⟩ := Form.of_next h
    rw [form.encode]
  · rintro rfl
    obtain ⟨front, form⟩ := Form.exists_of_valid c.valid
    have read := form.next (r := r)
    rwa [← form.encode, show Char.ofNat c.val.toNat = c from Char.ofNat_toNat c] at read

theorem scan_of_next {bs r : List UInt8} {c : Char} (h : next bs = some (c, r)) :
    scan bs = (c :: (scan r).1, (scan r).2) := by
  rw [scan]
  split
  · simp_all
  · simp_all

theorem scan_of_none {bs : List UInt8} (h : next bs = none) : scan bs = ([], bs) := by
  rw [scan]
  split
  · rfl
  · simp_all

/-- The characters read and the bytes left over are the whole byte string. -/
theorem flatMap_scan (bs : List UInt8) :
    (scan bs).1.flatMap String.utf8EncodeChar ++ (scan bs).2 = bs := by
  induction bs using scan.induct with
  | case1 bs h => rw [scan_of_none h]; rfl
  | case2 bs c r h _ ih =>
    rw [scan_of_next h, next_eq_some_iff.1 h, List.flatMap_cons, List.append_assoc, ih]

/-- Characters at the front are all read. -/
theorem scan_flatMap (cs : List Char) (rest : List UInt8) :
    scan (cs.flatMap String.utf8EncodeChar ++ rest) = (cs ++ (scan rest).1, (scan rest).2) := by
  induction cs with
  | nil => rfl
  | cons c cs ih =>
    rw [List.flatMap_cons, List.append_assoc, scan_of_next (next_eq_some_iff.2 rfl), ih]
    rfl

/-! ### Text -/

/-- Text is the encodings of some characters, one after the other. -/
def IsText (bs : List UInt8) : Prop := ∃ cs : List Char, bs = cs.flatMap String.utf8EncodeChar

theorem take_validLength (bs : List UInt8) :
    bs.take (validLength bs) = (scan bs).1.flatMap String.utf8EncodeChar := by
  have front : (scan bs).1.flatMap String.utf8EncodeChar <+: bs := ⟨_, flatMap_scan bs⟩
  have whole := congrArg List.length (flatMap_scan bs)
  rw [List.length_append] at whole
  have length : validLength bs = ((scan bs).1.flatMap String.utf8EncodeChar).length := by
    unfold validLength
    omega
  rw [length]
  exact (List.prefix_iff_eq_take.1 front).symm

/-- As much is read as is text. -/
theorem isGreatest_validLength (bs : List UInt8) :
    IsGreatest {n | n ≤ bs.length ∧ IsText (bs.take n)} (validLength bs) := by
  refine ⟨⟨Nat.sub_le _ _, _, take_validLength bs⟩, ?_⟩
  rintro n ⟨le, cs, text⟩
  -- the characters `cs` are all read, and perhaps more behind them: at least `n` bytes
  have read := scan_flatMap cs (bs.drop n)
  rw [← text, List.take_append_drop] at read
  have front := congrArg List.length (take_validLength bs)
  rw [read, List.flatMap_append, ← text, List.length_append, List.length_take,
    List.length_take] at front
  omega

theorem isText_iff_validLength {bs : List UInt8} : IsText bs ↔ validLength bs = bs.length := by
  obtain ⟨⟨le, text⟩, greatest⟩ := isGreatest_validLength bs
  constructor
  · intro all
    exact le.antisymm (greatest ⟨le_rfl, by rwa [List.take_length]⟩)
  · intro length
    rwa [length, List.take_length] at text

theorem not_isText_of_next {bs : List UInt8} (unread : next bs = none) (nonempty : bs ≠ []) :
    ¬ IsText bs := by
  rw [isText_iff_validLength, validLength, scan_of_none unread, Nat.sub_self]
  exact fun h => nonempty (List.length_eq_zero_iff.1 h.symm)

theorem encode_ofList (cs : List Char) :
    encode (String.ofList cs) = cs.flatMap String.utf8EncodeChar := by
  rw [encode, String.toUTF8_eq_toByteArray, String.toByteArray_ofList, List.utf8Encode,
    List.data_toByteArray]

/-- The front that is kept of a broken text holds the bytes before the first broken character. -/
theorem encode_validFront (bs : List UInt8) :
    encode (validFront bs) = bs.take (validLength bs) := by
  rw [validFront, encode_ofList, take_validLength]

end CodeMetrics.Utf8

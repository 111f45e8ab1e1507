import CodeMetrics.Proofs.Characters
import CodeMetrics.Syntax.Source

/-! Bytes that are source. What stands behind a byte order mark is source if it is text without a zero
    byte, and is kept as it is; otherwise the fault tells where it stops being source, counted from
    behind the mark (`decodeSource_cases`). The mark of a wider encoding needs no case of its own in
    that: no text starts with one. -/

namespace CodeMetrics

/-- Bytes without one byte order mark in front. -/
def unmarked (bs : List UInt8) : List UInt8 :=
  if byteOrderMark.isPrefixOf bs then bs.drop byteOrderMark.length else bs

/-- The mark that source in an encoding starts with. -/
def Encoding.mark : Encoding → List UInt8
  | .utf8 => []
  | .utf8Marked => byteOrderMark

/-- The encoding that the front of some bytes tells. -/
def Encoding.of (bs : List UInt8) : Encoding :=
  if byteOrderMark.isPrefixOf bs then .utf8Marked else .utf8

theorem Encoding.of_eq_utf8Marked {bs : List UInt8} :
    Encoding.of bs = .utf8Marked ↔ byteOrderMark <+: bs := by
  rw [Encoding.of, ← List.isPrefixOf_iff_prefix]
  split <;> simp_all

/-- Taking off the mark can be undone. -/
theorem mark_append_unmarked (bs : List UInt8) : (Encoding.of bs).mark ++ unmarked bs = bs := by
  unfold Encoding.of unmarked
  split
  · next marked => exact List.prefix_iff_eq_append.1 (List.isPrefixOf_iff_prefix.1 marked)
  · rfl

/-! ### Where bytes stop being source -/

/-- What a fault says of the bytes behind the mark. -/
def DecodeFault.Explains (body : List UInt8) : DecodeFault → Prop
  | .wide => ¬ Utf8.IsText body
  | .zeroByte k => body[k]? = some 0 ∧ ∀ i < k, body[i]? ≠ some 0
  | .malformed k =>
    ¬ Utf8.IsText body ∧ IsGreatest {n | n ≤ body.length ∧ Utf8.IsText (body.take n)} k

/-- Bytes with a fault are no source. -/
theorem DecodeFault.Explains.unfit {body : List UInt8} {fault : DecodeFault}
    (explains : fault.Explains body) : ¬ (0 ∉ body ∧ Utf8.IsText body) := by
  rintro ⟨free, text⟩
  cases fault with
  | wide => exact explains text
  | zeroByte k => exact free (List.mem_of_getElem? explains.1)
  | malformed k => exact explains.1 text

theorem checkSource_cases (body : List UInt8) :
    (checkSource body = .ok body ∧ 0 ∉ body ∧ Utf8.IsText body) ∨
      ∃ fault, checkSource body = .error fault ∧ fault.Explains body := by
  unfold checkSource
  split
  · next k first =>
    obtain ⟨lt, zero, before⟩ := List.findIdx?_eq_some_iff_getElem.1 first
    refine .inr ⟨_, rfl, by simpa [List.getElem?_eq_getElem lt] using zero, fun i hi => ?_⟩
    simpa [List.getElem?_eq_getElem (hi.trans lt)] using before i hi
  · next free =>
    have free : 0 ∉ body := fun zero => by simpa using List.findIdx?_eq_none_iff.1 free 0 zero
    split
    · next length => exact .inl ⟨rfl, free, Utf8.isText_iff_validLength.2 length⟩
    · next length =>
      exact .inr ⟨_, rfl, mt Utf8.isText_iff_validLength.1 length, Utf8.isGreatest_validLength body⟩

/-- No text starts with the mark of a wider encoding, and no bytes start with two marks. -/
theorem unmarked_of_wide {bs : List UInt8} (wide : startsWide bs = true) :
    byteOrderMark.isPrefixOf bs = false ∧ ¬ Utf8.IsText bs := by
  rw [startsWide, Bool.or_eq_true, List.isPrefixOf_iff_prefix, List.isPrefixOf_iff_prefix] at wide
  -- `next` looks at up to four bytes, so the two behind the mark are told apart
  obtain ⟨rest, rfl⟩ | ⟨rest, rfl⟩ := wide
  · refine ⟨rfl, Utf8.not_isText_of_next ?_ (List.cons_ne_nil _ _)⟩
    rcases rest with _ | ⟨c, _ | ⟨d, rest⟩⟩ <;> rfl
  · refine ⟨rfl, Utf8.not_isText_of_next ?_ (List.cons_ne_nil _ _)⟩
    rcases rest with _ | ⟨c, _ | ⟨d, rest⟩⟩ <;> rfl

/-- Bytes are source, or some fault explains why not. -/
theorem decodeSource_cases (bs : List UInt8) :
    (decodeSource bs = .ok (unmarked bs, .of bs) ∧ 0 ∉ unmarked bs ∧ Utf8.IsText (unmarked bs)) ∨
      ∃ fault, decodeSource bs = .error fault ∧ fault.Explains (unmarked bs) := by
  have checked : startsWide bs = false →
      decodeSource bs = (checkSource (unmarked bs)).map (·, Encoding.of bs) := by
    intro narrow
    unfold decodeSource unmarked Encoding.of
    split
    · rfl
    · rw [narrow]
      rfl
  cases wide : startsWide bs with
  | true =>
    obtain ⟨plain, noText⟩ := unmarked_of_wide wide
    refine .inr ⟨.wide, ?_, ?_⟩
    · rw [decodeSource, plain, wide]
      rfl
    · rw [unmarked, plain]
      exact noText
  | false =>
    rw [checked wide]
    obtain ⟨ok, fits⟩ | ⟨fault, error, explains⟩ := checkSource_cases (unmarked bs)
    · exact .inl ⟨by rw [ok]; rfl, fits⟩
    · exact .inr ⟨fault, by rw [error]; rfl, explains⟩

theorem decodeSource_eq_ok {bs : List UInt8} {decoded : List UInt8 × Encoding} :
    decodeSource bs = .ok decoded ↔
      decoded = (unmarked bs, .of bs) ∧ 0 ∉ unmarked bs ∧ Utf8.IsText (unmarked bs) := by
  obtain ⟨ok, fits⟩ | ⟨fault, error, explains⟩ := decodeSource_cases bs
  · rw [ok, Except.ok.injEq]
    exact ⟨fun same => ⟨same.symm, fits⟩, fun h => h.1.symm⟩
  · rw [error]
    exact ⟨fun h => (nomatch h), fun h => absurd h.2 explains.unfit⟩

theorem explains_of_decodeSource {bs : List UInt8} {fault : DecodeFault}
    (h : decodeSource bs = .error fault) : fault.Explains (unmarked bs) := by
  obtain ⟨ok, -⟩ | ⟨fault', error, explains⟩ := decodeSource_cases bs
  · rw [ok] at h
    cases h
  · rw [error] at h
    cases h
    exact explains

/-! ### Faults in words -/

/-- The letter that the words of a fault start with. -/
def DecodeFault.initial : DecodeFault → Char
  | .wide => 'U'
  | .zeroByte _ => 'b'
  | .malformed _ => 'i'

theorem DecodeFault.head?_message (fault : DecodeFault) :
    fault.message.toList.head? = some fault.initial := by
  unfold DecodeFault.message
  cases fault with
  | wide => rfl
  | zeroByte k => rw [String.toList_append, String.toList_append]; rfl
  | malformed k => rw [String.toList_append]; rfl

/-- A fault is known by its words. -/
theorem DecodeFault.message_inj {a b : DecodeFault} (h : a.message = b.message) : a = b := by
  have digits {m n : Nat} (h : toString m = toString n) : m = n := by
    have values := congrArg (fun s => Nat.ofDigitChars 10 s.toList 0) h
    simpa [Nat.toString_eq_ofList_toDigits] using values
  have initials : a.initial = b.initial :=
    Option.some.inj (by rw [← head?_message, ← head?_message, h])
  unfold DecodeFault.message at h
  cases a with
  | wide =>
    cases b with
    | wide => rfl
    | zeroByte | malformed => simp [initial] at initials
  | zeroByte m =>
    cases b with
    | zeroByte n => rw [digits ((String.append_right_inj _).1 ((String.append_left_inj _).1 h))]
    | wide | malformed => simp [initial] at initials
  | malformed m =>
    cases b with
    | malformed n => rw [digits ((String.append_right_inj _).1 h)]
    | wide | zeroByte => simp [initial] at initials

/-! ### Decoding -/

/-- Bytes are source exactly if what stands behind the mark is text without a zero byte. It is kept as
    it is, and the encoding tells whether there was a mark. A fault gives the first zero byte or the
    length of the longest front that is text, and of a sample that front is what is looked at. -/
theorem decodes_iff_text (bs : List UInt8) :
    ((∃ decoded, decodeSource bs = .ok decoded) ↔ 0 ∉ unmarked bs ∧ Utf8.IsText (unmarked bs)) ∧
    (∀ source encoding, decodeSource bs = .ok (source, encoding) →
      source = unmarked bs ∧ (encoding = .utf8Marked ↔ byteOrderMark <+: bs) ∧
        encoding.mark ++ source = bs) ∧
    (∀ fault (k : Nat), decodeSource bs = .error fault →
      fault.message = s!"invalid UTF-8 at byte offset {k}" →
        IsGreatest {n | n ≤ (unmarked bs).length ∧ Utf8.IsText ((unmarked bs).take n)} k) ∧
    (∀ fault (k : Nat), decodeSource bs = .error fault →
      fault.message = s!"binary content (NUL byte at offset {k})" →
        (unmarked bs)[k]? = some 0 ∧ ∀ i < k, (unmarked bs)[i]? ≠ some 0) ∧
    ∃ k, IsGreatest {n | n ≤ bs.length ∧ Utf8.IsText (bs.take n)} k ∧
      Utf8.encode (Utf8.validFront bs) = bs.take k := by
  refine ⟨⟨?_, ?_⟩, ?_, ?_, ?_, _, Utf8.isGreatest_validLength bs, Utf8.encode_validFront bs⟩
  · rintro ⟨decoded, ok⟩
    exact (decodeSource_eq_ok.1 ok).2
  · intro fits
    exact ⟨_, decodeSource_eq_ok.2 ⟨rfl, fits⟩⟩
  · intro source encoding ok
    obtain ⟨same, -⟩ := decodeSource_eq_ok.1 ok
    cases same
    exact ⟨rfl, Encoding.of_eq_utf8Marked, mark_append_unmarked bs⟩
  · intro fault k error words
    obtain rfl : fault = .malformed k := DecodeFault.message_inj words
    exact (explains_of_decodeSource error).2
  · intro fault k error words
    obtain rfl : fault = .zeroByte k := DecodeFault.message_inj words
    exact explains_of_decodeSource error

/-- A mark, a character of two bytes and the first byte of another; and a zero byte behind a mark. -/
theorem decodes_iff_text_truncated :
    decodeSource [0xEF, 0xBB, 0xBF, 0xC3, 0xA9] = .ok ([0xC3, 0xA9], .utf8Marked) ∧
    Utf8.IsText [0xC3, 0xA9] ∧
    decodeSource [0xEF, 0xBB, 0xBF, 0xC3, 0xA9, 0xC3] = .error (.malformed 2) ∧
    IsGreatest {n | n ≤ 3 ∧ Utf8.IsText (List.take n [0xC3, 0xA9, 0xC3])} 2 ∧
    decodeSource [0xEF, 0xBB, 0xBF, 0x61, 0x00] = .error (.zeroByte 1) ∧
    ∀ i < 1, [(0x61 : UInt8), 0x00][i]? ≠ some 0 := by
  have marked : decodeSource [0xEF, 0xBB, 0xBF, 0xC3, 0xA9] = .ok ([0xC3, 0xA9], .utf8Marked) := by
    decide +kernel
  have truncated : decodeSource [0xEF, 0xBB, 0xBF, 0xC3, 0xA9, 0xC3] = .error (.malformed 2) := by
    decide +kernel
  have zero : decodeSource [0xEF, 0xBB, 0xBF, 0x61, 0x00] = .error (.zeroByte 1) := by
    decide +kernel
  refine ⟨marked, ?_, truncated, ?_, zero, ?_⟩
  · exact ((decodes_iff_text _).1.1 ⟨_, marked⟩).2
  · exact (decodes_iff_text _).2.2.1 _ 2 truncated rfl
  · exact ((decodes_iff_text _).2.2.2.1 _ 1 zero rfl).2

end CodeMetrics

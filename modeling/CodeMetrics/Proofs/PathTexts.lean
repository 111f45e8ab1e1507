import CodeMetrics.Path
import CodeMetrics.Proofs.Characters

/-! Paths that are text. The text of such a path says which path it is, and whether it is absolute
    can be read off its characters as well as its bytes. A path that is not text is shown with
    replacement characters, which do not say what bytes stand there. -/

namespace CodeMetrics

namespace Utf8

instance (bs : List UInt8) : Decidable (IsText bs) :=
  decidable_of_iff (validLength bs = bs.length) isText_iff_validLength.symm

theorem encode_eq_flatMap (s : String) : encode s = s.toList.flatMap String.utf8EncodeChar := by
  rw [← encode_ofList, String.ofList_toList]

theorem decodeLossy_encode (s : String) : decodeLossy (encode s) = s := by
  have read : scan (encode s) = (s.toList, []) := by
    have all := scan_flatMap s.toList []
    rwa [show scan [] = ([], []) from scan_of_none rfl, List.append_nil, List.append_nil,
      ← encode_eq_flatMap] at all
  rw [decodeLossy, mended, read, String.ofList_toList]

/-- Text is what reading leaves as it is. -/
theorem isText_iff_encode {bs : List UInt8} : IsText bs ↔ encode (decodeLossy bs) = bs := by
  constructor
  · rintro ⟨cs, rfl⟩
    rw [← encode_ofList, decodeLossy_encode]
  · intro same
    exact ⟨(decodeLossy bs).toList, by rw [← encode_eq_flatMap, same]⟩

end Utf8

namespace RawPath

@[simp] theorem text_ofText (s : String) : (ofText s).text = s := Utf8.decodeLossy_encode s

theorem isText_ofText (s : String) : Utf8.IsText (ofText s).bytes :=
  ⟨s.toList, Utf8.encode_eq_flatMap s⟩

/-- A path that is text is the path that its text names. -/
theorem exists_ofText {path : RawPath} (h : Utf8.IsText path.bytes) : ∃ s : String, path = s := by
  refine ⟨path.text, ?_⟩
  cases path
  exact congrArg mk (Utf8.isText_iff_encode.1 h).symm

theorem bytes_ofText (s : String) :
    (ofText s).bytes = s.toList.flatMap String.utf8EncodeChar :=
  Utf8.encode_eq_flatMap s

theorem ofText_ofList (cs : List Char) :
    ofText (String.ofList cs) = ⟨cs.flatMap String.utf8EncodeChar⟩ :=
  congrArg mk (Utf8.encode_ofList cs)

end RawPath

namespace Path

theorem encode_slash : String.utf8EncodeChar '/' = [slash] := by decide

/-- The byte that divides a path starts the encoding of no other character. -/
theorem head?_encodeChar (c : Char) :
    (String.utf8EncodeChar c).head? = some slash ↔ c = '/' := by
  constructor
  · intro head
    obtain ⟨rest, encoded⟩ := List.head?_eq_some_iff.1 head
    have read : Utf8.next (slash :: rest) = some (c, []) := by
      rw [Utf8.next_eq_some_iff, List.append_nil, encoded]
    have slash : Utf8.next (slash :: rest) = some ('/', rest) := rfl
    rw [slash] at read
    exact (congrArg Prod.fst (Option.some.inj read)).symm
  · rintro rfl
    rw [encode_slash]
    rfl

theorem isAbsolute_ofText (s : String) : isAbsolute s = (s.toList.head? == some '/') := by
  rw [isAbsolute, RawPath.bytes_ofText, Bool.eq_iff_iff, beq_iff_eq, beq_iff_eq]
  cases s.toList with
  | nil => simp
  | cons c cs =>
    obtain ⟨b, bs, encoded⟩ := List.exists_cons_of_ne_nil (String.utf8EncodeChar_ne_nil (c := c))
    rw [List.head?_cons, Option.some.injEq, ← head?_encodeChar, List.flatMap_cons, encoded]
    rfl

theorem splitAtSlashes_dot (rest : List UInt8) :
    splitAtSlashes (dot :: slash :: rest) = [dot] :: splitAtSlashes rest := by
  simp [splitAtSlashes, dot, slash]

/-- A dot and a slash at the front are a piece of their own. -/
theorem pieces_dot (cs : List Char) :
    pieces (String.ofList ('.' :: '/' :: cs)) = here :: pieces (String.ofList cs) := by
  rw [RawPath.ofText_ofList, RawPath.ofText_ofList, List.flatMap_cons, List.flatMap_cons]
  exact congrArg (List.map RawPath.mk) (splitAtSlashes_dot _)

/-- Joining texts: a slash stands between them, unless the first one ends with a slash. -/
theorem exists_join_ofText (s t : String) : ∃ joined tail : List Char,
    join s t = (String.ofList joined : RawPath) ∧ joined = s.toList ++ tail ∧
      (tail = t.toList ∨ tail = '/' :: t.toList ∧ s.toList.getLast? ≠ some '/') := by
  rw [join]
  split
  · refine ⟨_, _, ?_, rfl, Or.inl rfl⟩
    rw [RawPath.ofText_ofList, List.flatMap_append, RawPath.bytes_ofText, RawPath.bytes_ofText]
  · next last =>
    refine ⟨_, _, ?_, rfl, Or.inr ⟨rfl, fun slash => ?_⟩⟩
    · rw [RawPath.ofText_ofList, List.flatMap_append, List.flatMap_cons, encode_slash,
        RawPath.bytes_ofText, RawPath.bytes_ofText]
      rfl
    · refine last ?_
      obtain ⟨front, hs⟩ := List.getLast?_eq_some_iff.1 slash
      rw [RawPath.bytes_ofText, hs, List.flatMap_append]
      simp [encode_slash]

end Path

end CodeMetrics

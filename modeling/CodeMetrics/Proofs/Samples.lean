import Mathlib.Data.List.Nodup
import CodeMetrics.Language.Detection
import CodeMetrics.Proofs.Lists

/-! What a sample tells of a language. Editors look at the first five lines and at the last five; no
    other line counts, whatever is read off a line. An extension that is known speaks for itself,
    and only that of TypeScript leaves a doubt, which a few bytes settle. -/

namespace CodeMetrics.Detection

/-! ### Numbers of lines -/

/-- The numbers of the lines where editors look, each of them once: the first five forward, then the
    others among the last five backward. -/
structure Window (count : ℕ) (numbers : List ℕ) : Prop where
  nodup : numbers.Nodup
  mem_iff : ∀ i, i ∈ numbers ↔ i < count ∧ (i < 5 ∨ count - 5 ≤ i)
  order : ∃ first rest, numbers = first ++ rest ∧ (∀ i ∈ first, i < 5) ∧ (∀ i ∈ rest, 5 ≤ i) ∧
    first.Pairwise (· < ·) ∧ rest.Pairwise (· > ·)

/-- The numbers of the lines where editors look. -/
def windowOf (count : ℕ) : List ℕ :=
  List.range (min 5 count) ++ (List.range' (max 5 (count - 5)) (min 5 (count - 5))).reverse

theorem window_windowOf (count : ℕ) : Window count (windowOf count) where
  nodup := by
    refine List.nodup_append.2 ⟨List.nodup_range, List.nodup_reverse.2 List.nodup_range', ?_⟩
    intro i hi j hj
    rw [List.mem_range] at hi
    rw [List.mem_reverse, List.mem_range'_1] at hj
    omega
  mem_iff i := by
    rw [windowOf, List.mem_append, List.mem_range, List.mem_reverse, List.mem_range'_1]
    omega
  order := by
    refine ⟨_, _, rfl, fun i hi => ?_, fun i hi => ?_, List.pairwise_lt_range, ?_⟩
    · rw [List.mem_range] at hi
      omega
    · rw [List.mem_reverse, List.mem_range'_1] at hi
      omega
    · exact List.pairwise_reverse.2 List.pairwise_lt_range'

/-- The lines where editors look behind the first five. -/
def lastLines (lines : List (List Char)) : List (List Char) := lines.drop (max 5 (lines.length - 5))

theorem editorLines_eq (lines : List (List Char)) :
    editorLines lines = lines.take 5 ++ (lastLines lines).reverse := by
  have start : lines.length - min 5 (lines.length - 5) = max 5 (lines.length - 5)
      ∨ lines.length ≤ 5 := by omega
  rw [editorLines, List.take_reverse, lastLines]
  rcases start with start | few
  · rw [start]
  · rw [List.drop_eq_nil_of_le (by omega), List.drop_eq_nil_of_le (by omega)]

/-- Editors look at the lines with these numbers, in this order. -/
theorem map_some_editorLines (lines : List (List Char)) :
    (editorLines lines).map some = (windowOf lines.length).map fun i => lines[i]? := by
  have count : lines.length - max 5 (lines.length - 5) = min 5 (lines.length - 5) := by omega
  rw [editorLines_eq, lastLines, List.map_append, List.map_reverse, List.map_take, List.map_drop,
    map_some_eq, ← List.map_take, ← List.map_drop, List.take_range, drop_range, count,
    ← List.map_reverse, ← List.map_append, windowOf]

/-! ### Reading lines -/

/-- What is read off a single line: the language of an interpreter, off the first one, and the
    language of a mode. -/
structure LineReader where
  interpreter : List Char → Option Language
  mode : List Char → Option Language

namespace LineReader

/-- The language that a reader finds by the lines for editors. -/
def byModes (r : LineReader) (lines : List (List Char)) : Option Language :=
  (editorLines lines).findSome? r.mode

/-- The language that a reader finds in some lines. -/
def read (r : LineReader) (lines : List (List Char)) : Option Language :=
  (lines.head?.bind r.interpreter).or (r.byModes lines)

/-- The reader that knows the shapes of lines. -/
def shapes : LineReader where
  interpreter line := (interpreterShape.keptAtStart line).bind ofInterpreter?
  mode := modeIn?

theorem byModes_eq (r : LineReader) (lines : List (List Char)) :
    r.byModes lines = (windowOf lines.length).findSome? fun i => lines[i]?.bind r.mode := by
  have look : (fun i : ℕ => lines[i]?.bind r.mode)
      = (fun line : Option (List Char) => line.bind r.mode) ∘ fun i : ℕ => lines[i]? := rfl
  rw [look, ← List.findSome?_map, ← map_some_editorLines, List.findSome?_map]
  rfl

/-- Lines that are the same where editors look. -/
def SameWindows (lines others : List (List Char)) : Prop :=
  lines.take 5 = others.take 5 ∧ lastLines lines = lastLines others

instance (lines others : List (List Char)) : Decidable (SameWindows lines others) :=
  inferInstanceAs (Decidable (_ ∧ _))

/-- No line outside the windows counts. -/
theorem read_congr (r : LineReader) {lines others : List (List Char)}
    (same : SameWindows lines others) : r.read lines = r.read others := by
  obtain ⟨first, last⟩ := same
  have head : lines.head? = others.head? := by
    have := congrArg List.head? first
    rwa [List.head?_take, List.head?_take] at this
  rw [read, read, byModes, byModes, editorLines_eq, editorLines_eq, head, first, last]

end LineReader

/-- The lines of a sample, as far as it is text. -/
def sampleLines (sample : List UInt8) : List (List Char) := linesOf (Utf8.validFront sample)

theorem ofContent?_eq (sample : List UInt8) :
    ofContent? sample = LineReader.shapes.read (sampleLines sample) := by
  rw [ofContent?, byInterpreter?, Option.bind_assoc]
  rfl

/-! ### Extensions -/

/-- A known extension other than that of TypeScript tells the language. -/
theorem classify_of_extension {path : RawPath} {e : String}
    (extension : Path.extension? path = some e)
    (known : lowerAscii e ∈ ["go", "py", "pyi", "rs", "tsx"]) :
    ∃ l, ∀ sample, classify path sample = some l := by
  have told : ∃ l, Language.ofExtension? e = some l ∧ l ≠ .typeScript := by
    simp only [List.mem_cons, List.not_mem_nil, or_false] at known
    rcases known with h | h | h | h | h <;> simp [Language.ofExtension?, h]
  obtain ⟨l, told, other⟩ := told
  refine ⟨l, fun sample => ?_⟩
  rw [classify, extension, Option.bind_some, told]
  cases l with
  | typeScript => exact absurd rfl other
  | _ => rfl

theorem classify_of_typeScript {path : RawPath} {e : String}
    (extension : Path.extension? path = some e) (known : lowerAscii e ∈ ["ts", "mts", "cts"])
    (sample : List UInt8) :
    classify path (some sample) = if isCatalogue sample then none else some .typeScript := by
  have told : Language.ofExtension? e = some .typeScript := by
    simp only [List.mem_cons, List.not_mem_nil, or_false] at known
    rcases known with h | h | h <;> simp [Language.ofExtension?, h]
  rw [classify, extension, Option.bind_some, told]
  rfl

/-- Twelve bytes behind the white space tell a catalogue. -/
theorem isCatalogue_congr {sample other : List UInt8}
    (same : (sample.dropWhile isAsciiBlank).take 12 = (other.dropWhile isAsciiBlank).take 12) :
    isCatalogue sample = isCatalogue other := by
  have short : ∀ s ∈ ["<?xml", "<!DOCTYPE TS", "<TS"], (Utf8.encode s).length ≤ 12 := by
    decide +kernel
  have front : ∀ s ∈ ["<?xml", "<!DOCTYPE TS", "<TS"], ∀ bytes : List UInt8,
      (Utf8.encode s).isPrefixOf bytes = (Utf8.encode s).isPrefixOf (bytes.take 12) := by
    intro s hs bytes
    rw [Bool.eq_iff_iff, List.isPrefixOf_iff_prefix, List.isPrefixOf_iff_prefix,
      List.prefix_take_iff]
    exact (and_iff_left (short s hs)).symm
  rw [isCatalogue, isCatalogue, Bool.eq_iff_iff, List.any_eq_true, List.any_eq_true]
  refine exists_congr fun s => and_congr_right fun hs => ?_
  rw [front s hs, front s hs (other.dropWhile isAsciiBlank), same]

/-- The windows of a sample. Where the extension of a path tells nothing, a language is read off the
    lines in the windows, which are looked through by number, each of them once; samples with the
    same windows have the same language, whatever is read off a line. A known extension tells the
    language by itself, unless it is one of TypeScript; there twelve bytes behind the white space
    tell whether it is. -/
theorem classify_by_windows (path : RawPath) :
    (∀ lines, byMode? lines = LineReader.shapes.byModes lines ∧
      ∃ numbers, Window lines.length numbers ∧
        (editorLines lines).map some = numbers.map (fun i => lines[i]?) ∧
        ∀ r : LineReader,
          r.byModes lines = numbers.findSome? fun i => lines[i]?.bind r.mode) ∧
    (∀ (r : LineReader) lines others, LineReader.SameWindows lines others →
      r.read lines = r.read others) ∧
    ((Path.extension? path).bind Language.ofExtension? = none →
      classify path none = none ∧
      (∀ sample, classify path (some sample) = LineReader.shapes.read (sampleLines sample)) ∧
      ∀ sample other, LineReader.SameWindows (sampleLines sample) (sampleLines other) →
        classify path (some sample) = classify path (some other)) ∧
    ∀ e, Path.extension? path = some e →
      (lowerAscii e ∈ ["go", "py", "pyi", "rs", "tsx"] →
        ∃ l, ∀ sample, classify path sample = some l) ∧
      (lowerAscii e ∈ ["ts", "mts", "cts"] → ∀ sample other : List UInt8,
        (sample.dropWhile isAsciiBlank).take 12 = (other.dropWhile isAsciiBlank).take 12 →
          classify path (some sample) = classify path (some other)) := by
  refine ⟨fun lines => ?_, fun r lines others => r.read_congr, fun unknown => ?_,
    fun e extension => ⟨classify_of_extension extension, fun known sample other same => ?_⟩⟩
  · exact ⟨rfl, windowOf lines.length, window_windowOf _, map_some_editorLines lines,
      fun r => r.byModes_eq lines⟩
  · have content : ∀ sample : Option (List UInt8),
        classify path sample = sample.bind ofContent? := by
      intro sample
      rw [classify, unknown]
    refine ⟨content none, fun sample => ?_, fun sample other same => ?_⟩
    · exact (content _).trans (ofContent?_eq sample)
    · rw [content, content, Option.bind_some, Option.bind_some, ofContent?_eq, ofContent?_eq,
        LineReader.read_congr _ same]
  · rw [classify_of_typeScript extension known, classify_of_typeScript extension known,
      isCatalogue_congr same]

/-- Two scripts of many lines that differ where no editor looks: one of them has more lines, line
    ends of two characters and a broken character at its end. And the extensions of two sources. -/
theorem classify_by_windows_gen :
    let front := "\n-\n-\n-\n-\n"
    let back := "1\n2\n3\n4\n// vim: set ft=go:\n"
    let sample := Utf8.encode (front ++ "var x\n" ++ back)
    let other := Utf8.encode (front ++ "# -*- rust -*-\r\n\r\n" ++ back) ++ [0xE2, 0x82]
    (sampleLines sample).length = 11 ∧ (sampleLines other).length = 12 ∧
      LineReader.SameWindows (sampleLines sample) (sampleLines other) ∧
      classify "gen" (some sample) = classify "gen" (some other) ∧
      classify "gen" (some other) = some .go ∧
      classify "x.PyI" (some sample) = classify "x.PyI" none ∧
      classify "de.MTS" (some (Utf8.encode " <!DOCTYPE TS>"))
        = classify "de.MTS" (some (Utf8.encode "\n\t<!DOCTYPE TS[]")) := by
  intro front back sample other
  have same : LineReader.SameWindows (sampleLines sample) (sampleLines other) := by decide +kernel
  obtain ⟨-, -, content, -⟩ := classify_by_windows "gen"
  obtain ⟨-, -, -, known⟩ := classify_by_windows "x.PyI"
  obtain ⟨-, -, -, doubt⟩ := classify_by_windows "de.MTS"
  obtain ⟨l, told⟩ := (known "PyI" (by decide +kernel)).1 (by decide +kernel)
  refine ⟨by decide +kernel, by decide +kernel, same, ?_, by decide +kernel, ?_, ?_⟩
  · exact (content (by decide +kernel)).2.2 sample other same
  · rw [told, told]
  · exact (doubt "MTS" (by decide +kernel)).2 (by decide +kernel) _ _ (by decide +kernel)

end CodeMetrics.Detection

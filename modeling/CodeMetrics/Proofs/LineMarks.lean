import CodeMetrics.Language.Python
import CodeMetrics.Measure.Lines
import CodeMetrics.Proofs.Lists
import CodeMetrics.Proofs.Positions

/-! The lines of a file are blank, or marked as code or comment; no line is lost or counted twice.

    A node that covers text marks the rows from that of its first byte to that of its last one, also
    where it ends with a line feed. Each row with a byte is a line, so no mark of such a node falls
    behind the last line. Where every byte that is not white space is under a node that marks, a
    line without a mark has nothing but white space.

    The marks can be kept in tables with a place for each line. Reading them never asks for a line
    that the tables do not have. -/

namespace CodeMetrics.LineCounts

variable {g : Grammar} {source : List UInt8} {root : Tree}

/-! ### Lines -/

theorem lineTotal_append (front : List UInt8) (b : UInt8) :
    lineTotal (front ++ [b]) = front.count lineFeed + 1 := by
  by_cases feed : b = lineFeed
  · simp [lineTotal, feed]
  · simp [lineTotal, feed]

/-- The row of a byte is a line. -/
theorem row_lt_lineTotal {offset : ℕ} (h : offset < source.length) :
    (Position.of source offset).row < lineTotal source := by
  obtain rfl | ⟨front, b, rfl⟩ := List.eq_nil_or_concat source
  · cases h
  · rw [List.concat_eq_append] at h ⊢
    rw [List.length_append, List.length_singleton] at h
    have before : (front ++ [b]).take offset = front.take offset :=
      List.take_append_of_le_length (by omega)
    rw [lineTotal_append, Nat.lt_succ_iff, Position.of, before]
    exact (List.take_sublist offset front).count_le lineFeed

theorem length_pieces (source : List UInt8) :
    (pieces source).length = source.count lineFeed + 1 := by
  induction source with
  | nil => rfl
  | cons b bs ih =>
    rw [pieces]
    by_cases feed : b = lineFeed
    · simp [feed, ih]
    · rw [if_neg (by simpa using feed), List.count_cons_of_ne feed, ← ih]
      split
      · next none => rw [none, List.length_nil] at ih; omega
      · next piece rest found => rw [found]; rfl

theorem lineTotal_le_length_pieces (source : List UInt8) :
    lineTotal source ≤ (pieces source).length := by
  rw [length_pieces, lineTotal]
  split
  · exact Nat.zero_le _
  · split <;> omega

theorem row_cons (b : UInt8) (bs : List UInt8) (offset : ℕ) :
    (Position.of (b :: bs) (offset + 1)).row
      = (Position.of bs offset).row + if b = lineFeed then 1 else 0 := by
  simp [Position.of, List.count_cons]

/-- What is in a piece is in the source, on the row of the piece. -/
theorem exists_offset_of_mem_piece {row : ℕ} {piece : List UInt8} {b : UInt8} :
    ∀ {source : List UInt8}, (pieces source)[row]? = some piece → b ∈ piece →
      ∃ offset, source[offset]? = some b ∧ (Position.of source offset).row = row := by
  intro source
  induction source generalizing row piece with
  | nil =>
    intro there mem
    rw [pieces, List.getElem?_singleton] at there
    split at there <;> cases there
    cases mem
  | cons a bs ih =>
    intro there mem
    rw [pieces] at there
    by_cases feed : a = lineFeed
    · rw [if_pos (by simpa using feed)] at there
      cases row with
      | zero =>
        cases there
        cases mem
      | succ row =>
        obtain ⟨offset, hb, hrow⟩ := ih there mem
        exact ⟨offset + 1, hb, by rw [row_cons, if_pos feed, hrow]⟩
    · rw [if_neg (by simpa using feed)] at there
      -- the byte is in front of the first piece of what follows
      have later : ∀ {piece}, (pieces bs)[row]? = some piece → b ∈ piece →
          ∃ offset, (a :: bs)[offset]? = some b ∧ (Position.of (a :: bs) offset).row = row := by
        intro piece there mem
        obtain ⟨offset, hb, hrow⟩ := ih there mem
        exact ⟨offset + 1, hb, by rw [row_cons, if_neg feed, hrow, Nat.add_zero]⟩
      have here : row = 0 → b = a →
          ∃ offset, (a :: bs)[offset]? = some b ∧ (Position.of (a :: bs) offset).row = row := by
        rintro rfl rfl
        exact ⟨0, rfl, rfl⟩
      split at there
      · cases row with
        | zero =>
          cases there
          exact here rfl (List.mem_singleton.1 mem)
        | succ row => cases there
      · next first rest found =>
        cases row with
        | zero =>
          cases there
          rcases List.mem_cons.1 mem with same | mem
          · exact here rfl same
          · exact later (by rw [found]; rfl) mem
        | succ row => exact later (by rw [found]; exact there) mem

/-! ### Rows of nodes -/

/-- A node that covers text touches the rows from that of its first byte to that of its last. -/
theorem rowsOf_eq {t : Tree} (covers : t.label.start < t.label.stop)
    (inside : t.label.stop ≤ source.length) :
    rowsOf source t
      = ((Position.of source t.label.start).row, (Position.of source (t.label.stop - 1)).row) := by
  have last : source[t.label.stop - 1]? = some source[t.label.stop - 1] :=
    List.getElem?_eq_getElem (by omega)
  have stop : t.label.stop = t.label.stop - 1 + 1 := by omega
  have forward : (Position.of source t.label.start).row
      ≤ (Position.of source (t.label.stop - 1)).row := Position.row_le source (by omega)
  simp only [rowsOf]
  rw [stop, Nat.add_sub_cancel]
  by_cases feed : source[t.label.stop - 1] = lineFeed
  · rw [feed] at last
    rw [Position.of_add_one_lineFeed last, if_pos ⟨rfl, Nat.lt_succ_of_le forward⟩]
    rfl
  · rw [Position.of_add_one_other last feed, if_neg fun h => Nat.succ_ne_zero _ h.1]

/-- The nodes that mark. -/
def marking (g : Grammar) (root : Tree) : List Tree := codeNodes g root ++ commentNodes g root

theorem site_of_mem_marking {t : Tree} (h : t ∈ marking g root) :
    ∃ s ∈ root.sites, s.tree = t := by
  have solid : ∀ {u}, u ∈ solidNodes g root → ∃ s ∈ root.sites, s.tree = u := by
    intro u hu
    rw [solidNodes] at hu
    split at hu
    · exact Tree.site_of_mem_walk hu
    · cases hu
  rcases List.mem_append.1 h with h | h
  · exact solid (List.mem_of_mem_filter h)
  · rcases List.mem_append.1 h with h | h
    · exact Tree.site_of_mem_walk (List.mem_of_mem_filter h)
    · exact solid (List.mem_of_mem_filter h)

theorem inside_of_mem_marking (within : root.Within source) {t : Tree} (h : t ∈ marking g root) :
    t.label.stop ≤ source.length := by
  obtain ⟨s, hs, rfl⟩ := site_of_mem_marking h
  exact (within s hs).2

/-- No mark of a node that covers text falls behind the last line. -/
theorem rows_lt_lineTotal (within : root.Within source) {t : Tree} (h : t ∈ marking g root)
    (covers : t.coversText = true) : (rowsOf source t).2 < lineTotal source := by
  have covers : t.label.start < t.label.stop := by simpa [Tree.coversText] using covers
  have inside := inside_of_mem_marking within h
  rw [rowsOf_eq covers inside]
  exact row_lt_lineTotal (by omega)

/-! ### Tables of marks -/

/-- Marks a row of a table; a row that the table does not have is passed over. -/
def markRow (marks : List Bool) (row : ℕ) : List Bool :=
  if row < marks.length then marks.set row true else marks

/-- Marks the rows of a node in a table. -/
def markNode (source : List UInt8) (marks : List Bool) (t : Tree) : List Bool :=
  let rows := rowsOf source t
  (List.range' rows.1 (rows.2 + 1 - rows.1)).foldl markRow marks

/-- The table of the lines of a file with the marks of some nodes. -/
def table (source : List UInt8) (nodes : List Tree) : List Bool :=
  nodes.foldl (markNode source) (List.replicate (lineTotal source) false)

/-- The number of blank lines among some pieces, from a row on. The marks of each row are read from
    two tables; there is no number where one of them does not have the row. -/
def blankFrom? (code comment : List Bool) (row : ℕ) : List (List UInt8) → Option ℕ
  | [] => some 0
  | piece :: rest => do
    let isCode ← code[row]?
    let isComment ← comment[row]?
    let later ← blankFrom? code comment (row + 1) rest
    some (later + if !isCode && !isComment && piece.all isAsciiBlank then 1 else 0)

/-- The line counts of a file, read from tables. -/
def ofTables? (g : Grammar) (source : List UInt8) (root : Tree) : Option LineCounts := do
  let code := table source (codeNodes g root)
  let comment := table source (commentNodes g root)
  let blank ← blankFrom? code comment 0 ((pieces source).take (lineTotal source))
  some
    { total := lineTotal source
      code := code.countP id
      comment := comment.countP id
      blank
      logical := logicalOfFile g root }

section Tables

variable {n : ℕ} {p q : ℕ → Bool}

theorem markRow_map (row : ℕ) :
    markRow ((List.range n).map p) row = (List.range n).map fun i => p i || i == row := by
  have there : ∀ i < n, (((List.range n).map p).set row true)[i]? = some (p i || i == row) := by
    intro i hi
    rw [List.getElem?_set]
    by_cases same : row = i
    · simp [same, hi]
    · simp [same, hi, Ne.symm same]
  rw [markRow]
  split
  · refine List.ext_getElem? fun i => ?_
    by_cases hi : i < n
    · rw [there i hi, List.getElem?_map, List.getElem?_range hi, Option.map_some]
    · simp [hi]
  · next outside =>
    refine List.map_congr_left fun i hi => ?_
    have apart : i ≠ row := by
      rintro rfl
      exact outside (by simpa using hi)
    simp [apart]

theorem foldl_markRow (rows : List ℕ) : ∀ p : ℕ → Bool,
    rows.foldl markRow ((List.range n).map p)
      = (List.range n).map fun i => p i || rows.contains i := by
  induction rows with
  | nil => intro p; simp
  | cons row rows ih =>
    intro p
    rw [List.foldl_cons, markRow_map, ih]
    simp [Bool.or_assoc, beq_eq_decide]

theorem markNode_map (source : List UInt8) (t : Tree) :
    markNode source ((List.range n).map p) t
      = (List.range n).map fun i => p i || touches [rowsOf source t] i := by
  rw [markNode, foldl_markRow]
  refine List.map_congr_left fun i _ => congrArg (p i || ·) ?_
  rw [Bool.eq_iff_iff]
  simp only [List.contains_iff_mem, List.mem_range'_1, touches, List.any_cons, List.any_nil,
    Bool.or_false, Bool.and_eq_true, decide_eq_true_eq]
  omega

/-- The table of some nodes has the rows that one of them touches. -/
theorem table_eq (source : List UInt8) (nodes : List Tree) : table source nodes
    = (List.range (lineTotal source)).map (touches (nodes.map (rowsOf source))) := by
  have fold : ∀ p : ℕ → Bool, nodes.foldl (markNode source) ((List.range (lineTotal source)).map p)
      = (List.range (lineTotal source)).map fun i =>
          p i || touches (nodes.map (rowsOf source)) i := by
    induction nodes with
    | nil => intro p; simp [touches]
    | cons t nodes ih =>
      intro p
      rw [List.foldl_cons, markNode_map, ih]
      simp [touches, Bool.or_assoc]
  have empty : List.replicate (lineTotal source) false
      = (List.range (lineTotal source)).map fun _ => false := by
    rw [List.map_const', List.length_range]
  rw [table, empty, fold]
  simp

/-- Reading never asks for a row that the tables do not have, as long as there are rows enough. -/
theorem blankFrom?_eq (rest : List (List UInt8)) : ∀ row, row + rest.length ≤ n →
    blankFrom? ((List.range n).map p) ((List.range n).map q) row rest
      = some ((rest.zipIdx row).countP fun m => !p m.2 && !q m.2 && m.1.all isAsciiBlank) := by
  induction rest with
  | nil => intro row _; rfl
  | cons piece rest ih =>
    intro row enough
    rw [List.length_cons] at enough
    have there : ∀ p : ℕ → Bool, ((List.range n).map p)[row]? = some (p row) := by
      intro p
      rw [List.getElem?_map, List.getElem?_range (by omega), Option.map_some]
    rw [blankFrom?, there, there, ih (row + 1) (by omega), List.zipIdx_cons, List.countP_cons]
    rfl

end Tables

/-- The counts read from tables are the counts of the file. -/
theorem ofTables?_eq (g : Grammar) (source : List UInt8) (root : Tree) :
    ofTables? g source root = some (LineCounts.of g source root) := by
  have enough : 0 + ((pieces source).take (lineTotal source)).length ≤ lineTotal source := by
    rw [Nat.zero_add, List.length_take]
    exact Nat.min_le_left _ _
  rw [ofTables?, table_eq, table_eq, blankFrom?_eq _ 0 enough]
  simp only [Option.bind_eq_bind, Option.bind_some, List.countP_map]
  rfl

/-! ### The partition -/

/-- Whether a row is marked as code or comment. -/
def isMarked (g : Grammar) (source : List UInt8) (root : Tree) (row : ℕ) : Bool :=
  touches ((marking g root).map (rowsOf source)) row

/-- Whether a row has no mark and nothing but white space. -/
def isBlankRow (g : Grammar) (source : List UInt8) (root : Tree) (row : ℕ) : Bool :=
  !isMarked g source root row && ((pieces source).getD row []).all isAsciiBlank

/-- Every byte that is not white space lies under a node that marks. -/
def Covered (g : Grammar) (source : List UInt8) (root : Tree) : Prop :=
  ∀ (offset : ℕ) (h : offset < source.length), isAsciiBlank source[offset] = false →
    ∃ t ∈ marking g root, t.label.start ≤ offset ∧ offset < t.label.stop

instance (g : Grammar) (source : List UInt8) (root : Tree) : Decidable (Covered g source root) :=
  inferInstanceAs (Decidable (∀ (offset : ℕ) (_ : offset < source.length), _))

theorem isMarked_iff {row : ℕ} : isMarked g source root row = true
    ↔ ∃ t ∈ marking g root, (rowsOf source t).1 ≤ row ∧ row ≤ (rowsOf source t).2 := by
  simp [isMarked, touches]

theorem isMarked_eq (row : ℕ) : isMarked g source root row
    = (touches ((codeNodes g root).map (rowsOf source)) row
        || touches ((commentNodes g root).map (rowsOf source)) row) := by
  rw [isMarked, marking, List.map_append, touches, List.any_append]
  rfl

theorem blank_eq : (LineCounts.of g source root).blank
    = (List.range (lineTotal source)).countP (isBlankRow g source root) := by
  have length : ((pieces source).take (lineTotal source)).length = lineTotal source := by
    rw [List.length_take]
    exact Nat.min_eq_left (lineTotal_le_length_pieces source)
  have blank : (LineCounts.of g source root).blank
      = ((pieces source).take (lineTotal source)).zipIdx.countP fun m =>
          !touches ((codeNodes g root).map (rowsOf source)) m.2
            && !touches ((commentNodes g root).map (rowsOf source)) m.2
            && m.1.all isAsciiBlank := rfl
  rw [blank, zipIdx_eq_map_range [], length, List.countP_map]
  refine List.countP_congr fun row hrow => ?_
  have taken : ((pieces source).take (lineTotal source)).getD row []
      = (pieces source).getD row [] := by
    simp only [List.getD_eq_getElem?_getD, List.getElem?_take_of_lt (List.mem_range.1 hrow)]
  rw [Function.comp_apply, taken, isBlankRow, isMarked_eq, Bool.not_or]

/-- A line of a covered file is marked or has nothing but white space. -/
theorem marked_or_blank (within : root.Within source) (covered : Covered g source root) (row : ℕ) :
    isMarked g source root row = true ∨ isBlankRow g source root row = true := by
  by_cases marked : isMarked g source root row = true
  · exact Or.inl marked
  · refine Or.inr ?_
    rw [Bool.not_eq_true] at marked
    rw [isBlankRow, marked, Bool.not_false, Bool.true_and, List.all_eq_true]
    intro b mem
    by_contra solid
    -- the byte lies under a node, which marks the row that the byte is on
    obtain ⟨piece, there, mem⟩ : ∃ piece, (pieces source)[row]? = some piece ∧ b ∈ piece := by
      rw [List.getD_eq_getElem?_getD] at mem
      cases found : (pieces source)[row]? with
      | none => rw [found] at mem; cases mem
      | some piece => rw [found] at mem; exact ⟨piece, rfl, mem⟩
    obtain ⟨offset, here, onRow⟩ := exists_offset_of_mem_piece there mem
    obtain ⟨lt, rfl⟩ := List.getElem?_eq_some_iff.1 here
    obtain ⟨t, ht, first, last⟩ := covered offset lt (by simpa using solid)
    have rows := rowsOf_eq (Nat.lt_of_le_of_lt first last) (inside_of_mem_marking within ht)
    have touched : isMarked g source root row = true := by
      refine isMarked_iff.2 ⟨t, ht, ?_⟩
      rw [rows, ← onRow]
      exact ⟨Position.row_le source first, Position.row_le source (by omega)⟩
    rw [marked] at touched
    cases touched

/-- The number of lines that are marked as code or comment. -/
def markedLines (g : Grammar) (source : List UInt8) (root : Tree) : ℕ :=
  (List.range (lineTotal source)).countP (isMarked g source root)

theorem markedLines_add (g : Grammar) (source : List UInt8) (root : Tree) :
    markedLines g source root
    + (List.range (lineTotal source)).countP (fun row => decide ¬ isMarked g source root row = true)
      = lineTotal source := by
  rw [markedLines, ← List.length_eq_countP_add_countP, List.length_range]

theorem code_le_markedLines : (LineCounts.of g source root).code ≤ markedLines g source root := by
  refine List.countP_mono_left fun row _ code => ?_
  rw [isMarked_eq, code, Bool.true_or]

theorem comment_le_markedLines :
    (LineCounts.of g source root).comment ≤ markedLines g source root := by
  refine List.countP_mono_left fun row _ comment => ?_
  rw [isMarked_eq, comment, Bool.or_true]

/-- A blank line is not marked. -/
theorem blank_add_markedLines_le :
    (LineCounts.of g source root).blank + markedLines g source root ≤ lineTotal source := by
  have blank_le : (LineCounts.of g source root).blank
      ≤ (List.range (lineTotal source)).countP
          fun row => decide ¬ isMarked g source root row = true := by
    rw [blank_eq]
    refine List.countP_mono_left fun row _ blank => ?_
    rw [isBlankRow, Bool.and_eq_true, Bool.not_eq_true'] at blank
    simp [blank.1]
  have all := markedLines_add g source root
  omega

theorem blank_add_markedLines (within : root.Within source) (covered : Covered g source root) :
    (LineCounts.of g source root).blank + markedLines g source root = lineTotal source := by
  have blank_eq' : (LineCounts.of g source root).blank
      = (List.range (lineTotal source)).countP
          fun row => decide ¬ isMarked g source root row = true := by
    rw [blank_eq]
    refine List.countP_congr fun row _ => ?_
    by_cases marked : isMarked g source root row = true
    · simp [isBlankRow, marked]
    · simp [(marked_or_blank within covered row).resolve_left marked, marked]
  have all := markedLines_add g source root
  omega

/-- The lines of a file are counted without asking for a line that is not there, and no mark of a
    node that covers text is lost. Blank lines and marked lines are different lines; together they
    are all lines where every byte that is not white space lies under a node that marks. -/
theorem lines_partitioned (g : Grammar) {source : List UInt8} {root : Tree}
    (within : root.Within source) :
    let counts := LineCounts.of g source root
    let marked := markedLines g source root
    ofTables? g source root = some counts ∧
      (∀ t ∈ marking g root, t.coversText = true → (rowsOf source t).2 < counts.total) ∧
      counts.blank + marked ≤ counts.total ∧ counts.code ≤ counts.total ∧
      counts.comment ≤ counts.total ∧
      counts.blank + max counts.code counts.comment ≤ counts.total ∧
      counts.total ≤ (pieces source).length ∧
      (Covered g source root →
        (∀ row < counts.total, isMarked g source root row = true ∨
          isBlankRow g source root row = true) ∧
        counts.blank + marked = counts.total) := by
  intro counts marked
  have total : counts.total = lineTotal source := rfl
  have code : counts.code ≤ marked := code_le_markedLines
  have comment : counts.comment ≤ marked := comment_le_markedLines
  have parts : counts.blank + marked ≤ counts.total := blank_add_markedLines_le
  refine ⟨ofTables?_eq g source root, fun t ht covers => rows_lt_lineTotal within ht covers, parts,
    by omega, by omega, by omega, lineTotal_le_length_pieces source, fun covered => ⟨?_, ?_⟩⟩
  · intro row _
    exact marked_or_blank within covered row
  · exact blank_add_markedLines within covered

open CodeMetrics.Tree in
/-- A file with a string over two lines that documents it, an assignment with a comment behind it,
    and an empty line. -/
def documentedFile : Tree :=
  partAt "module" none 0 22
    [partAt "expression_statement" none 0 9 [partAt "string" none 0 9 []],
     partAt "expression_statement" none 10 15
      [partAt "assignment" none 10 15
        [partAt "identifier" (some "left") 10 11 [],
         wordAt "=" 12 13,
         partAt "integer" (some "right") 14 15 []]],
     .node { kind := "comment", extra := true, start := 17, stop := 20 } []]

theorem lines_partitioned_documentedFile :
    let source := "\"\"\"a\nb\"\"\"\nx = 1  # c\n\n".toUTF8.toList
    let counts := LineCounts.of .python source documentedFile
    documentedFile.Within source ∧ Covered .python source documentedFile ∧
      counts = ⟨4, 1, 3, 1, 2⟩ ∧ ofTables? .python source documentedFile = some counts ∧
      counts.blank + markedLines .python source documentedFile = counts.total := by
  intro source counts
  have within : documentedFile.Within source := by decide +kernel
  have covered : Covered .python source documentedFile := by decide +kernel
  obtain ⟨tables, -, -, -, -, -, -, whole⟩ := lines_partitioned .python within
  exact ⟨within, covered, by decide +kernel, tables, (whole covered).2⟩

end CodeMetrics.LineCounts

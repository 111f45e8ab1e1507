import CodeMetrics.Report.Render

/-! A report in comma-separated values can be read back. A reader goes over the text once: a comma
    ends a field, a line feed a record, and between quotes neither does; a quote between quotes is
    written twice. Whatever the fields hold, it finds exactly the records that were written. -/

namespace CodeMetrics.Csv

/-! ### Reading -/

/-- Where a reader is. -/
inductive Mode where
  /-- Before the first character of a field. -/
  | start
  /-- In a field without quotes. -/
  | plain
  /-- Between quotes. -/
  | quoted
  /-- After a quote between quotes: it ends the field unless another one follows. -/
  | closing
deriving DecidableEq

/-- What was read so far: complete records, complete fields of the open record, and characters of
    the open field. -/
structure Reading where
  records : List (List String) := []
  cells : List String := []
  text : List Char := []
  mode : Mode := .start

namespace Reading

/-- The fields of the open record with the open one. -/
def allCells (r : Reading) : List String := r.cells ++ [String.ofList r.text]

/-- One more character of the open field. -/
def push (r : Reading) (mode : Mode) (c : Char) : Reading := { r with text := r.text ++ [c], mode }

/-- A comma ends a field, a line feed a record. -/
def endAt (r : Reading) (c : Char) : Option Reading :=
  if c = ',' then some { records := r.records, cells := r.allCells }
  else if c = '\n' then some { records := r.records ++ [r.allCells] }
  else none

/-- A character of a field without quotes, which holds no quote and no carriage return. -/
def pushPlain (r : Reading) (c : Char) : Option Reading :=
  if c = '"' || c = '\r' then none else some (r.push .plain c)

/-- Reads a character. -/
def step (r : Reading) (c : Char) : Option Reading :=
  match r.mode with
  | .start => if c = '"' then some { r with mode := .quoted } else (r.endAt c).or (r.pushPlain c)
  | .plain => (r.endAt c).or (r.pushPlain c)
  | .quoted => some (if c = '"' then { r with mode := .closing } else r.push .quoted c)
  | .closing => if c = '"' then some (r.push .quoted c) else r.endAt c

end Reading

/-- The records of a text, each ended by a line feed. -/
def read (text : String) : Option (List (List String)) :=
  (text.toList.foldlM Reading.step {}).bind fun r =>
    if r.mode = .start ∧ r.cells = [] then some r.records else none

/-! ### Reading what was written -/

open Reading

/-- What ends a field or a record does so outside of quotes. -/
theorem step_of_separator {r : Reading} (outside : r.mode ≠ .quoted) {c : Char}
    (separator : c = ',' ∨ c = '\n') : r.step c = r.endAt c := by
  obtain ⟨records, cells, text, mode⟩ := r
  cases mode with
  | start | plain | closing => rcases separator with rfl | rfl <;> rfl
  | quoted => exact absurd rfl outside

/-- A character that is not special is part of a field without quotes. -/
theorem step_plain {r : Reading} (mode : r.mode = .start ∨ r.mode = .plain) {c : Char}
    (plain : isSpecial c = false) : r.step c = some (r.push .plain c) := by
  simp only [isSpecial, Bool.or_eq_false_iff, beq_eq_false_iff_ne] at plain
  obtain ⟨⟨⟨comma, quote⟩, newline⟩, ret⟩ := plain
  rcases mode with mode | mode <;>
    simp [step, mode, endAt, pushPlain, comma, quote, newline, ret]

/-- Text without special characters is read as it stands. -/
theorem foldlM_plain {s : List Char} (plain : s.any isSpecial = false) {r : Reading}
    (mode : r.mode = .start ∨ r.mode = .plain) :
    ∃ m, m ≠ .quoted ∧ s.foldlM step r = some { r with text := r.text ++ s, mode := m } := by
  induction s generalizing r with
  | nil =>
    refine ⟨r.mode, ?_, by simp⟩
    rcases mode with mode | mode <;> simp [mode]
  | cons c s ih =>
    simp only [List.any_cons, Bool.or_eq_false_iff] at plain
    obtain ⟨m, outside, rest⟩ := ih plain.2 (r := r.push .plain c) (Or.inr rfl)
    refine ⟨m, outside, ?_⟩
    rw [List.foldlM_cons, step_plain mode plain.1]
    simpa [push, List.append_assoc] using rest

/-- Between quotes, text with doubled quotes is read as it was. -/
theorem foldlM_doubleQuotes (s : List Char) {r : Reading} (mode : r.mode = .quoted) :
    (doubleQuotes s).foldlM step r = some { r with text := r.text ++ s } := by
  induction s generalizing r with
  | nil => simp [doubleQuotes]
  | cons c s ih =>
    obtain ⟨records, cells, text, _⟩ := r
    subst mode
    have rest := ih (r := ⟨records, cells, text ++ [c], .quoted⟩) rfl
    rw [List.append_assoc, List.singleton_append] at rest
    rw [doubleQuotes]
    split
    · next hc =>
      -- the second quote goes back between the quotes
      subst hc
      exact rest
    · next hc =>
      have kept : step ⟨records, cells, text, .quoted⟩ c
          = some ⟨records, cells, text ++ [c], .quoted⟩ := by simp [step, push, hc]
      rw [List.foldlM_cons, kept]
      exact rest

/-- A field is read as it was, quoted or not. -/
theorem foldlM_field (records : List (List String)) (cells : List String) (s : String) :
    ∃ m, m ≠ .quoted ∧
      (field s).foldlM step { records, cells } = some ⟨records, cells, s.toList, m⟩ := by
  rw [field]
  split
  · refine ⟨.closing, by decide, ?_⟩
    have inside := foldlM_doubleQuotes s.toList (r := ⟨records, cells, [], .quoted⟩) rfl
    rw [List.nil_append] at inside
    have opened : step { records, cells } '"' = some ⟨records, cells, [], .quoted⟩ := rfl
    rw [List.cons_append, List.foldlM_cons, opened]
    rw [Option.bind_eq_bind, Option.bind_some, List.foldlM_append, inside]
    rfl
  · next h =>
    obtain ⟨m, outside, read⟩ := foldlM_plain (by simpa using h) (r := { records, cells })
      (Or.inl rfl)
    exact ⟨m, outside, read⟩

/-- A field and what ends it. -/
theorem foldlM_field_separator (records : List (List String)) (cells : List String) (s : String)
    {c : Char} (separator : c = ',' ∨ c = '\n') :
    (field s ++ [c]).foldlM step { records, cells }
      = endAt { records, cells, text := s.toList } c := by
  obtain ⟨m, outside, read⟩ := foldlM_field records cells s
  have ended := step_of_separator (r := ⟨records, cells, s.toList, m⟩) outside separator
  rw [List.foldlM_append, read, Option.bind_eq_bind, Option.bind_some, List.foldlM_cons, ended]
  simp [endAt, allCells]

/-- A record. -/
theorem foldlM_line (records : List (List String)) (before : List String) (s : String)
    (cells : List String) :
    (line (s :: cells)).foldlM step { records, cells := before }
      = some { records := records ++ [before ++ s :: cells] } := by
  induction cells generalizing before s with
  | nil =>
    have ended := foldlM_field_separator records before s (Or.inr rfl)
    simpa [line, List.intercalate, endAt, allCells] using ended
  | cons t cells ih =>
    have split : line (s :: t :: cells) = (field s ++ [',']) ++ line (t :: cells) := by
      simp [line, List.intercalate]
    rw [split, List.foldlM_append, foldlM_field_separator records before s (Or.inl rfl)]
    simpa [endAt, allCells] using ih (before ++ [s]) t

/-- Records, none of them without a field. -/
theorem foldlM_lines {rows : List (List String)} (filled : ∀ row ∈ rows, row ≠ [])
    (records : List (List String)) :
    (rows.flatMap line).foldlM step { records } = some { records := records ++ rows } := by
  induction rows generalizing records with
  | nil => simp
  | cons row rows ih =>
    obtain ⟨hrow, hrows⟩ := List.forall_mem_cons.1 filled
    obtain ⟨s, cells, rfl⟩ := List.exists_cons_of_ne_nil hrow
    rw [List.flatMap_cons, List.foldlM_append, foldlM_line]
    simpa using ih hrows (records ++ [s :: cells])

/-- What is written is what is read. -/
theorem read_lines {rows : List (List String)} (filled : ∀ row ∈ rows, row ≠ []) :
    read (String.ofList (rows.flatMap line)) = some rows := by
  rw [read, String.toList_ofList, foldlM_lines filled]
  rfl

/-! ### Reports -/

/-- A file has a record for each routine, or one without the fields of a routine. -/
theorem fileRecords_eq (file : FileReport) : fileRecords file
    = if file.routines.isEmpty then [fileCells file ++ List.replicate 14 ""]
      else file.routines.map fun r => fileCells file ++ routineCells r := by
  rw [fileRecords]
  cases file.routines <;> rfl

/-- All records have the fields of the header. -/
theorem length_of_mem_records {report : ProjectReport} {row : List String}
    (h : row ∈ records report) : row.length = 17 := by
  rcases List.mem_cons.1 h with rfl | h
  · rfl
  · obtain ⟨file, -, h⟩ := List.mem_flatMap.1 h
    rw [fileRecords_eq] at h
    split at h
    · rw [List.mem_singleton.1 h]
      rfl
    · obtain ⟨r, -, rfl⟩ := List.mem_map.1 h
      rfl

theorem name_status (status : FileStatus) : status.name
    = if status = .ok then "ok" else if status = .partly then "partial" else "failed" := by
  cases status <;> rfl

theorem name_kind (kind : RoutineKind) : kind.name
    = if kind = .function then "function" else if kind = .method then "method" else "lambda" := by
  cases kind <;> rfl

/-- Nothing is lost: reading a report gives the names of the fields and then, file by file, a record
    for each routine, or one with empty fields where there is none. A record holds the path, the
    language and the status of the file, and then the name, the kind, the lines and the measures of
    the routine, each in its place. -/
theorem read_render (report : ProjectReport) (threshold : Nat) :
    let status (s : FileStatus) :=
      if s = .ok then "ok" else if s = .partly then "partial" else "failed"
    let kind (k : RoutineKind) :=
      if k = .function then "function" else if k = .method then "method" else "lambda"
    let rows := report.files.flatMap fun file =>
      if file.routines.isEmpty then
        [[file.path, file.language, status file.status, "", "", "", "", "", "", "", "", "", "", "",
          "", "", ""]]
      else file.routines.map fun r =>
        [file.path, file.language, status file.status, r.name, kind r.kind, toString r.startLine,
         toString r.endLine, toString r.cyclomatic, toString r.cognitive, toString r.nestingDepth,
         toString r.logicalLines, toString r.physicalLines, toString r.exits, toString r.parameters,
         Decimal.fixed 2 r.halstead.volume, Decimal.fixed 2 r.maintainability.rescaled,
         Decimal.fixed 2 r.abc.magnitude]
    read (report.render .csv threshold) = some
      (["path", "language", "status", "function", "kind", "start_line", "end_line", "cyclomatic",
        "cognitive", "nesting_depth", "logical_lines", "physical_lines", "exits", "parameters",
        "halstead_volume", "maintainability_index", "abc_magnitude"] :: rows) ∧
      ∀ row ∈ rows, row.length = 17 := by
  intro status kind rows
  have written : records report = header :: rows := by
    rw [records, funext fileRecords_eq]
    simp only [fileCells, routineCells, name_status, name_kind]
    rfl
  refine ⟨?_, fun row hrow => ?_⟩
  · refine (read_lines fun row hrow => List.ne_nil_of_length_pos ?_).trans (congrArg some written)
    rw [length_of_mem_records hrow]
    decide
  · exact length_of_mem_records (written ▸ List.mem_cons_of_mem _ hrow)

/-- Two files, one of them without routines, and names with all that a field is quoted for. -/
theorem read_render_quotes :
    let routine : RoutineMetrics :=
      { name := "f,\r\n", kind := .lambda, startLine := 1, startColumn := 2, endLine := 3,
        endColumn := 4, scopeDepth := 5, cyclomatic := 6, cognitive := 7, nestingDepth := 8,
        logicalLines := 9, physicalLines := 10, exits := 11, parameters := 12
        halstead := ⟨2, 2, 3, 3, 6, 4, 12.0, 1.5, 18.0, 1.0, 0.004⟩
        maintainability := ⟨150.5, 88.125⟩, abc := ⟨3, 4, 0, 5.0⟩ }
    let report : ProjectReport :=
      { schemaVersion, toolVersion, totals := {}
        files :=
          [{ path := "a,\"b\".go", language := "go", status := .partly, routines := [routine] },
           { path := "\"\"", language := "unknown", status := .failed }] }
    read (report.render .csv 15) = some
      [["path", "language", "status", "function", "kind", "start_line", "end_line", "cyclomatic",
        "cognitive", "nesting_depth", "logical_lines", "physical_lines", "exits", "parameters",
        "halstead_volume", "maintainability_index", "abc_magnitude"],
       ["a,\"b\".go", "go", "partial", "f,\r\n", "lambda", "1", "3", "6", "7", "8", "9", "10", "11",
        "12", "12.00", "88.12", "5.00"],
       ["\"\"", "unknown", "failed", "", "", "", "", "", "", "", "", "", "", "", "", "", ""]] := by
  intro routine report
  exact (read_render report 15).1.trans (by decide +kernel)

end CodeMetrics.Csv

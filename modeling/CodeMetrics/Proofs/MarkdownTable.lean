import CodeMetrics.Comparison.Markdown
import CodeMetrics.Proofs.Classification
import CodeMetrics.Text.Lines

/-! A comparison as Markdown is a table. A reader takes the lines of the text and divides each of
    them at its bars, but for those right behind a backslash. Whatever bars and backslashes the
    paths and the name of the report hold, it finds a row for each file, with a cell for the path
    and one for each metric. -/

namespace CodeMetrics.Markdown

open Comparison

/-! ### Reading -/

/-- The pieces of a line between its bars. A bar right behind a backslash divides nothing; the flag
    tells whether a backslash was last. -/
def splitAtBars : Bool → List Char → List (List Char)
  | _, [] => [[]]
  | escaped, c :: cs =>
    if c = '|' && !escaped then [] :: splitAtBars false cs
    else match splitAtBars (c == '\\') cs with
      | [] => [[c]]
      | piece :: pieces => (c :: piece) :: pieces

/-- A line starts and ends with a bar and has some cells between its bars. -/
def HasCells (line : List Char) (cells : List (List Char)) : Prop :=
  splitAtBars false line = [] :: (cells ++ [[]])

/-- A text without the backslash before each bar. -/
def unescape : List Char → List Char
  | '\\' :: '|' :: rest => '|' :: unescape rest
  | c :: rest => c :: unescape rest
  | [] => []

/-! ### Bars -/

/-- Some cells between bars. -/
def bars (cells : List (List Char)) : List Char := '|' :: cells.flatMap fun cell => cell ++ ['|']

/-- Whether a backslash is last after a text that is not divided. -/
def pass : Bool → List Char → Option Bool
  | escaped, [] => some escaped
  | escaped, c :: cs => if c = '|' && !escaped then none else pass (c == '\\') cs

theorem pass_append (escaped : Bool) (front back : List Char) :
    pass escaped (front ++ back) = (pass escaped front).bind fun after => pass after back := by
  induction front generalizing escaped with
  | nil => rfl
  | cons c front ih =>
    rw [List.cons_append, pass, pass]
    split
    · rfl
    · exact ih _

theorem splitAtBars_ne_nil (escaped : Bool) (cs : List Char) : splitAtBars escaped cs ≠ [] := by
  cases cs with
  | nil => simp [splitAtBars]
  | cons c cs =>
    rw [splitAtBars]
    split
    · simp
    · split <;> simp

/-- What is not divided belongs to the first piece. -/
theorem splitAtBars_append {escaped after : Bool} {text : List Char}
    (whole : pass escaped text = some after) (rest : List Char) :
    ∃ piece pieces, splitAtBars after rest = piece :: pieces ∧
      splitAtBars escaped (text ++ rest) = (text ++ piece) :: pieces := by
  induction text generalizing escaped with
  | nil =>
    obtain rfl : escaped = after := Option.some.inj whole
    obtain ⟨piece, pieces, split⟩ := List.exists_cons_of_ne_nil (splitAtBars_ne_nil escaped rest)
    exact ⟨piece, pieces, split, split⟩
  | cons c text ih =>
    rw [pass] at whole
    split at whole
    · cases whole
    · next undivided =>
      obtain ⟨piece, pieces, split, below⟩ := ih whole
      refine ⟨piece, pieces, split, ?_⟩
      rw [List.cons_append, splitAtBars, if_neg undivided, below]
      rfl

/-- Cells that are not divided are found between the bars. -/
theorem hasCells_bars {cells : List (List Char)}
    (whole : ∀ cell ∈ cells, pass false cell = some false) : HasCells (bars cells) cells := by
  have among : splitAtBars false (cells.flatMap fun cell => cell ++ ['|']) = cells ++ [[]] := by
    induction cells with
    | nil => rfl
    | cons cell cells ih =>
      obtain ⟨here, below⟩ := List.forall_mem_cons.1 whole
      obtain ⟨piece, pieces, split, joined⟩ :=
        splitAtBars_append here ('|' :: cells.flatMap fun cell => cell ++ ['|'])
      rw [splitAtBars, if_pos (by rfl), ih below] at split
      obtain ⟨rfl, rfl⟩ := List.cons.inj split
      simpa using joined
  rw [HasCells, bars, splitAtBars, if_pos (by rfl), among]

/-! ### Texts of cells -/

/-- A text that divides neither a line nor a row, wherever it stands in a cell. -/
structure Harmless (text : String) : Prop where
  whole : ∀ escaped, ∃ after, pass escaped text.toList = some after
  noFeed : '\n' ∉ text.toList

theorem Harmless.append {front back : String} (hf : Harmless front) (hb : Harmless back) :
    Harmless (front ++ back) where
  whole escaped := by
    obtain ⟨between, hfront⟩ := hf.whole escaped
    obtain ⟨after, hback⟩ := hb.whole between
    exact ⟨after, by rw [String.toList_append, pass_append, hfront, Option.bind_some, hback]⟩
  noFeed := by simp [hf.noFeed, hb.noFeed]

theorem harmless_of_plain {text : String} (plain : ∀ c ∈ text.toList, c ≠ '|' ∧ c ≠ '\n') :
    Harmless text where
  whole := by
    generalize text.toList = cs at plain
    induction cs with
    | nil => exact fun escaped => ⟨escaped, rfl⟩
    | cons c cs ih =>
      obtain ⟨⟨bar, -⟩, below⟩ := List.forall_mem_cons.1 plain
      intro escaped
      rw [pass, if_neg (by simp [bar])]
      exact ih below _
  noFeed h := (plain _ h).2 rfl

/-- Behind its backslash a bar divides nothing. -/
theorem harmless_cell {text : String} (noFeed : '\n' ∉ text.toList) : Harmless (cell text) where
  whole := by
    rw [cell, String.toList_ofList]
    generalize text.toList = cs
    induction cs with
    | nil => exact fun escaped => ⟨escaped, rfl⟩
    | cons c cs ih =>
      intro escaped
      rw [List.flatMap_cons]
      split
      · exact ih false
      · next bar =>
        rw [List.singleton_append, pass, if_neg (by simp [bar])]
        exact ih _
  noFeed h := by
    rw [cell, String.toList_ofList, List.mem_flatMap] at h
    obtain ⟨c, hc, h⟩ := h
    split at h
    · simp at h
    · obtain rfl := List.mem_singleton.1 h
      exact noFeed hc

theorem unescape_cell (text : String) : unescape (cell text).toList = text.toList := by
  rw [cell, String.toList_ofList]
  generalize text.toList = cs
  induction cs with
  | nil => rfl
  | cons c cs ih =>
    rw [List.flatMap_cons]
    split
    · next bar =>
      subst bar
      exact congrArg ('|' :: ·) ih
    · next bar =>
      -- what follows a backslash of the text is no bare bar: it has a backslash of its own
      rw [List.singleton_append, unescape, ih]
      rintro rest rfl bare
      cases cs with
      | nil => simp at bare
      | cons d cs =>
        rw [List.flatMap_cons] at bare
        split at bare
        · simp at bare
        · next bar' => simp [bar'] at bare

/-- A text with a blank on both sides. -/
def padded (text : String) : List Char := ' ' :: text.toList ++ [' ']

/-- A cell that is one piece, in one line. -/
structure Neat (cell : List Char) : Prop where
  whole : pass false cell = some false
  noFeed : '\n' ∉ cell

theorem Harmless.neat {text : String} (h : Harmless text) : Neat (padded text) where
  whole := by
    obtain ⟨after, passed⟩ := h.whole false
    have blank : pass false (' ' :: text.toList) = some after := passed
    rw [padded, pass_append, blank]
    cases after <;> rfl
  noFeed := by simp [padded, h.noFeed]

theorem plain_of_digit {n : ℕ} {c : Char} (h : c ∈ Nat.toDigits 10 n) : c ≠ '|' ∧ c ≠ '\n' := by
  have digit := Nat.isDigit_of_mem_toDigits (by decide) (by decide) h
  constructor <;> rintro rfl <;> exact absurd digit (by decide)

theorem harmless_whole (n : ℕ) : Harmless (String.ofList (Nat.toDigits 10 n)) := by
  refine harmless_of_plain fun c hc => ?_
  rw [String.toList_ofList] at hc
  exact plain_of_digit hc

theorem harmless_fixed (places : ℕ) (x : Float) : Harmless (Decimal.fixed places x) := by
  have sign : Harmless (if Decimal.isSigned x then "-" else "") := by
    split <;> exact harmless_of_plain (by simp)
  rw [Decimal.fixed]
  split
  · exact harmless_of_plain (by simp)
  · dsimp only
    split
    · exact sign.append (harmless_of_plain (by simp))
    · refine sign.append (harmless_of_plain fun c hc => ?_)
      simp only [Decimal.fixedMagnitude, String.toList_ofList, List.mem_append, List.mem_cons,
        List.mem_replicate] at hc
      rcases hc with (digit | rfl | ⟨-, rfl⟩) | digit
      · exact plain_of_digit digit
      · decide
      · decide
      · exact plain_of_digit digit

theorem harmless_number (x : Float) : Harmless (number x) := by
  rw [number]
  split
  · cases x.round.toInt64.toInt with
    | ofNat n => exact harmless_whole n
    | negSucc n => exact .append (harmless_of_plain (by simp)) (harmless_whole (n + 1))
  · exact harmless_fixed 2 x

theorem harmless_trendSign (t : Trend) : Harmless (trendSign t) := by
  cases t <;> exact harmless_of_plain (by simp [trendSign])

theorem harmless_deltaCell {source : String} (noFeed : '\n' ∉ source.toList) (d : MetricDelta) :
    Harmless (deltaCell source d) := by
  have after := harmless_number d.after
  have before := harmless_number d.before
  have sign := harmless_trendSign d.trend
  rw [deltaCell]
  split
  · have blank : Harmless " " := harmless_of_plain (by simp)
    exact (after.append blank).append (harmless_trendSign .same)
  · have opening : Harmless " (" := harmless_of_plain (by simp)
    have colon : Harmless ": " := harmless_of_plain (by simp)
    have closing : Harmless ") " := harmless_of_plain (by simp)
    have told := ((after.append opening).append (harmless_cell noFeed)).append colon
    exact ((told.append before).append closing).append sign

/-! ### Lines -/

theorem splitAtNewlines_append {line : List Char} (noFeed : '\n' ∉ line) (rest : List Char) :
    splitAtNewlines (line ++ '\n' :: rest) = line :: splitAtNewlines rest := by
  induction line with
  | nil => rfl
  | cons c line ih =>
    simp only [List.mem_cons, not_or] at noFeed
    rw [List.cons_append, splitAtNewlines, if_neg (Ne.symm noFeed.1), ih noFeed.2]

/-- Lines that hold no line feed and end with no carriage return are read as they were written. -/
theorem linesOf_written {lines : List (List Char)} {text : String}
    (written : text.toList = lines.flatMap fun line => line ++ ['\n'])
    (single : ∀ line ∈ lines, '\n' ∉ line ∧ line.getLast? ≠ some '\r') :
    linesOf text = lines := by
  have pieces : splitAtNewlines text.toList = lines ++ [[]] := by
    rw [written]
    clear written
    induction lines with
    | nil => rfl
    | cons line lines ih =>
      obtain ⟨⟨noFeed, -⟩, below⟩ := List.forall_mem_cons.1 single
      rw [List.flatMap_cons, List.append_assoc, List.singleton_append,
        splitAtNewlines_append noFeed, ih below, List.cons_append]
  have kept : lines.map dropReturn = lines := by
    refine (List.map_congr_left fun line h => ?_).trans (List.map_id _)
    rw [dropReturn, if_neg (single line h).2]
    rfl
  simp [linesOf, pieces, kept]

/-- A row of neat cells is a line. -/
theorem single_bars {cells : List (List Char)} (neat : ∀ cell ∈ cells, Neat cell) :
    '\n' ∉ bars cells ∧ (bars cells).getLast? ≠ some '\r' := by
  constructor
  · have feeds : ∀ cell ∈ cells, '\n' ∉ cell ++ ['|'] := by
      intro cell mem
      simp [(neat cell mem).noFeed]
    simpa [bars] using feeds
  · rcases cells.eq_nil_or_concat with rfl | ⟨front, last, rfl⟩
    · simp [bars]
    · simp [bars, List.getLast?_cons, List.getLast?_append]

/-! ### Rows -/

/-- The cells of a table, row by row. -/
structure Table where
  header : List (List Char)
  separator : List (List Char)
  changed : List (List (List Char))
  new : List (List (List Char))
  deleted : List (List (List Char))
  total : List (List Char)

def Table.rows (t : Table) : List (List (List Char)) :=
  t.header :: t.separator :: (t.changed ++ t.new ++ t.deleted ++ [t.total])

/-- A cell names a path, with a marker behind it. -/
def Names (marker path : String) (cell : List Char) : Prop :=
  ∃ text, cell = padded (text ++ marker) ∧ unescape text.toList = path.toList

/-- A text shows a number: a whole one without a point, another one with two places. -/
def ShowsNumber (x : Float) (text : String) : Prop :=
  if (x - x.round).abs < 1e-9 then text = toString x.round.toInt64.toInt
  else text = Decimal.fixed 2 x

/-- A text with a backslash before each bar. -/
def escaped (text : String) : String :=
  String.ofList (text.toList.flatMap fun c => if c = '|' then ['\\', '|'] else [c])

/-- A cell shows a change: the later value and, where it is another one, the name of the first
    report with the earlier value; and a sign, which is green for the better and red for the
    worse. -/
inductive ShowsDelta (source : String) (d : MetricDelta) : List Char → Prop
  | same {after : String} (trend : d.trend = .same) (later : ShowsNumber d.after after) :
    ShowsDelta source d (padded (after ++ " ⚪"))
  | better {before after : String} (trend : d.trend = .better)
    (earlier : ShowsNumber d.before before) (later : ShowsNumber d.after after) :
    ShowsDelta source d (padded (after ++ " (" ++ escaped source ++ ": " ++ before ++ ") 🟢"))
  | worse {before after : String} (trend : d.trend = .worse)
    (earlier : ShowsNumber d.before before) (later : ShowsNumber d.after after) :
    ShowsDelta source d (padded (after ++ " (" ++ escaped source ++ ": " ++ before ++ ") 🔴"))

/-- A cell shows the change of a metric where a file has one, and the sign of no change
    elsewhere. -/
structure ShowsChange (source : String) (f : FileComparison) (m : Metric) (cell : List Char) :
    Prop where
  shown : ∀ d ∈ f.deltas, d.metric = m → ShowsDelta source d cell
  only : (∃ d, ShowsDelta source d cell) ↔ ∃ d ∈ f.deltas, d.metric = m
  other : (∀ d ∈ f.deltas, d.metric ≠ m) → cell = padded "⚪"

/-- A table shows a comparison: a row for each changed, new and deleted file in this order, with a
    cell for the path and one for each metric. -/
structure Table.Shows (t : Table) (source : String) (c : Comparison) : Prop where
  width : ∀ cells ∈ t.rows, cells.length = c.metrics.length + 1
  header : t.header = padded "File" :: c.metrics.map fun m => padded m.name
  separator : t.separator = "---".toList :: c.metrics.map fun _ => "---:".toList
  changed : List.Forall₂ (fun f cells => ∃ first rest, cells = first :: rest ∧
    Names "" f.path first ∧ List.Forall₂ (ShowsChange source f) c.metrics rest)
      c.changedFiles t.changed
  new : List.Forall₂ (fun path cells => ∃ first rest, cells = first :: rest ∧
    Names " (🆕)" path first ∧ ∀ cell ∈ rest, cell = [' ']) c.newFiles t.new
  deleted : List.Forall₂ (fun path cells => ∃ first rest, cells = first :: rest ∧
    Names " (deleted)" path first ∧ ∀ cell ∈ rest, cell = [' ']) c.deletedFiles t.deleted
  total : ∃ rest, t.total = padded "**Total**" :: rest ∧
    List.Forall₂ (ShowsDelta source) c.totals rest

/-- What stands in the row of a changed file under a metric. -/
def entry (source : String) (f : FileComparison) (m : Metric) : String :=
  ((f.deltas.find? fun d => d.metric == m).map (deltaCell source)).getD (trendSign .same)

/-- The cells that are written for a comparison. -/
def tableOf (source : String) (c : Comparison) : Table where
  header := padded "File" :: c.metrics.map fun m => padded m.name
  separator := "---".toList :: c.metrics.map fun _ => "---:".toList
  changed := c.changedFiles.map fun f =>
    padded (cell f.path) :: c.metrics.map fun m => padded (entry source f m)
  new := c.newFiles.map fun path =>
    padded (cell path ++ " (🆕)") :: List.replicate c.metrics.length [' ']
  deleted := c.deletedFiles.map fun path =>
    padded (cell path ++ " (deleted)") :: List.replicate c.metrics.length [' ']
  total := padded "**Total**" :: c.totals.map fun d => padded (deltaCell source d)

theorem toList_row (first : String) (rest : List String) :
    (row first rest).toList = bars (padded first :: rest.map padded) ++ ['\n'] := by
  simp [row, bars, padded, List.flatMap_map]

theorem toList_changedRow (source : String) (metrics : List Metric) (f : FileComparison) :
    (changedRow source metrics f).toList
      = bars (padded (cell f.path) :: metrics.map fun m => padded (entry source f m))
        ++ ['\n'] := by
  rw [changedRow, toList_row, List.map_map]
  congr 4
  funext m
  rw [Function.comp_apply, entry]
  cases f.deltas.find? fun d => d.metric == m <;> rfl

theorem toList_lonelyRow (count : ℕ) (marker path : String) :
    (lonelyRow count marker path).toList
      = bars (padded (cell path ++ (" (" ++ marker ++ ")")) :: List.replicate count [' '])
        ++ ['\n'] := by
  simp [lonelyRow, bars, padded, List.flatMap_replicate]

theorem toList_separator (metrics : List Metric) :
    ("|---|" ++ String.join (metrics.map fun _ => "---:|") ++ "\n").toList
      = bars ("---".toList :: metrics.map fun _ => "---:".toList) ++ ['\n'] := by
  simp [bars, List.flatMap_replicate]

/-- A table is written row by row. -/
theorem toList_tableLines (source : String) (c : Comparison) :
    (String.join (tableLines source c)).toList
      = ((tableOf source c).rows.map bars).flatMap fun line => line ++ ['\n'] := by
  have new : " (" ++ "🆕" ++ ")" = " (🆕)" := by decide
  have deleted : " (" ++ "deleted" ++ ")" = " (deleted)" := by decide
  rw [String.toList_join, List.flatMap_map]
  simp only [tableLines, Table.rows, tableOf, List.flatMap_append, List.flatMap_cons,
    List.flatMap_nil, List.flatMap_map, toList_row, toList_changedRow, toList_lonelyRow,
    toList_separator, List.map_map, List.append_assoc, List.append_nil, new, deleted]
  rfl

/-! ### What is read -/

theorem showsNumber_number (x : Float) : ShowsNumber x (number x) := by
  rw [ShowsNumber]
  split
  · next near => exact if_pos near
  · next far => exact if_neg far

theorem showsDelta_deltaCell (source : String) (d : MetricDelta) :
    ShowsDelta source d (padded (deltaCell source d)) := by
  have later := showsNumber_number d.after
  have earlier := showsNumber_number d.before
  have label : cell source = escaped source := rfl
  cases trend : d.trend with
  | same =>
    have sign : " " ++ trendSign .same = " ⚪" := by decide
    rw [deltaCell, if_pos trend, String.append_assoc, sign]
    exact .same trend later
  | better =>
    have sign : ") " ++ trendSign .better = ") 🟢" := by decide
    rw [deltaCell, if_neg (by simp [trend]), trend, label, String.append_assoc, sign]
    exact .better trend earlier later
  | worse =>
    have sign : ") " ++ trendSign .worse = ") 🔴" := by decide
    rw [deltaCell, if_neg (by simp [trend]), trend, label, String.append_assoc, sign]
    exact .worse trend earlier later

theorem padded_inj {text text' : String} (h : padded text = padded text') : text = text' :=
  String.toList_inj.1 (by simpa [padded] using h)

/-- The text of a change holds a blank, the sign of no change does not. -/
theorem not_showsDelta_sign (source : String) (d : MetricDelta) :
    ¬ ShowsDelta source d (padded "⚪") := by
  have apart : ∀ text : String, ' ' ∈ text.toList → padded "⚪" ≠ padded text := by
    intro text blank same
    rw [← padded_inj same] at blank
    simp at blank
  intro h
  generalize shown : padded "⚪" = cell at h
  cases h with
  | same => exact apart _ (by simp) shown
  | better => exact apart _ (by simp) shown
  | worse => exact apart _ (by simp) shown

/-- The changes of a file are of different metrics. -/
def Distinct (f : FileComparison) : Prop :=
  ∀ d ∈ f.deltas, ∀ d' ∈ f.deltas, d.metric = d'.metric → d = d'

theorem showsChange_entry {f : FileComparison} (distinct : Distinct f) (source : String)
    (m : Metric) : ShowsChange source f m (padded (entry source f m)) := by
  cases found : f.deltas.find? fun d => d.metric == m with
  | none =>
    have without : ∀ d ∈ f.deltas, d.metric ≠ m := by simpa using found
    have text : entry source f m = "⚪" := by rw [entry, found]; rfl
    rw [text]
    refine ⟨fun d hd named => absurd named (without d hd), ⟨?_, ?_⟩, fun _ => rfl⟩
    · rintro ⟨d, shown⟩
      exact absurd shown (not_showsDelta_sign source d)
    · rintro ⟨d, hd, named⟩
      exact absurd named (without d hd)
  | some d =>
    have named : d.metric = m := by simpa using List.find?_some found
    have mem := List.mem_of_find?_eq_some found
    have text : entry source f m = deltaCell source d := by rw [entry, found]; rfl
    have shown := showsDelta_deltaCell source d
    rw [text]
    refine ⟨fun d' hd' named' => ?_, ⟨fun _ => ⟨d, mem, named⟩, fun _ => ⟨d, shown⟩⟩,
      fun without => absurd named (without d mem)⟩
    rwa [distinct d' hd' d mem (named'.trans named.symm)]

theorem distinct_of_changed {baseline current : ProjectReport} {specs : List MetricSpec}
    {f : FileComparison} (h : f ∈ (Comparison.of baseline current specs).changedFiles) :
    Distinct f := by
  obtain ⟨old, new, -, -, -, deltas⟩ := (mem_changedFiles _ _ _).1 h
  intro d hd d' hd' same
  rw [deltas] at hd hd'
  obtain ⟨m, -, rfl⟩ := List.mem_map.1 hd
  obtain ⟨m', -, rfl⟩ := List.mem_map.1 hd'
  obtain rfl : m = m' := same
  rfl

theorem shows_tableOf {source : String} {c : Comparison}
    (totals : c.totals.length = c.metrics.length)
    (distinct : ∀ f ∈ c.changedFiles, Distinct f) : (tableOf source c).Shows source c where
  width := by
    simp only [Table.rows, tableOf, List.mem_cons, List.mem_append, List.mem_map,
      List.not_mem_nil, or_false]
    rintro cells (rfl | rfl | ((⟨f, -, rfl⟩ | ⟨path, -, rfl⟩) | ⟨path, -, rfl⟩) | rfl) <;>
      simp [totals]
  header := rfl
  separator := rfl
  changed := by
    rw [tableOf, List.forall₂_map_right_iff, List.forall₂_same]
    intro f hf
    refine ⟨_, _, rfl, ⟨cell f.path, by simp, unescape_cell f.path⟩, ?_⟩
    rw [List.forall₂_map_right_iff, List.forall₂_same]
    intro m _
    exact showsChange_entry (distinct f hf) source m
  new := by
    rw [tableOf, List.forall₂_map_right_iff, List.forall₂_same]
    intro path _
    exact ⟨_, _, rfl, ⟨cell path, rfl, unescape_cell path⟩, by simp⟩
  deleted := by
    rw [tableOf, List.forall₂_map_right_iff, List.forall₂_same]
    intro path _
    exact ⟨_, _, rfl, ⟨cell path, rfl, unescape_cell path⟩, by simp⟩
  total := by
    refine ⟨_, rfl, ?_⟩
    rw [List.forall₂_map_right_iff, List.forall₂_same]
    exact fun d _ => showsDelta_deltaCell source d

theorem harmless_entry {source : String} (noFeed : '\n' ∉ source.toList) (f : FileComparison)
    (m : Metric) : Harmless (entry source f m) := by
  rw [entry]
  cases f.deltas.find? fun d => d.metric == m with
  | none => exact harmless_trendSign .same
  | some d => exact harmless_deltaCell noFeed d

theorem harmless_name (m : Metric) : Harmless m.name := by
  cases m <;> exact harmless_of_plain (by simp [Metric.name])

/-- The paths that a comparison shows. -/
def shownPaths (c : Comparison) : List String :=
  c.changedFiles.map (·.path) ++ c.newFiles ++ c.deletedFiles

/-- Every cell is one piece, in one line. -/
theorem neat_tableOf {source : String} {c : Comparison} (noFeed : '\n' ∉ source.toList)
    (paths : ∀ path ∈ shownPaths c, '\n' ∉ path.toList) :
    ∀ cells ∈ (tableOf source c).rows, ∀ cell ∈ cells, Neat cell := by
  have blank : Neat [' '] := ⟨rfl, by simp⟩
  have marked : ∀ path ∈ shownPaths c, ∀ marker, Harmless marker →
      Neat (padded (cell path ++ marker)) := by
    intro path hpath marker harmless
    exact ((harmless_cell (paths path hpath)).append harmless).neat
  simp only [shownPaths, List.mem_append, List.mem_map] at paths marked
  simp only [Table.rows, tableOf, List.mem_cons, List.mem_append, List.mem_map, List.not_mem_nil,
    or_false]
  rintro cells (rfl | rfl | ((⟨f, hf, rfl⟩ | ⟨path, hpath, rfl⟩) | ⟨path, hpath, rfl⟩) | rfl)
  · refine List.forall_mem_cons.2 ⟨(harmless_of_plain (by simp)).neat, ?_⟩
    exact List.forall_mem_map.2 fun m _ => (harmless_name m).neat
  · refine List.forall_mem_cons.2 ⟨⟨by decide, by simp⟩, ?_⟩
    exact List.forall_mem_map.2 fun m _ => ⟨by decide, by simp⟩
  · refine List.forall_mem_cons.2 ⟨(harmless_cell (paths _ ?_)).neat, ?_⟩
    · exact Or.inl (Or.inl ⟨f, hf, rfl⟩)
    · exact List.forall_mem_map.2 fun m _ => (harmless_entry noFeed f m).neat
  · refine List.forall_mem_cons.2 ⟨marked path ?_ _ (harmless_of_plain (by simp)), ?_⟩
    · exact Or.inl (Or.inr hpath)
    · exact fun cell h => (List.mem_replicate.1 h).2 ▸ blank
  · refine List.forall_mem_cons.2 ⟨marked path ?_ _ (harmless_of_plain (by simp)), ?_⟩
    · exact Or.inr hpath
    · exact fun cell h => (List.mem_replicate.1 h).2 ▸ blank
  · refine List.forall_mem_cons.2 ⟨(harmless_of_plain (by simp)).neat, ?_⟩
    exact List.forall_mem_map.2 fun d _ => (harmless_deltaCell noFeed d).neat

/-- The heading of a comparison of two reports. -/
def title (source target : String) : String :=
  "## mehen summary (\x60" ++ source ++ "\x60..\x60" ++ target ++ "\x60)"

theorem single_title {source target : String} (noFeed : '\n' ∉ source.toList)
    (noFeed' : '\n' ∉ target.toList) :
    '\n' ∉ (title source target).toList ∧ (title source target).toList.getLast? ≠ some '\r' := by
  unfold title
  constructor
  · simp [noFeed, noFeed']
  · rw [String.toList_append, List.getLast?_append]
    simp

section Lines

variable {source target : String} (noFeed : '\n' ∉ source.toList)
  (noFeed' : '\n' ∉ target.toList) {c : Comparison}

include noFeed noFeed'

/-- The heading stands in a line, before an empty one. -/
theorem single_headed {lines : List (List Char)}
    (single : ∀ line ∈ lines, '\n' ∉ line ∧ line.getLast? ≠ some '\r') :
    ∀ line ∈ (title source target).toList :: [] :: lines,
      '\n' ∉ line ∧ line.getLast? ≠ some '\r' := by
  have heading := single_title noFeed noFeed'
  exact List.forall_mem_cons.2 ⟨heading, List.forall_mem_cons.2 ⟨by simp, single⟩⟩

theorem linesOf_unchanged (unchanged : c.isUnchanged = true) :
    linesOf (renderMarkdown source target c)
      = [(title source target).toList, [], "No metric changes detected.".toList] := by
  refine linesOf_written ?_ (single_headed noFeed noFeed' (by simp))
  unfold title renderMarkdown
  simp [unchanged]

theorem linesOf_changed (changed : c.isUnchanged = false)
    (paths : ∀ path ∈ shownPaths c, '\n' ∉ path.toList) :
    linesOf (renderMarkdown source target c)
      = (title source target).toList :: [] :: (tableOf source c).rows.map bars := by
  have single : ∀ line ∈ (tableOf source c).rows.map bars,
      '\n' ∉ line ∧ line.getLast? ≠ some '\r' := by
    intro line mem
    obtain ⟨cells, hcells, rfl⟩ := List.mem_map.1 mem
    exact single_bars (neat_tableOf noFeed paths cells hcells)
  refine linesOf_written ?_ (single_headed noFeed noFeed' single)
  unfold title renderMarkdown
  rw [if_neg (by simp [changed]), String.toList_append, toList_tableLines]
  simp

end Lines

/-- A comparison that is shown as Markdown has a heading and, where something has changed, a table:
    a header, a separator, a row for each changed, new and deleted file in this order, and the
    totals. Every row has a cell for the file and one for each metric. The first cell of a file
    names its path, and the cell of a changed file under a metric shows a change exactly if the
    metric has one. -/
theorem markdown_is_table (baseline current : ProjectReport) (specs : List MetricSpec)
    (source target : String) (noFeed : '\n' ∉ source.toList) (noFeed' : '\n' ∉ target.toList)
    (paths : ∀ path ∈ shownPaths (Comparison.of baseline current specs), '\n' ∉ path.toList) :
    let c := Comparison.of baseline current specs
    let heading := (title source target).toList
    (c.isUnchanged = true → linesOf (renderMarkdown source target c)
      = [heading, [], "No metric changes detected.".toList]) ∧
    (c.isUnchanged = false → ∃ lines t,
      linesOf (renderMarkdown source target c) = heading :: [] :: lines ∧
      lines.length = 3 + c.changedFiles.length + c.newFiles.length + c.deletedFiles.length ∧
      List.Forall₂ HasCells lines t.rows ∧ Table.Shows t source c) := by
  intro c heading
  refine ⟨linesOf_unchanged noFeed noFeed', fun changed => ?_⟩
  refine ⟨_, tableOf source c, linesOf_changed noFeed noFeed' changed paths, ?_, ?_, ?_⟩
  · simp [Table.rows, tableOf]
    omega
  · rw [List.forall₂_map_left_iff, List.forall₂_same]
    intro cells mem
    exact hasCells_bars fun cell h => (neat_tableOf noFeed paths cells mem cell h).whole
  · exact shows_tableOf (by simp [c, Comparison.of]) fun f => distinct_of_changed

/-- Bars and backslashes in the paths and in the name of the report; a value that goes from 3 to
    5. -/
theorem markdown_is_table_barred :
    let file (path : String) (cognitive : ℕ) : FileReport :=
      { path, language := "go", status := .ok,
        totals := { cognitive := { sum := cognitive }, maintainability := 62.0 } }
    let report (files : List FileReport) : ProjectReport :=
      { schemaVersion, toolVersion, files, totals := { maintainability := 62.0 } }
    let baseline := report [file "a|b.go" 3, file "\\|.go" 1]
    let current := report [file "a|b.go" 5, file "||\\" 1]
    let c := Comparison.of baseline current [⟨.cognitive, .lowerIsBetter⟩]
    shownPaths c = ["a|b.go", "||\\", "\\|.go"] ∧
      ∃ lines t, linesOf (renderMarkdown "v|1\\" "v2" c)
          = (title "v|1\\" "v2").toList :: [] :: lines ∧
        lines.length = 6 ∧ List.Forall₂ HasCells lines t.rows ∧ Table.Shows t "v|1\\" c ∧
        t.header = [padded "File", padded "cognitive"] ∧
        ∃ first before after, t.changed
            = [[first, padded (after ++ " (" ++ "v\\|1\\" ++ ": " ++ before ++ ") 🔴")]] ∧
          ShowsNumber 3.0 before ∧ ShowsNumber 5.0 after := by
  intro file report baseline current c
  have shown : shownPaths c = ["a|b.go", "||\\", "\\|.go"] := by decide +kernel
  have paths : ∀ path ∈ shownPaths c, '\n' ∉ path.toList := by simp [shown]
  obtain ⟨-, table⟩ := markdown_is_table baseline current [⟨.cognitive, .lowerIsBetter⟩]
    "v|1\\" "v2" (by simp) (by simp) paths
  obtain ⟨lines, t, text, count, cells, shows'⟩ := table (by decide +kernel)
  refine ⟨shown, lines, t, text, count.trans (by decide +kernel), cells, shows', shows'.header, ?_⟩
  have metrics : c.metrics = [.cognitive] := by decide +kernel
  have values : c.changedFiles.map (fun f => f.deltas.map fun d =>
      (d.metric, d.before, d.after, d.trend)) = [[(.cognitive, 3.0, 5.0, .worse)]] := by
    decide +kernel
  obtain ⟨f, one, deltas⟩ := List.map_eq_singleton_iff.1 values
  obtain ⟨d, only, told⟩ := List.map_eq_singleton_iff.1 deltas
  simp only [Prod.mk.injEq] at told
  obtain ⟨metric, before, after, trend⟩ := told
  have changed := shows'.changed
  rw [one, metrics] at changed
  obtain ⟨row, more, ⟨first, rest, rfl, -, under⟩, empty, rows⟩ :=
    List.forall₂_cons_left_iff.1 changed
  cases empty
  obtain ⟨cell, more, change, empty, rfl⟩ := List.forall₂_cons_left_iff.1 under
  cases empty
  have delta := change.shown d (only ▸ List.mem_singleton_self d) metric
  rw [rows]
  cases delta with
  | same same => exact absurd (same.symm.trans trend) (by decide)
  | better better => exact absurd (better.symm.trans trend) (by decide)
  | @worse before' after' _ earlier later =>
    exact ⟨first, before', after', rfl, before ▸ earlier, after ▸ later⟩

end CodeMetrics.Markdown

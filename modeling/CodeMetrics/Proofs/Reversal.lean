import CodeMetrics.Proofs.Conservation
import CodeMetrics.Proofs.Opposites

/-! A comparison can be read backwards. What is new one way is deleted the other way, the same files
    have changed, and each change is the opposite one.

    The files of a report by path are in strict order, with the last file under each path, also where
    a report repeats a path. So the files under common paths are the same pairs both ways. A file has
    changed by the metrics whose values differ by more than the tolerance, and the difference the
    other way round is as large. -/

namespace CodeMetrics

open Rollup Rounding

/-! ### Opposite changes -/

/-- The trend the other way round. -/
def Trend.opposite : Trend → Trend
  | .better => .worse
  | .worse => .better
  | .same => .same

/-- A change read backwards. -/
def MetricDelta.reversed (d : MetricDelta) : MetricDelta where
  metric := d.metric
  polarity := d.polarity
  before := d.after
  after := d.before
  delta := -d.delta
  trend := d.trend.opposite

/-- The changes of a file read backwards. -/
def FileComparison.reversed (c : FileComparison) : FileComparison where
  path := c.path
  deltas := c.deltas.map MetricDelta.reversed

theorem Trend.of_neg {d : Float} (number : d.isNaN = false) (p : Polarity) :
    Trend.of (-d) p = (Trend.of d p).opposite := by
  unfold Trend.of
  rw [abs_neg_eq]
  by_cases small : d.abs ≤ tolerance
  · rw [if_pos small, if_pos small]
    rfl
  · have sign : decide (-d > 0.0) = !decide (d > 0.0) := by
      rw [← decide_not]
      exact decide_eq_decide.2 (neg_pos_iff number small)
    rw [if_neg small, if_neg small, sign]
    cases decide (d > 0.0) <;> cases p <;> rfl

namespace MetricDelta

variable (spec : MetricSpec) {x y : Float} (hx : x.isFinite = true) (hy : y.isFinite = true)

include hx hy

theorem changed_reverse : (MetricDelta.of spec y x).changed = (MetricDelta.of spec x y).changed := by
  have size : (x - y).abs = (y - x).abs := abs_sub_eq hy hx
  change decide ((x - y).abs > tolerance) = decide ((y - x).abs > tolerance)
  rw [size]

/-- A change the other way round is the change read backwards. No difference is positive zero both
    ways. -/
theorem of_reverse : MetricDelta.of spec y x = (MetricDelta.of spec x y).reversed ∨
    (MetricDelta.of spec x y).delta = 0.0 ∧
      MetricDelta.of spec y x = { (MetricDelta.of spec x y).reversed with delta := 0.0 } := by
  rcases sub_eq_neg_sub hy hx with opposite | ⟨none, none'⟩
  · left
    have trend := Trend.of_neg (isNaN_sub_eq_false hy hx) spec.polarity
    rw [MetricDelta.of, opposite, trend]
    rfl
  · right
    refine ⟨none, ?_⟩
    simp only [MetricDelta.of, reversed, none, none']
    rfl

theorem of_reverse_of_changed (changes : (MetricDelta.of spec x y).changed = true) :
    MetricDelta.of spec y x = (MetricDelta.of spec x y).reversed := by
  rcases of_reverse spec hx hy with opposite | ⟨none, -⟩
  · exact opposite
  · rw [changed, none] at changes
    exact absurd changes (by decide)

end MetricDelta

/-! ### Files that have changed -/

/-- The metrics of a report are finite numbers. -/
structure ProjectReport.IsFinite (report : ProjectReport) : Prop where
  files : ∀ file ∈ report.files, ∀ m : Metric, (m.ofFile file).isFinite = true
  totals : ∀ m : Metric, (m.ofProject report.totals).isFinite = true

theorem Metric.mem_all (m : Metric) : m ∈ Metric.all := by cases m <;> decide

instance (report : ProjectReport) : Decidable report.IsFinite :=
  decidable_of_iff ((∀ file ∈ report.files, ∀ m ∈ Metric.all, (m.ofFile file).isFinite = true) ∧
      ∀ m ∈ Metric.all, (m.ofProject report.totals).isFinite = true)
    ⟨fun h => ⟨fun file hfile m => h.1 file hfile m m.mem_all, fun m => h.2 m m.mem_all⟩,
      fun h => ⟨fun file hfile m _ => h.files file hfile m, fun m _ => h.totals m⟩⟩

/-- The changes of a file the other way round are its changes read backwards. -/
theorem fileChanges?_reverse (specs : List MetricSpec) (path : String) {old new : FileReport}
    (finite : ∀ m : Metric, (m.ofFile old).isFinite = true)
    (finite' : ∀ m : Metric, (m.ofFile new).isFinite = true) :
    Comparison.fileChanges? specs path new old
      = (Comparison.fileChanges? specs path old new).map FileComparison.reversed := by
  have deltas : (specs.map fun s =>
      MetricDelta.of s (s.metric.ofFile new) (s.metric.ofFile old)).filter MetricDelta.changed
      = ((specs.map fun s => MetricDelta.of s (s.metric.ofFile old)
          (s.metric.ofFile new)).filter MetricDelta.changed).map MetricDelta.reversed := by
    induction specs with
    | nil => rfl
    | cons s specs ih =>
      have same := MetricDelta.changed_reverse s (finite s.metric) (finite' s.metric)
      rw [List.map_cons, List.map_cons, List.filter_cons, List.filter_cons, same, ih]
      split
      · next changes =>
        rw [MetricDelta.of_reverse_of_changed s (finite s.metric) (finite' s.metric) changes]
        rfl
      · rfl
  simp only [Comparison.fileChanges?, deltas, List.isEmpty_map]
  split <;> rfl

/-- The files of a report by path, without the paths. -/
def lasts (report : ProjectReport) : List FileReport := (Comparison.byPath report).map Prod.snd

/-- Filing files by path keeps the order of paths, and each file under its own. -/
theorem insertSorted_files {all files : List FileReport} {sorted : List (String × FileReport)}
    (among : ∀ f ∈ files, f ∈ all) (ordered : Ordered Prod.fst sorted)
    (under : ∀ p ∈ sorted, p.1 = p.2.path ∧ p.2 ∈ all) :
    Ordered Prod.fst (files.foldl (fun sorted f => insertSorted f.path f sorted) sorted) ∧
      ∀ p ∈ files.foldl (fun sorted f => insertSorted f.path f sorted) sorted,
        p.1 = p.2.path ∧ p.2 ∈ all := by
  induction files generalizing sorted with
  | nil => exact ⟨ordered, under⟩
  | cons f files ih =>
    rw [List.foldl_cons]
    refine ih (fun g hg => among g (List.mem_cons_of_mem _ hg)) (ordered_insertSorted f ordered)
      fun p hp => ?_
    rcases mem_insertSorted hp with rfl | hp
    · exact ⟨rfl, among f List.mem_cons_self⟩
    · exact under p hp

section Files

variable (report : ProjectReport)

theorem byPath_files : Ordered Prod.fst (Comparison.byPath report) ∧
    ∀ p ∈ Comparison.byPath report, p.1 = p.2.path ∧ p.2 ∈ report.files :=
  insertSorted_files (fun _ h => h) .nil (List.forall_mem_nil _)

theorem byPath_lasts : Comparison.byPath report = (lasts report).map fun f => (f.path, f) := by
  rw [lasts, List.map_map]
  refine (List.map_id'' fun p => rfl) _ |>.symm.trans (List.map_congr_left fun p hp => ?_)
  exact Prod.ext ((byPath_files report).2 p hp).1 rfl

theorem ordered_lasts : Ordered FileReport.path (lasts report) := by
  have ordered := (byPath_files report).1
  rw [byPath_lasts] at ordered
  exact List.pairwise_map.1 ordered

theorem mem_of_mem_lasts {f : FileReport} (h : f ∈ lasts report) : f ∈ report.files := by
  obtain ⟨p, hp, rfl⟩ := List.mem_map.1 h
  exact ((byPath_files report).2 p hp).2

end Files

/-- The changed files the other way round are the same ones, read backwards. -/
theorem changedFiles_reverse {baseline current : ProjectReport} (finite : baseline.IsFinite)
    (finite' : current.IsFinite) (specs : List MetricSpec) :
    (Comparison.of current baseline specs).changedFiles
      = (Comparison.of baseline current specs).changedFiles.map FileComparison.reversed := by
  rw [changedFiles_matched (byPath_lasts current) (byPath_lasts baseline),
    changedFiles_matched (byPath_lasts baseline) (byPath_lasts current),
    matched_swap (ordered_lasts baseline) (ordered_lasts current), List.filterMap_map,
    List.map_filterMap]
  refine List.filterMap_congr fun p hp => ?_
  obtain ⟨hf, hg⟩ := mem_matched.1 hp
  have old := finite.files p.1 (mem_of_mem_lasts baseline hf)
  have new := finite'.files p.2 (mem_of_mem_lasts current (mem_of_first? hg))
  rw [Function.comp_apply, Prod.fst_swap, Prod.snd_swap, key_of_first? hg]
  exact fileChanges?_reverse _ _ old new

/-! ### Comparisons read backwards -/

/-- A comparison is another one read backwards. -/
structure Comparison.Reverses (back forth : Comparison) : Prop where
  metrics : back.metrics = forth.metrics
  newFiles : back.newFiles = forth.deletedFiles
  deletedFiles : back.deletedFiles = forth.newFiles
  changedFiles : back.changedFiles = forth.changedFiles.map FileComparison.reversed
  /-- Totals without a difference have positive zero both ways. -/
  totals : List.Forall₂ (fun d' d => d' = d.reversed ∨
    d.delta = 0.0 ∧ d' = { d.reversed with delta := 0.0 }) back.totals forth.totals
  isEmpty : back.isEmpty = forth.isEmpty

/-- Exchanging the reports reads their comparison backwards. -/
theorem exchanged_reverses {baseline current : ProjectReport} (finite : baseline.IsFinite)
    (finite' : current.IsFinite) (specs : List MetricSpec) :
    (Comparison.of current baseline specs).Reverses (Comparison.of baseline current specs) where
  metrics := rfl
  newFiles := rfl
  deletedFiles := rfl
  changedFiles := changedFiles_reverse finite finite' specs
  totals := by
    simp only [Comparison.of, List.forall₂_map_left_iff, List.forall₂_map_right_iff,
      List.forall₂_same]
    intro s _
    exact MetricDelta.of_reverse s (finite.totals s.metric) (finite'.totals s.metric)
  isEmpty := by
    rw [Comparison.isEmpty, Comparison.isEmpty, changedFiles_reverse finite finite', List.isEmpty_map,
      Bool.and_comm (List.isEmpty _) (List.isEmpty _)]
    rfl

/-- A report repeats a path: its last entry under it is compared, both ways. -/
theorem exchanged_reverses_repeated_path :
    let file (path : String) (logical : ℕ) (index : Float) : FileReport :=
      { path, language := "go", status := .ok,
        totals := { lines := { logical }, maintainability := index } }
    let baseline : ProjectReport :=
      { schemaVersion, toolVersion, totals := { maintainability := 66.125 },
        files := [file "b.go" 3 81.5, file "a.go" 9 70.0, file "b.go" 4 62.25] }
    let current : ProjectReport :=
      { schemaVersion, toolVersion, totals := { maintainability := 66.125 },
        files := [file "c.go" 1 69.5, file "b.go" 4 62.75] }
    let specs : List MetricSpec := [⟨.maintainability, .lowerIsBetter⟩]
    let forth := Comparison.of baseline current specs
    (baseline.IsFinite ∧ current.IsFinite) ∧
      (forth.newFiles = ["c.go"] ∧ forth.changedFiles.map (·.path) = ["b.go"] ∧
        (forth.changedFiles.flatMap (·.deltas)).map (·.trend) = [.worse] ∧
        forth.totals.map (·.trend) = [.same]) ∧
      (Comparison.of current baseline specs).Reverses forth := by
  intro file baseline current specs forth
  have finite : baseline.IsFinite := by decide +kernel
  have finite' : current.IsFinite := by decide +kernel
  exact ⟨⟨finite, finite'⟩, ⟨by decide +kernel, by decide +kernel, by decide +kernel,
    by decide +kernel⟩, exchanged_reverses finite finite' specs⟩

end CodeMetrics

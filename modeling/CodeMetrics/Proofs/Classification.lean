import CodeMetrics.Proofs.Reversal

/-! A comparison puts every path in its place. A path that only one of two reports has is new or
    deleted; a path that both have is listed as changed exactly if a metric that was asked for
    differs by more than the tolerance, with all metrics that do.

    Reports may be out of order and repeat a path. Filing them by path leaves the last entry under
    each path, in the order of paths, so that everything is said of last entries. -/

namespace CodeMetrics

open Rollup

/-! ### The entries that count -/

namespace ProjectReport

/-- The paths that a report has entries under. -/
def paths (report : ProjectReport) : List String := report.files.map (·.path)

/-- The entry of a report that counts under a path: the last one. -/
def entry? (report : ProjectReport) (path : String) : Option FileReport :=
  report.files.reverse.find? fun f => f.path == path

variable {report : ProjectReport} {path : String}

theorem path_of_entry? {f : FileReport} (h : report.entry? path = some f) : f.path = path := by
  simpa using List.find?_some h

theorem mem_paths_iff : path ∈ report.paths ↔ ∃ f, report.entry? path = some f := by
  rw [← Option.isSome_iff_exists, entry?, List.find?_isSome, paths, List.mem_map]
  simp

theorem not_mem_paths_iff : path ∉ report.paths ↔ report.entry? path = none := by
  rw [mem_paths_iff, ← Option.isSome_iff_exists, Option.not_isSome_iff_eq_none]

end ProjectReport

/-- Filing files by path leaves the last one under each path, or what was there before. -/
theorem lookup_filed (path : String) (files : List FileReport)
    (sorted : List (String × FileReport)) :
    (files.foldl (fun sorted f => insertSorted f.path f sorted) sorted).lookup path
      = (files.reverse.find? fun f => f.path == path).or (sorted.lookup path) := by
  induction files generalizing sorted with
  | nil => rfl
  | cons f files ih =>
    rw [List.foldl_cons, ih, lookup_insertSorted, List.reverse_cons, List.find?_append,
      List.find?_singleton, BEq.comm]
    cases files.reverse.find? fun f => f.path == path with
    | some last => rfl
    | none => cases f.path == path <;> rfl

theorem lookup_byPath (report : ProjectReport) (path : String) :
    (Comparison.byPath report).lookup path = report.entry? path := by
  rw [Comparison.byPath, lookup_filed, List.lookup_nil, Option.or_none]
  rfl

theorem first?_lasts (report : ProjectReport) (path : String) :
    first? FileReport.path path (lasts report) = report.entry? path := by
  rw [← lookup_byPath, byPath_lasts, lookup_files]

/-- The files of a report by path are the entries that count. -/
theorem mem_lasts_iff {report : ProjectReport} {f : FileReport} :
    f ∈ lasts report ↔ report.entry? f.path = some f := by
  rw [← first?_lasts]
  exact ⟨first?_of_ordered (ordered_lasts report), mem_of_first?⟩

/-! ### The metrics that count -/

namespace Metric

/-- Whether a metric is asked for: all of them are where none is named. -/
def isSelected (specs : List MetricSpec) (m : Metric) : Bool :=
  specs.isEmpty || specs.any fun s => s.metric == m

/-- The polarity of a metric: the one named last, or its own. -/
def polarityIn (specs : List MetricSpec) (m : Metric) : Polarity :=
  ((specs.reverse.find? fun s => s.metric == m).map (·.polarity)).getD m.defaultPolarity

/-- Whether two entries differ in a metric by more than the tolerance. -/
def differs (old new : FileReport) (m : Metric) : Bool :=
  (m.ofFile new - m.ofFile old).abs > tolerance

/-- Whether a metric is asked for and differs between two entries. -/
def hasChanged (specs : List MetricSpec) (old new : FileReport) (m : Metric) : Bool :=
  m.isSelected specs && m.differs old new

/-- The change of a metric from one entry to another. -/
def change (specs : List MetricSpec) (old new : FileReport) (m : Metric) : MetricDelta :=
  MetricDelta.of ⟨m, m.polarityIn specs⟩ (m.ofFile old) (m.ofFile new)

theorem find?_eq_ite (specs : List MetricSpec) (some_named : specs.isEmpty = false) (m : Metric) :
    (specs.reverse.find? fun s => s.metric == m)
      = if m.isSelected specs then some ⟨m, m.polarityIn specs⟩ else none := by
  cases found : specs.reverse.find? fun s => s.metric == m with
  | none =>
    have unnamed : m.isSelected specs = false := by
      simpa [isSelected, some_named] using found
    simp [unnamed]
  | some s =>
    have named : s.metric = m := by simpa using List.find?_some found
    have selected : m.isSelected specs = true := by
      have mem := List.mem_of_find?_eq_some found
      simp only [isSelected, some_named, Bool.false_or, List.any_eq_true]
      exact ⟨s, List.mem_reverse.1 mem, by simpa using named⟩
    subst named
    simp [selected, polarityIn, found]

end Metric

/-- The selectors that count are those of the metrics asked for, in the order of columns. -/
theorem select_eq (specs : List MetricSpec) : Comparison.select specs
    = (Metric.all.filter (Metric.isSelected specs)).map fun m => ⟨m, m.polarityIn specs⟩ := by
  rw [Comparison.select]
  split
  · next empty =>
    obtain rfl := List.isEmpty_iff.1 empty
    rfl
  · next some_named =>
    rw [← List.filterMap_eq_map, List.filterMap_filter]
    exact List.filterMap_congr fun m _ =>
      Metric.find?_eq_ite specs (Bool.not_eq_true _ ▸ some_named) m

/-- A file is listed where a metric that is asked for differs, with the changes of all those. -/
theorem fileChanges?_eq_some_iff {specs : List MetricSpec} {path : String} {old new : FileReport}
    {file : FileComparison} :
    Comparison.fileChanges? (Comparison.select specs) path old new = some file
      ↔ (∃ m : Metric, m.hasChanged specs old new = true) ∧ file.path = path ∧
          file.deltas = (Metric.all.filter (Metric.hasChanged specs old new)).map
            (Metric.change specs old new) := by
  have deltas : ((Comparison.select specs).map fun s =>
      MetricDelta.of s (s.metric.ofFile old) (s.metric.ofFile new)).filter MetricDelta.changed
      = (Metric.all.filter (Metric.hasChanged specs old new)).map
          (Metric.change specs old new) := by
    rw [select_eq, List.map_map, List.filter_map, List.filter_filter]
    congr 1
    exact List.filter_congr fun m _ => Bool.and_comm _ _
  have empty_iff : ((Metric.all.filter (Metric.hasChanged specs old new)).map
      (Metric.change specs old new)).isEmpty = true
      ↔ ¬ ∃ m : Metric, m.hasChanged specs old new = true := by
    simp [List.filter_eq_nil_iff, Metric.mem_all]
  obtain ⟨path', deltas'⟩ := file
  simp only [Comparison.fileChanges?, deltas]
  by_cases some_changed : ∃ m : Metric, m.hasChanged specs old new = true
  · rw [if_neg (mt empty_iff.1 (not_not_intro some_changed))]
    simp only [Option.some.injEq, FileComparison.mk.injEq, some_changed, true_and]
    exact and_congr eq_comm eq_comm
  · rw [if_pos (empty_iff.2 some_changed)]
    simp only [reduceCtorEq, some_changed, false_and]

/-! ### Where paths are listed -/

section Listed

variable (baseline current : ProjectReport) (specs : List MetricSpec)

theorem increasing_pathsOnlyIn (here there : ProjectReport) :
    (Comparison.pathsOnlyIn (Comparison.byPath here) (Comparison.byPath there)).Pairwise
      (· < ·) := by
  refine List.Pairwise.filter _ (List.pairwise_map.2 ?_)
  exact (byPath_files here).1.imp compareOfLessAndEq_eq_lt.1

theorem mem_pathsOnlyIn (here there : ProjectReport) (path : String) :
    path ∈ Comparison.pathsOnlyIn (Comparison.byPath here) (Comparison.byPath there)
      ↔ path ∈ here.paths ∧ path ∉ there.paths := by
  have listed : path ∈ (Comparison.byPath here).map (·.1) ↔ path ∈ here.paths := by
    rw [byPath_lasts, List.map_map, ProjectReport.mem_paths_iff]
    constructor
    · intro h
      obtain ⟨f, hf, rfl⟩ := List.mem_map.1 h
      exact ⟨f, mem_lasts_iff.1 hf⟩
    · rintro ⟨f, hf⟩
      obtain rfl := ProjectReport.path_of_entry? hf
      exact List.mem_map.2 ⟨f, mem_lasts_iff.2 hf, rfl⟩
  rw [Comparison.pathsOnlyIn, List.mem_filter, listed, lookup_byPath, Option.isNone_iff_eq_none,
    ProjectReport.not_mem_paths_iff]

/-- The files that are listed as changed, with what is listed of them. -/
theorem mem_changedFiles {file : FileComparison} :
    file ∈ (Comparison.of baseline current specs).changedFiles
      ↔ ∃ old new, baseline.entry? file.path = some old ∧ current.entry? file.path = some new ∧
          (∃ m : Metric, m.hasChanged specs old new = true) ∧
          file.deltas = (Metric.all.filter (Metric.hasChanged specs old new)).map
            (Metric.change specs old new) := by
  rw [changedFiles_matched (byPath_lasts baseline) (byPath_lasts current), List.mem_filterMap]
  constructor
  · rintro ⟨⟨old, new⟩, both, changes⟩
    obtain ⟨hold, hnew⟩ := mem_matched.1 both
    obtain ⟨some_changed, path, deltas⟩ := fileChanges?_eq_some_iff.1 changes
    rw [path]
    exact ⟨old, new, mem_lasts_iff.1 hold, (first?_lasts _ _).symm.trans hnew, some_changed, deltas⟩
  · rintro ⟨old, new, hold, hnew, some_changed, deltas⟩
    have path := ProjectReport.path_of_entry? hold
    rw [← path] at hold hnew
    refine ⟨(old, new), mem_matched.2 ⟨mem_lasts_iff.2 hold, (first?_lasts _ _).trans hnew⟩, ?_⟩
    exact fileChanges?_eq_some_iff.2 ⟨some_changed, path.symm, deltas⟩

theorem increasing_changedFiles :
    ((Comparison.of baseline current specs).changedFiles.map (·.path)).Pairwise (· < ·) := by
  rw [changedFiles_matched (byPath_lasts baseline) (byPath_lasts current), List.pairwise_map,
    List.pairwise_filterMap, matched, List.pairwise_filterMap]
  refine (ordered_lasts baseline).imp fun {f f'} before p hp q hq file hfile file' hfile' => ?_
  obtain ⟨new, -, rfl⟩ := Option.map_eq_some_iff.1 hp
  obtain ⟨new', -, rfl⟩ := Option.map_eq_some_iff.1 hq
  rw [(fileChanges?_eq_some_iff.1 hfile).2.1, (fileChanges?_eq_some_iff.1 hfile').2.1]
  exact compareOfLessAndEq_eq_lt.1 before

end Listed

/-! ### The classification -/

/-- The value of a metric in the entry of a file. -/
inductive FileReport.Has (f : FileReport) : Metric → Float → Prop
  | cyclomatic : f.Has .cyclomatic (Float.ofNat f.totals.cyclomatic.sum)
  | cognitive : f.Has .cognitive (Float.ofNat f.totals.cognitive.sum)
  | functions : f.Has .functions (Float.ofNat f.totals.functions)
  | closures : f.Has .closures (Float.ofNat f.totals.counts.closures)
  | logicalLines : f.Has .logicalLines (Float.ofNat f.totals.lines.logical)
  | halsteadVolume : f.Has .halsteadVolume f.totals.halsteadVolume
  | maintainability : f.Has .maintainability f.totals.maintainability
  | wmc : f.Has .wmc (Float.ofNat f.totals.wmc)
  | abc : f.Has .abc f.totals.abcMagnitude

/-- The value of a metric in the totals of a project. -/
inductive ProjectTotals.Has (t : ProjectTotals) : Metric → Float → Prop
  | cyclomatic : t.Has .cyclomatic (Float.ofNat t.cyclomatic.sum)
  | cognitive : t.Has .cognitive (Float.ofNat t.cognitive.sum)
  | functions : t.Has .functions (Float.ofNat t.functions)
  | closures : t.Has .closures (Float.ofNat t.counts.closures)
  | logicalLines : t.Has .logicalLines (Float.ofNat t.lines.logical)
  | halsteadVolume : t.Has .halsteadVolume t.halsteadVolume
  | maintainability : t.Has .maintainability t.maintainability
  | wmc : t.Has .wmc (Float.ofNat t.wmc)
  | abc : t.Has .abc t.abcMagnitude

theorem FileReport.has_iff {f : FileReport} {m : Metric} {x : Float} :
    f.Has m x ↔ x = m.ofFile f := by
  constructor
  · intro h
    cases h <;> rfl
  · rintro rfl
    cases m <;> constructor

theorem ProjectTotals.has_iff {t : ProjectTotals} {m : Metric} {x : Float} :
    t.Has m x ↔ x = m.ofProject t := by
  constructor
  · intro h
    cases h <;> rfl
  · rintro rfl
    cases m <;> constructor

namespace Metric

/-- A metric is asked for: all of them are where none is named. -/
def Asked (specs : List MetricSpec) (m : Metric) : Prop :=
  specs = [] ∨ ∃ s ∈ specs, s.metric = m

/-- The values of a metric in two entries are further apart than the tolerance. -/
def Differs (old new : FileReport) (m : Metric) : Prop :=
  ∃ x y, old.Has m x ∧ new.Has m y ∧ (y - x).abs > 1e-9

theorem asked_iff {specs : List MetricSpec} {m : Metric} :
    m.Asked specs ↔ m.isSelected specs = true := by
  simp [Asked, isSelected]

theorem differs_iff {old new : FileReport} {m : Metric} :
    m.Differs old new ↔ m.differs old new = true := by
  simp only [Differs, FileReport.has_iff]
  constructor
  · rintro ⟨_, _, rfl, rfl, apart⟩
    exact decide_eq_true apart
  · intro apart
    exact ⟨_, _, rfl, rfl, of_decide_eq_true apart⟩

theorem hasChanged_iff {specs : List MetricSpec} {old new : FileReport} {m : Metric} :
    m.hasChanged specs old new = true ↔ m.Asked specs ∧ m.Differs old new := by
  rw [hasChanged, Bool.and_eq_true, asked_iff, differs_iff]

end Metric

/-- What is said of a metric that had one value and then another. It went the way it should where
    its values are apart and the later one is the larger exactly if a larger one is better. -/
structure MetricDelta.Tells (d : MetricDelta) (specs : List MetricSpec) (x y : Float) : Prop where
  polarity : d.polarity = d.metric.polarityIn specs
  before : d.before = x
  after : d.after = y
  delta : d.delta = y - x
  same : d.trend = .same ↔ (y - x).abs ≤ 1e-9
  better : d.trend = .better ↔ ¬ (y - x).abs ≤ 1e-9 ∧ (y - x > 0.0 ↔ d.polarity = .higherIsBetter)

theorem MetricDelta.tells_of (specs : List MetricSpec) (m : Metric) (x y : Float) :
    (MetricDelta.of ⟨m, m.polarityIn specs⟩ x y).Tells specs x y := by
  refine ⟨rfl, rfl, rfl, rfl, ?_, ?_⟩ <;> dsimp only [MetricDelta.of, Trend.of]
  · by_cases near : (y - x).abs ≤ tolerance
    · simp only [if_pos near, true_iff]
      exact near
    · simp only [if_neg near]
      refine ⟨fun same => ?_, fun h => absurd h near⟩
      split at same <;> cases same
  · by_cases near : (y - x).abs ≤ tolerance
    · simp only [if_pos near]
      exact ⟨fun h => (by cases h), fun h => absurd near h.1⟩
    · simp only [if_neg near]
      have apart : ¬ (y - x).abs ≤ 1e-9 := near
      cases m.polarityIn specs <;> by_cases up : y - x > 0.0 <;> simp [up, apart]

/-- What a comparison says of each path and of each metric. -/
structure Comparison.Classifies (c : Comparison) (baseline current : ProjectReport)
    (specs : List MetricSpec) : Prop where
  /-- The metrics asked for are compared, in the order of columns. -/
  metrics : (∀ m, m ∈ c.metrics ↔ m.Asked specs) ∧
    c.metrics.Sublist [.cyclomatic, .cognitive, .functions, .closures, .logicalLines,
      .halsteadVolume, .maintainability, .wmc, .abc]
  newFiles : c.newFiles.Pairwise (· < ·) ∧
    ∀ path, path ∈ c.newFiles ↔ path ∈ current.paths ∧ path ∉ baseline.paths
  deletedFiles : c.deletedFiles.Pairwise (· < ·) ∧
    ∀ path, path ∈ c.deletedFiles ↔ path ∈ baseline.paths ∧ path ∉ current.paths
  changedFiles : (c.changedFiles.map (·.path)).Pairwise (· < ·) ∧
    ∀ path, path ∈ c.changedFiles.map (·.path)
      ↔ ∃ old new, baseline.entry? path = some old ∧ current.entry? path = some new ∧
          ∃ m : Metric, m.Asked specs ∧ m.Differs old new
  /-- A changed file is listed with the metrics that differ, and no others, in the order of columns,
      and with their values in the two entries. -/
  deltas : ∀ file ∈ c.changedFiles, ∀ old new, baseline.entry? file.path = some old →
    current.entry? file.path = some new →
      (file.deltas.map (·.metric)).Sublist c.metrics ∧
      (∀ m, m ∈ file.deltas.map (·.metric) ↔ m.Asked specs ∧ m.Differs old new) ∧
      ∀ d ∈ file.deltas, ∃ x y, old.Has d.metric x ∧ new.Has d.metric y ∧ d.Tells specs x y
  /-- No path is listed twice. -/
  once : (c.newFiles ++ c.deletedFiles ++ c.changedFiles.map (·.path)).Nodup
  totals : c.totals.map (·.metric) = c.metrics ∧
    ∀ d ∈ c.totals, ∃ x y, baseline.totals.Has d.metric x ∧ current.totals.Has d.metric y ∧
      d.Tells specs x y
  isEmpty : c.isEmpty = true
    ↔ (∀ path, path ∈ baseline.paths ↔ path ∈ current.paths) ∧
        ∀ path old new, baseline.entry? path = some old → current.entry? path = some new →
          ∀ m : Metric, m.Asked specs → ¬ m.Differs old new

section Classified

variable (baseline current : ProjectReport) (specs : List MetricSpec)

theorem mem_changedPaths (path : String) :
    path ∈ (Comparison.of baseline current specs).changedFiles.map (·.path)
      ↔ ∃ old new, baseline.entry? path = some old ∧ current.entry? path = some new ∧
          ∃ m : Metric, m.Asked specs ∧ m.Differs old new := by
  simp only [← Metric.hasChanged_iff]
  rw [List.mem_map]
  constructor
  · rintro ⟨file, hfile, rfl⟩
    obtain ⟨old, new, hold, hnew, some_changed, -⟩ := (mem_changedFiles _ _ _).1 hfile
    exact ⟨old, new, hold, hnew, some_changed⟩
  · rintro ⟨old, new, hold, hnew, some_changed⟩
    exact ⟨⟨path, _⟩, (mem_changedFiles _ _ _).2 ⟨old, new, hold, hnew, some_changed, rfl⟩, rfl⟩

/-- No path is listed twice: each list is in strict order, and what is in two of the lists would be
    in a report and not in it. -/
theorem nodup_listed :
    let c := Comparison.of baseline current specs
    (c.newFiles ++ c.deletedFiles ++ c.changedFiles.map (·.path)).Nodup := by
  intro c
  have distinct : ∀ {l : List String}, l.Pairwise (· < ·) → l.Nodup := fun h => h.imp ne_of_lt
  rw [List.nodup_append', List.nodup_append']
  refine ⟨⟨distinct (increasing_pathsOnlyIn current baseline),
    distinct (increasing_pathsOnlyIn baseline current), ?_⟩,
    distinct (increasing_changedFiles baseline current specs), ?_⟩
  · intro path hnew hdeleted
    exact ((mem_pathsOnlyIn _ _ _).1 hnew).2 ((mem_pathsOnlyIn _ _ _).1 hdeleted).1
  · intro path honly hchanged
    obtain ⟨old, new, hold, hnew, -⟩ := (mem_changedPaths _ _ _ _).1 hchanged
    rcases List.mem_append.1 honly with h | h
    · exact ((mem_pathsOnlyIn _ _ _).1 h).2 (ProjectReport.mem_paths_iff.2 ⟨old, hold⟩)
    · exact ((mem_pathsOnlyIn _ _ _).1 h).2 (ProjectReport.mem_paths_iff.2 ⟨new, hnew⟩)

theorem isEmpty_iff :
    (Comparison.of baseline current specs).isEmpty = true
      ↔ (∀ path, path ∈ baseline.paths ↔ path ∈ current.paths) ∧
          ∀ path old new, baseline.entry? path = some old → current.entry? path = some new →
            ∀ m : Metric, m.Asked specs → ¬ m.Differs old new := by
  have none_in : ∀ l : List String, l.isEmpty = true ↔ ∀ path, path ∉ l := fun l => by
    rw [List.isEmpty_iff, List.eq_nil_iff_forall_not_mem]
  have changed_in : (Comparison.of baseline current specs).changedFiles.isEmpty
      = ((Comparison.of baseline current specs).changedFiles.map (·.path)).isEmpty :=
    List.isEmpty_map.symm
  rw [Comparison.isEmpty, Bool.and_eq_true, Bool.and_eq_true, changed_in, none_in, none_in, none_in]
  constructor
  · rintro ⟨⟨no_new, no_deleted⟩, no_changed⟩
    refine ⟨fun path => ⟨fun here => ?_, fun there => ?_⟩,
      fun path old new hold hnew m asked differs => ?_⟩
    · by_contra missing
      exact no_deleted path ((mem_pathsOnlyIn _ _ _).2 ⟨here, missing⟩)
    · by_contra missing
      exact no_new path ((mem_pathsOnlyIn _ _ _).2 ⟨there, missing⟩)
    · exact no_changed path
        ((mem_changedPaths _ _ _ _).2 ⟨old, new, hold, hnew, m, asked, differs⟩)
  · rintro ⟨same, unchanged⟩
    refine ⟨⟨fun path h => ?_, fun path h => ?_⟩, fun path h => ?_⟩
    · obtain ⟨there, missing⟩ := (mem_pathsOnlyIn _ _ _).1 h
      exact missing ((same path).2 there)
    · obtain ⟨here, missing⟩ := (mem_pathsOnlyIn _ _ _).1 h
      exact missing ((same path).1 here)
    · obtain ⟨old, new, hold, hnew, m, asked, differs⟩ := (mem_changedPaths _ _ _ _).1 h
      exact unchanged path old new hold hnew m asked differs

theorem metrics_of : (Comparison.of baseline current specs).metrics
    = Metric.all.filter (Metric.isSelected specs) := by
  simp only [Comparison.of, select_eq, List.map_map]
  exact List.map_id _

theorem metrics_changes (old new : FileReport) :
    ((Metric.all.filter (Metric.hasChanged specs old new)).map
      (Metric.change specs old new)).map (·.metric)
      = (Metric.all.filter (Metric.isSelected specs)).filter (Metric.differs old new) := by
  rw [List.map_map, List.filter_filter]
  refine (List.map_id _).trans (List.filter_congr fun m _ => ?_)
  rw [Metric.hasChanged, Bool.and_comm]

/-- A comparison classifies every path once: as new, deleted, changed or none of these, by the last
    entries under it and the metrics asked for. -/
theorem comparison_classifies :
    (Comparison.of baseline current specs).Classifies baseline current specs where
  metrics := by
    rw [metrics_of]
    refine ⟨fun m => ?_, List.filter_sublist⟩
    rw [List.mem_filter, Metric.asked_iff, and_iff_right m.mem_all]
  newFiles := ⟨increasing_pathsOnlyIn current baseline, mem_pathsOnlyIn current baseline⟩
  deletedFiles := ⟨increasing_pathsOnlyIn baseline current, mem_pathsOnlyIn baseline current⟩
  changedFiles := ⟨increasing_changedFiles baseline current specs,
    mem_changedPaths baseline current specs⟩
  deltas := by
    intro file hfile old new hold hnew
    obtain ⟨old', new', hold', hnew', -, deltas⟩ := (mem_changedFiles _ _ _).1 hfile
    cases hold.symm.trans hold'
    cases hnew.symm.trans hnew'
    rw [deltas, metrics_changes, metrics_of]
    refine ⟨List.filter_sublist, fun m => ?_, fun d hd => ?_⟩
    · rw [List.mem_filter, List.mem_filter, and_iff_right m.mem_all, Metric.asked_iff,
        Metric.differs_iff]
    · obtain ⟨m, -, rfl⟩ := List.mem_map.1 hd
      exact ⟨_, _, FileReport.has_iff.2 rfl, FileReport.has_iff.2 rfl, MetricDelta.tells_of _ _ _ _⟩
  once := nodup_listed baseline current specs
  totals := by
    simp only [Comparison.of, select_eq, List.map_map, Function.comp_def]
    refine ⟨rfl, fun d hd => ?_⟩
    obtain ⟨m, -, rfl⟩ := List.mem_map.1 hd
    exact ⟨_, _, ProjectTotals.has_iff.2 rfl, ProjectTotals.has_iff.2 rfl,
      MetricDelta.tells_of _ _ _ _⟩
  isEmpty := isEmpty_iff baseline current specs

end Classified

/-- Reports out of order, and one with a path twice: the last entry under it counts. -/
theorem comparison_classifies_repeated_path :
    let file (path : String) (cyclomatic : ℕ) : FileReport :=
      { path, language := "go", status := .ok, totals := { cyclomatic := { sum := cyclomatic } } }
    let baseline : ProjectReport :=
      { schemaVersion, toolVersion, totals := {}, files := [file "b.go" 1, file "a.go" 3] }
    let current : ProjectReport :=
      { schemaVersion, toolVersion, totals := {}
        files := [file "a.go" 3, file "c.go" 1, file "a.go" 5] }
    let c := Comparison.of baseline current []
    c.newFiles = ["c.go"] ∧ c.deletedFiles = ["b.go"] ∧ c.isEmpty = false ∧
      ∃ changed ∈ c.changedFiles, changed.path = "a.go" ∧
        (∀ m, m ∈ changed.deltas.map (·.metric) ↔ m = .cyclomatic) ∧
        ∀ d ∈ changed.deltas,
          d.before = 3.0 ∧ d.after = 5.0 ∧ d.delta = 2.0 ∧ d.trend = .worse := by
  intro file baseline current c
  have h : c.Classifies baseline current [] := comparison_classifies baseline current []
  have differs : ∀ m, Metric.Differs (file "a.go" 3) (file "a.go" 5) m ↔ m = .cyclomatic := by
    intro m
    rw [Metric.differs_iff]
    cases m <;> decide +kernel
  have listed : "a.go" ∈ c.changedFiles.map (·.path) :=
    (h.changedFiles.2 "a.go").2 ⟨_, _, rfl, rfl, .cyclomatic, .inl rfl, (differs _).2 rfl⟩
  obtain ⟨changed, hchanged, path⟩ := List.mem_map.1 listed
  have old : baseline.entry? changed.path = some (file "a.go" 3) := by rw [path]; rfl
  have new : current.entry? changed.path = some (file "a.go" 5) := by rw [path]; rfl
  obtain ⟨-, members, tells⟩ := h.deltas changed hchanged _ _ old new
  have metrics : ∀ m, m ∈ changed.deltas.map (·.metric) ↔ m = .cyclomatic := fun m => by
    rw [members, differs]
    exact and_iff_right (.inl rfl)
  refine ⟨by decide +kernel, by decide +kernel, by decide +kernel, changed, hchanged, path, metrics,
    fun d hd => ?_⟩
  have metric : d.metric = .cyclomatic := (metrics _).1 (List.mem_map.2 ⟨d, hd, rfl⟩)
  obtain ⟨x, y, before, after, told⟩ := tells d hd
  rw [metric] at before after
  cases before
  cases after
  refine ⟨told.before.trans (by decide +kernel), told.after.trans (by decide +kernel),
    told.delta.trans (by decide +kernel), ?_⟩
  cases trend : d.trend with
  | worse => rfl
  | same => exact absurd (told.same.1 trend) (by decide +kernel)
  | better =>
    have turned := (told.better.1 trend).2.1 (by decide +kernel)
    rw [told.polarity, metric] at turned
    cases turned

end CodeMetrics

import CodeMetrics.Proofs.Classification

/-! Selectors and their polarities. The last selector of a metric counts: it decides which polarity
    the changes of the metric are told with, and nothing else about it matters. A polarity only
    tells which way is better, so turning it turns the trends of the changes and leaves the rest of
    a comparison as it is. -/

namespace CodeMetrics

/-! ### The last selector of a metric -/

namespace MetricSpec

/-- The last selector of its metric. -/
def IsLast (specs : List MetricSpec) (s : MetricSpec) : Prop :=
  ∃ before after, specs = before ++ s :: after ∧ ∀ t ∈ after, t.metric ≠ s.metric

theorem isLast_iff {specs : List MetricSpec} {s : MetricSpec} {m : Metric} :
    (specs.reverse.find? fun t => t.metric == m) = some s ↔ s.metric = m ∧ IsLast specs s := by
  rw [List.find?_eq_some_iff_append, beq_iff_eq]
  refine and_congr_right fun named => ?_
  subst named
  constructor
  · rintro ⟨front, back, split, others⟩
    refine ⟨back.reverse, front.reverse, ?_, ?_⟩
    · simpa using congrArg List.reverse split
    · intro t ht
      simpa using others t (List.mem_reverse.1 ht)
  · rintro ⟨before, after, rfl, others⟩
    refine ⟨after.reverse, before.reverse, by simp, ?_⟩
    intro t ht
    simpa using others t (List.mem_reverse.1 ht)

/-- Selectors have a last one, if there are any. -/
theorem exists_isLast {specs : List MetricSpec} (named : specs ≠ []) : ∃ s, IsLast specs s :=
  ⟨specs.getLast named, specs.dropLast, [], (List.dropLast_append_getLast named).symm,
    List.forall_mem_nil _⟩

theorem ne_nil_of_isLast {specs : List MetricSpec} {s : MetricSpec} (h : IsLast specs s) :
    specs ≠ [] := by
  obtain ⟨before, after, rfl, -⟩ := h
  simp

end MetricSpec

open MetricSpec (IsLast isLast_iff exists_isLast ne_nil_of_isLast)

theorem select_of_named {specs : List MetricSpec} (named : specs ≠ []) :
    Comparison.select specs
      = Metric.all.filterMap fun m => specs.reverse.find? fun s => s.metric == m := by
  rw [Comparison.select, if_neg (by simpa using named)]

/-- The selectors that count are the last ones of their metrics. -/
theorem mem_select {specs : List MetricSpec} (named : specs ≠ []) {s : MetricSpec} :
    s ∈ Comparison.select specs ↔ IsLast specs s := by
  rw [select_of_named named, List.mem_filterMap]
  constructor
  · rintro ⟨m, -, found⟩
    exact (isLast_iff.1 found).2
  · intro last
    exact ⟨s.metric, s.metric.mem_all, isLast_iff.2 ⟨rfl, last⟩⟩

/-- Only the last selectors count. -/
theorem select_congr {specs specs' : List MetricSpec}
    (same : ∀ s, IsLast specs s ↔ IsLast specs' s) :
    Comparison.select specs = Comparison.select specs' := by
  by_cases named : specs = []
  · have none' : specs' = [] := by
      by_contra named'
      obtain ⟨s, last⟩ := exists_isLast named'
      exact ne_nil_of_isLast ((same s).2 last) named
    rw [named, none']
  · obtain ⟨s, last⟩ := exists_isLast named
    rw [select_of_named named, select_of_named (ne_nil_of_isLast ((same s).1 last))]
    refine List.filterMap_congr fun m _ => Option.ext fun t => ?_
    rw [isLast_iff, isLast_iff, same]

/-! ### Turned polarities -/

/-- The other polarity. -/
def Polarity.opposite : Polarity → Polarity
  | .lowerIsBetter => .higherIsBetter
  | .higherIsBetter => .lowerIsBetter

section Turn

variable (turned : Metric → Bool)

/-- A selector with the other polarity, if its metric is turned. -/
def MetricSpec.turn (s : MetricSpec) : MetricSpec :=
  if turned s.metric then { s with polarity := s.polarity.opposite } else s

/-- A change by the other polarity, if its metric is turned: what was better is worse, and what was
    the same is the same. -/
def MetricDelta.turn (d : MetricDelta) : MetricDelta :=
  if turned d.metric then
    { d with polarity := d.polarity.opposite, trend := d.trend.opposite }
  else d

/-- The changes of a file by the other polarity of some metrics. -/
def FileComparison.turn (f : FileComparison) : FileComparison :=
  { f with deltas := f.deltas.map (MetricDelta.turn turned) }

/-- A comparison by the other polarity of some metrics. -/
def Comparison.turn (c : Comparison) : Comparison :=
  { c with
    changedFiles := c.changedFiles.map (FileComparison.turn turned)
    totals := c.totals.map (MetricDelta.turn turned) }

@[simp] theorem MetricSpec.metric_turn (s : MetricSpec) : (s.turn turned).metric = s.metric := by
  rw [turn]
  split <;> rfl

/-- The other polarity gives the opposite trend, for a difference that is no number too. -/
theorem Trend.of_opposite (delta : Float) (p : Polarity) :
    Trend.of delta p.opposite = (Trend.of delta p).opposite := by
  unfold Trend.of
  split
  · rfl
  · cases decide (delta > 0.0) <;> cases p <;> rfl

theorem MetricDelta.of_turn (s : MetricSpec) (before after : Float) :
    MetricDelta.of (s.turn turned) before after = (MetricDelta.of s before after).turn turned := by
  have metric : (MetricDelta.of s before after).metric = s.metric := rfl
  rw [MetricSpec.turn, MetricDelta.turn, metric]
  split
  · simp only [MetricDelta.of, Trend.of_opposite]
  · rfl

/-- Whether a value has changed does not depend on the polarity. -/
@[simp] theorem MetricDelta.changed_turn (d : MetricDelta) :
    (d.turn turned).changed = d.changed := by
  rw [MetricDelta.turn]
  split <;> rfl

/-- Turning the polarity of all selectors of a metric turns that of its last one. -/
theorem select_turn {specs : List MetricSpec} (named : specs ≠ []) :
    Comparison.select (specs.map (MetricSpec.turn turned))
      = (Comparison.select specs).map (MetricSpec.turn turned) := by
  rw [select_of_named named, select_of_named (by simpa using named), List.map_filterMap]
  refine List.filterMap_congr fun m _ => ?_
  rw [← List.map_reverse, List.find?_map]
  simp

theorem fileChanges?_turn (specs : List MetricSpec) (path : String) (before after : FileReport) :
    Comparison.fileChanges? (specs.map (MetricSpec.turn turned)) path before after
      = (Comparison.fileChanges? specs path before after).map (FileComparison.turn turned) := by
  have deltas : ((specs.map (MetricSpec.turn turned)).map fun s =>
      MetricDelta.of s (s.metric.ofFile before) (s.metric.ofFile after)).filter MetricDelta.changed
      = ((specs.map fun s => MetricDelta.of s (s.metric.ofFile before)
          (s.metric.ofFile after)).filter MetricDelta.changed).map (MetricDelta.turn turned) := by
    induction specs with
    | nil => rfl
    | cons s specs ih =>
      simp only [List.map_cons, List.filter_cons, MetricSpec.metric_turn, MetricDelta.of_turn,
        MetricDelta.changed_turn, ih]
      split <;> rfl
  simp only [Comparison.fileChanges?, deltas, List.isEmpty_map]
  split <;> rfl

/-- A comparison by turned polarities is the comparison turned. -/
theorem comparison_turn (baseline current : ProjectReport) {specs : List MetricSpec}
    (named : specs ≠ []) :
    Comparison.of baseline current (specs.map (MetricSpec.turn turned))
      = (Comparison.of baseline current specs).turn turned := by
  simp only [Comparison.of, Comparison.turn, select_turn turned named, List.map_map,
    List.map_filterMap, Function.comp_def, MetricSpec.metric_turn, MetricDelta.of_turn]
  congr 1
  refine List.filterMap_congr fun p _ => ?_
  rw [Option.map_bind]
  exact congrArg _ (funext fun file => fileChanges?_turn turned _ _ _ file)

end Turn

/-! ### What selectors decide -/

/-- The metrics and polarities of a comparison are those of the last selectors of each metric. -/
structure Comparison.Heeds (c : Comparison) (specs : List MetricSpec) : Prop where
  /-- The metrics are in the order of columns, each once. -/
  ordered : c.metrics.Sublist Metric.all
  nodup : c.metrics.Nodup
  named : ∀ m, m ∈ c.metrics ↔ ∃ s ∈ specs, s.metric = m
  /-- Totals and changes stand in the order of the metrics. -/
  totals : c.totals.map (·.metric) = c.metrics
  deltas : ∀ file ∈ c.changedFiles, (file.deltas.map (·.metric)).Sublist c.metrics
  polarity : ∀ d ∈ c.totals ++ c.changedFiles.flatMap (·.deltas),
    IsLast specs ⟨d.metric, d.polarity⟩

/-- A metric that is asked for is told with the polarity of its last selector. -/
theorem isLast_polarityIn {specs : List MetricSpec} (some_named : specs ≠ []) {m : Metric}
    (selected : m.isSelected specs = true) : IsLast specs ⟨m, m.polarityIn specs⟩ := by
  rw [← mem_select some_named, select_eq]
  exact List.mem_map.2 ⟨m, List.mem_filter.2 ⟨m.mem_all, selected⟩, rfl⟩

theorem heeds_of_named (baseline current : ProjectReport) {specs : List MetricSpec}
    (some_named : specs ≠ []) : (Comparison.of baseline current specs).Heeds specs where
  ordered := by
    rw [metrics_of]
    exact List.filter_sublist
  nodup := by
    rw [metrics_of]
    exact List.Nodup.filter _ (by decide)
  named m := by
    rw [metrics_of, List.mem_filter]
    simp [Metric.mem_all, Metric.isSelected, some_named]
  totals := by simp only [Comparison.of, List.map_map, Function.comp_def, MetricDelta.of]
  deltas := by
    intro file hfile
    obtain ⟨old, new, -, -, -, deltas⟩ := (mem_changedFiles _ _ _).1 hfile
    rw [deltas, metrics_changes, metrics_of]
    exact List.filter_sublist
  polarity := by
    intro d hd
    rcases List.mem_append.1 hd with hd | hd
    · obtain ⟨s, hs, rfl⟩ := List.mem_map.1 hd
      exact (mem_select some_named).1 hs
    · obtain ⟨file, hfile, hd⟩ := List.mem_flatMap.1 hd
      obtain ⟨old, new, -, -, -, deltas⟩ := (mem_changedFiles _ _ _).1 hfile
      rw [deltas] at hd
      obtain ⟨m, hm, rfl⟩ := List.mem_map.1 hd
      have changed := (List.mem_filter.1 hm).2
      rw [Metric.hasChanged, Bool.and_eq_true] at changed
      exact isLast_polarityIn some_named changed.1

theorem select_nil :
    Comparison.select [] = Comparison.select (Metric.all.map MetricSpec.ofMetric) := by
  decide

/-- The last selector of each metric decides its polarity, so only the last ones matter, and no
    selectors are as good as one for each metric with its own polarity. Turning the polarity of some
    metrics turns the trends of their changes, and changes nothing else. -/
theorem last_polarity_counts (baseline current : ProjectReport) (specs : List MetricSpec)
    (some_named : specs ≠ []) :
    (Comparison.of baseline current specs).Heeds specs ∧
    (∀ specs', (∀ s, IsLast specs' s ↔ IsLast specs s) →
      Comparison.of baseline current specs' = Comparison.of baseline current specs) ∧
    Comparison.of baseline current []
      = Comparison.of baseline current (Metric.all.map MetricSpec.ofMetric) ∧
    ∀ turned, Comparison.of baseline current (specs.map (MetricSpec.turn turned))
      = (Comparison.of baseline current specs).turn turned := by
  refine ⟨heeds_of_named baseline current some_named, ?_, ?_, ?_⟩
  · intro specs' same
    rw [Comparison.of, Comparison.of, select_congr same]
  · rw [Comparison.of, Comparison.of, select_nil]
  · intro turned
    exact comparison_turn turned baseline current some_named

/-- A metric that is named twice, and one whose total is no number. -/
theorem last_polarity_counts_named_twice :
    let file (cognitive : ℕ) (index : Float) : FileReport :=
      { path := "a.go", language := "go", status := .ok,
        totals := { cognitive := { sum := cognitive }, maintainability := index } }
    let baseline : ProjectReport :=
      { schemaVersion, toolVersion, totals := { maintainability := 0.0 / 0.0 },
        files := [file 3 81.5] }
    let current : ProjectReport :=
      { schemaVersion, toolVersion, totals := { maintainability := 62.0 }, files := [file 5 62.0] }
    let specs : List MetricSpec :=
      [⟨.maintainability, .higherIsBetter⟩, ⟨.cognitive, .lowerIsBetter⟩,
       ⟨.cognitive, .higherIsBetter⟩]
    let c := Comparison.of baseline current specs
    let turned := c.turn (· == .cognitive)
    c.Heeds specs ∧ c.metrics = [.cognitive, .maintainability] ∧
      (c.changedFiles.flatMap (·.deltas)).map (·.trend) = [.better, .worse] ∧
      Comparison.of baseline current (specs.map (MetricSpec.turn (· == .cognitive))) = turned ∧
      (turned.changedFiles.flatMap (·.deltas)).map (·.trend) = [.worse, .worse] ∧
      turned.totals.map (·.trend) = c.totals.map (·.trend) ∧
      Comparison.of baseline current (specs.drop 1 ++ specs.take 1) = c := by
  intro file baseline current specs c turned
  have some_named : specs ≠ [] := List.cons_ne_nil _ _
  have some_named' : specs.drop 1 ++ specs.take 1 ≠ [] := List.cons_ne_nil _ _
  obtain ⟨heeds, others, -, turns⟩ := last_polarity_counts baseline current specs some_named
  refine ⟨heeds, by decide +kernel, by decide +kernel, turns _, by decide +kernel,
    by decide +kernel, others _ fun s => ?_⟩
  rw [← mem_select some_named, ← mem_select some_named']
  rfl

end CodeMetrics

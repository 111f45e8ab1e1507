import CodeMetrics.Proofs.Merging
import CodeMetrics.Proofs.Whole

/-! A comparison balances. What a count gained in total is what it gained in the changed files, with
    what the new files bring and without what the deleted files took away.

    The totals of a report are the sums of the counts of its files, whether they are added up from
    the files or from all routines. Two reports have the files under common paths, those that are
    only in the one and those that are only in the other. A file in common that is not among the
    changed ones has the same count before and after, as whole numbers are only within the tolerance
    where they are equal. -/

namespace CodeMetrics

open Rollup Rounding

/-! ### Counts -/

namespace Metric

/-- The metrics that are counts. -/
def counts : List Metric := [.cyclomatic, .cognitive, .functions, .closures, .logicalLines, .wmc]

/-- The count that a metric is of a file; none where it is no count. -/
def inFile (m : Metric) (file : FileReport) : ℕ :=
  match m with
  | .cyclomatic => file.totals.cyclomatic.sum
  | .cognitive => file.totals.cognitive.sum
  | .functions => file.totals.functions
  | .closures => file.totals.counts.closures
  | .logicalLines => file.totals.lines.logical
  | .wmc => file.totals.wmc
  | .halsteadVolume | .maintainability | .abc => 0

/-- The count that a metric is of a project; none where it is no count. -/
def inProject (m : Metric) (totals : ProjectTotals) : ℕ :=
  match m with
  | .cyclomatic => totals.cyclomatic.sum
  | .cognitive => totals.cognitive.sum
  | .functions => totals.functions
  | .closures => totals.counts.closures
  | .logicalLines => totals.lines.logical
  | .wmc => totals.wmc
  | .halsteadVolume | .maintainability | .abc => 0

theorem ofFile_count {m : Metric} (count : m ∈ counts) (file : FileReport) :
    m.ofFile file = Float.ofNat (m.inFile file) := by
  fin_cases count <;> rfl

theorem ofProject_count {m : Metric} (count : m ∈ counts) (totals : ProjectTotals) :
    m.ofProject totals = Float.ofNat (m.inProject totals) := by
  fin_cases count <;> rfl

end Metric

/-! ### Totals are sums over files -/

/-- An entry of a report: of a file that was measured, or of one that could not be. -/
inductive FileReport.Entered : FileReport → Prop
  | measured (path : String) (language : Language) (m : FileMeasures) (faults : List SyntaxFault) :
    Entered (.measured path language m faults)
  | failed (path : String) (language : Option Language) (error : Error) :
    Entered (.failed path language error)

namespace FileReport.Entered

variable {file : FileReport} (h : file.Entered)

include h

theorem functions : file.totals.functions = file.routines.length := by cases h <;> rfl

theorem cyclomatic : file.totals.cyclomatic.sum = sumOf (file.routines.map (·.cyclomatic)) := by
  cases h <;> rfl

theorem cognitive : file.totals.cognitive.sum = sumOf (file.routines.map (·.cognitive)) := by
  cases h <;> rfl

end FileReport.Entered

theorem sumOf_routines_eq (amount : RoutineMetrics → ℕ) (files : List FileReport) :
    sumOf ((files.flatMap (·.routines)).map amount)
      = sumOf (files.map fun f => sumOf (f.routines.map amount)) := by
  rw [List.map_flatMap, sumOf_flatMap]

theorem foldl_count {α : Type} (add : α → α → α) (count : α → ℕ)
    (step : ∀ a b, count (add a b) = count a + count b) (a : α) (l : List α) :
    count (l.foldl add a) = count a + sumOf (l.map count) := by
  induction l generalizing a with
  | nil => rfl
  | cons b l ih => rw [List.foldl_cons, ih, step, List.map_cons, sumOf_cons, Nat.add_assoc]

/-- The total of a count is the sum over the files, also where it is taken from the routines. -/
theorem inProject_totalsBy {m : Metric} (count : m ∈ Metric.counts) (plus : Float → Float → Float)
    {files : List FileReport} (entered : ∀ f ∈ files, f.Entered) :
    m.inProject (totalsBy plus files) = sumOf (files.map m.inFile) := by
  fin_cases count
  · exact (sumOf_routines_eq _ files).trans (congrArg sumOf
      (List.map_congr_left fun f hf => (entered f hf).cyclomatic.symm))
  · exact (sumOf_routines_eq _ files).trans (congrArg sumOf
      (List.map_congr_left fun f hf => (entered f hf).cognitive.symm))
  · have length : (files.flatMap (·.routines)).length = sumOf (files.map (·.routines.length)) := by
      induction files with
      | nil => rfl
      | cons f files ih => simp [ih fun f hf => entered f (List.mem_cons_of_mem _ hf)]
    exact length.trans (congrArg sumOf
      (List.map_congr_left fun f hf => (entered f hf).functions.symm))
  · have sum := foldl_count RoutineCounts.add (·.closures) (fun _ _ => rfl) {}
      (files.map (·.totals.counts))
    rw [List.map_map, Nat.zero_add] at sum
    exact sum
  · have sum := foldl_count LineCounts.add (·.logical) (fun _ _ => rfl) {}
      (files.map (·.totals.lines))
    rw [List.map_map, Nat.zero_add] at sum
    exact sum
  · rfl

/-! ### Files by path -/

/-- Files in strict order stay where they are. -/
theorem byPath_eq {report : ProjectReport} (ordered : Ordered FileReport.path report.files) :
    Comparison.byPath report = report.files.map fun f => (f.path, f) := by
  have entries : Ordered Prod.fst (report.files.map fun f => (f.path, f)) :=
    List.pairwise_map.2 ordered
  rw [← foldl_insertSorted entries, List.foldl_map]
  rfl

theorem lookup_files (path : String) (files : List FileReport) :
    (files.map fun f => (f.path, f)).lookup path = first? FileReport.path path files := by
  induction files with
  | nil => rfl
  | cons f files ih =>
    rw [List.map_cons, List.lookup_cons, first?, List.find?_cons, BEq.comm]
    cases f.path == path with
    | true => rfl
    | false => exact ih

/-- The files under common paths, as they were before and as they are after. -/
def matched (before after : List FileReport) : List (FileReport × FileReport) :=
  before.filterMap fun f => (first? FileReport.path f.path after).map (f, ·)

/-- The files whose paths are in another list too. -/
def shared (files others : List FileReport) : List FileReport :=
  files.filter fun f => (first? FileReport.path f.path others).isSome

/-- The files whose paths are not in another list. -/
def apart (files others : List FileReport) : List FileReport :=
  files.filter fun f => (first? FileReport.path f.path others).isNone

theorem matched_fst (before after : List FileReport) :
    (matched before after).map Prod.fst = shared before after := by
  induction before with
  | nil => rfl
  | cons f before ih =>
    rw [matched, List.filterMap_cons, shared, List.filter_cons]
    cases first? FileReport.path f.path after <;> simpa [matched, shared] using ih

/-- In a list in strict order, a file is the only one under its path. -/
theorem first?_of_ordered {files : List FileReport} (ordered : Ordered FileReport.path files)
    {f : FileReport} (h : f ∈ files) : first? FileReport.path f.path files = some f := by
  have nodup : (files.map FileReport.path).Nodup :=
    List.pairwise_map.2 (ordered.imp ne_of_compare_lt)
  exact first?_of_mem (fun _ ha _ hb => List.inj_on_of_nodup_map nodup ha hb) h

theorem mem_matched {before after : List FileReport} {p : FileReport × FileReport} :
    p ∈ matched before after
      ↔ p.1 ∈ before ∧ first? FileReport.path p.1.path after = some p.2 := by
  rw [matched, List.mem_filterMap]
  constructor
  · rintro ⟨f, hf, h⟩
    obtain ⟨g, hg, rfl⟩ := Option.map_eq_some_iff.1 h
    exact ⟨hf, hg⟩
  · rintro ⟨hf, hg⟩
    exact ⟨p.1, hf, Option.map_eq_some_iff.2 ⟨p.2, hg, rfl⟩⟩

/-- Matching goes both ways. -/
theorem matched_swap {before after : List FileReport} (ordered : Ordered FileReport.path before)
    (ordered' : Ordered FileReport.path after) :
    matched after before = (matched before after).map Prod.swap := by
  have order : Ordered (fun p => p.1.path) (matched after before) := by
    rw [matched, Ordered, List.pairwise_filterMap]
    refine ordered'.imp fun hlt p hp q hq => ?_
    obtain ⟨g, -, rfl⟩ := Option.map_eq_some_iff.1 hp
    obtain ⟨g', -, rfl⟩ := Option.map_eq_some_iff.1 hq
    exact hlt
  have order' : Ordered (fun p => p.1.path) ((matched before after).map Prod.swap) := by
    rw [matched, Ordered, List.pairwise_map, List.pairwise_filterMap]
    refine ordered.imp fun hlt p hp q hq => ?_
    obtain ⟨g, hg, rfl⟩ := Option.map_eq_some_iff.1 hp
    obtain ⟨g', hg', rfl⟩ := Option.map_eq_some_iff.1 hq
    rwa [Prod.fst_swap, Prod.fst_swap, key_of_first? hg, key_of_first? hg']
  have turned : ∀ {files others : List FileReport}, Ordered FileReport.path files →
      ∀ {p : FileReport × FileReport}, p ∈ matched files others → p.swap ∈ matched others files := by
    intro files others ordered p hp
    obtain ⟨hf, hg⟩ := mem_matched.1 hp
    refine mem_matched.2 ⟨mem_of_first? hg, ?_⟩
    rw [Prod.fst_swap, Prod.snd_swap, key_of_first? hg]
    exact first?_of_ordered ordered hf
  refine order.eq_of_mem_iff order' fun p => ?_
  rw [List.mem_map]
  constructor
  · intro hp
    exact ⟨p.swap, turned ordered' hp, p.swap_swap⟩
  · rintro ⟨q, hq, rfl⟩
    exact turned ordered hq

theorem matched_snd {before after : List FileReport} (ordered : Ordered FileReport.path before)
    (ordered' : Ordered FileReport.path after) :
    (matched before after).map Prod.snd = shared after before := by
  rw [← matched_fst, matched_swap ordered ordered', List.map_map]
  rfl

theorem sumOf_shared_add_apart (amount : FileReport → ℕ) (files others : List FileReport) :
    sumOf ((shared files others).map amount) + sumOf ((apart files others).map amount)
      = sumOf (files.map amount) := by
  rw [← sumOf_append, ← List.map_append]
  simp only [shared, apart, ← Option.not_isSome]
  exact sumOf_perm ((List.filter_append_perm _ _).map _)

/-! ### What a comparison lists -/

/-- The change of a metric among changes. -/
def deltaOf (m : Metric) (deltas : List MetricDelta) : Option Float :=
  (deltas.find? fun d => d.metric == m).map (·.delta)

theorem find?_filter_all (keep : Metric → Bool) (m : Metric) :
    (Metric.all.filter keep).find? (fun other => other == m) = if keep m then some m else none := by
  rw [List.find?_filter]
  cases h : keep m <;> cases m <;> simp [Metric.all, h]

/-- Of changes of metrics, some of them left out, the one of a metric. -/
theorem deltaOf_filter (delta : Metric → MetricDelta) (same : ∀ m, (delta m).metric = m)
    (keep : MetricDelta → Bool) (m : Metric) :
    deltaOf m ((Metric.all.map delta).filter keep)
      = if keep (delta m) then some (delta m).delta else none := by
  rw [deltaOf, List.filter_map, List.find?_map]
  simp only [Function.comp_def, same]
  rw [find?_filter_all]
  split <;> rfl

section Listed

variable (baseline current : ProjectReport) (m : Metric)

/-- The totals list every metric. -/
theorem deltaOf_totals : deltaOf m (Comparison.of baseline current []).totals
    = some (m.ofProject current.totals - m.ofProject baseline.totals) := by
  have all := deltaOf_filter (fun m => MetricDelta.of (.ofMetric m) (m.ofProject baseline.totals)
    (m.ofProject current.totals)) (fun _ => rfl) (fun _ => true) m
  rw [List.filter_true] at all
  exact all

/-- The changes of a file list the metrics that have changed. -/
theorem deltaOf_fileChanges? (path : String) (before after : FileReport) :
    ((Comparison.fileChanges? (Comparison.select []) path before after).bind fun c =>
        deltaOf m c.deltas)
      = if (m.ofFile after - m.ofFile before).abs > tolerance
        then some (m.ofFile after - m.ofFile before) else none := by
  set changes := ((Comparison.select []).map fun s =>
    MetricDelta.of s (s.metric.ofFile before) (s.metric.ofFile after)).filter MetricDelta.changed
    with changes_eq
  have listed : ((Comparison.fileChanges? (Comparison.select []) path before after).bind fun c =>
      deltaOf m c.deltas) = deltaOf m changes := by
    rw [Comparison.fileChanges?, ← changes_eq]
    split
    · next h => rw [List.isEmpty_iff.1 h]; rfl
    · rfl
  rw [listed]
  refine (deltaOf_filter (fun m => MetricDelta.of (.ofMetric m) (m.ofFile before)
    (m.ofFile after)) (fun _ => rfl) MetricDelta.changed m).trans ?_
  simp only [MetricDelta.changed, decide_eq_true_eq]
  rfl

variable {baseline current}

/-- The changed files are found among the files under common paths. -/
theorem changedFiles_matched {before after : List FileReport}
    (files : Comparison.byPath baseline = before.map fun f => (f.path, f))
    (files' : Comparison.byPath current = after.map fun f => (f.path, f))
    (specs : List MetricSpec) :
    (Comparison.of baseline current specs).changedFiles
      = (matched before after).filterMap fun p =>
          Comparison.fileChanges? (Comparison.select specs) p.1.path p.1 p.2 := by
  simp only [Comparison.of, files, files', lookup_files, matched, List.filterMap_map,
    List.filterMap_filterMap]
  refine List.filterMap_congr fun f _ => ?_
  simp only [Function.comp_apply, Option.bind_map]

theorem changedFiles_eq (ordered : Ordered FileReport.path baseline.files)
    (ordered' : Ordered FileReport.path current.files) :
    (Comparison.of baseline current []).changedFiles
      = (matched baseline.files current.files).filterMap fun p =>
          Comparison.fileChanges? (Comparison.select []) p.1.path p.1 p.2 :=
  changedFiles_matched (byPath_eq ordered) (byPath_eq ordered') []

/-- The files that are listed as only in the one report are those. -/
theorem filter_pathsOnlyIn (files others : List FileReport) :
    (files.filter fun f => f.path ∈ Comparison.pathsOnlyIn (files.map fun f => (f.path, f))
        (others.map fun f => (f.path, f))) = apart files others := by
  refine List.filter_congr fun f hf => ?_
  have only : f.path ∈ Comparison.pathsOnlyIn (files.map fun f => (f.path, f))
      (others.map fun f => (f.path, f)) ↔ (first? FileReport.path f.path others).isNone := by
    simpa [Comparison.pathsOnlyIn, lookup_files, Function.comp_def] using fun _ => ⟨f, hf, rfl⟩
  simp only [only, Bool.decide_eq_true]

theorem newFiles_eq (ordered : Ordered FileReport.path baseline.files)
    (ordered' : Ordered FileReport.path current.files) :
    (current.files.filter fun f => f.path ∈ (Comparison.of baseline current []).newFiles)
      = apart current.files baseline.files := by
  simp only [Comparison.of, byPath_eq ordered, byPath_eq ordered', filter_pathsOnlyIn]

theorem deletedFiles_eq (ordered : Ordered FileReport.path baseline.files)
    (ordered' : Ordered FileReport.path current.files) :
    (baseline.files.filter fun f => f.path ∈ (Comparison.of baseline current []).deletedFiles)
      = apart baseline.files current.files := by
  simp only [Comparison.of, byPath_eq ordered, byPath_eq ordered', filter_pathsOnlyIn]

end Listed

/-! ### Sums of counts and of their changes -/

/-- A sum of numbers of 64 bits, from left to right. -/
def addUp (xs : List Float) : Float := xs.foldl (· + ·) 0.0

theorem le_sumOf {α : Type} (count : α → ℕ) {l : List α} {a : α} (h : a ∈ l) :
    count a ≤ sumOf (l.map count) := by
  induction l with
  | nil => cases h
  | cons b l ih =>
    rw [List.map_cons, sumOf_cons]
    rcases List.mem_cons.1 h with rfl | h
    · omega
    · have := ih h
      omega

section Differences

variable {α : Type} {x : α → Float} {gain loss : α → ℕ} {l : List α}

/-- Differences of counts add up exactly where both sides do: no sum on the way is greater than what
    is gained or less than what is lost. -/
theorem stands_foldl (stands : ∀ a ∈ l, Stands (x a) (gain a - loss a)) {y : Float} {k : ℤ}
    (start : Stands y k) (high : k + sumOf (l.map gain) < 2 ^ 53)
    (low : sumOf (l.map loss) - k < 2 ^ 53) :
    Stands ((l.map x).foldl (· + ·) y) (k + sumOf (l.map gain) - sumOf (l.map loss)) := by
  induction l generalizing y k with
  | nil => simpa using start
  | cons a l ih =>
    obtain ⟨ha, hl⟩ := List.forall_mem_cons.1 stands
    simp only [List.map_cons, sumOf_cons, List.foldl_cons] at high low ⊢
    push_cast at high low ⊢
    have next := start.add ha (by omega)
    convert ih hl next (by omega) (by omega) using 1
    ring

theorem stands_addUp (stands : ∀ a ∈ l, Stands (x a) (gain a - loss a))
    (high : sumOf (l.map gain) < 2 ^ 53) (low : sumOf (l.map loss) < 2 ^ 53) :
    Stands (addUp (l.map x)) (sumOf (l.map gain) - sumOf (l.map loss)) := by
  have sum := stands_foldl stands stands_zero (by omega) (by omega)
  rw [zero_add] at sum
  exact sum

theorem sum_exactValue (stands : ∀ a ∈ l, Stands (x a) (gain a - loss a)) :
    ((l.map x).map exactValue).sum = sumOf (l.map gain) - sumOf (l.map loss) := by
  induction l with
  | nil => simp
  | cons a l ih =>
    obtain ⟨ha, hl⟩ := List.forall_mem_cons.1 stands
    rw [List.map_cons, List.map_cons, List.sum_cons, ih hl, ha.exact]
    simp only [List.map_cons, sumOf_cons]
    push_cast
    ring

theorem sumOf_zero : sumOf (l.map fun _ => 0) = 0 := by
  induction l with
  | nil => rfl
  | cons a l ih => rw [List.map_cons, sumOf_cons, ih]

theorem sumOf_filter_le (count : α → ℕ) (keep : α → Bool) :
    sumOf ((l.filter keep).map count) ≤ sumOf (l.map count) := by
  induction l with
  | nil => rfl
  | cons a l ih =>
    rw [List.filter_cons]
    split <;> simp only [List.map_cons, sumOf_cons] <;> omega

/-- What has not changed can be left out of the differences. -/
theorem sumOf_filter_sub (keep : α → Bool) (same : ∀ a ∈ l, keep a = false → gain a = loss a) :
    (sumOf ((l.filter keep).map gain) : ℤ) - sumOf ((l.filter keep).map loss)
      = sumOf (l.map gain) - sumOf (l.map loss) := by
  induction l with
  | nil => rfl
  | cons a l ih =>
    obtain ⟨ha, hl⟩ := List.forall_mem_cons.1 same
    have rest := ih hl
    rw [List.filter_cons]
    cases h : keep a with
    | true =>
      simp only [if_true, List.map_cons, sumOf_cons]
      omega
    | false =>
      have := ha h
      simp only [Bool.false_eq_true, if_false, List.map_cons, sumOf_cons]
      omega

end Differences

/-! ### The balance -/

section Balance

variable {m : Metric} (count : m ∈ Metric.counts) {before after : List FileReport}
  (small : sumOf (before.map m.inFile) < 2 ^ 53)

include count small

theorem stands_ofFile {f : FileReport} (h : f ∈ before) : Stands (m.ofFile f) (m.inFile f) := by
  rw [Metric.ofFile_count count]
  exact stands_ofNat ((le_sumOf m.inFile h).trans_lt small)

theorem stands_matched (small' : sumOf (after.map m.inFile) < 2 ^ 53)
    {p : FileReport × FileReport} (h : p ∈ matched before after) :
    Stands (m.ofFile p.2 - m.ofFile p.1) (m.inFile p.2 - m.inFile p.1) := by
  obtain ⟨hf, hg⟩ := mem_matched.1 h
  have hg := mem_of_first? hg
  refine (stands_ofFile count small' hg).sub (stands_ofFile count small hf) ?_
  have := le_sumOf m.inFile hf
  have := le_sumOf m.inFile hg
  omega

/-- What the files apart bring. -/
theorem stands_apart (after : List FileReport) :
    Stands (addUp ((apart before after).map m.ofFile))
        (sumOf ((apart before after).map m.inFile)) ∧
      (((apart before after).map m.ofFile).map exactValue).sum
        = sumOf ((apart before after).map m.inFile) := by
  have stands : ∀ f ∈ apart before after, Stands (m.ofFile f) (m.inFile f - (0 : ℕ)) := by
    intro f hf
    rw [Nat.cast_zero, sub_zero]
    exact stands_ofFile count small (List.mem_of_mem_filter hf)
  have split := sumOf_shared_add_apart m.inFile before after
  have sum := stands_addUp stands (by omega) (by rw [sumOf_zero]; norm_num)
  have exact := sum_exactValue stands
  rw [sumOf_zero, Nat.cast_zero, sub_zero] at sum exact
  exact ⟨sum, exact⟩

end Balance

/-- The files that have another count than before. -/
def moved (m : Metric) (before after : List FileReport) : List (FileReport × FileReport) :=
  (matched before after).filter fun p => m.inFile p.2 != m.inFile p.1

/-- The changes that a comparison lists of a count. -/
theorem changes_eq {m : Metric} (count : m ∈ Metric.counts) {baseline current : ProjectReport}
    (ordered : Ordered FileReport.path baseline.files)
    (ordered' : Ordered FileReport.path current.files)
    (small : sumOf (baseline.files.map m.inFile) < 2 ^ 53)
    (small' : sumOf (current.files.map m.inFile) < 2 ^ 53) :
    ((Comparison.of baseline current []).changedFiles.filterMap fun f => deltaOf m f.deltas)
      = (moved m baseline.files current.files).map fun p => m.ofFile p.2 - m.ofFile p.1 := by
  rw [changedFiles_eq ordered ordered', List.filterMap_filterMap, moved, ← List.filterMap_eq_map,
    List.filterMap_filter]
  refine List.filterMap_congr fun p hp => ?_
  have changed := (stands_matched count small small' hp).changed_iff
  rw [deltaOf_fileChanges?]
  simp only [changed, sub_ne_zero, bne_iff_ne, ne_eq, Nat.cast_inj, Function.comp_apply]

/-- The changes of files in common, the new files and the deleted ones make up the difference. -/
theorem stands_balance {m : Metric} (count : m ∈ Metric.counts) {before after : List FileReport}
    (ordered : Ordered FileReport.path before) (ordered' : Ordered FileReport.path after)
    (small : sumOf (before.map m.inFile) < 2 ^ 53) (small' : sumOf (after.map m.inFile) < 2 ^ 53) :
    let changes := (moved m before after).map fun p => m.ofFile p.2 - m.ofFile p.1
    let gained := (apart after before).map m.ofFile
    let lost := (apart before after).map m.ofFile
    Stands (addUp changes + addUp gained - addUp lost)
        (sumOf (after.map m.inFile) - sumOf (before.map m.inFile)) ∧
      (changes.map exactValue).sum + (gained.map exactValue).sum - (lost.map exactValue).sum
        = sumOf (after.map m.inFile) - sumOf (before.map m.inFile) := by
  intro changes gained lost
  have stands : ∀ p ∈ moved m before after,
      Stands (m.ofFile p.2 - m.ofFile p.1) (m.inFile p.2 - m.inFile p.1) := fun p hp =>
    stands_matched count small small' (List.mem_of_mem_filter hp)
  have fst : sumOf ((matched before after).map fun p => m.inFile p.1)
      = sumOf ((shared before after).map m.inFile) := by
    rw [← matched_fst, List.map_map]; rfl
  have snd : sumOf ((matched before after).map fun p => m.inFile p.2)
      = sumOf ((shared after before).map m.inFile) := by
    rw [← matched_snd ordered ordered', List.map_map]; rfl
  have split := sumOf_shared_add_apart m.inFile before after
  have split' := sumOf_shared_add_apart m.inFile after before
  have kept : (sumOf ((moved m before after).map fun p => m.inFile p.2) : ℤ)
      - sumOf ((moved m before after).map fun p => m.inFile p.1)
      = sumOf ((shared after before).map m.inFile) - sumOf ((shared before after).map m.inFile) := by
    rw [← fst, ← snd]
    exact sumOf_filter_sub _ fun p _ h => by simpa using h
  have high : sumOf ((moved m before after).map fun p => m.inFile p.2)
      ≤ sumOf ((shared after before).map m.inFile) := snd ▸ sumOf_filter_le _ _
  have low : sumOf ((moved m before after).map fun p => m.inFile p.1)
      ≤ sumOf ((shared before after).map m.inFile) := fst ▸ sumOf_filter_le _ _
  have moves := stands_addUp stands (by omega) (by omega)
  obtain ⟨gains, exactGains⟩ := stands_apart count small' before
  obtain ⟨losses, exactLosses⟩ := stands_apart count small after
  constructor
  · convert (moves.add gains (by omega)).sub losses (by omega) using 1
    omega
  · rw [sum_exactValue stands, exactGains, exactLosses]
    have whole : (sumOf ((moved m before after).map fun p => m.inFile p.2) : ℤ)
        - sumOf ((moved m before after).map fun p => m.inFile p.1)
        + sumOf ((apart after before).map m.inFile) - sumOf ((apart before after).map m.inFile)
        = sumOf (after.map m.inFile) - sumOf (before.map m.inFile) := by omega
    exact_mod_cast congrArg (Int.cast (R := ℚ)) whole

theorem Rollup.Build.entered_files (b : Build) (entered : ∀ f, .file f ∈ b.steps → f.Entered) :
    ∀ f ∈ b.run.files, f.Entered := fun f hf => entered f (mem_steps hf)

/-- A comparison balances: what a count gained in total is what it gained in the changed files, with
    what the new files bring and without what the deleted files took away. The numbers of 64 bits
    are equal, and so are their exact values, where both totals have at most 53 bits. -/
theorem totals_balance {m : Metric} (count : m ∈ Metric.counts) (before after : Build)
    (entered : ∀ f, .file f ∈ before.steps → f.Entered)
    (entered' : ∀ f, .file f ∈ after.steps → f.Entered)
    (generatedAt generatedAt' : Option String) (cancelled cancelled' : Bool) :
    let baseline := before.run.finish generatedAt cancelled
    let current := after.run.finish generatedAt' cancelled'
    m.inProject baseline.totals < 2 ^ 53 → m.inProject current.totals < 2 ^ 53 →
    let c := Comparison.of baseline current []
    let changes := c.changedFiles.filterMap fun f => deltaOf m f.deltas
    let gained := (current.files.filter fun f => f.path ∈ c.newFiles).map m.ofFile
    let lost := (baseline.files.filter fun f => f.path ∈ c.deletedFiles).map m.ofFile
    ∃ delta, deltaOf m c.totals = some delta ∧
      delta = addUp changes + addUp gained - addUp lost ∧
      exactValue delta = m.inProject current.totals - m.inProject baseline.totals ∧
      exactValue delta = (changes.map exactValue).sum + (gained.map exactValue).sum
        - (lost.map exactValue).sum := by
  intro baseline current small small' c changes gained lost
  have ordered : Ordered FileReport.path baseline.files := before.after_run.files.ordered
  have ordered' : Ordered FileReport.path current.files := after.after_run.files.ordered
  have total : m.inProject baseline.totals = sumOf (baseline.files.map m.inFile) :=
    inProject_totalsBy count _ (before.entered_files entered)
  have total' : m.inProject current.totals = sumOf (current.files.map m.inFile) :=
    inProject_totalsBy count _ (after.entered_files entered')
  rw [total] at small
  rw [total'] at small'
  obtain ⟨sum, exact⟩ := stands_balance count ordered ordered' small small'
  rw [← changes_eq count ordered ordered' small small', ← newFiles_eq ordered ordered',
    ← deletedFiles_eq ordered ordered'] at sum exact
  have whole : Stands (m.ofProject current.totals - m.ofProject baseline.totals)
      (m.inProject current.totals - m.inProject baseline.totals) := by
    rw [Metric.ofProject_count count, Metric.ofProject_count count, total, total']
    exact (stands_ofNat small').sub (stands_ofNat small) (by omega)
  have value : exactValue (m.ofProject current.totals - m.ofProject baseline.totals)
      = m.inProject current.totals - m.inProject baseline.totals := by
    rw [whole.exact]
    push_cast
    rfl
  refine ⟨_, deltaOf_totals baseline current m, ?_, value, ?_⟩
  · rw [total, total'] at whole
    exact whole.unique sum
  · rw [value, total, total']
    exact exact.symm

/-- One file grows by four, one is new with four, one with seven is deleted, one stays, and one that
    failed does not count. -/
theorem totals_balance_five_files :
    let file (path : String) (logical : ℕ) :=
      FileReport.measured path .go ⟨[], { logical }, []⟩ []
    let broken := FileReport.failed "e.py" (some .python) (.parseFailure (.noTree "python"))
    let before : Build :=
      .add (.add (.add (.new 3) (file "c.go" 2)) (file "a.go" 5)) (file "b.go" 7)
    let after : Build :=
      .merge (.add (.new 3) (file "d.go" 4)) (.add (.add (.add (.new 0) broken) (file "a.go" 9))
        (file "c.go" 2))
    let c := Comparison.of (before.run.finish none false) (after.run.finish none true) []
    c.newFiles = ["d.go", "e.py"] ∧ c.deletedFiles = ["b.go"] ∧
      ∃ delta, deltaOf .logicalLines c.totals = some delta ∧ exactValue delta = 1 := by
  intro file broken before after c
  have entered : ∀ f, .file f ∈ before.steps → f.Entered := by
    intro f hf
    simp only [before, Build.steps, List.nil_append, List.cons_append, List.mem_cons,
      List.not_mem_nil, or_false, Step.file.injEq] at hf
    rcases hf with rfl | rfl | rfl <;> exact .measured ..
  have entered' : ∀ f, .file f ∈ after.steps → f.Entered := by
    intro f hf
    simp only [after, Build.steps, List.nil_append, List.cons_append, List.mem_cons,
      List.not_mem_nil, or_false, Step.file.injEq] at hf
    rcases hf with rfl | rfl | rfl | rfl
    · exact .measured ..
    · exact .failed ..
    · exact .measured ..
    · exact .measured ..
  have total : Metric.inProject .logicalLines (before.run.finish none false).totals = 14 := by
    decide +kernel
  have total' : Metric.inProject .logicalLines (after.run.finish none true).totals = 15 := by
    decide +kernel
  refine ⟨by decide +kernel, by decide +kernel, ?_⟩
  obtain ⟨delta, found, -, exact, -⟩ := totals_balance (m := .logicalLines) (by decide) before
    after entered entered' none none false true (by rw [total]; norm_num) (by rw [total']; norm_num)
  refine ⟨delta, found, ?_⟩
  rw [exact, total, total']
  norm_num

end CodeMetrics

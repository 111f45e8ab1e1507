import CodeMetrics.Proofs.Conservation
import CodeMetrics.Proofs.Pool

/-! No file has an influence on the entry of another file.

    A run that is not cancelled lists, in order, what the outcomes of its files give, and the outcome
    of a file depends on nothing but what is read of it. Every count of the totals is a sum over the
    entries, be it taken from the files, from the routines, by range or by language. So where two
    runs differ in what is read of one file, the entries of the others are the same, and each count
    differs by what that file brings to it. -/

namespace CodeMetrics

open Rollup

/-! ### Counts -/

/-- The counts among the totals of a project. -/
inductive Count where
  | files
  | filesOf (status : FileStatus)
  | functions
  | totalLines
  | codeLines
  | commentLines
  | blankLines
  | logicalLines
  | cyclomatic
  | cognitive
  | namedFunctions
  | closures
  | classes
  | wmc
  | cyclomaticRange (label : String)
  | cognitiveRange (label : String)
  | languageFiles (name : String)
  | languageFunctions (name : String)
  | languageLines (name : String)
  | languageCyclomatic (name : String)
deriving DecidableEq, Repr

/-- The count of a range by its name; none where there is no such range. -/
def bucket (label : String) (buckets : List Bucket) : ℕ :=
  (buckets.find? fun b => b.range == label).elim 0 Bucket.count

/-- How many values lie in a range by its name. -/
def countIn (ranges : List (ℕ × Option ℕ × String)) (label : String) (values : List ℕ) : ℕ :=
  (ranges.find? fun range => range.2.2 == label).elim 0 fun range => values.countP (lies · range)

/-- The sums of a language; a language without files has none. -/
def ProjectTotals.language (totals : ProjectTotals) (name : String) : LanguageSummary :=
  (totals.languages.lookup name).getD {}

namespace Count

/-- A count in the totals of a project. -/
def inTotals (totals : ProjectTotals) : Count → ℕ
  | files => totals.files
  | filesOf .ok => totals.filesOk
  | filesOf .partly => totals.filesPartial
  | filesOf .failed => totals.filesFailed
  | functions => totals.functions
  | totalLines => totals.lines.total
  | codeLines => totals.lines.code
  | commentLines => totals.lines.comment
  | blankLines => totals.lines.blank
  | logicalLines => totals.lines.logical
  | cyclomatic => totals.cyclomatic.sum
  | cognitive => totals.cognitive.sum
  | namedFunctions => totals.counts.functions
  | closures => totals.counts.closures
  | classes => totals.classes
  | wmc => totals.wmc
  | cyclomaticRange label => bucket label totals.cyclomaticDistribution
  | cognitiveRange label => bucket label totals.cognitiveDistribution
  | languageFiles name => (totals.language name).files
  | languageFunctions name => (totals.language name).functions
  | languageLines name => (totals.language name).codeLines
  | languageCyclomatic name => (totals.language name).cyclomatic

/-- What the entry of a file brings to a count. -/
def ofEntry (file : FileReport) : Count → ℕ
  | files => 1
  | filesOf status => if file.status == status then 1 else 0
  | functions => file.routines.length
  | totalLines => file.totals.lines.total
  | codeLines => file.totals.lines.code
  | commentLines => file.totals.lines.comment
  | blankLines => file.totals.lines.blank
  | logicalLines => file.totals.lines.logical
  | cyclomatic => sumOf (file.routines.map (·.cyclomatic))
  | cognitive => sumOf (file.routines.map (·.cognitive))
  | namedFunctions => file.totals.counts.functions
  | closures => file.totals.counts.closures
  | classes => file.classes.length
  | wmc => file.totals.wmc
  | cyclomaticRange label => countIn cyclomaticRanges label (file.routines.map (·.cyclomatic))
  | cognitiveRange label => countIn cognitiveRanges label (file.routines.map (·.cognitive))
  | languageFiles name => if file.language == name then 1 else 0
  | languageFunctions name => if file.language == name then file.routines.length else 0
  | languageLines name => if file.language == name then file.totals.lines.code else 0
  | languageCyclomatic name => if file.language == name then file.totals.cyclomatic.sum else 0

end Count

/-! ### Counts are sums over entries -/

theorem countP_eq_sumOf {α : Type} (keep : α → Bool) (l : List α) :
    l.countP keep = sumOf (l.map fun a => if keep a then 1 else 0) := by
  induction l with
  | nil => rfl
  | cons a l ih => rw [List.countP_cons, ih, List.map_cons, sumOf_cons, Nat.add_comm]

theorem bucket_distribution (ranges : List (ℕ × Option ℕ × String)) (label : String)
    (values : List ℕ) : bucket label (distribution ranges values) = countIn ranges label values := by
  rw [bucket, distribution, List.find?_map, countIn, Option.elim_map]
  rfl

/-- Values of routines are counted file by file. -/
theorem countIn_routines (ranges : List (ℕ × Option ℕ × String)) (label : String)
    (value : RoutineMetrics → ℕ) (files : List FileReport) :
    countIn ranges label ((files.flatMap (·.routines)).map value)
      = sumOf (files.map fun f => countIn ranges label (f.routines.map value)) := by
  simp only [countIn]
  cases ranges.find? fun range => range.2.2 == label with
  | none => exact sumOf_zero.symm
  | some range =>
    simp only [Option.elim_some, countP_eq_sumOf, List.map_map]
    exact sumOf_routines_eq _ files

/-- What the files of a language bring is what the language has. -/
theorem language_totalsBy (amount : LanguageSummary → ℕ) (brings : FileReport → ℕ)
    (empty : amount {} = 0)
    (grows : ∀ before file, amount (before.plus file) = amount before + brings file)
    (plus : Float → Float → Float) (files : List FileReport) (name : String) :
    amount ((totalsBy plus files).language name)
      = sumOf (files.map fun f => if f.language == name then brings f else 0) := by
  have fold : ∀ (files : List FileReport) (languages : List (String × LanguageSummary)),
      amount (((files.foldl addLanguage languages).lookup name).getD {})
        = amount ((languages.lookup name).getD {})
          + sumOf (files.map fun f => if f.language == name then brings f else 0) := by
    intro files
    induction files with
    | nil => intro languages; rfl
    | cons f files ih =>
      intro languages
      rw [List.foldl_cons, ih, addLanguage_eq, lookup_insertSorted, List.map_cons, sumOf_cons,
        ← Nat.add_assoc]
      congr 1
      by_cases h : name = f.language
      · subst h
        simp [grows]
      · have h' : ¬ f.language = name := fun e => h e.symm
        simp [h, h']
  have sum := fold files []
  rw [List.lookup_nil, Option.getD_none, empty, Nat.zero_add] at sum
  exact sum

/-- Every count of the totals is the sum of what the entries bring to it. -/
theorem Count.inTotals_totalsBy (count : Count) (plus : Float → Float → Float)
    (files : List FileReport) :
    count.inTotals (totalsBy plus files) = sumOf (files.map fun f => count.ofEntry f) := by
  have lines : ∀ amount : LineCounts → ℕ, amount {} = 0 →
      (∀ a b, amount (a.add b) = amount a + amount b) →
      amount (totalsBy plus files).lines = sumOf (files.map fun f => amount f.totals.lines) := by
    intro amount empty adds
    have sum := foldl_count LineCounts.add amount adds {} (files.map (·.totals.lines))
    rwa [List.map_map, empty, Nat.zero_add] at sum
  have kinds : ∀ amount : RoutineCounts → ℕ, amount {} = 0 →
      (∀ a b, amount (a.add b) = amount a + amount b) →
      amount (totalsBy plus files).counts = sumOf (files.map fun f => amount f.totals.counts) := by
    intro amount empty adds
    have sum := foldl_count RoutineCounts.add amount adds {} (files.map (·.totals.counts))
    rwa [List.map_map, empty, Nat.zero_add] at sum
  cases count with
  | files => exact (sumOf_one files).symm
  | filesOf status => cases status <;> exact countP_eq_sumOf _ files
  | functions =>
    have sum := sumOf_routines_eq (fun _ => 1) files
    simp only [sumOf_one] at sum
    exact sum
  | totalLines => exact lines (·.total) rfl fun _ _ => rfl
  | codeLines => exact lines (·.code) rfl fun _ _ => rfl
  | commentLines => exact lines (·.comment) rfl fun _ _ => rfl
  | blankLines => exact lines (·.blank) rfl fun _ _ => rfl
  | logicalLines => exact lines (·.logical) rfl fun _ _ => rfl
  | cyclomatic => exact sumOf_routines_eq _ files
  | cognitive => exact sumOf_routines_eq _ files
  | namedFunctions => exact kinds (·.functions) rfl fun _ _ => rfl
  | closures => exact kinds (·.closures) rfl fun _ _ => rfl
  | classes => rfl
  | wmc => rfl
  | cyclomaticRange label =>
    exact (bucket_distribution _ _ _).trans (countIn_routines _ _ _ files)
  | cognitiveRange label =>
    exact (bucket_distribution _ _ _).trans (countIn_routines _ _ _ files)
  | languageFiles name =>
    exact language_totalsBy (·.files) _ rfl (fun _ _ => rfl) plus files name
  | languageFunctions name =>
    exact language_totalsBy (·.functions) _ rfl (fun _ _ => rfl) plus files name
  | languageLines name =>
    exact language_totalsBy (·.codeLines) _ rfl (fun _ _ => rfl) plus files name
  | languageCyclomatic name =>
    exact language_totalsBy (·.cyclomatic) _ rfl (fun _ _ => rfl) plus files name

/-- The entries under a path and all others make up a sum. -/
theorem sumOf_filter_path (amount : FileReport → ℕ) (path : String) (files : List FileReport) :
    sumOf (files.map amount) = sumOf ((files.filter fun f => f.path == path).map amount)
      + sumOf ((files.filter fun f => f.path != path).map amount) := by
  rw [← sumOf_append, ← List.map_append]
  exact sumOf_perm ((List.filter_append_perm _ files).symm.map _)

/-! ### Reports of runs -/

namespace Run

theorem path_process (fs : FileSystem) (options : RunOptions) (s : SourcePath) :
    (process fs options s).path = s.shown := by
  rw [process]
  split
  · rfl
  · split
    · split <;> rfl
    · split
      · split
        · rw [measure]
          split <;> rfl
        · rfl
      · rfl

/-- A run over some files gives a report, with any number of workers, and is not cancelled. -/
structure Gives (fs : FileSystem) (options : RunOptions) (sources : List SourcePath)
    (r : ProjectReport) : Prop where
  made : ∃ jobs pool, Pool.Reached jobs options.top sources (process fs options) pool ∧
    pool.Ended ∧ pool.collection.report options = r
  uncancelled : r.cancelled = false

/-- A list has what the outcomes of files give, in the order of paths. -/
structure Lists {α : Type} (key : α → String) (part : Outcome → Option α)
    (sources : List SourcePath) (outcome : SourcePath → Outcome) (l : List α) : Prop where
  ordered : Ordered key l
  mem_iff : ∀ a, a ∈ l ↔ ∃ s ∈ sources, part (outcome s) = some a

/-- What is held of all outcomes is what they give. -/
theorem Arrived.lists {α : Type} {key : α → String} {part : Outcome → Option α}
    (keyed : ∀ {o a}, part o = some a → key a = o.path) {sources : List SourcePath}
    {outcome : SourcePath → Outcome} {arrivals : List Outcome}
    (arrived : Arrived sources outcome (fun _ => true) arrivals) {l : List α}
    (holds : Rollup.Holds key (arrivals.filterMap part) l) : Lists key part sources outcome l := by
  refine ⟨holds.ordered, fun a => ?_⟩
  rw [holds.firsts]
  constructor
  · intro first
    obtain ⟨s, hs, -, given⟩ := arrived.origin (mem_of_first? first)
    exact ⟨s, hs, given⟩
  · rintro ⟨s, hs, given⟩
    rw [keyed given, arrived.path s hs, arrived.first?_eq key keyed hs, given]
    rfl

section Reports

variable {fs : FileSystem} {options : RunOptions} {sources : List SourcePath} {r : ProjectReport}
  (distinct : (sources.map (·.shown)).Nodup) (h : Gives fs options sources r)

include distinct h

/-- All outcomes have come in. -/
theorem Gives.arrived : ∃ arrivals, r = report options sources arrivals ∧
    Arrived sources (process fs options) (fun _ => true) arrivals := by
  obtain ⟨⟨jobs, pool, reached, ended, rfl⟩, uncancelled⟩ := h
  have exactly : ∀ s ∈ sources, s ∈ pool.started ↔ decide (s ∈ pool.started) = true := by simp
  obtain ⟨arrivals, collected, arrived⟩ := reached.arrived ended distinct
    (fun s _ => path_process fs options s) exactly
  have same : pool.collection.report options = report options sources arrivals := by
    rw [collected, report]
  rw [same] at uncancelled ⊢
  refine ⟨arrivals, rfl, distinct, arrived.path, arrived.order.trans ?_⟩
  have all : ∀ s ∈ sources, decide (s ∈ pool.started) = true := by
    intro s hs
    by_contra waits
    have cancelled := (arrived.accounts options).cancelled.2 ⟨s, hs, by simpa using waits⟩
    rw [uncancelled] at cancelled
    cases cancelled
  rw [List.filter_eq_self.2 all, List.filter_true]

theorem Gives.files : Lists FileReport.path Outcome.file? sources (process fs options) r.files := by
  obtain ⟨arrivals, rfl, arrived⟩ := h.arrived distinct
  exact arrived.lists Outcome.path_of_file? (collect_files options.top sources arrivals)

theorem Gives.skipped : Lists id Outcome.leftOut? sources (process fs options) r.skipped := by
  obtain ⟨arrivals, rfl, arrived⟩ := h.arrived distinct
  exact arrived.lists Outcome.path_of_leftOut? (collect_skipped options.top sources arrivals)

theorem Gives.totals : r.totals = totalsBy (· + ·) r.files := by
  obtain ⟨arrivals, rfl, -⟩ := h.arrived distinct
  rfl

end Reports

/-- One worker can take the files in their order. -/
theorem reached_in_order (top : ℕ) (outcome : SourcePath → Outcome) {sources : List SourcePath}
    (done rest : List SourcePath) (split : sources = done ++ rest) :
    Pool.Reached 1 top sources outcome
      { waiting := rest, started := done.reverse,
        collection := collect top sources (done.map outcome) } := by
  induction done using List.reverseRecOn generalizing rest with
  | nil =>
    rw [split]
    exact .refl
  | append_singleton done s ih =>
    rw [List.append_assoc] at split
    have next : collect top sources ((done ++ [s]).map outcome)
        = (collect top sources (done.map outcome)).take sources.length (outcome s) := by
      rw [collect, List.map_append, List.foldl_append]
      rfl
    rw [List.reverse_append, next]
    exact (((ih (s :: rest) split).tail (.take [] rest s rfl (by simp [Pool.workers]) rfl))
      |>.tail (.send [] [] s rfl (by simp [Pool.workers])))
      |>.tail (.receive (outcome s) [] rfl)

/-- The run in the order of files is such a run. -/
theorem gives_run {fs : FileSystem} {options : RunOptions} {sources : List SourcePath}
    (distinct : (sources.map (·.shown)).Nodup)
    (goesOn : ∀ s ∈ sources, isStopped options s = false) :
    Gives fs options sources (run fs options sources) := by
  have all : outcomes fs options sources = sources.map (process fs options) := by
    rw [outcomes, List.filter_eq_self.2 fun s hs => by rw [goesOn s hs]; rfl]
  have arrived : Arrived sources (process fs options) (fun _ => true)
      (sources.map (process fs options)) :=
    ⟨distinct, fun s _ => path_process fs options s, by rw [List.filter_true]⟩
  rw [run, all]
  refine ⟨⟨1, _, reached_in_order options.top _ sources [] (List.append_nil _).symm,
    ⟨rfl, rfl, rfl⟩, rfl⟩, ?_⟩
  rw [← Bool.not_eq_true, (arrived.accounts options).cancelled]
  rintro ⟨s, -, waits⟩
  cases waits

section Lists

variable {α : Type} {key : α → String} {part : Outcome → Option α}
  (keyed : ∀ {o a}, part o = some a → key a = o.path) {sources : List SourcePath}
  (distinct : (sources.map (·.shown)).Nodup) {outcome : SourcePath → Outcome}
  (paths : ∀ s, (outcome s).path = s.shown) {p : SourcePath} (hp : p ∈ sources) {l : List α}
  (h : Lists key part sources outcome l)

include keyed distinct paths hp h

/-- What is listed apart from the path of a file comes from the other files. -/
theorem Lists.mem_others (a : α) : a ∈ l.filter (fun a => key a != p.shown)
    ↔ ∃ s ∈ sources, s ≠ p ∧ part (outcome s) = some a := by
  rw [List.mem_filter, h.mem_iff, bne_iff_ne]
  constructor
  · rintro ⟨⟨s, hs, given⟩, apart⟩
    refine ⟨s, hs, fun e => apart ?_, given⟩
    rw [keyed given, paths, e]
  · rintro ⟨s, hs, other, given⟩
    refine ⟨⟨s, hs, given⟩, fun e => other ?_⟩
    rw [keyed given, paths] at e
    exact List.inj_on_of_nodup_map distinct hs hp e

/-- What is listed under the path of a file is what its own outcome gives. -/
theorem Lists.filter_own : l.filter (fun a => key a == p.shown) = (part (outcome p)).toList := by
  have single : Ordered key (part (outcome p)).toList := by
    cases part (outcome p) with
    | none => exact .nil
    | some a => exact List.pairwise_singleton _ _
  refine Ordered.eq_of_mem_iff (List.Pairwise.filter _ h.ordered) single fun a => ?_
  rw [List.mem_filter, h.mem_iff, beq_iff_eq, Option.mem_toList]
  constructor
  · rintro ⟨⟨s, hs, given⟩, e⟩
    rw [keyed given, paths] at e
    rw [← List.inj_on_of_nodup_map distinct hs hp e]
    exact given
  · intro given
    refine ⟨⟨p, hp, given⟩, ?_⟩
    rw [keyed given, paths]

/-- Where outcomes differ in one file, the lists are the same apart from its path. -/
theorem Lists.filter_others {outcome' : SourcePath → Outcome}
    (paths' : ∀ s, (outcome' s).path = s.shown) {l' : List α}
    (h' : Lists key part sources outcome' l')
    (alike : ∀ s ∈ sources, s ≠ p → outcome' s = outcome s) :
    l'.filter (fun a => key a != p.shown) = l.filter fun a => key a != p.shown := by
  refine Ordered.eq_of_mem_iff (List.Pairwise.filter _ h'.ordered)
    (List.Pairwise.filter _ h.ordered) fun a => ?_
  rw [h.mem_others keyed distinct paths hp, h'.mem_others keyed distinct paths' hp]
  constructor
  · rintro ⟨s, hs, other, given⟩
    exact ⟨s, hs, other, alike s hs other ▸ given⟩
  · rintro ⟨s, hs, other, given⟩
    exact ⟨s, hs, other, (alike s hs other).symm ▸ given⟩

end Lists

end Run

/-! ### One file apart -/

/-- What the outcome of a file brings to a count: what its entry does, if it has one. -/
def Count.ofOutcome (o : Outcome) (count : Count) : ℕ := o.file?.elim 0 fun f => count.ofEntry f

/-- Every count of a report is what one file brings, and what the entries of the others do. -/
theorem Run.Gives.inTotals {fs : FileSystem} {options : RunOptions} {sources : List SourcePath}
    {r : ProjectReport} (distinct : (sources.map (·.shown)).Nodup)
    (h : Run.Gives fs options sources r) {p : SourcePath} (hp : p ∈ sources) (count : Count) :
    count.inTotals r.totals = count.ofOutcome (Run.process fs options p)
      + sumOf ((r.files.filter fun f => f.path != p.shown).map fun f => count.ofEntry f) := by
  have own := (h.files distinct).filter_own Outcome.path_of_file? distinct
    (Run.path_process fs options) hp
  rw [h.totals distinct, Count.inTotals_totalsBy, sumOf_filter_path _ p.shown, own, Count.ofOutcome]
  cases (Run.process fs options p).file? <;> rfl

/-- Two runs over files of which one is read differently, and maybe cannot be read or is no file of
    a known language: their reports agree on all other files, and each count of the totals differs
    by the difference of what that file brings to it. -/
theorem one_file_apart {fs fs' : FileSystem} {options : RunOptions} {sources : List SourcePath}
    (distinct : (sources.map (·.shown)).Nodup) {p : SourcePath} (hp : p ∈ sources)
    (alike : ∀ s ∈ sources, s ≠ p → fs'.read s.path = fs.read s.path) {r r' : ProjectReport}
    (h : Run.Gives fs options sources r) (h' : Run.Gives fs' options sources r') :
    (r'.files.filter fun f => f.path != p.shown) = (r.files.filter fun f => f.path != p.shown) ∧
      (r'.skipped.filter fun path => path != p.shown)
        = (r.skipped.filter fun path => path != p.shown) ∧
      ∀ count : Count, (count.inTotals r'.totals : ℤ) - count.inTotals r.totals
        = count.ofOutcome (Run.process fs' options p)
          - count.ofOutcome (Run.process fs options p) := by
  have outcomes : ∀ s ∈ sources, s ≠ p → Run.process fs' options s = Run.process fs options s := by
    intro s hs other
    rw [Run.process, Run.process, alike s hs other]
  have files := (h.files distinct).filter_others Outcome.path_of_file? distinct
    (Run.path_process fs options) hp (Run.path_process fs' options) (h'.files distinct) outcomes
  have skipped := (h.skipped distinct).filter_others Outcome.path_of_leftOut? distinct
    (Run.path_process fs options) hp (Run.path_process fs' options) (h'.skipped distinct) outcomes
  refine ⟨files, skipped, fun count => ?_⟩
  rw [h.inTotals distinct hp, h'.inTotals distinct hp, files]
  push_cast
  ring

/-- The only file of a language cannot be read in the other run. -/
theorem one_file_apart_unreadable :
    let a : SourcePath := ⟨"./a.go", "a.go"⟩
    let b : SourcePath := ⟨"b.py", "b.py"⟩
    let notes : SourcePath := ⟨"notes", "notes"⟩
    let others : List (Location × Item) :=
      [(["a.go"], .file ⟨Utf8.encode "package a\n", some (.node { kind := "source_file" } [])⟩),
       (["notes"], .file ⟨[], none⟩)]
    let read : List (Location × Item) :=
      [(["b.py"], .file ⟨Utf8.encode "pass\n", some (.node { kind := "module" } [])⟩)]
    let fs : FileSystem := { items := others ++ read }
    let fs' : FileSystem := { items := others }
    let options : RunOptions := { languages := .all, skipUnknown := true }
    let r := run fs options [a, b, notes]
    let r' := run fs' options [a, b, notes]
    (∀ s ∈ [a, b, notes], s ≠ b → fs'.read s.path = fs.read s.path) ∧
      (Run.Gives fs options [a, b, notes] r ∧ Run.Gives fs' options [a, b, notes] r') ∧
      (r.totals.languages.map (·.1) = ["go", "python"] ∧
        r'.totals.languages.map (·.1) = ["go", "unknown"]) ∧
      (r'.files.filter fun f => f.path != "b.py") = (r.files.filter fun f => f.path != "b.py") ∧
      ((Count.languageFiles "python").inTotals r'.totals : ℤ)
        - (Count.languageFiles "python").inTotals r.totals = -1 := by
  intro a b notes others read fs fs' options r r'
  have distinct : ([a, b, notes].map (·.shown)).Nodup := by decide
  have alike : ∀ s ∈ [a, b, notes], s ≠ b → fs'.read s.path = fs.read s.path := by
    rw [List.forall_mem_cons, List.forall_mem_cons, List.forall_mem_singleton]
    exact ⟨fun _ => rfl, fun other => absurd rfl other, fun _ => rfl⟩
  have h : Run.Gives fs options [a, b, notes] r := Run.gives_run distinct fun _ _ => rfl
  have h' : Run.Gives fs' options [a, b, notes] r' := Run.gives_run distinct fun _ _ => rfl
  have apart := one_file_apart distinct (by simp) alike h h'
  have one : (Count.languageFiles "python").ofOutcome (Run.process fs options b) = 1 := by
    decide +kernel
  have none : (Count.languageFiles "python").ofOutcome (Run.process fs' options b) = 0 := by
    decide +kernel
  refine ⟨alike, ⟨h, h'⟩, ⟨by decide +kernel, by decide +kernel⟩, apart.1, ?_⟩
  rw [apart.2.2, one, none]
  rfl

end CodeMetrics

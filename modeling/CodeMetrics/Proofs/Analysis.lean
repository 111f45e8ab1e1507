import Mathlib.Data.List.TakeWhile
import CodeMetrics.Command.Execution
import CodeMetrics.Proofs.Discovery
import CodeMetrics.Proofs.Files
import CodeMetrics.Proofs.Lists

/-! When an analysis succeeds, and what it leaves behind.

    The stages of an analysis each have a condition of their own: the settings can be read, they are
    valid with the arguments over them, every root is there, a file is found and the report can be
    written. All of them together are not enough: the end of the time limit must also be a moment
    that the clock can show, or the analysis breaks off. Where that holds too the report is where it
    was asked for; otherwise nothing is written at all. -/

namespace CodeMetrics

/-- A command that ends with an error does so with one of two codes. -/
theorem Error.exitCode_cases (e : Error) : e.exitCode = 1 ∨ e.exitCode = 2 := by
  cases e <;> simp [exitCode, isFatal]

/-! ### Settings -/

namespace Settings

/-- Values that an analysis can go by. -/
structure Valid (settings : Settings) : Prop where
  languages : ∃ selection, Selection.parse settings.languages = .ok selection
  included : ∃ globs, Globs.parse settings.included = .ok globs
  excluded : ∃ globs, Globs.parse settings.excluded = .ok globs
  jobs : ∀ n, settings.jobs = some n → 1 ≤ n ∧ n ≤ 1024
  timeout : settings.timeoutSecs ≠ some 0

theorem checkJobs_eq_ok {settings : Settings} : settings.checkJobs = .ok () ↔
    ∀ n, settings.jobs = some n → 1 ≤ n ∧ n ≤ 1024 := by
  rw [checkJobs]
  rcases settings.jobs with - | - | n
  · simp
  · simp
  · by_cases few : n + 1 ≤ 1024
    · simp [maxJobs, few, Nat.not_lt.2 few]
    · simp [maxJobs, few, Nat.lt_of_not_le few]

theorem checkTimeout_eq_ok {settings : Settings} : settings.checkTimeout = .ok () ↔
    settings.timeoutSecs ≠ some 0 := by
  rw [checkTimeout]
  split
  · next none => simpa using none
  · next some => simpa using some

theorem validate_eq_ok {settings : Settings} : settings.validate = .ok () ↔ settings.Valid := by
  simp only [validate, bind_eq_ok, discard_eq_ok, checkTimeout_eq_ok]
  constructor
  · rintro ⟨_, languages, _, included, _, excluded, _, jobs, timeout⟩
    exact ⟨languages, included, excluded, checkJobs_eq_ok.1 jobs, timeout⟩
  · rintro ⟨languages, included, excluded, jobs, timeout⟩
    exact ⟨(), languages, (), included, (), excluded, (), checkJobs_eq_ok.2 jobs, timeout⟩

end Settings

theorem Filters.parse_eq_ok {languages included excluded : List String} {filters : Filters} :
    Filters.parse languages included excluded = .ok filters ↔
      Selection.parse languages = .ok filters.languages ∧
      Globs.parse included = .ok filters.included ∧
      Globs.parse excluded = .ok filters.excluded := by
  simp only [Filters.parse, bind_eq_ok]
  constructor
  · rintro ⟨_, languages, _, included, _, excluded, ⟨⟩⟩
    exact ⟨languages, included, excluded⟩
  · rintro ⟨languages, included, excluded⟩
    exact ⟨_, languages, _, included, _, excluded, rfl⟩

namespace Command

/-- What counts of two values that may be there: the one of the arguments, if there is one. -/
def Counts {α : Type} (argument start value : Option α) : Prop :=
  (∀ v, argument = some v → value = some v) ∧ (argument = none → value = start)

theorem counts_or {α : Type} (argument start : Option α) :
    Counts argument start (argument <|> start) := by
  cases argument with
  | none => exact ⟨fun _ h => (by cases h), fun _ => rfl⟩
  | some v => exact ⟨fun _ h => h, fun h => (by cases h)⟩

theorem Counts.unique {α : Type} {argument start value value' : Option α}
    (h : Counts argument start value) (h' : Counts argument start value') : value = value' := by
  cases argument with
  | none => rw [h.2 rfl, h'.2 rfl]
  | some v => rw [h.1 v rfl, h'.1 v rfl]

/-- The settings of an analysis: the lists of the arguments are put behind those that it starts
    from, and single values of the arguments take the place of others. -/
structure Merged (a : AnalyzeArguments) (start settings : Settings) : Prop where
  languages : settings.languages = start.languages ++ a.languages
  included : settings.included = start.included ++ a.included
  excluded : settings.excluded = start.excluded ++ a.excluded
  jobs : Counts a.jobs start.jobs settings.jobs
  top : Counts a.top start.top settings.top
  format : Counts a.format start.format settings.format
  timeout : Counts a.timeoutSecs start.timeoutSecs settings.timeoutSecs
  threshold : Counts a.sarifThreshold start.sarifThreshold settings.sarifThreshold
  skipUnknown : settings.skipUnknown = if a.skipUnknown then some true else start.skipUnknown
  timestamp : settings.timestamp = if a.noTimestamp then some false else start.timestamp

theorem merged_override (a : AnalyzeArguments) (start : Settings) :
    Merged a start (a.override start) where
  languages := rfl
  included := rfl
  excluded := rfl
  jobs := counts_or _ _
  top := counts_or _ _
  format := counts_or _ _
  timeout := counts_or _ _
  threshold := counts_or _ _
  skipUnknown := rfl
  timestamp := rfl

theorem merged_iff {a : AnalyzeArguments} {start settings : Settings} :
    Merged a start settings ↔ settings = a.override start := by
  constructor
  · intro h
    have other := merged_override a start
    cases settings
    rw [AnalyzeArguments.override, Settings.mk.injEq]
    exact ⟨h.languages, h.included, h.excluded, h.jobs.unique other.jobs, h.top.unique other.top,
      h.format.unique other.format, h.skipUnknown, h.timeout.unique other.timeout,
      h.threshold.unique other.threshold, h.timestamp⟩
  · rintro rfl
    exact merged_override a start

/-- The settings in the file at a path: none, if it is blank, or what its text is read as. -/
def Holds (s : Surroundings) (path : RawPath) (settings : Settings) : Prop :=
  ∃ text, s.files.readText path = .ok text ∧
    if text.toList.all isBlank then settings = {}
    else s.settingsOf? text = some settings

instance (s : Surroundings) (path : RawPath) (settings : Settings) :
    Decidable (Holds s path settings) :=
  inferInstanceAs (Decidable (∃ _, _))

/-- The settings that an analysis starts from: those in the file that is given, those in the first
    of the usual files that is there, or none. -/
inductive StartsFrom (s : Surroundings) : Option RawPath → Settings → Prop
  | given {path : RawPath} {settings : Settings} :
      Holds s path settings → StartsFrom s (some path) settings
  | found (before after : List RawPath) {name : RawPath} {settings : Settings} :
      (["mehen.yaml", ".mehen.yaml"] : List RawPath) = before ++ name :: after →
      (∀ other ∈ before, s.files.hasFile other = false) → s.files.hasFile name = true →
      Holds s name settings → StartsFrom s none settings
  | absent : (∀ name ∈ (["mehen.yaml", ".mehen.yaml"] : List RawPath),
      s.files.hasFile name = false) → StartsFrom s none {}

theorem isEmpty_trimBlank (text : String) :
    (trimBlank text).isEmpty = true ↔ text.toList.all isBlank = true := by
  rw [String.isEmpty_iff, trimBlank, ← String.toList_inj, String.toList_ofList, String.toList_empty,
    List.reverse_eq_nil_iff, List.dropWhile_eq_nil_iff, List.all_eq_true]
  constructor
  · intro behind c hc
    rw [← List.takeWhile_append_dropWhile (p := isBlank) (l := text.toList), List.mem_append] at hc
    rcases hc with front | back
    · exact List.mem_takeWhile_imp front
    · exact behind c (List.mem_reverse.2 back)
  · intro all
    rw [List.dropWhile_eq_nil_iff.2 all]
    exact List.forall_mem_nil _

variable {s : Surroundings} {a : AnalyzeArguments}

theorem readSettings_eq_ok {path : RawPath} {settings : Settings} :
    readSettings s path = .ok settings ↔ Holds s path settings := by
  rw [readSettings, bind_eq_ok]
  refine exists_congr fun text => and_congr ?_ ?_
  · cases s.files.readText path with
    | error fault => simp [Except.mapError]
    | ok found => simp [Except.mapError]
  · rw [Settings.parse, Settings.parse?]
    simp only [isEmpty_trimBlank]
    by_cases blank : text.toList.all isBlank = true
    · rw [if_pos blank, if_pos blank]
      exact ⟨fun h => (Except.ok.inj h).symm, fun h => h ▸ rfl⟩
    · rw [if_neg blank, if_neg blank]
      cases s.settingsOf? text <;> simp

theorem loadSettings_none : loadSettings s none
    = (settingsNames.find? s.files.hasFile).elim (.ok {}) (readSettings s) := by
  have nothing : (none <|> settingsNames.find? s.files.hasFile)
    = settingsNames.find? s.files.hasFile := rfl
  unfold loadSettings
  rw [nothing]
  cases settingsNames.find? s.files.hasFile <;> rfl

theorem loadSettings_eq_ok {path : Option RawPath} {settings : Settings} :
    loadSettings s path = .ok settings ↔ StartsFrom s path settings := by
  cases path with
  | some path =>
    refine readSettings_eq_ok.trans ⟨.given, ?_⟩
    rintro (held | _)
    exact held
  | none =>
    rw [loadSettings_none]
    constructor
    · intro h
      cases found : settingsNames.find? s.files.hasFile with
      | some name =>
        rw [found] at h
        obtain ⟨there, before, after, split, missing⟩ := List.find?_eq_some_iff_append.1 found
        exact .found before after split (fun other mem => by simpa using missing other mem) there
          (readSettings_eq_ok.1 h)
      | none =>
        rw [found] at h
        cases h
        exact .absent fun name mem => by simpa using List.find?_eq_none.1 found name mem
    · rintro (_ | ⟨_, _, split, missing, there, held⟩ | missing)
      · have found : settingsNames.find? s.files.hasFile = some _ :=
          List.find?_eq_some_iff_append.2
            ⟨there, _, _, split, fun other mem => by simpa using missing other mem⟩
        rw [found]
        exact readSettings_eq_ok.2 held
      · have none : settingsNames.find? s.files.hasFile = none :=
          List.find?_eq_none.2 fun name mem => by simpa using missing name mem
        rw [none]
        rfl

/-- An analysis has its settings where it can start from some and they are valid with the arguments
    over them. -/
theorem settingsFor_eq_ok {settings : Settings} :
    settingsFor s a = .ok settings ↔ (∃ start, StartsFrom s a.settings start ∧
      Merged a start settings) ∧ settings.validate = .ok () := by
  simp only [merged_iff, settingsFor, bind_eq_ok]
  constructor
  · rintro ⟨start, loaded, _, valid, ⟨⟩⟩
    exact ⟨⟨start, loadSettings_eq_ok.1 loaded, rfl⟩, valid⟩
  · rintro ⟨⟨start, starts, rfl⟩, valid⟩
    exact ⟨start, loadSettings_eq_ok.2 starts, (), valid, rfl⟩

end Command

/-! ### Files -/

instance (fs : FileSystem) (path : RawPath) : Decidable (fs.canCreate path) :=
  inferInstanceAs (Decidable (∃ _, _ = _))

namespace Discovery

/-- A root leads to files exactly where it is there. -/
theorem candidates_ok_iff {fs : FileSystem} {root : RawPath} :
    (∃ offered, candidates fs root = .ok offered) ↔ ∃ place, fs.resolve root = .ok place := by
  rw [candidates]
  cases fs.resolve root with
  | error fault =>
    constructor
    · rintro ⟨_, h⟩
      cases h
    · rintro ⟨_, h⟩
      cases h
  | ok place =>
    obtain ⟨location, item⟩ := place
    refine ⟨fun _ => ⟨_, rfl⟩, fun _ => ?_⟩
    cases item with
    | file content => exact ⟨_, rfl⟩
    | link target => exact ⟨_, rfl⟩
    | directory => exact ⟨_, rfl⟩

/-- Where every root is there, what is wanted of all that they lead to is taken, each file once. -/
theorem wanted_of_accessible {fs : FileSystem} (filters : Filters) {roots : List RawPath}
    (accessible : ∀ root ∈ roots, ∃ place, fs.resolve root = .ok place) :
    ∃ offered, roots.mapM (candidates fs) = .ok offered ∧
      wanted fs filters roots
        = .ok ((offered.flatten.filter (keeps filters)).foldl addNew []) := by
  obtain ⟨offered, each⟩ :=
    exists_mapM_eq_ok fun root mem => candidates_ok_iff.2 (accessible root mem)
  refine ⟨offered, each, ?_⟩
  rw [wanted, each]
  rfl

theorem foldl_addNew_ne_nil {found offered : List Candidate} (h : found ≠ [] ∨ offered ≠ []) :
    offered.foldl addNew found ≠ [] := by
  induction offered generalizing found with
  | nil => simpa using h
  | cons c offered ih =>
    refine ih (.inl ?_)
    rw [addNew]
    split
    · next present =>
      obtain ⟨d, hd, _⟩ := List.any_eq_true.1 present
      exact List.ne_nil_of_mem hd
    · exact List.append_ne_nil_of_right_ne_nil _ (List.cons_ne_nil _ _)

/-- A file is found: some root leads to one that is wanted. -/
def Finds (fs : FileSystem) (filters : Filters) (roots : List RawPath) : Prop :=
  ∃ root ∈ roots, ∃ offered, candidates fs root = .ok offered ∧
    ∃ c ∈ offered, keeps filters c = true

instance (fs : FileSystem) (filters : Filters) (roots : List RawPath) :
    Decidable (Finds fs filters roots) :=
  inferInstanceAs (Decidable (∃ root ∈ roots, _))

theorem finds_of_mem {fs : FileSystem} {filters : Filters} {roots : List RawPath}
    {offered : List (List Candidate)} (each : roots.mapM (candidates fs) = .ok offered) :
    Finds fs filters roots ↔ ∃ c, c ∈ offered.flatten.filter (keeps filters) := by
  constructor
  · rintro ⟨root, mem, found, ok, c, hc, wanted⟩
    obtain ⟨cs, hcs, ok'⟩ := exists_of_mapM_ok each root mem
    rw [ok] at ok'
    cases ok'
    exact ⟨c, List.mem_filter.2 ⟨List.mem_flatten_of_mem hcs hc, wanted⟩⟩
  · rintro ⟨c, hc⟩
    obtain ⟨mem, wanted⟩ := List.mem_filter.1 hc
    obtain ⟨cs, hcs, hc⟩ := List.mem_flatten.1 mem
    obtain ⟨root, hroot, ok⟩ := mem_of_mapM_ok each hcs
    exact ⟨root, hroot, cs, ok, c, hc, wanted⟩

/-- Discovery ends well where every root is there, and finds something where a root leads to a file
    that is wanted. -/
theorem discover_ok {fs : FileSystem} (filters : Filters) {roots : List RawPath}
    (accessible : ∀ root ∈ roots, ∃ place, fs.resolve root = .ok place) :
    ∃ sources, discover fs filters roots = .ok sources ∧
      (sources ≠ [] ↔ Finds fs filters roots) := by
  obtain ⟨offered, each, found⟩ := wanted_of_accessible filters accessible
  obtain ⟨sources, discovered, perm, _⟩ := discover_of_wanted found
  refine ⟨sources, discovered, ?_⟩
  rw [finds_of_mem each]
  constructor
  · intro nonempty
    obtain ⟨source, mem⟩ := List.exists_mem_of_ne_nil _ nonempty
    obtain ⟨c, hc, _⟩ := List.mem_map.1 (perm.subset mem)
    rcases mem_foldl_addNew hc with hc | hc
    · cases hc
    · exact ⟨c, hc⟩
  · rintro ⟨c, hc⟩ empty
    rw [empty, List.nil_perm, List.map_eq_nil_iff] at perm
    exact foldl_addNew_ne_nil (.inr (List.ne_nil_of_mem hc)) perm

theorem accessible_of_discover {fs : FileSystem} {filters : Filters} {roots : List RawPath}
    {sources : List SourcePath} (h : discover fs filters roots = .ok sources) :
    ∀ root ∈ roots, ∃ place, fs.resolve root = .ok place := by
  rw [discover, bind_eq_ok] at h
  obtain ⟨files, h, _⟩ := h
  obtain ⟨offered, each, _⟩ := bind_eq_ok.1 h
  intro root mem
  obtain ⟨found, _, ok⟩ := exists_of_mapM_ok each root mem
  exact candidates_ok_iff.1 ⟨found, ok⟩

end Discovery

/-! ### Analysis -/

namespace Command

variable {s : Surroundings} {a : AnalyzeArguments}

/-- What an analysis needs before it can run. -/
structure Prepared (s : Surroundings) (a : AnalyzeArguments) (settings : Settings)
    (filters : Filters) : Prop where
  /-- The settings are those it starts from, with the arguments over them. -/
  loaded : ∃ start, StartsFrom s a.settings start ∧ Merged a start settings
  valid : settings.validate = .ok ()
  /-- Files are filtered as the settings say. -/
  filtered : Selection.parse settings.languages = .ok filters.languages ∧
    Globs.parse settings.included = .ok filters.included ∧
    Globs.parse settings.excluded = .ok filters.excluded
  accessible : ∀ root ∈ a.paths, ∃ place, s.files.resolve root = .ok place
  found : Discovery.Finds s.files filters a.paths

/-- What an analysis needs to write its report. -/
structure Ready (s : Surroundings) (a : AnalyzeArguments) (settings : Settings)
    (filters : Filters) : Prop extends Prepared s a settings filters where
  creatable : ∀ path, a.output = some path → s.files.canCreate path

/-- The clock can show the end of the time limit: its seconds are less than 2 to the power of 63. -/
def InReach (s : Surroundings) (settings : Settings) : Prop :=
  ∀ seconds, settings.timeoutSecs = some seconds →
    s.clock.start + seconds < 9223372036854775808

/-- The text of the report on some files, in the format and with the values that were asked for. -/
def reportText (s : Surroundings) (settings : Settings) (filters : Filters)
    (sources : List SourcePath) : String :=
  (run s.files
    { languages := filters.languages
      top := settings.top.getD 10
      skipUnknown := settings.skipUnknown.getD false
      timeoutSecs := settings.timeoutSecs
      clock := s.clock
      generatedAt := if settings.timestamp.getD true then some s.time else none } sources).render
    (settings.format.getD .json) (settings.sarifThreshold.getD 15)

/-- A text is all that was written, to the output or to a file. -/
def Delivered (before : FileSystem) (destination : Option RawPath) (text : String) (f : Finished) :
    Prop :=
  match destination with
  | none => f.output = text ∧ f.files = before
  | some path => f.output = "" ∧ before.Wrote f.files path { bytes := Utf8.encode text }

theorem prepare_of_prepared {settings : Settings} {filters : Filters}
    (prepared : Prepared s a settings filters) :
    ∃ sources, sources ≠ [] ∧ Discovery.discover s.files filters a.paths = .ok sources ∧
      prepare s a = .ok (settings, runOptions s settings filters.languages, sources) := by
  obtain ⟨sources, discovered, nonempty⟩ := Discovery.discover_ok filters prepared.accessible
  refine ⟨sources, nonempty.2 prepared.found, discovered, ?_⟩
  refine bind_eq_ok.2 ⟨settings, settingsFor_eq_ok.2 ⟨prepared.loaded, prepared.valid⟩, ?_⟩
  refine bind_eq_ok.2 ⟨filters, Filters.parse_eq_ok.2 prepared.filtered, ?_⟩
  exact bind_eq_ok.2 ⟨sources, discovered, rfl⟩

theorem prepared_of_prepare {settings : Settings} {options : RunOptions}
    {sources : List SourcePath} (h : prepare s a = .ok (settings, options, sources))
    (nonempty : sources ≠ []) : ∃ filters, Prepared s a settings filters := by
  obtain ⟨_, loaded, h⟩ := bind_eq_ok.1 h
  obtain ⟨filters, filtered, h⟩ := bind_eq_ok.1 h
  obtain ⟨_, discovered, h⟩ := bind_eq_ok.1 h
  cases h
  obtain ⟨loaded, valid⟩ := settingsFor_eq_ok.1 loaded
  have accessible := Discovery.accessible_of_discover discovered
  obtain ⟨_, again, finds⟩ := Discovery.discover_ok filters accessible
  rw [discovered] at again
  cases again
  exact ⟨filters, loaded, valid, Filters.parse_eq_ok.1 filtered, accessible, finds.1 nonempty⟩

theorem run?_runOptions {settings : Settings} {languages : Selection} {sources : List SourcePath} :
    run? s.files (runOptions s settings languages) sources =
      if settings.timeoutSecs.all s.clock.reaches then
        some (run s.files (runOptions s settings languages) sources)
      else none := rfl

theorem inReach_iff {settings : Settings} :
    settings.timeoutSecs.all s.clock.reaches = true ↔ InReach s settings := by
  rw [InReach, Option.all_eq_true]
  refine forall₂_congr fun seconds _ => ?_
  rw [Clock.reaches, Clock.range, decide_eq_true_eq]

/-- A command that ended without a trace: with an error, and nothing written. -/
structure Refused (before : FileSystem) (f : Finished) : Prop where
  exitCode : f.exitCode = 1 ∨ f.exitCode = 2
  output : f.output = ""
  files : f.files = before

theorem refused_endWith (files : FileSystem) {code : ℕ} (message : String)
    (h : code = 1 ∨ code = 2) : Refused files (endWith files code message) :=
  ⟨h, rfl, rfl⟩

/-- A report is delivered where its file can be created, and refused otherwise. -/
theorem writeReport_cases (files : FileSystem) (destination : Option RawPath) (text : String) :
    ((∀ path, destination = some path → files.canCreate path) ∧
      (writeReport files destination text).exitCode = 0 ∧
      Delivered files destination text (writeReport files destination text)) ∨
    ((¬ ∀ path, destination = some path → files.canCreate path) ∧
      Refused files (writeReport files destination text)) := by
  cases destination with
  | none => exact .inl ⟨fun _ h => (by cases h), rfl, rfl, rfl⟩
  | some path =>
    by_cases creatable : files.canCreate path
    · obtain ⟨after, created, wrote⟩ :=
        FileSystem.create_of_canCreate creatable { bytes := Utf8.encode text }
      refine .inl ⟨fun _ h => Option.some.inj h ▸ creatable, ?_⟩
      rw [writeReport, created]
      exact ⟨rfl, rfl, wrote⟩
    · obtain ⟨fault, failed⟩ :=
        FileSystem.create_of_not_canCreate creatable { bytes := Utf8.encode text }
      refine .inr ⟨fun h => creatable (h path rfl), ?_⟩
      rw [writeReport, failed]
      exact refused_endWith _ _ (.inr rfl)

/-- An analysis that is not prepared is refused. -/
theorem analyze_of_not_prepared (h : ∀ settings filters, ¬ Prepared s a settings filters) :
    Refused s.files (analyze s a) := by
  rw [analyze]
  split
  · next e _ => exact refused_endWith _ _ e.exitCode_cases
  · exact refused_endWith _ _ (.inl rfl)
  · next settings options sources nonempty prepared =>
    obtain ⟨filters, prepared⟩ := prepared_of_prepare prepared nonempty
    exact absurd prepared (h settings filters)

/-- An analysis that is prepared writes its report, or breaks off where the clock cannot show the
    end of the time limit. -/
theorem analyze_of_prepared {settings : Settings} {filters : Filters}
    (prepared : Prepared s a settings filters) :
    ∃ sources, Discovery.discover s.files filters a.paths = .ok sources ∧
      (InReach s settings →
        analyze s a = writeReport s.files a.output (reportText s settings filters sources)) ∧
      (¬ InReach s settings → analyze s a = breakOff s.files) := by
  obtain ⟨sources, nonempty, discovered, prepare⟩ := prepare_of_prepared prepared
  refine ⟨sources, discovered, ?_⟩
  obtain ⟨source, rest, rfl⟩ := List.exists_cons_of_ne_nil nonempty
  rw [analyze, prepare]
  dsimp only
  refine ⟨fun inReach => ?_, fun beyond => ?_⟩
  · rw [run?_runOptions, if_pos (inReach_iff.2 inReach)]
    rfl
  · rw [run?_runOptions, if_neg (mt inReach_iff.1 beyond)]

/-- How an analysis ends, by what it needs: well, with a report; broken off, where all it needs to
    run is there but the clock cannot show the end of the time limit; or refused. -/
theorem analyze_cases (s : Surroundings) (a : AnalyzeArguments) :
    (∃ settings filters, Ready s a settings filters ∧ InReach s settings ∧
      (analyze s a).exitCode = 0) ∨
    (∃ settings filters, Prepared s a settings filters ∧ ¬ InReach s settings ∧
      analyze s a = breakOff s.files) ∨
    Refused s.files (analyze s a) := by
  by_cases prepared : ∃ settings filters, Prepared s a settings filters
  · obtain ⟨settings, filters, prepared⟩ := prepared
    obtain ⟨sources, -, writes, breaks⟩ := analyze_of_prepared prepared
    by_cases inReach : InReach s settings
    · rw [writes inReach]
      rcases writeReport_cases s.files a.output (reportText s settings filters sources) with
        ⟨creatable, ends, -⟩ | ⟨-, refused⟩
      · exact .inl ⟨settings, filters, ⟨prepared, creatable⟩, inReach, ends⟩
      · exact .inr (.inr refused)
    · exact .inr (.inl ⟨settings, filters, prepared, inReach, breaks inReach⟩)
  · exact .inr (.inr (analyze_of_not_prepared fun settings filters h =>
      prepared ⟨settings, filters, h⟩))

theorem delivered_of_ready {settings : Settings} {filters : Filters}
    (ready : Ready s a settings filters) (inReach : InReach s settings) :
    ∃ sources, Discovery.discover s.files filters a.paths = .ok sources ∧
      (analyze s a).exitCode = 0 ∧
      Delivered s.files a.output (reportText s settings filters sources) (analyze s a) := by
  obtain ⟨sources, discovered, writes, -⟩ := analyze_of_prepared ready.toPrepared
  rw [writes inReach]
  rcases writeReport_cases s.files a.output (reportText s settings filters sources) with
    ⟨-, ends, delivered⟩ | ⟨no, -⟩
  · exact ⟨sources, discovered, ends, delivered⟩
  · exact absurd ready.creatable no

/-- A directory with settings, a file to measure and an older report. -/
def smallProject : Surroundings where
  files :=
    { items :=
        [(["p"], .directory), (["p", "mehen.yaml"], .file ⟨Utf8.encode "format: csv\n", none⟩),
         (["p", "a.go"], .file ⟨Utf8.encode "package a\n", none⟩),
         (["p", "out.csv"], .file ⟨Utf8.encode "old\n", none⟩)]
      workingDirectory := ["p"] }

/-- An analysis of the working directory, with the report in the place of the older one. -/
def smallAnalysis : AnalyzeArguments where
  paths := ["."]
  timeoutSecs := some 60
  output := some "out.csv"
  noTimestamp := true

/-- A directory with one file of unknown language. -/
def notesOnly : Surroundings where
  files := { items := [(["notes"], .file ⟨Utf8.encode "plain\n", none⟩)] }

/-- An analysis of that file with the longest time limit that there is. -/
def longAnalysis : AnalyzeArguments where
  paths := ["notes"]
  format := some .csv
  skipUnknown := true
  timeoutSecs := some 18446744073709551615
  noTimestamp := true

end Command

end CodeMetrics

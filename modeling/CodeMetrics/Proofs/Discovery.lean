import Mathlib.Data.List.Nodup
import CodeMetrics.Project.Run
import CodeMetrics.Proofs.Lists

/-! What is found is what is measured. A file that discovery finds stands where its path leads, so a
    run reads the very content that its language was told from; and telling the language from the
    path alone, where that is enough, gives the same answer as with a sample of the content. So no
    file is kept for a language that the run does not see in it. -/

namespace CodeMetrics

/-! ### Where paths lead -/

namespace FileSystem

/-- Links are followed to the end. -/
theorem follow_ne_link (fs : FileSystem) (directory location : Location) (pieces : List RawPath)
    (target : RawPath) : fs.follow directory pieces ≠ .found location (.link target) := by
  fun_induction follow fs directory pieces <;> simp_all

theorem resolveFrom_ne_link (fs : FileSystem) (links : ℕ) (directory location : Location)
    (pieces : List RawPath) (target : RawPath) :
    fs.resolveFrom links directory pieces ≠ .ok (location, .link target) := by
  fun_induction resolveFrom fs links directory pieces with
  | case1 links directory pieces stop item reached =>
    intro h
    cases h
    exact fs.follow_ne_link _ _ _ _ reached
  | case2 | case3 => simp
  | case4 _ _ _ _ _ _ links ih => exact ih

theorem resolve_ne_link (fs : FileSystem) (path : RawPath) (location : Location)
    (target : RawPath) :
    fs.resolve path ≠ .ok (location, .link target) := by
  rw [resolve]
  split
  · simp
  · exact fs.resolveFrom_ne_link _ _ _ _ _

end FileSystem

namespace Candidate

/-- The file as it is handed to a run. -/
def source (c : Candidate) : SourcePath := ⟨c.path, c.shown⟩

/-- A candidate that stands where its path leads. -/
def Leads (fs : FileSystem) (c : Candidate) : Prop :=
  fs.resolve c.path = .ok (c.location, .file c.content)

theorem Leads.read {fs : FileSystem} {c : Candidate} (h : c.Leads fs) :
    fs.read c.path = .ok c.content := by
  rw [FileSystem.read, h]

/-- A file that is found below a root. -/
def Walked (fs : FileSystem) (roots : List RawPath) (c : Candidate) : Prop :=
  ∃ root ∈ roots, ∃ directory, fs.resolve root = .ok (directory, .directory) ∧
    c ∈ Discovery.walk fs (Discovery.maxDepth fs) [directory] directory root []

/-- A file that is a root itself. -/
def Named (fs : FileSystem) (roots : List RawPath) (c : Candidate) : Prop :=
  c.path ∈ roots ∧ c.Leads fs

end Candidate

namespace Discovery

/-! ### Candidates -/

/-- A walk finds the files of a directory and those below its directories, under their names. -/
theorem walk_cases {fs : FileSystem} {depth : ℕ} {above : List Location} {directory : Location}
    {path : RawPath} {names : List RawPath} {c : Candidate}
    (h : c ∈ walk fs (depth + 1) above directory path names) :
    ∃ name ∈ fs.namesIn directory,
      (c.path = Path.join path name ∧ c.Leads fs ∧ c.isRoot = false) ∨
      ∃ above location names, c ∈ walk fs depth above location (Path.join path name) names := by
  rw [walk] at h
  obtain ⟨name, hname, h⟩ := List.mem_flatMap.1 h
  refine ⟨name, hname, ?_⟩
  dsimp only at h
  split at h
  · next location content found =>
    split at h
    · cases h
    · obtain rfl := List.mem_singleton.1 h
      exact Or.inl ⟨rfl, found, rfl⟩
  · next location found =>
    split at h
    · cases h
    · exact Or.inr ⟨_, _, _, h⟩
  · cases h

/-- A walk finds files where their paths lead, and none of them is a root. -/
theorem leads_of_mem_walk {fs : FileSystem} {depth : ℕ} {above : List Location}
    {directory : Location} {path : RawPath} {names : List RawPath} {c : Candidate}
    (h : c ∈ walk fs depth above directory path names) : c.Leads fs ∧ c.isRoot = false := by
  induction depth generalizing above directory path names with
  | zero => cases h
  | succ depth ih =>
    obtain ⟨name, -, ⟨-, found⟩ | ⟨_, _, _, below⟩⟩ := walk_cases h
    · exact found
    · exact ih below

/-- What a root leads to is the root itself, or was found below it. -/
theorem walked_or_named {fs : FileSystem} {roots : List RawPath} {root : RawPath}
    (hroot : root ∈ roots) {cs : List Candidate} (offered : candidates fs root = .ok cs)
    {c : Candidate} (h : c ∈ cs) :
    c.Leads fs ∧ (c.Walked fs roots ∨ c.Named fs roots) := by
  rw [candidates] at offered
  split at offered
  · cases offered
  · next location content found =>
    cases offered
    obtain rfl := List.mem_singleton.1 h
    exact ⟨found, Or.inr ⟨hroot, found⟩⟩
  · next location item other found =>
    cases offered
    cases item with
    | directory =>
      exact ⟨(leads_of_mem_walk h).1, Or.inl ⟨root, hroot, location, found, h⟩⟩
    | file content => exact (other content rfl).elim
    | link target => exact absurd found (fs.resolve_ne_link root location target)

/-! ### Each file once -/

theorem mem_foldl_addNew {found offered : List Candidate} {c : Candidate}
    (h : c ∈ offered.foldl addNew found) : c ∈ found ∨ c ∈ offered := by
  induction offered generalizing found with
  | nil => exact Or.inl h
  | cons d offered ih =>
    rcases ih h with h | h
    · rw [addNew] at h
      split at h
      · exact Or.inl h
      · rcases List.mem_append.1 h with h | h
        · exact Or.inl h
        · exact Or.inr (List.mem_singleton.1 h ▸ List.mem_cons_self)
    · exact Or.inr (List.mem_cons_of_mem _ h)

theorem nodup_addNew {found : List Candidate} (distinct : (found.map (·.location)).Nodup)
    (c : Candidate) : ((addNew found c).map (·.location)).Nodup := by
  rw [addNew]
  split
  · exact distinct
  · next new =>
    rw [List.map_append, List.map_singleton]
    refine List.Nodup.append distinct (List.nodup_singleton _) ?_
    intro location hl hc
    obtain ⟨d, hd, rfl⟩ := List.mem_map.1 hl
    exact new (List.any_eq_true.2 ⟨d, hd, by simpa using hc⟩)

/-- No two candidates stand at one location. -/
theorem nodup_foldl_addNew {found : List Candidate} (distinct : (found.map (·.location)).Nodup)
    (offered : List Candidate) : ((offered.foldl addNew found).map (·.location)).Nodup := by
  induction offered generalizing found with
  | nil => exact distinct
  | cons c offered ih => exact ih (nodup_addNew distinct c)

/-! ### What is wanted -/

/-- What is known of the files that are wanted. -/
structure Wanted (fs : FileSystem) (filters : Filters) (roots : List RawPath)
    (files : List Candidate) : Prop where
  /-- Each stands at a location of its own. -/
  distinct : (files.map (·.location)).Nodup
  leads : ∀ c ∈ files, c.Leads fs
  origin : ∀ c ∈ files, c.Walked fs roots ∨ c.Named fs roots
  keeps : ∀ c ∈ files, keeps filters c = true

theorem wanted_spec {fs : FileSystem} {filters : Filters} {roots : List RawPath}
    {files : List Candidate} (h : wanted fs filters roots = .ok files) :
    Wanted fs filters roots files := by
  rw [wanted] at h
  cases hoffered : roots.mapM (candidates fs) with
  | error e => rw [hoffered] at h; cases h
  | ok offered =>
    rw [hoffered] at h
    cases h
    have mem : ∀ c ∈ (offered.flatten.filter (keeps filters)).foldl addNew [],
        c ∈ offered.flatten ∧ keeps filters c = true := by
      intro c hc
      rcases mem_foldl_addNew hc with hc | hc
      · cases hc
      · exact List.mem_filter.1 hc
    have origin : ∀ c ∈ offered.flatten,
        c.Leads fs ∧ (c.Walked fs roots ∨ c.Named fs roots) := by
      intro c hc
      obtain ⟨cs, hcs, hc⟩ := List.mem_flatten.1 hc
      obtain ⟨root, hroot, hoffer⟩ := mem_of_mapM_ok hoffered hcs
      exact walked_or_named hroot hoffer hc
    exact
      { distinct := nodup_foldl_addNew (by simp) _
        leads := fun c hc => (origin c (mem c hc).1).1
        origin := fun c hc => (origin c (mem c hc).1).2
        keeps := fun c hc => (mem c hc).2 }

/-- What is discovered are the wanted files in the order of their paths as shown. -/
theorem discover_of_wanted {fs : FileSystem} {filters : Filters} {roots : List RawPath}
    {files : List Candidate} (h : wanted fs filters roots = .ok files) :
    ∃ sources, discover fs filters roots = .ok sources ∧
      sources.Perm (files.map Candidate.source) ∧
      sources.Pairwise fun a b => a.shown ≤ b.shown := by
  refine ⟨_, by rw [discover, h]; rfl, List.mergeSort_perm _ _, ?_⟩
  refine (List.pairwise_mergeSort (fun a b c hab hbc => ?_) (fun a b => ?_) _).imp fun hab => ?_
  · simp only [Bool.not_eq_true', decide_eq_false_iff_not, String.not_lt] at hab hbc ⊢
    exact String.le_trans hab hbc
  · simp only [Bool.or_eq_true, Bool.not_eq_true', decide_eq_false_iff_not, String.not_lt]
    exact String.le_total a.shown b.shown
  · simpa only [Bool.not_eq_true', decide_eq_false_iff_not, String.not_lt] using hab

theorem wanted_of_discover {fs : FileSystem} {filters : Filters} {roots : List RawPath}
    {sources : List SourcePath} (h : discover fs filters roots = .ok sources) :
    ∃ files, Wanted fs filters roots files ∧ sources.Perm (files.map Candidate.source) ∧
      sources.Pairwise fun a b => a.shown ≤ b.shown := by
  cases hw : wanted fs filters roots with
  | error e =>
    rw [discover, hw] at h
    cases h
  | ok files =>
    obtain ⟨sources', found, order, ordered⟩ := discover_of_wanted hw
    rw [h] at found
    cases found
    exact ⟨files, wanted_spec hw, order, ordered⟩

/-! ### Languages -/

/-- Where the path alone tells the language, a sample of the content does not change it. -/
theorem detect_eq (path : RawPath) (bytes : List UInt8) :
    detect path bytes
      = Detection.classify path (some (bytes.take Detection.sampleLength)) := by
  rw [detect]
  simp only [Detection.classify]
  cases h : (Path.extension? path).bind Language.ofExtension? with
  | none => rfl
  | some language => cases language <;> rfl

/-- A file that is kept has a language that was asked for, or none and is a root. -/
theorem language_of_keeps {filters : Filters} {c : Candidate} (h : keeps filters c = true) :
    (∃ language, detect c.path c.content.bytes = some language ∧
        filters.languages.includes language = true) ∨
      (detect c.path c.content.bytes = none ∧ c.isRoot = true) := by
  rw [keeps, Bool.and_eq_true] at h
  obtain ⟨-, h⟩ := h
  split at h
  · next none => exact Or.inr ⟨none, h⟩
  · next language known => exact Or.inl ⟨language, known, h⟩

end Discovery

namespace Run

open Discovery

variable {fs : FileSystem} {options : RunOptions} {c : Candidate} (leads : c.Leads fs)

include leads

/-- A run reads what was found. A file of a language that was asked for is measured. -/
theorem process_of_known {language : Language}
    (known : detect c.path c.content.bytes = some language)
    (asked : options.languages.includes language = true) :
    process fs options c.source = measure c.source language c.content := by
  rw [detect_eq] at known
  simp only [process, Candidate.source, leads.read, known, Selection.get, asked, if_true]

/-- A file of unknown language is skipped, or fails for that reason. -/
theorem process_of_unknown (unknown : detect c.path c.content.bytes = none) :
    process fs options c.source
      = if options.skipUnknown then .skipped c.shown
        else .failed (FileReport.failed c.shown none (.unknownLanguage c.path.text)) := by
  rw [detect_eq] at unknown
  simp only [process, Candidate.source, leads.read, unknown]

end Run

/-- The outcomes of a file whose language was not seen or not asked for. -/
inductive Outcome.Unrecognized : Outcome → Prop
  | skipped (path : String) : Unrecognized (.skipped path)
  | omitted (path : String) : Unrecognized (.omitted path)
  | unknownLanguage (shown path : String) :
    Unrecognized (.failed (FileReport.failed shown none (.unknownLanguage path)))

theorem Outcome.Unrecognized.language {file : FileReport}
    (h : (Outcome.failed file).Unrecognized) : file.language = "unknown" := by
  cases h
  rfl

theorem Language.name_ne_unknown (language : Language) : language.name ≠ "unknown" := by
  cases language <;> decide

/-- What is measured, or cannot be parsed, is of a known language. -/
theorem Run.measure_recognized (source : SourcePath) (language : Language)
    (content : FileContent) : ¬ (measure source language content).Unrecognized := by
  rw [measure]
  split
  · intro h
    cases h
  · intro h
    exact language.name_ne_unknown h.language

/-- Discovery and runs tell languages alike. With the same languages asked for, a file that was
    found below a root is measured as the language that discovery saw in it; it is neither skipped
    nor omitted nor of unknown language. A file that was named is not omitted. -/
theorem classified_alike {fs : FileSystem} {filters : Filters} {roots : List RawPath}
    {files : List Candidate} (found : Discovery.wanted fs filters roots = .ok files)
    {options : RunOptions} (same : options.languages = filters.languages) :
    (∀ path bytes, Discovery.detect path bytes
      = Detection.classify path (some (bytes.take Detection.sampleLength))) ∧
    (∃ sources, Discovery.discover fs filters roots = .ok sources ∧
      sources.Perm (files.map Candidate.source)) ∧
    ∀ c ∈ files, (c.Walked fs roots ∨ c.Named fs roots) ∧
      (c.Walked fs roots → ∃ language,
        Discovery.detect c.path c.content.bytes = some language ∧
        Run.process fs options c.source = Run.measure c.source language c.content ∧
        ¬ (Run.process fs options c.source).Unrecognized) ∧
      (c.Named fs roots → ∀ path, Run.process fs options c.source ≠ .omitted path) := by
  have wanted := Discovery.wanted_spec found
  obtain ⟨sources, discovered, order, -⟩ := Discovery.discover_of_wanted found
  refine ⟨Discovery.detect_eq, ⟨sources, discovered, order⟩, fun c hc => ?_⟩
  have leads := wanted.leads c hc
  have known : ∀ language, Discovery.detect c.path c.content.bytes = some language →
      filters.languages.includes language = true →
      Run.process fs options c.source = Run.measure c.source language c.content :=
    fun language told asked => Run.process_of_known leads told (same ▸ asked)
  refine ⟨wanted.origin c hc, ?_, ?_⟩
  · rintro ⟨root, -, directory, -, walked⟩
    have below := (Discovery.leads_of_mem_walk walked).2
    rcases Discovery.language_of_keeps (wanted.keeps c hc) with
      ⟨language, told, asked⟩ | ⟨-, isRoot⟩
    · have measured := known language told asked
      exact ⟨language, told, measured, measured ▸ Run.measure_recognized _ _ _⟩
    · rw [below] at isRoot
      cases isRoot
  · intro _ path omitted
    rcases Discovery.language_of_keeps (wanted.keeps c hc) with
      ⟨language, told, asked⟩ | ⟨unknown, -⟩
    · have recognized := Run.measure_recognized c.source language c.content
      rw [← known language told asked, omitted] at recognized
      exact recognized (.omitted path)
    · rw [Run.process_of_unknown leads unknown] at omitted
      split at omitted <;> cases omitted

/-- Below a root a source, a script, a catalogue of messages under the extension of sources, and a
    source that is not asked for; and a file without a language that is named. -/
theorem classified_alike_catalogue :
    let file (text : String) : Item := .file ⟨Utf8.encode text, none⟩
    let fs : FileSystem :=
      { items :=
          [(["src"], .directory), (["src", "a.ts"], file "let a = 1;"),
           (["src", "run"], file "#!/usr/bin/env deno\n"), (["src", "de.ts"], file " <TS></TS>"),
           (["src", "b.go"], file ""), (["notes"], file "")] }
    let filters : Filters := ⟨{}, {}, ⟨[.typeScript], true⟩⟩
    let options : RunOptions := { languages := filters.languages }
    ∃ files, Discovery.wanted fs filters ["src", "notes"] = .ok files ∧
      files.map (·.path) = (["src/a.ts", "src/run", "notes"] : List RawPath) ∧
      ∀ c ∈ files, (∀ path, Run.process fs options c.source ≠ .omitted path) ∧
        (c.path ≠ "notes" → ¬ (Run.process fs options c.source).Unrecognized) := by
  intro file fs filters options
  have paths : (Discovery.wanted fs filters ["src", "notes"]).toOption.map (·.map (·.path))
      = some (["src/a.ts", "src/run", "notes"] : List RawPath) := by decide +kernel
  cases found : Discovery.wanted fs filters ["src", "notes"] with
  | error e => rw [found] at paths; cases paths
  | ok files =>
    rw [found] at paths
    have paths : files.map (·.path) = (["src/a.ts", "src/run", "notes"] : List RawPath) :=
      Option.some.inj paths
    have alike := (classified_alike found (rfl : options.languages = filters.languages)).2.2
    refine ⟨files, rfl, paths, fun c hc => ?_⟩
    obtain ⟨origin, walked, named⟩ := alike c hc
    rcases origin with h | h
    · obtain ⟨language, -, -, recognized⟩ := walked h
      exact ⟨fun path omitted => recognized (omitted ▸ .omitted path), fun _ => recognized⟩
    · have path : c.path ∈ (["src/a.ts", "src/run", "notes"] : List RawPath) :=
        paths ▸ List.mem_map_of_mem hc
      have root : c.path ∈ (["src", "notes"] : List RawPath) := h.1
      refine ⟨named h, fun hne => absurd ?_ hne⟩
      rcases List.mem_cons.1 root with root | root
      · rw [root] at path
        exact absurd path (by decide)
      · exact List.mem_singleton.1 root

end CodeMetrics

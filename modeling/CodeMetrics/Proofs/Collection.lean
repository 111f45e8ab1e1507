import Mathlib.Data.List.Nodup
import CodeMetrics.Project.Run
import CodeMetrics.Proofs.Lists
import CodeMetrics.Proofs.Rollup

/-! What is collected from outcomes that come in one after the other.

    Taking in an outcome does three things at once: it adds to the rollup, it settles the file's
    stage in the ledger, and it tells how many came in. Each is followed through a whole collection
    by itself. Where every outcome belongs to a file of its own, the order does not matter to any of
    them. -/

namespace CodeMetrics

namespace Outcome

/-- What an outcome does to the rollup. -/
def step? : Outcome → Option Rollup.Step
  | .measured file | .failed file => some (.file file)
  | .skipped path => some (.skip path)
  | .omitted _ => none

/-- The entry of a file that was measured or failed. -/
def file? : Outcome → Option FileReport
  | .measured file | .failed file => some file
  | .skipped _ | .omitted _ => none

/-- The path that is listed as left out. -/
def leftOut? : Outcome → Option String
  | .skipped path => some path
  | .measured _ | .failed _ | .omitted _ => none

theorem step?_file? (o : Outcome) : o.step?.bind Rollup.Step.file? = o.file? := by
  cases o <;> rfl

theorem step?_path? (o : Outcome) : o.step?.bind Rollup.Step.path? = o.leftOut? := by
  cases o <;> rfl

theorem path_of_file? {o : Outcome} {file : FileReport} (h : o.file? = some file) :
    file.path = o.path := by
  cases o <;> cases h <;> rfl

theorem path_of_leftOut? {o : Outcome} {path : String} (h : o.leftOut? = some path) :
    path = o.path := by
  cases o <;> cases h
  rfl

theorem file?_of_step? {o : Outcome} {file : FileReport} (h : o.step? = some (.file file)) :
    o.file? = some file := by
  rw [← step?_file?, h]; rfl

end Outcome

namespace Run

/-! ### The rollup -/

theorem collectOne_eq (r : Rollup) (o : Outcome) :
    collectOne r o = o.step?.elim r r.take := by
  cases o <;> rfl

theorem collectAll_eq (r : Rollup) (outcomes : List Outcome) :
    outcomes.foldl collectOne r = (outcomes.filterMap Outcome.step?).foldl Rollup.take r := by
  induction outcomes generalizing r with
  | nil => rfl
  | cons o rest ih =>
    rw [List.foldl_cons, ih, collectOne_eq]
    cases h : o.step? with
    | none => rw [List.filterMap_cons_none h]; rfl
    | some s => rw [List.filterMap_cons_some h, List.foldl_cons]; rfl

/-! ### The ledger -/

/-- An outcome ends the way of its file, wherever the file was. -/
theorem settle_isTerminal (stage : Stage) (o : Outcome) :
    (settle stage o.stage).isTerminal = true := by
  cases stage <;> cases o <;> rfl

/-- After some outcomes exactly the files are at an end that were there before or had one. -/
theorem Ledger.pending_note (ledger : Ledger) (outcomes : List Outcome) :
    (outcomes.foldl Ledger.note ledger).pending
      = ledger.countP fun (path, stage) =>
          !(stage.isTerminal || outcomes.any fun o => o.path == path) := by
  induction outcomes generalizing ledger with
  | nil => simp [Ledger.pending]
  | cons o rest ih =>
    rw [List.foldl_cons, ih, Ledger.note, List.countP_map]
    refine List.countP_congr fun ⟨path, stage⟩ _ => ?_
    simp only [Function.comp_apply, List.any_cons]
    by_cases h : path = o.path
    · simp [h, settle_isTerminal]
    · have h' : (o.path == path) = false := by simpa using fun e : o.path = path => h e.symm
      simp [h, h']

/-- Where every file has a path of its own, the files without an outcome are left. -/
theorem Ledger.pending_of (sources : List SourcePath) (outcomes : List Outcome)
    (distinct : (sources.map (·.shown)).Nodup) :
    (outcomes.foldl Ledger.note (Ledger.of sources)).pending
      = (sources.filter fun s => !outcomes.any fun o => o.path == s.shown).length := by
  rw [pending_note, Ledger.of, eraseDups_of_nodup distinct, List.map_map, List.countP_map,
    List.countP_eq_length_filter]
  rfl

/-! ### The whole collection -/

/-- A collection follows its three parts. -/
theorem takeAll_eq (total : Nat) (c : Collection) (outcomes : List Outcome) :
    (outcomes.foldl (Collection.take total) c).rollup = outcomes.foldl collectOne c.rollup ∧
      (outcomes.foldl (Collection.take total) c).ledger = outcomes.foldl Ledger.note c.ledger ∧
      (outcomes.foldl (Collection.take total) c).finished = c.finished + outcomes.length := by
  induction outcomes generalizing c with
  | nil => exact ⟨rfl, rfl, rfl⟩
  | cons o rest ih =>
    obtain ⟨hr, hl, hf⟩ := ih (c.take total o)
    refine ⟨hr, hl, hf.trans ?_⟩
    rw [List.length_cons]
    simp only [Collection.take]
    omega

theorem collect_rollup (top : Nat) (sources : List SourcePath) (outcomes : List Outcome) :
    (collect top sources outcomes).rollup
      = Rollup.ofSteps top (outcomes.filterMap Outcome.step?) :=
  (takeAll_eq _ _ outcomes).1.trans (collectAll_eq _ outcomes)

/-- Under each path the first entry that came in, in the order of paths. -/
theorem collect_files (top : Nat) (sources : List SourcePath) (outcomes : List Outcome) :
    Rollup.Holds FileReport.path (outcomes.filterMap Outcome.file?)
      (collect top sources outcomes).rollup.files := by
  have h := (Rollup.after_ofSteps top (outcomes.filterMap Outcome.step?)).files
  rw [List.filterMap_filterMap, ← collect_rollup top sources] at h
  simpa only [Outcome.step?_file?] using h

theorem collect_skipped (top : Nat) (sources : List SourcePath) (outcomes : List Outcome) :
    Rollup.Holds id (outcomes.filterMap Outcome.leftOut?)
      (collect top sources outcomes).rollup.skipped := by
  have h := (Rollup.after_ofSteps top (outcomes.filterMap Outcome.step?)).skipped
  rw [List.filterMap_filterMap, ← collect_rollup top sources] at h
  simpa only [Outcome.step?_path?] using h

theorem collect_pending (top : Nat) {sources : List SourcePath} (outcomes : List Outcome)
    (distinct : (sources.map (·.shown)).Nodup) :
    (collect top sources outcomes).pending
      = (sources.filter fun s => !outcomes.any fun o => o.path == s.shown).length := by
  rw [Collection.pending, collect, (takeAll_eq _ _ outcomes).2.1]
  exact Ledger.pending_of sources outcomes distinct

/-- What was told so far counts up to what came in. -/
def Counted (total : Nat) (c : Collection) : Prop :=
  c.told.reverse = (List.range c.finished).map fun i => (i + 1, total)

theorem Counted.take {total : Nat} {c : Collection} (h : Counted total c) (o : Outcome) :
    Counted total (c.take total o) := by
  rw [Counted] at h ⊢
  simp only [Collection.take, List.reverse_cons, h, List.range_succ, List.map_append,
    List.map_cons, List.map_nil]

theorem Counted.takeAll {total : Nat} {c : Collection} (h : Counted total c)
    (outcomes : List Outcome) : Counted total (outcomes.foldl (Collection.take total) c) := by
  induction outcomes generalizing c with
  | nil => exact h
  | cons o rest ih => exact ih (h.take o)

/-- Every outcome is told once, by its number. -/
theorem progress_eq (top : Nat) (sources : List SourcePath) (outcomes : List Outcome) :
    progress sources outcomes top
      = (List.range outcomes.length).map fun i => (i + 1, sources.length) := by
  have start : Counted sources.length (Collection.start top sources) := rfl
  have counted := start.takeAll outcomes
  rw [Counted, (takeAll_eq _ _ outcomes).2.2] at counted
  simpa [progress, collect, Collection.start] using counted

/-! ### Outcomes of files -/

/-- Some of the files were started, and their outcomes came in in some order. -/
structure Arrived (sources : List SourcePath) (outcome : SourcePath → Outcome)
    (started : SourcePath → Bool) (arrivals : List Outcome) : Prop where
  distinct : (sources.map (·.shown)).Nodup
  path : ∀ s ∈ sources, (outcome s).path = s.shown
  order : arrivals.Perm ((sources.filter started).map outcome)

/-- A report that tells of exactly the files that were started: under the path of each file it has
    what the file's outcome says, and nothing else. -/
structure Accounts (sources : List SourcePath) (outcome : SourcePath → Outcome)
    (started : SourcePath → Bool) (r : ProjectReport) : Prop where
  cancelled : r.cancelled = true ↔ ∃ s ∈ sources, started s = false
  files : ∀ s ∈ sources, (r.files.filter fun file => file.path == s.shown)
    = if started s then (outcome s).file?.toList else []
  skipped : ∀ s ∈ sources, (r.skipped.filter fun path => path == s.shown)
    = if started s then (outcome s).leftOut?.toList else []
  onlyFiles : ∀ file ∈ r.files, ∃ s ∈ sources, started s = true ∧ (outcome s).file? = some file
  onlySkipped : ∀ path ∈ r.skipped,
    ∃ s ∈ sources, started s = true ∧ (outcome s).leftOut? = some path

namespace Arrived

variable {sources : List SourcePath} {outcome : SourcePath → Outcome}
  {started : SourcePath → Bool} {arrivals : List Outcome}

theorem mem_iff (h : Arrived sources outcome started arrivals) (o : Outcome) :
    o ∈ arrivals ↔ ∃ s ∈ sources, started s = true ∧ outcome s = o := by
  rw [h.order.mem_iff, List.mem_map]
  simp only [List.mem_filter, and_assoc]

/-- A file is known by its path. -/
theorem eq_of_shown (h : Arrived sources outcome started arrivals) {s t : SourcePath}
    (hs : s ∈ sources) (ht : t ∈ sources) (e : s.shown = t.shown) : s = t :=
  List.inj_on_of_nodup_map h.distinct hs ht e

/-- An outcome under the path of a file is the outcome of that file. -/
theorem outcome_of_path (h : Arrived sources outcome started arrivals) {s : SourcePath}
    (hs : s ∈ sources) {o : Outcome} (ho : o ∈ arrivals) (e : o.path = s.shown) :
    started s = true ∧ o = outcome s := by
  obtain ⟨t, ht, hstart, rfl⟩ := (h.mem_iff o).1 ho
  obtain rfl : s = t := h.eq_of_shown hs ht (by rw [← e, h.path t ht])
  exact ⟨hstart, rfl⟩

theorem any_path (h : Arrived sources outcome started arrivals) {s : SourcePath}
    (hs : s ∈ sources) : (arrivals.any fun o => o.path == s.shown) = started s := by
  rw [Bool.eq_iff_iff, List.any_eq_true]
  constructor
  · rintro ⟨o, ho, e⟩
    exact (h.outcome_of_path hs ho (by simpa using e)).1
  · intro hstart
    exact ⟨outcome s, (h.mem_iff _).2 ⟨s, hs, hstart, rfl⟩, by simp [h.path s hs]⟩

theorem consistent (h : Arrived sources outcome started arrivals) :
    Rollup.Consistent (arrivals.filterMap Outcome.step?) := by
  intro a b ha hb hab
  obtain ⟨o, ho, hoa⟩ := List.mem_filterMap.1 ha
  obtain ⟨o', ho', hob⟩ := List.mem_filterMap.1 hb
  have hoa := Outcome.file?_of_step? hoa
  have hob := Outcome.file?_of_step? hob
  obtain ⟨s, hs, _, rfl⟩ := (h.mem_iff o).1 ho
  have e : o'.path = s.shown := by
    rw [← Outcome.path_of_file? hob, ← hab, Outcome.path_of_file? hoa, h.path s hs]
  rw [(h.outcome_of_path hs ho' e).2, hoa] at hob
  exact Option.some.inj hob

/-- What the outcomes give under the path of a file is what the file's own outcome gives. -/
theorem first?_eq {α : Type} (key : α → String) {part : Outcome → Option α}
    (keyed : ∀ {o a}, part o = some a → key a = o.path)
    (h : Arrived sources outcome started arrivals) {s : SourcePath} (hs : s ∈ sources) :
    Rollup.first? key s.shown (arrivals.filterMap part)
      = if started s then part (outcome s) else none := by
  cases hf : Rollup.first? key s.shown (arrivals.filterMap part) with
  | some a =>
    obtain ⟨o, ho, hoa⟩ := List.mem_filterMap.1 (Rollup.mem_of_first? hf)
    have e : o.path = s.shown := by rw [← keyed hoa, Rollup.key_of_first? hf]
    obtain ⟨hstart, rfl⟩ := h.outcome_of_path hs ho e
    rw [if_pos hstart, hoa]
  | none =>
    split
    · next hstart =>
      cases hp : part (outcome s) with
      | none => rfl
      | some a =>
        have ha : a ∈ arrivals.filterMap part :=
          List.mem_filterMap.2 ⟨outcome s, (h.mem_iff _).2 ⟨s, hs, hstart, rfl⟩, hp⟩
        obtain ⟨b, hb⟩ := Rollup.first?_isSome key ha
        rw [keyed hp, h.path s hs, hf] at hb
        cases hb
    · rfl

/-- What the outcomes give comes from a file that was started. -/
theorem origin {α : Type} {part : Outcome → Option α} {a : α}
    (h : Arrived sources outcome started arrivals) (ha : a ∈ arrivals.filterMap part) :
    ∃ s ∈ sources, started s = true ∧ part (outcome s) = some a := by
  obtain ⟨o, ho, hoa⟩ := List.mem_filterMap.1 ha
  obtain ⟨s, hs, hstart, rfl⟩ := (h.mem_iff o).1 ho
  exact ⟨s, hs, hstart, hoa⟩

theorem pending_eq (h : Arrived sources outcome started arrivals) (top : Nat) :
    (collect top sources arrivals).pending = (sources.filter fun s => !started s).length := by
  rw [collect_pending top arrivals h.distinct]
  refine congrArg List.length (List.filter_congr fun s hs => ?_)
  rw [h.any_path hs]

/-- Outcomes in another order make the same collection, but for what was told on the way. -/
theorem report_eq (h : Arrived sources outcome started arrivals) {arrivals' : List Outcome}
    (h' : Arrived sources outcome started arrivals') (options : RunOptions) :
    report options sources arrivals' = report options sources arrivals := by
  have order : (arrivals'.filterMap Outcome.step?).Perm (arrivals.filterMap Outcome.step?) :=
    (h'.order.trans h.order.symm).filterMap _
  have rollup := Rollup.ofSteps_perm options.top order h'.consistent
  rw [← collect_rollup _ sources, ← collect_rollup _ sources] at rollup
  rw [report, report, Collection.report, Collection.report, rollup, h.pending_eq, h'.pending_eq]

theorem accounts (h : Arrived sources outcome started arrivals) (options : RunOptions) :
    Accounts sources outcome started (report options sources arrivals) := by
  have files := collect_files options.top sources arrivals
  have skipped := collect_skipped options.top sources arrivals
  refine ⟨?_, ?_, ?_, ?_, ?_⟩
  · -- cancelled: some file is pending
    have hc : (report options sources arrivals).cancelled
        = decide (0 < (collect options.top sources arrivals).pending) := rfl
    rw [hc, decide_eq_true_iff, h.pending_eq, List.length_pos_iff_exists_mem]
    simp only [List.mem_filter, Bool.not_eq_true']
  · intro s hs
    refine (files.filter_key s.shown).trans ?_
    rw [h.first?_eq _ Outcome.path_of_file? hs]
    split <;> rfl
  · intro s hs
    refine (skipped.filter_key s.shown).trans ?_
    rw [h.first?_eq id Outcome.path_of_leftOut? hs]
    split <;> rfl
  · intro file hfile
    exact h.origin (Rollup.mem_of_first? ((files.firsts file).1 hfile))
  · intro path hpath
    exact h.origin (Rollup.mem_of_first? ((skipped.firsts path).1 hpath))

end Arrived

end Run

end CodeMetrics

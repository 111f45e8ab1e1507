import Mathlib.Logic.Relation
import CodeMetrics.Proofs.Collection

/-! Workers on the files of a run.

    A worker takes a file, makes its outcome and sends it through a channel of limited room; one
    collector takes outcomes from there. Whenever a run is stopped, the files that no worker took
    yet are passed over, and those that are at work are finished. Everything may happen in any
    order.

    Whatever the order and the number of workers, the collector gets the outcome of each file that
    was started exactly once; so the report depends on nothing but which files were started. -/

namespace CodeMetrics

/-- Workers, the outcomes on their way, and what is collected of them. -/
structure Pool where
  /-- Files that no worker took. -/
  waiting : List SourcePath
  /-- Files that workers are at. -/
  working : List SourcePath := []
  /-- Outcomes on their way, the next one first. -/
  channel : List Outcome := []
  /-- Whether no more files are started. -/
  stopped : Bool := false
  /-- Files that were started. -/
  started : List SourcePath := []
  collection : Run.Collection

namespace Pool

/-- A pool before its first step. -/
def start (top : Nat) (sources : List SourcePath) : Pool where
  waiting := sources
  collection := Run.Collection.start top sources

/-- The number of workers; there is always one. -/
def workers (jobs : Nat) : Nat := max jobs 1

/-- What can happen next in a pool. -/
inductive Step (jobs total : Nat) (outcome : SourcePath → Outcome) (p : Pool) : Pool → Prop
  /-- A free worker starts a file. -/
  | take (before after : List SourcePath) (s : SourcePath)
      (waits : p.waiting = before ++ s :: after) (free : p.working.length < workers jobs)
      (goesOn : p.stopped = false) :
      Step jobs total outcome p
        { p with waiting := before ++ after, working := s :: p.working, started := s :: p.started }
  /-- The run is stopped. -/
  | stop : Step jobs total outcome p { p with stopped := true }
  /-- A free worker passes over a file. -/
  | pass (before after : List SourcePath) (s : SourcePath)
      (waits : p.waiting = before ++ s :: after) (free : p.working.length < workers jobs)
      (halted : p.stopped = true) :
      Step jobs total outcome p { p with waiting := before ++ after }
  /-- A worker sends the outcome of its file where there is room. -/
  | send (before after : List SourcePath) (s : SourcePath)
      (works : p.working = before ++ s :: after) (room : p.channel.length < workers jobs * 4) :
      Step jobs total outcome p
        { p with working := before ++ after, channel := p.channel ++ [outcome s] }
  /-- The next outcome is collected. -/
  | receive (o : Outcome) (rest : List Outcome) (next : p.channel = o :: rest) :
      Step jobs total outcome p { p with channel := rest, collection := p.collection.take total o }

/-- A pool after some steps of a run over some files. -/
def Reached (jobs top : Nat) (sources : List SourcePath) (outcome : SourcePath → Outcome)
    (p : Pool) : Prop :=
  Relation.ReflTransGen (Step jobs sources.length outcome) (start top sources) p

/-- Nothing is left to do. -/
def Ended (p : Pool) : Prop := p.waiting = [] ∧ p.working = [] ∧ p.channel = []

/-- What every step keeps: an outcome of a file that was started is collected, on its way or still
    being made, and a file was started, waits or was passed over after the run was stopped. -/
structure Sound (top : Nat) (sources : List SourcePath) (outcome : SourcePath → Outcome)
    (p : Pool) : Prop where
  outcomes : ∃ arrivals, p.collection = Run.collect top sources arrivals ∧
    (arrivals ++ p.channel ++ p.working.map outcome).Perm (p.started.map outcome)
  files : ∃ passed, (p.started ++ p.waiting ++ passed).Perm sources ∧
    (p.stopped = false → passed = [])

variable {jobs top : Nat} {sources : List SourcePath} {outcome : SourcePath → Outcome} {p q : Pool}

theorem sound_start : Sound top sources outcome (start top sources) :=
  ⟨⟨[], rfl, .refl _⟩, ⟨[], by simp [start], fun _ => rfl⟩⟩

theorem Sound.step (h : Sound top sources outcome p)
    (step : Step jobs sources.length outcome p q) : Sound top sources outcome q := by
  obtain ⟨arrivals, collected, outcomes⟩ := h.outcomes
  obtain ⟨passed, files, none⟩ := h.files
  cases step with
  | take before after s waits free goesOn =>
    refine ⟨⟨arrivals, collected, ?_⟩, ⟨passed, ?_, none⟩⟩
    · rw [List.map_cons, List.map_cons]
      exact List.perm_middle.trans (outcomes.cons _)
    · rw [waits, List.append_assoc, List.append_assoc] at files
      refine List.Perm.trans ?_ files
      rw [List.append_assoc, List.cons_append, List.append_assoc]
      exact (List.perm_middle.symm.trans (List.Perm.append_left _ List.perm_middle.symm))
  | stop =>
    exact ⟨⟨arrivals, collected, outcomes⟩, ⟨passed, files, fun h => by cases h⟩⟩
  | pass before after s waits free halted =>
    refine ⟨⟨arrivals, collected, outcomes⟩, ⟨s :: passed, ?_, fun h => ?_⟩⟩
    · rw [waits] at files
      refine List.Perm.trans ?_ files
      simp only [List.append_assoc]
      refine List.Perm.append_left _ (List.Perm.append_left _ ?_)
      exact List.perm_middle
    · rw [halted] at h; cases h
  | send before after s works room =>
    refine ⟨⟨arrivals, collected, List.Perm.trans ?_ outcomes⟩, ⟨passed, files, none⟩⟩
    rw [works]
    simp only [List.append_assoc, List.map_append, List.map_cons, List.cons_append, List.nil_append]
    exact List.Perm.append_left _ (List.Perm.append_left _ List.perm_middle.symm)
  | receive o rest next =>
    refine ⟨⟨arrivals ++ [o], ?_, ?_⟩, ⟨passed, files, none⟩⟩
    · rw [collected, Run.collect, Run.collect, List.foldl_append]; rfl
    · rw [next] at outcomes
      simpa [List.append_assoc] using outcomes

theorem Reached.sound (h : Reached jobs top sources outcome p) : Sound top sources outcome p := by
  induction h with
  | refl => exact sound_start
  | tail _ step ih => exact ih.step step

/-- A pool that ended without being stopped has started every file. -/
theorem Reached.started_all (h : Reached jobs top sources outcome p) (ended : Ended p)
    (goesOn : p.stopped = false) {s : SourcePath} (hs : s ∈ sources) : s ∈ p.started := by
  obtain ⟨passed, files, none⟩ := h.sound.files
  rw [ended.1, none goesOn, List.append_nil, List.append_nil] at files
  exact files.mem_iff.2 hs

/-- At the end the outcomes of the files that were started have come in, in some order. -/
theorem Reached.arrived (h : Reached jobs top sources outcome p) (ended : Ended p)
    (distinct : (sources.map (·.shown)).Nodup) (path : ∀ s ∈ sources, (outcome s).path = s.shown)
    {started : SourcePath → Bool} (exactly : ∀ s ∈ sources, s ∈ p.started ↔ started s = true) :
    ∃ arrivals, p.collection = Run.collect top sources arrivals ∧
      Run.Arrived sources outcome started arrivals := by
  obtain ⟨arrivals, collected, outcomes⟩ := h.sound.outcomes
  obtain ⟨passed, files, -⟩ := h.sound.files
  rw [ended.1, List.append_nil] at files
  rw [ended.2.1, ended.2.2, List.map_nil, List.append_nil, List.append_nil] at outcomes
  have nodup : sources.Nodup := distinct.of_map
  have startedNodup : p.started.Nodup := (List.nodup_append.1 (files.nodup_iff.2 nodup)).1
  have same : p.started.Perm (sources.filter started) := by
    refine (List.perm_ext_iff_of_nodup startedNodup (nodup.filter _)).2 fun s => ?_
    rw [List.mem_filter]
    constructor
    · intro hs
      have hs' : s ∈ sources := files.mem_iff.1 (List.mem_append_left _ hs)
      exact ⟨hs', (exactly s hs').1 hs⟩
    · rintro ⟨hs, hstart⟩
      exact (exactly s hs).2 hstart
  exact ⟨arrivals, collected, distinct, path, outcomes.trans (same.map _)⟩

end Pool

/-- A run is told by the files that were started. The files that were not are pending, and the run
    is cancelled where there are any; under each path the report has what the outcome of its file
    says; every outcome is told by its number; and neither the order in which outcomes come in nor
    the number of workers changes the report. -/
theorem report_of_started (options : RunOptions) (sources : List SourcePath)
    (outcome : SourcePath → Outcome) (started : SourcePath → Bool) (arrivals : List Outcome)
    (distinct : (sources.map (·.shown)).Nodup) (path : ∀ s ∈ sources, (outcome s).path = s.shown)
    (order : arrivals.Perm ((sources.filter started).map outcome)) :
    (Run.collect options.top sources arrivals).pending
        = (sources.filter fun s => !started s).length ∧
      Run.Accounts sources outcome started (Run.report options sources arrivals) ∧
      Run.progress sources arrivals options.top
        = (List.range (sources.filter started).length).map (fun i => (i + 1, sources.length)) ∧
      (∀ arrivals', arrivals'.Perm arrivals →
        Run.report options sources arrivals' = Run.report options sources arrivals) ∧
      ∀ jobs pool, Pool.Reached jobs options.top sources outcome pool → pool.Ended →
        ((∀ s ∈ sources, s ∈ pool.started ↔ started s = true) →
          pool.collection.report options = Run.report options sources arrivals ∧
          pool.collection.told.reverse = Run.progress sources arrivals options.top) ∧
        (pool.stopped = false → ∀ s ∈ sources, s ∈ pool.started) := by
  have arrived : Run.Arrived sources outcome started arrivals := ⟨distinct, path, order⟩
  refine ⟨arrived.pending_eq _, arrived.accounts options, ?_, ?_, ?_⟩
  · rw [Run.progress_eq, order.length_eq, List.length_map]
  · intro arrivals' order'
    exact arrived.report_eq ⟨distinct, path, order'.trans order⟩ options
  · intro jobs pool reached ended
    refine ⟨fun exactly => ?_, fun goesOn s hs => reached.started_all ended goesOn hs⟩
    obtain ⟨arrivals', collected, arrived'⟩ := reached.arrived ended distinct path exactly
    refine ⟨?_, ?_⟩
    · rw [← arrived.report_eq arrived' options, Run.report, ← collected]
    · have told : pool.collection.told.reverse = Run.progress sources arrivals' options.top := by
        rw [Run.progress, ← collected]
      rw [told, Run.progress_eq, Run.progress_eq, arrived'.order.length_eq, order.length_eq]

/-- Two workers on three files: the second file is started first and ends last, and the run is
    stopped before the third. Its report is the one of the outcomes in the order of files. -/
theorem report_of_started_two_workers :
    let a : SourcePath := ⟨"./a.go", "a.go"⟩
    let b : SourcePath := ⟨"notes", "notes"⟩
    let c : SourcePath := ⟨"c.py", "c.py"⟩
    let entry := FileReport.measured "a.go" .go ⟨[], { total := 1, code := 1 }, []⟩ []
    let outcome : SourcePath → Outcome := fun s =>
      if s = a then .measured entry else if s = b then .skipped "notes" else .omitted s.shown
    let started : SourcePath → Bool := fun s => s != c
    let options : RunOptions := { languages := .all, top := 1 }
    let report := Run.report options [a, b, c] [outcome a, outcome b]
    ([a, b, c].map (·.shown)).Nodup ∧ (∀ s ∈ [a, b, c], (outcome s).path = s.shown) ∧
      [outcome a, outcome b].Perm (([a, b, c].filter started).map outcome) ∧
      report.cancelled = true ∧
      ∃ pool, Pool.Reached 2 1 [a, b, c] outcome pool ∧ pool.Ended ∧
        pool.collection.report options = report := by
  intro a b c entry outcome started options report
  have distinct : ([a, b, c].map (·.shown)).Nodup := by decide
  have path : ∀ s ∈ [a, b, c], (outcome s).path = s.shown := by
    simp only [List.forall_mem_cons, List.not_mem_nil, false_imp_iff, implies_true, and_true]
    exact ⟨rfl, rfl, rfl⟩
  have order : [outcome a, outcome b].Perm (([a, b, c].filter started).map outcome) := .refl _
  have told := report_of_started options [a, b, c] outcome started _ distinct path order
  refine ⟨distinct, path, order, told.2.1.cancelled.2 ⟨c, by simp, by simp [started]⟩, ?_⟩
  have reached : Pool.Reached 2 1 [a, b, c] outcome
      { waiting := [], stopped := true, started := [a, b],
        collection := Run.collect 1 [a, b, c] [outcome a, outcome b] } :=
    (((((((Relation.ReflTransGen.refl
      |>.tail (.take [a] [c] b rfl (by decide) rfl))
      |>.tail (.take [] [c] a rfl (by decide) rfl))
      |>.tail (.send [] [b] a rfl (by decide)))
      |>.tail .stop)
      |>.tail (.receive (outcome a) [] rfl))
      |>.tail (.send [] [] b rfl (by decide)))
      |>.tail (.pass [] [] c rfl (by decide) rfl))
      |>.tail (.receive (outcome b) [] rfl)
  have exactly : ∀ s ∈ [a, b, c], s ∈ [a, b] ↔ started s = true := by decide
  exact ⟨_, reached, ⟨rfl, rfl, rfl⟩, ((told.2.2.2.2 2 _ reached ⟨rfl, rfl, rfl⟩).1 exactly).1⟩

end CodeMetrics

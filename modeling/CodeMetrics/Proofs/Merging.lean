import CodeMetrics.Proofs.Rollup

/-! Rollups that are put together from parts. A rollup may take in another one, which may itself be
    put together from parts, and so on. The files that come in that way come in the order of their
    paths and not in the order they once came; under each path it is still the first that counts. So
    the parts do not show: one rollup that takes all steps from left to right is the same. -/

namespace CodeMetrics.Rollup

/-! ### Taking in what another list holds -/

section Keys

variable {α : Type} {key : α → String}

theorem Holds.insertAll {seen l : List α} (h : Holds key seen l) (values : List α) :
    Holds key (seen ++ values) (values.foldl (fun l a => insertFirst key a l) l) := by
  induction values generalizing seen l with
  | nil => simpa using h
  | cons a values ih => simpa [List.append_assoc] using ih (h.insert a)

theorem first?_append (k : String) (xs ys : List α) :
    first? key k (xs ++ ys) = (first? key k xs).or (first? key k ys) := List.find?_append

/-- What is held has the same first values as what was seen. -/
theorem Holds.first?_eq {seen l : List α} (h : Holds key seen l) (k : String) :
    first? key k l = first? key k seen := by
  cases hl : first? key k l with
  | none =>
    symm
    rw [← h.taken_iff k]
    intro c hc
    simpa using List.find?_eq_none.1 hl c hc
  | some a =>
    have hk := key_of_first? hl
    have ha := (h.firsts a).1 (mem_of_first? hl)
    rw [hk] at ha
    exact ha.symm

/-- Taking in what another list holds is taking in what that list has seen. -/
theorem Holds.merge {seen seen' l l' : List α} (h : Holds key seen l) (h' : Holds key seen' l') :
    Holds key (seen ++ seen') (l'.foldl (fun l a => insertFirst key a l) l) := by
  have all := h.insertAll l'
  refine ⟨all.ordered, fun b => ?_⟩
  rw [all.firsts b, first?_append, first?_append, h'.first?_eq]

end Keys

/-! ### Rollups put together -/

theorem foldl_add (r : Rollup) (files : List FileReport) : files.foldl add r
    = { r with files := files.foldl (fun l f => insertFirst FileReport.path f l) r.files } := by
  induction files generalizing r with
  | nil => rfl
  | cons f files ih => rw [List.foldl_cons, ih]; rfl

theorem foldl_skip (r : Rollup) (paths : List String) : paths.foldl skip r
    = { r with skipped := paths.foldl (fun l path => insertFirst id path l) r.skipped } := by
  induction paths generalizing r with
  | nil => rfl
  | cons path paths ih => rw [List.foldl_cons, ih]; rfl

/-- A rollup that takes in another one has taken its own steps and then those of the other. -/
theorem After.merge {top top' : Nat} {steps steps' : List Step} {r r' : Rollup}
    (h : After top steps r) (h' : After top' steps' r') :
    After top (steps ++ steps') (r.merge r') := by
  rw [Rollup.merge, foldl_add, foldl_skip]
  refine ⟨h.top, ?_, ?_⟩
  · rw [List.filterMap_append]; exact h.files.merge h'.files
  · rw [List.filterMap_append]; exact h.skipped.merge h'.skipped

/-- How a rollup is put together. -/
inductive Build where
  /-- Nothing yet. -/
  | new (top : Nat)
  /-- A file comes in. -/
  | add (b : Build) (file : FileReport)
  /-- A path was left out. -/
  | skip (b : Build) (path : String)
  /-- Another rollup is taken in. -/
  | merge (b other : Build)

namespace Build

/-- The rollup that is put together. -/
def run : Build → Rollup
  | .new top => { top }
  | .add b file => b.run.add file
  | .skip b path => b.run.skip path
  | .merge b other => b.run.merge other.run

/-- How many of the worst routines are asked for; what is taken in does not change that. -/
def top : Build → Nat
  | .new top => top
  | .add b _ | .skip b _ | .merge b _ => b.top

/-- All steps from left to right: those before another rollup was taken in, those of the other, those
    that follow. -/
def steps : Build → List Step
  | .new _ => []
  | .add b file => b.steps ++ [.file file]
  | .skip b path => b.steps ++ [.skip path]
  | .merge b other => b.steps ++ other.steps

theorem after_run (b : Build) : After b.top b.steps b.run := by
  induction b with
  | new top => exact ⟨rfl, .empty, .empty⟩
  | add b file ih => exact ih.take (.file file)
  | skip b path ih => exact ih.take (.skip path)
  | merge b other ih ih' => exact ih.merge ih'

/-- Every file that is kept came in. -/
theorem mem_steps {b : Build} {f : FileReport} (h : f ∈ b.run.files) : .file f ∈ b.steps := by
  obtain ⟨s, hs, hsf⟩ := List.mem_filterMap.1 (mem_of_first? ((b.after_run.files.firsts f).1 h))
  cases s with
  | file g => cases hsf; exact hs
  | skip path => cases hsf

/-- The parts do not show in the rollup. -/
theorem run_eq (b : Build) : b.run = ofSteps b.top b.steps :=
  b.after_run.unique (after_ofSteps b.top b.steps) (fun _ => rfl) fun _ => rfl

end Build

/-- A report does not show the parts that it was put together from: it is the report of all steps
    from left to right. It has its files in the strict order of paths, and they are the first ones
    that came in under their paths; the paths that were left out are in strict order too. -/
theorem finish_of_parts (b : Build) (generatedAt : Option String) (cancelled : Bool) :
    let report := b.run.finish generatedAt cancelled
    report = (ofSteps b.top b.steps).finish generatedAt cancelled ∧
      Ordered FileReport.path report.files ∧
      (∀ file, file ∈ report.files
        ↔ first? FileReport.path file.path (b.steps.filterMap Step.file?) = some file) ∧
      Ordered id report.skipped ∧
      ∀ path, path ∈ report.skipped ↔ .skip path ∈ b.steps := by
  have after := b.after_run
  refine ⟨by rw [b.run_eq], after.files.ordered, after.files.firsts, after.skipped.ordered,
    fun path => ?_⟩
  have held : path ∈ b.run.skipped ↔ path ∈ b.steps.filterMap Step.path? := by
    rw [after.skipped.firsts]
    exact ⟨mem_of_first?, first?_of_mem fun _ _ _ _ h => h⟩
  refine held.trans (List.mem_filterMap.trans ⟨?_, fun h => ⟨_, h, rfl⟩⟩)
  rintro ⟨s, hs, hpath⟩
  cases s with
  | file file => cases hpath
  | skip path' => cases hpath; exact hs

end CodeMetrics.Rollup

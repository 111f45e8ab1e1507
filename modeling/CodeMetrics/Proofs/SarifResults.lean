import CodeMetrics.Json.Record
import CodeMetrics.Proofs.JsonText
import CodeMetrics.Proofs.Positions
import CodeMetrics.Proofs.Routines
import CodeMetrics.Report.Sarif

/-! A document for editors tells of every file and routine that it should, and places what it tells.

    The document is read again: the rules of its run, and of each result the rule and the places. A
    file that failed has one result, one with syntax errors has one where the first of them is, and
    each routine above the threshold has one that covers its lines. Lines come from byte offsets two
    layers below: the row of an offset is the number of line feeds before it, so a node that does not
    end before it starts does not end on an earlier line. -/

namespace CodeMetrics

open Json (Value Plain)

/-! ### Reading a document -/

namespace Sarif

/-- A whole number of any size. -/
def whole? : Value → Option ℕ
  | .number (.natural n) => some n
  | _ => none

/-- Where a result is, as a document has it. -/
structure Place where
  uri : String
  startLine : ℕ
  startColumn : Option ℕ := none
  endLine : Option ℕ := none
deriving DecidableEq, Repr

/-- A result, as a document has it. -/
structure Seen where
  ruleId : String
  places : List Place
deriving DecidableEq, Repr

/-- A run, as a document has it. -/
structure SeenRun where
  ruleIds : List String
  results : List Seen
deriving DecidableEq, Repr

def Place.ofJson? (v : Value) : Option Place := do
  let physical ← v.get? "physicalLocation"
  let artifact ← physical.get? "artifactLocation"
  let region ← physical.get? "region"
  some
    { uri := ← (← artifact.get? "uri").text?
      startLine := ← whole? (← region.get? "startLine")
      startColumn := ← (region.get? "startColumn").mapM whole?
      endLine := ← (region.get? "endLine").mapM whole? }

def Seen.ofJson? (v : Value) : Option Seen := do
  some
    { ruleId := ← (← v.get? "ruleId").text?
      places := ← (← v.get? "locations").listOf? Place.ofJson? }

def SeenRun.ofJson? (v : Value) : Option SeenRun := do
  let driver ← (← v.get? "tool").get? "driver"
  some
    { ruleIds := ← (← driver.get? "rules").listOf? fun rule => (rule.get? "id").bind Value.text?
      results := ← (← v.get? "results").listOf? Seen.ofJson? }

/-- The runs of a document. -/
def runs? (document : Value) : Option (List SeenRun) :=
  (document.get? "runs").bind (Value.listOf? SeenRun.ofJson?)

/-- What a document has of a result. -/
def Result.seen (r : Result) : Seen where
  ruleId := r.rule.id
  places := [⟨r.path, r.region.startLine, r.region.startColumn, r.region.endLine⟩]

theorem get?_object (members : List (String × Value)) (name : String) :
    (Value.object members).get? name = members.lookup name := rfl

theorem listOf?_map {α β : Type} {read : Value → Option β} {write : α → Value} {f : α → β}
    (back : ∀ a, read (write a) = some (f a)) (l : List α) :
    Value.listOf? read (.list (l.map write)) = some (l.map f) := by
  rw [Value.listOf?, List.mapM_map]
  induction l with
  | nil => rfl
  | cons a l ih => simp [List.mapM_cons, back, ih]

theorem listOf?_singleton {α : Type} (read : Value → Option α) (v : Value) :
    Value.listOf? read (.list [v]) = (read v).map fun a => [a] := by
  rw [Value.listOf?, List.mapM_cons]
  cases read v <;> rfl

theorem ofJson?_toJson (r : Result) : Seen.ofJson? r.toJson = some r.seen := by
  obtain ⟨rule, text, path, startLine, startColumn, endLine⟩ := r
  cases startColumn <;> cases endLine <;> rfl

theorem runs?_toJson (threshold : ℕ) (report : ProjectReport) :
    runs? (toJson threshold report)
      = some [⟨Rule.all.map Rule.id, (results threshold report).map Result.seen⟩] := by
  have rules : Value.listOf? (fun rule => (rule.get? "id").bind Value.text?)
      (.list (Rule.all.map Rule.toJson)) = some (Rule.all.map Rule.id) := rfl
  have results := listOf?_map ofJson?_toJson (results threshold report)
  simp [runs?, toJson, listOf?_singleton, SeenRun.ofJson?, get?_object, List.lookup_cons, rules,
    results]

/-- The numbers of a place keep to 64 bits. -/
structure Place.Fits (place : Place) : Prop where
  startLine : place.startLine < Nat.pow 2 64
  startColumn : ∀ n ∈ place.startColumn, n < Nat.pow 2 64
  endLine : ∀ n ∈ place.endLine, n < Nat.pow 2 64

theorem plain_region {r : Result} (fits : ∀ place ∈ r.seen.places, place.Fits) :
    Plain r.region.toJson := by
  obtain ⟨startLine, startColumn, endLine⟩ := fits _ List.mem_cons_self
  refine .object fun m hm => ?_
  simp only [List.mem_append, List.mem_singleton, Option.mem_toList, Option.map_eq_some_iff] at hm
  rcases hm with (rfl | ⟨n, hn, rfl⟩) | ⟨n, hn, rfl⟩
  · exact .number startLine
  · exact .number (startColumn n hn)
  · exact .number (endLine n hn)

theorem plain_member {name : String} {v : Value} {members : List (String × Value)} (hv : Plain v)
    (h : Plain (.object members)) : Plain (.object ((name, v) :: members)) := by
  cases h with
  | object h => exact .object (List.forall_mem_cons.2 ⟨hv, h⟩)

theorem plain_empty : Plain (.object []) := .object (List.forall_mem_nil _)

theorem plain_singleton {v : Value} (hv : Plain v) : Plain (.list [v]) :=
  .list (List.forall_mem_singleton.2 hv)

/-- A document whose numbers keep to 64 bits can be read back. -/
theorem plain_toJson {threshold : ℕ} {report : ProjectReport}
    (fits : ∀ r ∈ results threshold report, ∀ place ∈ r.seen.places, place.Fits) :
    Plain (toJson threshold report) := by
  have message : ∀ s, Plain (message s) := fun s => plain_member (.text s) plain_empty
  have rule : ∀ r : Rule, Plain r.toJson := fun r =>
    plain_member (.text _) <| plain_member (.text _) <| plain_member (message _) <|
      plain_member (message _) <| plain_member (plain_member (.text _) plain_empty) plain_empty
  have result : ∀ r ∈ results threshold report, Plain r.toJson := fun r hr =>
    plain_member (.text _) <| plain_member (.text _) <| plain_member (message _) <|
      plain_member (plain_singleton <| plain_member (plain_member
        (plain_member (.text _) plain_empty) <| plain_member (plain_region (fits r hr)) plain_empty)
        plain_empty) plain_empty
  have rules : Plain (.list (Rule.all.map Rule.toJson)) :=
    .list (List.forall_mem_map.2 fun r _ => rule r)
  have results : Plain (.list ((results threshold report).map Result.toJson)) :=
    .list (List.forall_mem_map.2 result)
  have driver : Plain (.object
      [("name", .text "mehen"), ("version", .text report.toolVersion),
       ("informationUri", .text "https://github.com/mehen-rs/mehen"),
       ("rules", .list (Rule.all.map Rule.toJson))]) :=
    plain_member (.text _) <| plain_member (.text _) <| plain_member (.text _) <|
      plain_member rules plain_empty
  exact plain_member (.text _) <| plain_member (.text _) <| plain_member
    (plain_singleton <| plain_member (plain_member driver plain_empty) <|
      plain_member results plain_empty) plain_empty

end Sarif

/-! ### Places in the source -/

/-- No node of a tree ends before it starts. -/
def Tree.RunsForward (root : Tree) : Prop :=
  ∀ s ∈ root.sites, s.tree.label.start ≤ s.tree.label.stop

instance (root : Tree) : Decidable root.RunsForward :=
  inferInstanceAs (Decidable (∀ s ∈ root.sites, _))

/-- A routine covers the lines of its node. -/
theorem Routine.span_of_mem (l : Language) {source : List UInt8} {root : Tree} {r : Routine}
    (h : r ∈ Routine.all l.grammar source root) :
    ∃ s ∈ root.sites, r.span = Span.of source s.tree := by
  obtain ⟨f, hf, rfl⟩ := Routine.exists_finding h
  exact ⟨f.site, (Finding.site_of_mem_all l.marksRoutine hf).1, rfl⟩

/-- An entry of a report that comes from a source and a tree of it, whose nodes run forward, or that
    tells of a file that could not be measured. -/
inductive FileReport.Traced : FileReport → Prop
  | measured (path : String) (language : Language) {source : List UInt8} {tree : Tree}
      (forward : tree.RunsForward) :
      Traced (.measured path language (FileMeasures.of language.grammar source tree)
        (SyntaxFault.collect source tree))
  | failed (path : String) (language : Option Language) (error : Error) :
      Traced (.failed path language error)

namespace FileReport.Traced

variable {file : FileReport} (h : file.Traced)

include h

/-- Lines and columns count from one, and no routine ends before it starts. -/
theorem routine {r : RoutineMetrics} (hr : r ∈ file.routines) :
    1 ≤ r.startLine ∧ 1 ≤ r.startColumn ∧ r.startLine ≤ r.endLine := by
  cases h with
  | measured path language forward =>
    obtain ⟨p, hp, rfl⟩ := List.mem_map.1 hr
    obtain ⟨routine, hroutine, rfl⟩ := List.mem_map.1 hp
    obtain ⟨s, hs, span⟩ := Routine.span_of_mem language hroutine
    simp only [RoutineMetrics.of, span, Span.of]
    refine ⟨Nat.le_add_left 1 _, Nat.le_add_left 1 _, Nat.succ_le_succ ?_⟩
    exact Position.row_le _ (forward s hs)
  | failed path language error => cases hr

/-- A file is measured partly where there are syntax errors. -/
theorem status : file.status = .failed ∨ file.status = .ok ∨
    file.status = .partly ∧ ∃ first rest, file.faults = first :: rest := by
  cases h with
  | @measured path language source tree forward =>
    right
    simp only [FileReport.measured]
    cases SyntaxFault.collect source tree with
    | nil => exact Or.inl rfl
    | cons first rest => exact Or.inr ⟨rfl, first, rest, rfl⟩
  | failed path language error => exact Or.inl rfl

theorem fault {f : SyntaxFault} (hf : f ∈ file.faults) : 1 ≤ f.line ∧ 1 ≤ f.column := by
  cases h with
  | measured path language forward =>
    obtain ⟨t, -, rfl⟩ := List.mem_map.1 hf
    exact ⟨Nat.le_add_left 1 _, Nat.le_add_left 1 _⟩
  | failed path language error => cases hf

end FileReport.Traced

/-! ### What is told of a file -/

namespace Sarif

/-- What is told of a file as a whole. -/
inductive StatusTold (file : FileReport) : List Seen → Prop
  | ok (status : file.status = .ok) : StatusTold file []
  | failed (status : file.status = .failed) :
      StatusTold file [⟨"parse-failure", [{ uri := file.path, startLine := 1 }]⟩]
  /-- A file with syntax errors, by the first of them. -/
  | partly (status : file.status = .partly) {first : SyntaxFault} {rest : List SyntaxFault}
      (faults : file.faults = first :: rest) :
      StatusTold file [⟨"syntax-error",
        [{ uri := file.path, startLine := first.line, startColumn := some first.column }]⟩]

/-- What is told of a routine. -/
def told (path : String) (r : RoutineMetrics) : Seen where
  ruleId := "high-cognitive-complexity"
  places :=
    [{ uri := path, startLine := r.startLine, startColumn := some r.startColumn,
       endLine := some r.endLine }]

/-- What is told of a file: its status, then its routines above a threshold in their order. -/
def Tells (threshold : ℕ) (file : FileReport) (group : List Seen) : Prop :=
  ∃ status, StatusTold file status ∧
    group = status ++ (file.routines.filter fun r => threshold < r.cognitive).map (told file.path)

/-- A place counts from one and does not end before it starts. -/
structure Place.WellPlaced (place : Place) : Prop where
  startLine : 1 ≤ place.startLine
  startColumn : ∀ n ∈ place.startColumn, 1 ≤ n
  endLine : ∀ n ∈ place.endLine, place.startLine ≤ n

section Told

variable {file : FileReport} (traced : file.Traced)

include traced

theorem statusTold : StatusTold file ((statusResult? file).toList.map Result.seen) := by
  rcases traced.status with status | status | ⟨status, first, rest, faults⟩
  · rw [statusResult?, status]
    exact .failed status
  · rw [statusResult?, status]
    exact .ok status
  · have line : 1 ≤ first.line := (traced.fault (by rw [faults]; exact List.mem_cons_self)).1
    rw [statusResult?, status, faults]
    simp only [Option.toList_some, List.map_cons, List.map_nil, Result.seen, max_eq_left line]
    exact .partly status faults

/-- The results of a file are what is told of it. -/
theorem tells_fileResults (threshold : ℕ) :
    Tells threshold file ((fileResults threshold file).map Result.seen) := by
  refine ⟨_, statusTold traced, ?_⟩
  rw [fileResults, List.map_append, List.map_map]
  congr 1
  refine List.map_congr_left fun r hr => ?_
  obtain ⟨line, column, ends⟩ := traced.routine (List.mem_filter.1 hr).1
  have last : 1 ≤ r.endLine := line.trans ends
  simp only [Function.comp_apply, routineResult, Result.seen, told, max_eq_left line,
    max_eq_left column, max_eq_left last]
  rfl

/-- What is told of a file is under a rule and well placed. -/
theorem wellPlaced_of_tells {threshold : ℕ} {group : List Seen} (tells : Tells threshold file group)
    {seen : Seen} (h : seen ∈ group) :
    seen.ruleId ∈ Rule.all.map Rule.id ∧ ∀ place ∈ seen.places, place.WellPlaced := by
  have listed : ∀ rule : Rule, rule.id ∈ Rule.all.map Rule.id := fun rule =>
    List.mem_map_of_mem (by cases rule <;> decide)
  obtain ⟨status, told, rfl⟩ := tells
  rcases List.mem_append.1 h with h | h
  · cases told with
    | ok status => cases h
    | failed status =>
      rw [List.mem_singleton.1 h]
      refine ⟨listed .parseFailure, List.forall_mem_singleton.2 ⟨Nat.le_refl 1, ?_, ?_⟩⟩ <;> nofun
    | partly status faults =>
      obtain ⟨line, column⟩ := traced.fault (by rw [faults]; exact List.mem_cons_self)
      rw [List.mem_singleton.1 h]
      refine ⟨listed .syntaxFault, List.forall_mem_singleton.2 ⟨line, ?_, nofun⟩⟩
      rintro n ⟨⟩
      exact column
  · obtain ⟨r, hr, rfl⟩ := List.mem_map.1 h
    obtain ⟨line, column, ends⟩ := traced.routine (List.mem_filter.1 hr).1
    refine ⟨listed .complexity, List.forall_mem_singleton.2 ⟨line, ?_, ?_⟩⟩
    · rintro n ⟨⟩
      exact column
    · rintro n ⟨⟩
      exact ends

end Told

/-! ### Documents -/

/-- A document is complete and well placed. It has one run, with rules in strict order. The results
    are what is told of each file, file by file; each is under a rule of the run, at places that
    count from one and do not end before they start. And the text of the document is read back as
    that document where its numbers keep to 64 bits. -/
theorem document_complete (threshold : ℕ) (report : ProjectReport)
    (traced : ∀ file ∈ report.files, file.Traced) :
    ∃ run groups, runs? (toJson threshold report) = some [run] ∧
      run.ruleIds.Pairwise (· < ·) ∧
      run.results = groups.flatten ∧
      List.Forall₂ (Tells threshold) report.files groups ∧
      (∀ seen ∈ run.results, seen.ruleId ∈ run.ruleIds ∧
        ∀ place ∈ seen.places, place.WellPlaced) ∧
      ((∀ seen ∈ run.results, ∀ place ∈ seen.places, place.Fits) →
        Json.parse? (render threshold report) = some (toJson threshold report)) := by
  have groups : (results threshold report).map Result.seen
      = (report.files.map fun file => (fileResults threshold file).map Result.seen).flatten := by
    rw [results, List.map_flatMap, List.flatMap_def]
  have increasing : (Rule.all.map Rule.id).Pairwise (· < ·) := by decide
  refine ⟨_, _, runs?_toJson threshold report, increasing, groups, ?_, ?_, fun fits => ?_⟩
  · rw [List.forall₂_map_right_iff, List.forall₂_same]
    intro file hfile
    exact tells_fileResults (traced file hfile) threshold
  · intro seen hseen
    obtain ⟨r, hr, rfl⟩ := List.mem_map.1 hseen
    obtain ⟨file, hfile, hr⟩ := List.mem_flatMap.1 hr
    exact wellPlaced_of_tells (traced file hfile) (tells_fileResults (traced file hfile) threshold)
      (List.mem_map_of_mem hr)
  · exact Json.parse?_document (plain_toJson fun r hr => fits _ (List.mem_map_of_mem hr))

open CodeMetrics.Tree in
/-- A function with a choice in it, and a parenthesis that is out of place. -/
def brokenFunction : Tree :=
  .node { kind := "module", hasError := true, start := 0, stop := 24 }
    [partAt "function_definition" none 0 21
      [partAt "identifier" (some "name") 4 5 [], partAt "parameters" (some "parameters") 5 8 [],
       partAt "block" (some "body") 12 21
        [partAt "if_statement" none 12 21
          [partAt "identifier" (some "condition") 15 16 [],
           partAt "block" (some "consequence") 18 21 []]]],
     .node { kind := "ERROR", error := true, hasError := true, start := 22, stop := 23 } []]

theorem document_complete_brokenFunction :
    let source := Utf8.encode "def f(x):\n  if x: g()\n)\n"
    let failed := FileReport.failed "a.go" (some .go) (.parseFailure (.noTree "go"))
    let broken := FileReport.measured "b.py" .python
      (FileMeasures.of Grammar.python source brokenFunction)
      (SyntaxFault.collect source brokenFunction)
    let report : ProjectReport :=
      { schemaVersion, toolVersion, files := [failed, broken], totals := {} }
    (∀ file ∈ report.files, file.Traced) ∧
      ∃ run, runs? (toJson 0 report) = some [run] ∧
        run.results.map (·.ruleId)
          = ["parse-failure", "syntax-error", "high-cognitive-complexity"] := by
  intro source failed broken report
  have traced : ∀ file ∈ report.files, file.Traced :=
    List.forall_mem_cons.2 ⟨.failed _ _ _, List.forall_mem_singleton.2
      (.measured "b.py" .python (by decide +kernel))⟩
  have partly : broken.status = .partly := by decide +kernel
  have one : (broken.routines.filter fun r => 0 < r.cognitive).length = 1 := by
    rw [← List.countP_eq_length_filter]
    change List.countP _ (List.map _ (List.map _ (List.mergeSort _ _))) = 1
    rw [List.countP_map, List.countP_map, (List.mergeSort_perm _ _).countP_eq]
    decide +kernel
  refine ⟨traced, ?_⟩
  obtain ⟨run, groups, read, -, flat, tells, -⟩ := document_complete 0 report traced
  refine ⟨run, read, ?_⟩
  rw [flat]
  cases tells with
  | cons first rest =>
    cases rest with
    | cons second rest =>
      cases rest
      obtain ⟨status, told, rfl⟩ := first
      obtain ⟨status', told', rfl⟩ := second
      cases told with
      | ok wrong => cases wrong
      | partly wrong => cases wrong
      | failed =>
        cases told' with
        | ok wrong => rw [partly] at wrong; cases wrong
        | failed wrong => rw [partly] at wrong; cases wrong
        | partly =>
          obtain ⟨r, only⟩ := List.length_eq_one_iff.1 one
          rw [only]
          rfl

end Sarif

end CodeMetrics

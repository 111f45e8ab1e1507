import CodeMetrics.Proofs.ReportLayouts
import CodeMetrics.Report.Render

/-! Loading a report gives back the report, from the text that was written of it and from every text
    of another layout of the same major version. -/

namespace CodeMetrics

open Json (Value Gap Denotes Deletion Edited Lacks Plain Reloads)

theorem ProjectReport.load_of_ofJson? {text : String} {v : Value} {p : ProjectReport}
    (parsed : Json.parse? text = some v) (read : ofJson? v = some p)
    (major : majorOf p.schemaVersion = ['1']) (path : String) : load path text = .ok p := by
  have same : (majorOf p.schemaVersion == majorOf CodeMetrics.schemaVersion) = true := by
    rw [major]; decide
  rw [load, parsed, Option.bind_some, read]
  simp only [same, if_true]

/-- Loading undoes writing: every report whose numbers are finite and fit their widths, with its
    languages in order and a version of the first major, comes back from its own text, whatever its
    texts hold and whichever optional parts it has. -/
theorem load_render {p : ProjectReport} (fits : p.Fits)
    (major : ProjectReport.majorOf p.schemaVersion = ['1']) (path : String) (threshold : Nat) :
    ProjectReport.load path (p.render .json threshold) = .ok p := by
  have value := fits.reloads.value
  rw [p.without_none] at value
  exact ProjectReport.load_of_ofJson? (Json.parse?_document fits.reloads.plain) value major path

/-- A report with escaped texts, extreme numbers and a file that was read in part. -/
theorem load_render_extremes :
    let routine : RoutineMetrics :=
      ⟨"\x00\"\\/\n\t\x7fé😀", .lambda, 3, 0, 4, Nat.pow 2 64 - 1, 1, 1, 0, 0, 1, 2, 0,
        Nat.pow 2 32 - 1, ⟨1, 2, 3, 4, 7, 3, 0.1, 1e-7, 5e-324, 1.7976931348623157e308, -0.0⟩,
        ⟨-12.5, 100.0⟩, .zero⟩
    let file : FileReport :=
      ⟨"src\\a.go", "go", .partly, some "", [⟨7, 1, 8, "\r"⟩], [routine], [⟨"é", 1, 2, 3⟩], {}⟩
    let report : ProjectReport :=
      { schemaVersion := "1.x", toolVersion := "", cancelled := true
        files := [file, { file with error := none, classes := [] }]
        totals :=
          { files := 2, cyclomaticDistribution := [⟨"1-5", 2⟩], abcMagnitude := -0.0
            languages := [("", {}), ("go", { files := 2 })] }
        topOffenders := [.of file routine], skipped := ["\u2028"] }
    ∀ path threshold, ProjectReport.load path (report.render .json threshold) = .ok report := by
  intro routine file report path threshold
  have lines : LineCounts.Fits {} := by constructor <;> decide +kernel
  have stat : Stat.Fits {} := by constructor <;> decide +kernel
  have counts : RoutineCounts.Fits {} := by constructor <;> decide +kernel
  have halstead : routine.halstead.Fits := by constructor <;> decide +kernel
  have maintainability : routine.maintainability.Fits := by constructor <;> decide +kernel
  have abc : routine.abc.Fits := by constructor <;> decide +kernel
  have hroutine : routine.Fits := by
    constructor
    case halstead => exact halstead
    case maintainability => exact maintainability
    case abc => exact abc
    all_goals decide +kernel
  have totals : file.totals.Fits := by
    constructor
    case lines => exact lines
    case cyclomatic | cognitive => exact stat
    case counts => exact counts
    all_goals decide +kernel
  have fault : ∀ fault ∈ file.faults, fault.Fits :=
    List.forall_mem_singleton.2 (by constructor <;> decide +kernel)
  have classes : ∀ c ∈ file.classes, c.Fits :=
    List.forall_mem_singleton.2 (by constructor <;> decide +kernel)
  have hfile : file.Fits := ⟨fault, List.forall_mem_singleton.2 hroutine, classes, totals⟩
  have htotals : report.totals.Fits := by
    constructor
    case lines => exact lines
    case cyclomatic | cognitive => exact stat
    case counts => exact counts
    case cyclomaticDistribution => exact List.forall_mem_singleton.2 ⟨by decide +kernel⟩
    case cognitiveDistribution => exact List.forall_mem_nil _
    case languages =>
      refine List.forall_mem_cons.2 ⟨?_, List.forall_mem_singleton.2 ?_⟩ <;>
        constructor <;> decide +kernel
    case ordered => exact List.pairwise_pair.2 (by decide +kernel)
    all_goals decide +kernel
  have offender : ∀ o ∈ report.topOffenders, o.Fits :=
    List.forall_mem_singleton.2 (by constructor <;> decide +kernel)
  have files : ∀ f ∈ report.files, f.Fits :=
    List.forall_mem_cons.2 ⟨hfile, List.forall_mem_singleton.2
      ⟨fault, hfile.routines, List.forall_mem_nil _, totals⟩⟩
  exact load_render ⟨files, htotals, offender⟩ (by decide +kernel) path threshold

/-- Reports of every layout of the first major version load. The text is any that denotes what was
    written of a report, with the members of each record in any order, members of other names and any
    values among them, and some members deleted. It loads as the report with defaults for the deleted
    fields, unless a record that remains lost a field without a default: then it is no report. -/
theorem load_other_layout {p : ProjectReport} (fits : p.Fits)
    (major : ProjectReport.majorOf p.schemaVersion = ['1']) {threshold : Nat} {v w : Value}
    (written : Json.parse? (p.render .json threshold) = some v) {D : Deletion}
    (edited : Edited ProjectReport.shape D v w) {text : List Char} (denotes : Denotes text w)
    (before after : Gap) (path : String) :
    (¬Lacks ProjectReport.shape D v →
      ProjectReport.load path (String.ofList (before.chars ++ (text ++ after.chars)))
        = .ok (p.without D)) ∧
    (Lacks ProjectReport.shape D v →
      ProjectReport.load path (String.ofList (before.chars ++ (text ++ after.chars)))
        = .error (.configuration (.notAReport path))) := by
  have reloads := fits.reloads
  have document : Json.parse? (p.render .json threshold) = some p.toJson :=
    Json.parse?_document reloads.plain
  obtain rfl : p.toJson = v := Option.some.inj (document.symm.trans written)
  have parsed := Json.parse?_denotes denotes before after
  constructor
  · intro complete
    exact ProjectReport.load_of_ofJson? parsed (reloads.full edited complete) major path
  · intro lacks
    rw [ProjectReport.load, parsed, Option.bind_some, reloads.lacking edited lacks]

/-! ### Two documents of other layouts -/

/-- A file that could not be read, in a report of a run that was cancelled. -/
def unreadFile : FileReport :=
  { path := "a.go", language := "go", status := .failed, error := some "gone" }

def cancelledReport : ProjectReport :=
  { schemaVersion := "1.0", toolVersion := "", cancelled := true, files := [unreadFile]
    totals := {} }

/-- Neither the mark of the cancelled run nor the error of the file. -/
def olderDeletion : Deletion := fun path =>
  [[.member "cancelled"], [.member "files", .item 0, .member "error"]].contains path

def olderFile : Value :=
  .object
    [("path", .text "a.go"), ("language", .text "go"), ("status", .text "failed"),
     ("syntax_errors", .list []), ("functions", .list []), ("file_totals", unreadFile.totals.toJson),
     ("size", .list [.null])].reverse

def olderDocument : Value :=
  .object
    [("schema_version", .text "1.0"), ("tool_version", .text ""), ("files", .list [olderFile]),
     ("project_totals", cancelledReport.totals.toJson), ("top_offenders", .list []),
     ("origin", .object [("files", .bool true)])].reverse

/-- No files. -/
def emptyDeletion : Deletion := fun path => path == [.member "files"]

def emptyDocument : Value :=
  .object
    [("schema_version", .text "1.0"), ("tool_version", .text ""), ("cancelled", .bool true),
     ("project_totals", cancelledReport.totals.toJson), ("top_offenders", .list [])]

theorem unreadFile_toJson :
    unreadFile.toJson = .object
      [("path", .text "a.go"), ("language", .text "go"), ("status", .text "failed"),
       ("error", .text "gone"), ("syntax_errors", .list []), ("functions", .list []),
       ("file_totals", unreadFile.totals.toJson)] :=
  rfl

theorem cancelledReport_toJson :
    cancelledReport.toJson = .object
      [("schema_version", .text "1.0"), ("tool_version", .text ""), ("cancelled", .bool true),
       ("files", .list [unreadFile.toJson]), ("project_totals", cancelledReport.totals.toJson),
       ("top_offenders", .list [])] :=
  rfl

theorem cancelledReport_fits : cancelledReport.Fits := by
  have lines : LineCounts.Fits {} := by constructor <;> decide +kernel
  have stat : Stat.Fits {} := by constructor <;> decide +kernel
  have counts : RoutineCounts.Fits {} := by constructor <;> decide +kernel
  have file : unreadFile.totals.Fits := by
    constructor
    case lines => exact lines
    case cyclomatic | cognitive => exact stat
    case counts => exact counts
    all_goals decide +kernel
  have totals : cancelledReport.totals.Fits := by
    constructor
    case lines => exact lines
    case cyclomatic | cognitive => exact stat
    case counts => exact counts
    case cyclomaticDistribution | cognitiveDistribution | languages => exact List.forall_mem_nil _
    case ordered => exact List.Pairwise.nil
    all_goals decide +kernel
  exact ⟨List.forall_mem_singleton.2
    ⟨List.forall_mem_nil _, List.forall_mem_nil _, List.forall_mem_nil _, file⟩, totals,
    List.forall_mem_nil _⟩

theorem edited_olderFile :
    Edited FileReport.shape ((olderDeletion.below (.member "files")).below (.item 0))
      unreadFile.toJson olderFile := by
  have fits := cancelledReport_fits.files _ List.mem_cons_self
  have faults := (Reloads.list_same fun fault h => (fits.faults fault h).reloads).same
  have routines := (Reloads.list fun routine h => (fits.routines routine h).reloads).same
  have totals := fits.totals.reloads.same
  rw [unreadFile_toJson]
  refine .each Prod.snd [("size", .list [.null])] (by decide) (fun m hm _ => ?_)
    (List.reverse_perm _) (List.forall_mem_singleton.2 rfl)
  simp only [List.mem_cons, List.not_mem_nil, or_false] at hm
  rcases hm with rfl | rfl | rfl | rfl | rfl | rfl | rfl
  exacts [⟨_, _, rfl, .plain⟩, ⟨_, _, rfl, .plain⟩, ⟨_, _, rfl, .plain⟩, ⟨_, _, rfl, .plain⟩,
    ⟨_, _, rfl, faults⟩, ⟨_, _, rfl, routines⟩, ⟨_, _, rfl, totals⟩]

theorem not_lacks_olderFile :
    ¬Lacks FileReport.shape ((olderDeletion.below (.member "files")).below (.item 0))
      unreadFile.toJson := by
  rw [unreadFile_toJson]
  refine Json.not_lacks_record fun m hm => ?_
  simp only [List.mem_cons, List.not_mem_nil, or_false] at hm
  rcases hm with rfl | rfl | rfl | rfl | rfl | rfl | rfl
  exacts [⟨_, _, rfl, Json.not_lacks_none⟩, ⟨_, _, rfl, Json.not_lacks_none⟩,
    ⟨_, _, rfl, Json.not_lacks_none⟩, ⟨_, _, rfl, rfl⟩, ⟨_, _, rfl, Json.not_lacks_none⟩,
    ⟨_, _, rfl, Json.not_lacks_none⟩, ⟨_, _, rfl, Json.not_lacks_none⟩]

theorem edited_olderDocument :
    Edited ProjectReport.shape olderDeletion cancelledReport.toJson olderDocument := by
  have fits := cancelledReport_fits
  have offenders := (Reloads.list_same fun o h => (fits.topOffenders o h).reloads).same
  have totals := fits.totals.reloads.same
  have files : Edited (.list FileReport.shape) (olderDeletion.below (.member "files"))
      (.list [unreadFile.toJson]) (.list [olderFile]) := by
    refine .list rfl fun i v w hv hw => ?_
    cases i with
    | zero =>
      cases hv
      cases hw
      exact edited_olderFile
    | succ i => cases hv
  rw [cancelledReport_toJson]
  refine .each (fun m => if m.1 = "files" then .list [olderFile] else m.2)
    [("origin", .object [("files", .bool true)])] (by decide) (fun m hm _ => ?_)
    (List.reverse_perm _) (List.forall_mem_singleton.2 rfl)
  simp only [List.mem_cons, List.not_mem_nil, or_false] at hm
  rcases hm with rfl | rfl | rfl | rfl | rfl | rfl
  exacts [⟨_, _, rfl, .plain⟩, ⟨_, _, rfl, .plain⟩, ⟨_, _, rfl, .plain⟩, ⟨_, _, rfl, files⟩,
    ⟨_, _, rfl, totals⟩, ⟨_, _, rfl, offenders⟩]

theorem not_lacks_olderDocument :
    ¬Lacks ProjectReport.shape olderDeletion cancelledReport.toJson := by
  have files : ¬Lacks (.list FileReport.shape) (olderDeletion.below (.member "files"))
      (.list [unreadFile.toJson]) := by
    intro lacks
    cases lacks with
    | @item _ _ _ i v found lacks =>
      cases i with
      | zero =>
        cases found
        exact not_lacks_olderFile lacks
      | succ i => cases found
  rw [cancelledReport_toJson]
  refine Json.not_lacks_record fun m hm => ?_
  simp only [List.mem_cons, List.not_mem_nil, or_false] at hm
  rcases hm with rfl | rfl | rfl | rfl | rfl | rfl
  exacts [⟨_, _, rfl, Json.not_lacks_none⟩, ⟨_, _, rfl, Json.not_lacks_none⟩, ⟨_, _, rfl, rfl⟩,
    ⟨_, _, rfl, files⟩, ⟨_, _, rfl, Json.not_lacks_none⟩, ⟨_, _, rfl, Json.not_lacks_none⟩]

theorem edited_emptyDocument :
    Edited ProjectReport.shape emptyDeletion cancelledReport.toJson emptyDocument := by
  have fits := cancelledReport_fits
  have offenders := (Reloads.list_same fun o h => (fits.topOffenders o h).reloads).same
  have totals := fits.totals.reloads.same
  rw [cancelledReport_toJson]
  refine .each Prod.snd [] (by decide) (fun m hm remains => ?_) (.refl _) (List.forall_mem_nil _)
  simp only [List.mem_cons, List.not_mem_nil, or_false] at hm
  rcases hm with rfl | rfl | rfl | rfl | rfl | rfl
  exacts [⟨_, _, rfl, .plain⟩, ⟨_, _, rfl, .plain⟩, ⟨_, _, rfl, .plain⟩,
    absurd remains (by decide), ⟨_, _, rfl, totals⟩, ⟨_, _, rfl, offenders⟩]

theorem plain_olderDocument : Plain olderDocument := by
  have fits := cancelledReport_fits
  have file : Plain olderFile := by
    refine .object fun m hm => ?_
    simp only [List.reverse_cons, List.reverse_nil, List.nil_append, List.cons_append,
      List.mem_cons, List.not_mem_nil, or_false] at hm
    rcases hm with rfl | rfl | rfl | rfl | rfl | rfl | rfl
    exacts [.list (List.forall_mem_singleton.2 .null),
      (fits.files _ List.mem_cons_self).totals.reloads.plain, .list (List.forall_mem_nil _),
      .list (List.forall_mem_nil _), .text _, .text _, .text _]
  refine .object fun m hm => ?_
  simp only [List.reverse_cons, List.reverse_nil, List.nil_append, List.cons_append, List.mem_cons,
    List.not_mem_nil, or_false] at hm
  rcases hm with rfl | rfl | rfl | rfl | rfl | rfl
  exacts [.object (List.forall_mem_singleton.2 (.bool true)), .list (List.forall_mem_nil _),
    fits.totals.reloads.plain, .list (List.forall_mem_singleton.2 file), .text _, .text _]

theorem plain_emptyDocument : Plain emptyDocument := by
  refine .object fun m hm => ?_
  simp only [List.mem_cons, List.not_mem_nil, or_false] at hm
  rcases hm with rfl | rfl | rfl | rfl | rfl
  exacts [.text _, .text _, .bool true, cancelledReport_fits.totals.reloads.plain,
    .list (List.forall_mem_nil _)]

/-- The older document loads with defaults, the one without files is no report. -/
theorem load_other_layout_older :
    ProjectReport.load "old.json" olderDocument.document
        = .ok { cancelledReport with
            cancelled := false
            files := [{ unreadFile with error := none }] } ∧
      ProjectReport.load "old.json" emptyDocument.document
        = .error (.configuration (.notAReport "old.json")) := by
  have fits := cancelledReport_fits
  have major : ProjectReport.majorOf cancelledReport.schemaVersion = ['1'] := by decide
  have written : Json.parse? (cancelledReport.render .json 0) = some cancelledReport.toJson :=
    Json.parse?_document fits.reloads.plain
  have lacks : Lacks ProjectReport.shape emptyDeletion cancelledReport.toJson := by
    have hit : emptyDeletion.hits "files" = true := rfl
    exact .deleted (List.mem_of_getElem? (i := 3) rfl) rfl hit
  exact ⟨(load_other_layout fits major written edited_olderDocument
      (plain_olderDocument.denotes 0) .none (.line 0) "old.json").1 not_lacks_olderDocument,
    (load_other_layout fits major written edited_emptyDocument
      (plain_emptyDocument.denotes 0) .none (.line 0) "old.json").2 lacks⟩

end CodeMetrics

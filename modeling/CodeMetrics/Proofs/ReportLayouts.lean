import CodeMetrics.Proofs.Layouts
import CodeMetrics.Proofs.Rollup
import CodeMetrics.Report.Json

/-! The layouts of reports. For each record of a report: where the records in it are and which of
    its fields have a default, what becomes of it where members were deleted, and that it is read so.
    A record fits where its whole numbers keep to the widths of their fields and its reals are
    finite. -/

namespace CodeMetrics

open Json (Value Record Plain Presence Shape Deletion Reloads Fields)

/-! ### Values -/

namespace Json.Reloads

theorem nat64 {n : Nat} (h : n < Nat.pow 2 64) : Reloads .plain Value.nat64? (.nat n) fun _ => n :=
  .leaf (.number h) (if_pos h)

theorem nat32 {n : Nat} (h : n < Nat.pow 2 32) : Reloads .plain Value.nat32? (.nat n) fun _ => n :=
  .leaf (.number (h.trans (by decide))) (if_pos h)

theorem real {x : Float} (h : x.isFinite) : Reloads .plain Value.real? (.real x) fun _ => x :=
  .leaf (.number h) rfl

theorem text (s : String) : Reloads .plain Value.text? (.text s) fun _ => s := .leaf (.text s) rfl

theorem bool (b : Bool) : Reloads .plain Value.bool? (.bool b) fun _ => b := .leaf (.bool b) rfl

theorem kind (k : RoutineKind) :
    Reloads .plain (Value.choice? RoutineKind.ofName?) (.text k.name) fun _ => k :=
  .leaf (.text _) (by cases k <;> rfl)

theorem status (s : FileStatus) :
    Reloads .plain (Value.choice? FileStatus.ofName?) (.text s.name) fun _ => s :=
  .leaf (.text _) (by cases s <;> rfl)

theorem present (s : String) :
    Reloads .plain (Value.optional? Value.text?) (.text s) fun _ => some s :=
  .leaf (.text s) rfl

theorem texts (l : List String) :
    Reloads .plain (Value.listOf? Value.text?) (.list (l.map .text)) fun _ => l := by
  refine .leaf (.list fun v hv => ?_) (mapM_eq_some (List.length_map _) fun i v s hv hs => ?_)
  · obtain ⟨s, -, rfl⟩ := List.mem_map.1 hv
    exact .text s
  · rw [List.getElem?_map, hs, Option.map_some] at hv
    cases hv
    rfl

end Json.Reloads

/-- Fields without a default that hold no record. -/
def plainFields (names : List String) : List (String × Presence × Shape) :=
  names.map fun name => (name, .required, .plain)

/-! ### Records of plain fields -/

def Halstead.shape : Shape := .record (plainFields fields)

structure Halstead.Fits (h : Halstead) : Prop where
  uniqueOperators : h.uniqueOperators < Nat.pow 2 32
  uniqueOperands : h.uniqueOperands < Nat.pow 2 32
  totalOperators : h.totalOperators < Nat.pow 2 32
  totalOperands : h.totalOperands < Nat.pow 2 32
  length : h.length < Nat.pow 2 32
  vocabulary : h.vocabulary < Nat.pow 2 32
  volume : h.volume.isFinite
  difficulty : h.difficulty.isFinite
  effort : h.effort.isFinite
  time : h.time.isFinite
  bugs : h.bugs.isFinite

theorem Halstead.Fits.reloads {h : Halstead} (f : h.Fits) :
    Reloads Halstead.shape Halstead.ofJson? h.toJson fun _ => h :=
  Fields.reloads rfl rfl (by decide) fun D known =>
    .required rfl rfl (.nat32 f.uniqueOperators) <| .required rfl rfl (.nat32 f.uniqueOperands) <|
    .required rfl rfl (.nat32 f.totalOperators) <| .required rfl rfl (.nat32 f.totalOperands) <|
    .required rfl rfl (.nat32 f.length) <| .required rfl rfl (.nat32 f.vocabulary) <|
    .required rfl rfl (.real f.volume) <| .required rfl rfl (.real f.difficulty) <|
    .required rfl rfl (.real f.effort) <| .required rfl rfl (.real f.time) <|
    .required rfl rfl (.real f.bugs) (.done rfl)

def Abc.shape : Shape := .record (plainFields fields)

structure Abc.Fits (a : Abc) : Prop where
  assignments : a.assignments < Nat.pow 2 32
  branches : a.branches < Nat.pow 2 32
  conditions : a.conditions < Nat.pow 2 32
  magnitude : a.magnitude.isFinite

theorem Abc.Fits.reloads {a : Abc} (f : a.Fits) :
    Reloads Abc.shape Abc.ofJson? a.toJson fun _ => a :=
  Fields.reloads rfl rfl (by decide) fun D known =>
    .required rfl rfl (.nat32 f.assignments) <| .required rfl rfl (.nat32 f.branches) <|
    .required rfl rfl (.nat32 f.conditions) <| .required rfl rfl (.real f.magnitude) (.done rfl)

def Maintainability.shape : Shape := .record (plainFields fields)

structure Maintainability.Fits (m : Maintainability) : Prop where
  unscaled : m.unscaled.isFinite
  rescaled : m.rescaled.isFinite

theorem Maintainability.Fits.reloads {m : Maintainability} (f : m.Fits) :
    Reloads Maintainability.shape Maintainability.ofJson? m.toJson fun _ => m :=
  Fields.reloads rfl rfl (by decide) fun D known =>
    .required rfl rfl (.real f.unscaled) <| .required rfl rfl (.real f.rescaled) (.done rfl)

def LineCounts.shape : Shape := .record (plainFields fields)

structure LineCounts.Fits (l : LineCounts) : Prop where
  total : l.total < Nat.pow 2 64
  code : l.code < Nat.pow 2 64
  comment : l.comment < Nat.pow 2 64
  blank : l.blank < Nat.pow 2 64
  logical : l.logical < Nat.pow 2 64

theorem LineCounts.Fits.reloads {l : LineCounts} (f : l.Fits) :
    Reloads LineCounts.shape LineCounts.ofJson? l.toJson fun _ => l :=
  Fields.reloads rfl rfl (by decide) fun D known =>
    .required rfl rfl (.nat64 f.total) <| .required rfl rfl (.nat64 f.code) <|
    .required rfl rfl (.nat64 f.comment) <| .required rfl rfl (.nat64 f.blank) <|
    .required rfl rfl (.nat64 f.logical) (.done rfl)

def RoutineCounts.shape : Shape := .record (plainFields fields)

structure RoutineCounts.Fits (c : RoutineCounts) : Prop where
  functions : c.functions < Nat.pow 2 64
  closures : c.closures < Nat.pow 2 64

theorem RoutineCounts.Fits.reloads {c : RoutineCounts} (f : c.Fits) :
    Reloads RoutineCounts.shape RoutineCounts.ofJson? c.toJson fun _ => c :=
  Fields.reloads rfl rfl (by decide) fun D known =>
    .required rfl rfl (.nat64 f.functions) <| .required rfl rfl (.nat64 f.closures) (.done rfl)

def ClassMetrics.shape : Shape := .record (plainFields fields)

structure ClassMetrics.Fits (c : ClassMetrics) : Prop where
  startLine : c.startLine < Nat.pow 2 64
  methods : c.methods < Nat.pow 2 64
  wmc : c.wmc < Nat.pow 2 32

theorem ClassMetrics.Fits.reloads {c : ClassMetrics} (f : c.Fits) :
    Reloads ClassMetrics.shape ClassMetrics.ofJson? c.toJson fun _ => c :=
  Fields.reloads rfl rfl (by decide) fun D known =>
    .required rfl rfl (.text c.name) <| .required rfl rfl (.nat64 f.startLine) <|
    .required rfl rfl (.nat64 f.methods) <| .required rfl rfl (.nat32 f.wmc) (.done rfl)

def SyntaxFault.shape : Shape := .record (plainFields fields)

structure SyntaxFault.Fits (s : SyntaxFault) : Prop where
  byteOffset : s.byteOffset < Nat.pow 2 64
  line : s.line < Nat.pow 2 64
  column : s.column < Nat.pow 2 64

theorem SyntaxFault.Fits.reloads {s : SyntaxFault} (f : s.Fits) :
    Reloads SyntaxFault.shape SyntaxFault.ofJson? s.toJson fun _ => s :=
  Fields.reloads rfl rfl (by decide) fun D known =>
    .required rfl rfl (.nat64 f.byteOffset) <| .required rfl rfl (.nat64 f.line) <|
    .required rfl rfl (.nat64 f.column) <| .required rfl rfl (.text s.message) (.done rfl)

def Stat.shape : Shape := .record (plainFields fields)

structure Stat.Fits (s : Stat) : Prop where
  sum : s.sum < Nat.pow 2 64
  average : s.average.isFinite
  max : s.max < Nat.pow 2 32

theorem Stat.Fits.reloads {s : Stat} (f : s.Fits) :
    Reloads Stat.shape Stat.ofJson? s.toJson fun _ => s :=
  Fields.reloads rfl rfl (by decide) fun D known =>
    .required rfl rfl (.nat64 f.sum) <| .required rfl rfl (.real f.average) <|
    .required rfl rfl (.nat32 f.max) (.done rfl)

def Offender.shape : Shape := .record (plainFields fields)

structure Offender.Fits (o : Offender) : Prop where
  startLine : o.startLine < Nat.pow 2 64
  startColumn : o.startColumn < Nat.pow 2 64
  endLine : o.endLine < Nat.pow 2 64
  cyclomatic : o.cyclomatic < Nat.pow 2 32
  cognitive : o.cognitive < Nat.pow 2 32
  nestingDepth : o.nestingDepth < Nat.pow 2 32

theorem Offender.Fits.reloads {o : Offender} (f : o.Fits) :
    Reloads Offender.shape Offender.ofJson? o.toJson fun _ => o :=
  Fields.reloads rfl rfl (by decide) fun D known =>
    .required rfl rfl (.text o.path) <| .required rfl rfl (.text o.language) <|
    .required rfl rfl (.text o.name) <| .required rfl rfl (.kind o.kind) <|
    .required rfl rfl (.nat64 f.startLine) <| .required rfl rfl (.nat64 f.startColumn) <|
    .required rfl rfl (.nat64 f.endLine) <| .required rfl rfl (.nat32 f.cyclomatic) <|
    .required rfl rfl (.nat32 f.cognitive) <| .required rfl rfl (.nat32 f.nestingDepth) (.done rfl)

def Bucket.shape : Shape := .record (plainFields fields)

structure Bucket.Fits (b : Bucket) : Prop where
  count : b.count < Nat.pow 2 64

theorem Bucket.Fits.reloads {b : Bucket} (f : b.Fits) :
    Reloads Bucket.shape Bucket.ofJson? b.toJson fun _ => b :=
  Fields.reloads rfl rfl (by decide) fun D known =>
    .required rfl rfl (.text b.range) <| .required rfl rfl (.nat64 f.count) (.done rfl)

def LanguageSummary.shape : Shape := .record (plainFields fields)

structure LanguageSummary.Fits (s : LanguageSummary) : Prop where
  files : s.files < Nat.pow 2 64
  functions : s.functions < Nat.pow 2 64
  codeLines : s.codeLines < Nat.pow 2 64
  cyclomatic : s.cyclomatic < Nat.pow 2 64

theorem LanguageSummary.Fits.reloads {s : LanguageSummary} (f : s.Fits) :
    Reloads LanguageSummary.shape LanguageSummary.ofJson? s.toJson fun _ => s :=
  Fields.reloads rfl rfl (by decide) fun D known =>
    .required rfl rfl (.nat64 f.files) <| .required rfl rfl (.nat64 f.functions) <|
    .required rfl rfl (.nat64 f.codeLines) <| .required rfl rfl (.nat64 f.cyclomatic) (.done rfl)

/-! ### Routines and files -/

def RoutineMetrics.shape : Shape :=
  .record
    (plainFields
        ["name", "kind", "start_line", "start_column", "end_line", "end_column", "scope_depth",
         "cyclomatic", "cognitive", "nesting_depth", "logical_lines", "physical_lines", "exits",
         "parameters"]
      ++ [("halstead", .required, Halstead.shape),
          ("maintainability_index", .required, Maintainability.shape),
          ("abc", .defaulted, Abc.shape)])

/-- The routine without what is deleted. -/
def RoutineMetrics.without (D : Deletion) (r : RoutineMetrics) : RoutineMetrics :=
  { r with abc := if D.hits "abc" then Abc.zero else r.abc }

structure RoutineMetrics.Fits (r : RoutineMetrics) : Prop where
  startLine : r.startLine < Nat.pow 2 64
  startColumn : r.startColumn < Nat.pow 2 64
  endLine : r.endLine < Nat.pow 2 64
  endColumn : r.endColumn < Nat.pow 2 64
  scopeDepth : r.scopeDepth < Nat.pow 2 64
  cyclomatic : r.cyclomatic < Nat.pow 2 32
  cognitive : r.cognitive < Nat.pow 2 32
  nestingDepth : r.nestingDepth < Nat.pow 2 32
  logicalLines : r.logicalLines < Nat.pow 2 64
  physicalLines : r.physicalLines < Nat.pow 2 64
  exits : r.exits < Nat.pow 2 32
  parameters : r.parameters < Nat.pow 2 32
  halstead : r.halstead.Fits
  maintainability : r.maintainability.Fits
  abc : r.abc.Fits

theorem RoutineMetrics.Fits.reloads {r : RoutineMetrics} (f : r.Fits) :
    Reloads RoutineMetrics.shape RoutineMetrics.ofJson? r.toJson fun D => r.without D :=
  Fields.reloads rfl rfl (by decide) fun D known =>
    .required rfl rfl (.text r.name) <| .required rfl rfl (.kind r.kind) <|
    .required rfl rfl (.nat64 f.startLine) <| .required rfl rfl (.nat64 f.startColumn) <|
    .required rfl rfl (.nat64 f.endLine) <| .required rfl rfl (.nat64 f.endColumn) <|
    .required rfl rfl (.nat64 f.scopeDepth) <| .required rfl rfl (.nat32 f.cyclomatic) <|
    .required rfl rfl (.nat32 f.cognitive) <| .required rfl rfl (.nat32 f.nestingDepth) <|
    .required rfl rfl (.nat64 f.logicalLines) <| .required rfl rfl (.nat64 f.physicalLines) <|
    .required rfl rfl (.nat32 f.exits) <| .required rfl rfl (.nat32 f.parameters) <|
    .required rfl rfl f.halstead.reloads <| .required rfl rfl f.maintainability.reloads <|
    .defaulted rfl rfl f.abc.reloads (.done rfl)

def FileTotals.shape : Shape :=
  .record
    [("functions", .required, .plain), ("lines", .required, LineCounts.shape),
     ("cyclomatic", .required, Stat.shape), ("cognitive", .required, Stat.shape),
     ("max_nesting_depth", .required, .plain), ("halstead_volume", .required, .plain),
     ("maintainability_index", .required, .plain), ("nom", .defaulted, RoutineCounts.shape),
     ("wmc", .defaulted, .plain), ("abc_magnitude", .defaulted, .plain)]

/-- The totals without what is deleted. -/
def FileTotals.without (D : Deletion) (t : FileTotals) : FileTotals :=
  { t with
    counts := if D.hits "nom" then {} else t.counts
    wmc := if D.hits "wmc" then 0 else t.wmc
    abcMagnitude := if D.hits "abc_magnitude" then 0.0 else t.abcMagnitude }

structure FileTotals.Fits (t : FileTotals) : Prop where
  functions : t.functions < Nat.pow 2 64
  lines : t.lines.Fits
  cyclomatic : t.cyclomatic.Fits
  cognitive : t.cognitive.Fits
  maxNestingDepth : t.maxNestingDepth < Nat.pow 2 32
  halsteadVolume : t.halsteadVolume.isFinite
  maintainability : t.maintainability.isFinite
  counts : t.counts.Fits
  wmc : t.wmc < Nat.pow 2 64
  abcMagnitude : t.abcMagnitude.isFinite

theorem FileTotals.Fits.reloads {t : FileTotals} (f : t.Fits) :
    Reloads FileTotals.shape FileTotals.ofJson? t.toJson fun D => t.without D :=
  Fields.reloads rfl rfl (by decide) fun D known =>
    .required rfl rfl (.nat64 f.functions) <| .required rfl rfl f.lines.reloads <|
    .required rfl rfl f.cyclomatic.reloads <| .required rfl rfl f.cognitive.reloads <|
    .required rfl rfl (.nat32 f.maxNestingDepth) <| .required rfl rfl (.real f.halsteadVolume) <|
    .required rfl rfl (.real f.maintainability) <| .defaulted rfl rfl f.counts.reloads <|
    .defaulted rfl rfl (.nat64 f.wmc) <| .defaulted rfl rfl (.real f.abcMagnitude) (.done rfl)

def FileReport.shape : Shape :=
  .record
    [("path", .required, .plain), ("language", .required, .plain), ("status", .required, .plain),
     ("error", .defaulted, .plain), ("syntax_errors", .defaulted, .list SyntaxFault.shape),
     ("functions", .defaulted, .list RoutineMetrics.shape),
     ("classes", .defaulted, .list ClassMetrics.shape),
     ("file_totals", .defaulted, FileTotals.shape)]

/-- The file without what is deleted. -/
def FileReport.without (D : Deletion) (file : FileReport) : FileReport :=
  { file with
    error := if D.hits "error" then none else file.error
    faults := if D.hits "syntax_errors" then [] else file.faults
    routines :=
      if D.hits "functions" then []
      else
        file.routines.mapIdx fun i r => r.without ((D.below (.member "functions")).below (.item i))
    classes := if D.hits "classes" then [] else file.classes
    totals :=
      if D.hits "file_totals" then {} else file.totals.without (D.below (.member "file_totals")) }

structure FileReport.Fits (file : FileReport) : Prop where
  faults : ∀ fault ∈ file.faults, fault.Fits
  routines : ∀ routine ∈ file.routines, routine.Fits
  classes : ∀ c ∈ file.classes, c.Fits
  totals : file.totals.Fits

theorem FileReport.Fits.reloads {file : FileReport} (f : file.Fits) :
    Reloads FileReport.shape FileReport.ofJson? file.toJson fun D => file.without D := by
  obtain ⟨path, language, status, error, faults, routines, classes, totals⟩ := file
  have hfaults := Reloads.list_same fun fault h => (f.faults fault h).reloads
  have hroutines := Reloads.list fun routine h => (f.routines routine h).reloads
  have hclasses := Reloads.list_same fun c h => (f.classes c h).reloads
  have htotals := f.totals.reloads
  cases error with
  | none =>
    cases classes with
    | nil =>
      exact Fields.reloads rfl rfl (by decide) fun D known =>
        .required rfl rfl (.text path) <| .required rfl rfl (.text language) <|
        .required rfl rfl (.status status) <| .absent rfl <| .defaulted rfl rfl hfaults <|
        .defaulted rfl rfl hroutines <| .absent rfl <| .defaulted rfl rfl htotals
        (.done (by simp [FileReport.without]))
    | cons c cs =>
      exact Fields.reloads rfl rfl (by decide) fun D known =>
        .required rfl rfl (.text path) <| .required rfl rfl (.text language) <|
        .required rfl rfl (.status status) <| .absent rfl <| .defaulted rfl rfl hfaults <|
        .defaulted rfl rfl hroutines <| .defaulted rfl rfl hclasses <|
        .defaulted rfl rfl htotals (.done (by simp [FileReport.without]))
  | some error =>
    cases classes with
    | nil =>
      exact Fields.reloads rfl rfl (by decide) fun D known =>
        .required rfl rfl (.text path) <| .required rfl rfl (.text language) <|
        .required rfl rfl (.status status) <| .defaulted rfl rfl (.present error) <|
        .defaulted rfl rfl hfaults <| .defaulted rfl rfl hroutines <| .absent rfl <|
        .defaulted rfl rfl htotals (.done (by simp [FileReport.without]))
    | cons c cs =>
      exact Fields.reloads rfl rfl (by decide) fun D known =>
        .required rfl rfl (.text path) <| .required rfl rfl (.text language) <|
        .required rfl rfl (.status status) <| .defaulted rfl rfl (.present error) <|
        .defaulted rfl rfl hfaults <| .defaulted rfl rfl hroutines <|
        .defaulted rfl rfl hclasses <| .defaulted rfl rfl htotals (.done rfl)

/-! ### Projects -/

/-- Summaries in the strict order of their languages are read in that order. -/
theorem Json.Reloads.languages {languages : List (String × LanguageSummary)}
    (ordered : Rollup.Ordered Prod.fst languages) (fits : ∀ l ∈ languages, l.2.Fits) :
    Reloads (.map LanguageSummary.shape) LanguageSummary.allOfJson?
      (.object (languages.map fun l => (l.1, l.2.toJson))) fun _ => languages := by
  have members := (Reloads.members fun l h => (fits l h).reloads).map fun members =>
    members.foldl (fun sorted l => insertSorted l.1 l.2 sorted) []
  rwa [Rollup.foldl_insertSorted ordered] at members

def ProjectTotals.shape : Shape :=
  .record
    [("files", .required, .plain), ("files_ok", .required, .plain),
     ("files_partial", .required, .plain), ("files_failed", .required, .plain),
     ("functions", .required, .plain), ("lines", .required, LineCounts.shape),
     ("cyclomatic", .required, Stat.shape), ("cognitive", .required, Stat.shape),
     ("max_nesting_depth", .required, .plain), ("halstead_volume", .required, .plain),
     ("maintainability_index", .required, .plain), ("nom", .defaulted, RoutineCounts.shape),
     ("classes", .defaulted, .plain), ("wmc", .defaulted, .plain),
     ("abc_magnitude", .defaulted, .plain),
     ("cyclomatic_distribution", .required, .list Bucket.shape),
     ("cognitive_distribution", .required, .list Bucket.shape),
     ("languages", .required, .map LanguageSummary.shape)]

/-- The totals without what is deleted. -/
def ProjectTotals.without (D : Deletion) (t : ProjectTotals) : ProjectTotals :=
  { t with
    counts := if D.hits "nom" then {} else t.counts
    classes := if D.hits "classes" then 0 else t.classes
    wmc := if D.hits "wmc" then 0 else t.wmc
    abcMagnitude := if D.hits "abc_magnitude" then 0.0 else t.abcMagnitude }

structure ProjectTotals.Fits (t : ProjectTotals) : Prop where
  files : t.files < Nat.pow 2 64
  filesOk : t.filesOk < Nat.pow 2 64
  filesPartial : t.filesPartial < Nat.pow 2 64
  filesFailed : t.filesFailed < Nat.pow 2 64
  functions : t.functions < Nat.pow 2 64
  lines : t.lines.Fits
  cyclomatic : t.cyclomatic.Fits
  cognitive : t.cognitive.Fits
  maxNestingDepth : t.maxNestingDepth < Nat.pow 2 32
  halsteadVolume : t.halsteadVolume.isFinite
  maintainability : t.maintainability.isFinite
  counts : t.counts.Fits
  classes : t.classes < Nat.pow 2 64
  wmc : t.wmc < Nat.pow 2 64
  abcMagnitude : t.abcMagnitude.isFinite
  cyclomaticDistribution : ∀ b ∈ t.cyclomaticDistribution, b.Fits
  cognitiveDistribution : ∀ b ∈ t.cognitiveDistribution, b.Fits
  languages : ∀ l ∈ t.languages, l.2.Fits
  /-- The languages are the keys of a map. -/
  ordered : Rollup.Ordered Prod.fst t.languages

theorem ProjectTotals.Fits.reloads {t : ProjectTotals} (f : t.Fits) :
    Reloads ProjectTotals.shape ProjectTotals.ofJson? t.toJson fun D => t.without D :=
  Fields.reloads rfl rfl (by decide) fun D known =>
    .required rfl rfl (.nat64 f.files) <| .required rfl rfl (.nat64 f.filesOk) <|
    .required rfl rfl (.nat64 f.filesPartial) <| .required rfl rfl (.nat64 f.filesFailed) <|
    .required rfl rfl (.nat64 f.functions) <| .required rfl rfl f.lines.reloads <|
    .required rfl rfl f.cyclomatic.reloads <| .required rfl rfl f.cognitive.reloads <|
    .required rfl rfl (.nat32 f.maxNestingDepth) <| .required rfl rfl (.real f.halsteadVolume) <|
    .required rfl rfl (.real f.maintainability) <| .defaulted rfl rfl f.counts.reloads <|
    .defaulted rfl rfl (.nat64 f.classes) <| .defaulted rfl rfl (.nat64 f.wmc) <|
    .defaulted rfl rfl (.real f.abcMagnitude) <|
    .required rfl rfl (.list_same fun b h => (f.cyclomaticDistribution b h).reloads) <|
    .required rfl rfl (.list_same fun b h => (f.cognitiveDistribution b h).reloads) <|
    .required rfl rfl (.languages f.ordered f.languages) (.done rfl)

def ProjectReport.shape : Shape :=
  .record
    [("schema_version", .required, .plain), ("tool_version", .required, .plain),
     ("generated_at", .defaulted, .plain), ("cancelled", .defaulted, .plain),
     ("files", .required, .list FileReport.shape),
     ("project_totals", .required, ProjectTotals.shape),
     ("top_offenders", .defaulted, .list Offender.shape), ("skipped", .defaulted, .plain)]

/-- The report without what is deleted. -/
def ProjectReport.without (D : Deletion) (p : ProjectReport) : ProjectReport :=
  { p with
    generatedAt := if D.hits "generated_at" then none else p.generatedAt
    cancelled := if D.hits "cancelled" then false else p.cancelled
    files := p.files.mapIdx fun i file => file.without ((D.below (.member "files")).below (.item i))
    totals := p.totals.without (D.below (.member "project_totals"))
    topOffenders := if D.hits "top_offenders" then [] else p.topOffenders
    skipped := if D.hits "skipped" then [] else p.skipped }

structure ProjectReport.Fits (p : ProjectReport) : Prop where
  files : ∀ file ∈ p.files, file.Fits
  totals : p.totals.Fits
  topOffenders : ∀ o ∈ p.topOffenders, o.Fits

theorem ProjectReport.Fits.reloads {p : ProjectReport} (f : p.Fits) :
    Reloads ProjectReport.shape ProjectReport.ofJson? p.toJson fun D => p.without D := by
  obtain ⟨schema, tool, generatedAt, cancelled, files, totals, offenders, skipped⟩ := p
  have hfiles := Reloads.list fun file h => (f.files file h).reloads
  have htotals := f.totals.reloads
  have hoffenders := Reloads.list_same fun o h => (f.topOffenders o h).reloads
  have hskipped := Reloads.texts skipped
  cases generatedAt with
  | none =>
    cases skipped with
    | nil =>
      exact Fields.reloads rfl rfl (by decide) fun D known =>
        .required rfl rfl (.text schema) <| .required rfl rfl (.text tool) <| .absent rfl <|
        .defaulted rfl rfl (.bool cancelled) <| .required rfl rfl hfiles <|
        .required rfl rfl htotals <| .defaulted rfl rfl hoffenders <| .absent rfl
        (.done (by simp [ProjectReport.without]))
    | cons path paths =>
      exact Fields.reloads rfl rfl (by decide) fun D known =>
        .required rfl rfl (.text schema) <| .required rfl rfl (.text tool) <| .absent rfl <|
        .defaulted rfl rfl (.bool cancelled) <| .required rfl rfl hfiles <|
        .required rfl rfl htotals <| .defaulted rfl rfl hoffenders <|
        .defaulted rfl rfl hskipped (.done (by simp [ProjectReport.without]))
  | some time =>
    cases skipped with
    | nil =>
      exact Fields.reloads rfl rfl (by decide) fun D known =>
        .required rfl rfl (.text schema) <| .required rfl rfl (.text tool) <|
        .defaulted rfl rfl (.present time) <| .defaulted rfl rfl (.bool cancelled) <|
        .required rfl rfl hfiles <| .required rfl rfl htotals <| .defaulted rfl rfl hoffenders <|
        .absent rfl (.done (by simp [ProjectReport.without]))
    | cons path paths =>
      exact Fields.reloads rfl rfl (by decide) fun D known =>
        .required rfl rfl (.text schema) <| .required rfl rfl (.text tool) <|
        .defaulted rfl rfl (.present time) <| .defaulted rfl rfl (.bool cancelled) <|
        .required rfl rfl hfiles <| .required rfl rfl htotals <| .defaulted rfl rfl hoffenders <|
        .defaulted rfl rfl hskipped (.done rfl)

/-! ### Nothing deleted -/

theorem RoutineMetrics.without_none (r : RoutineMetrics) : r.without .none = r := rfl

theorem FileReport.without_none (file : FileReport) : file.without .none = file := by
  have same : file.without .none
      = { file with routines := file.routines.mapIdx fun _ r => r.without .none } := rfl
  rw [same, mapIdx_eq_self fun _ => RoutineMetrics.without_none]

theorem ProjectReport.without_none (p : ProjectReport) : p.without .none = p := by
  have same : p.without .none
      = { p with files := p.files.mapIdx fun _ file => file.without .none } := rfl
  rw [same, mapIdx_eq_self fun _ => FileReport.without_none]

end CodeMetrics

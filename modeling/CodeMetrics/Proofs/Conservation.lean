import CodeMetrics.Proofs.Balance

/-! The totals of a report agree with each other. The same count is taken along several ways: from
    all routines, from the totals of the files, by language, and by range. No way loses anything:
    the ranges of a distribution follow each other without a gap and the last one is open, a file is
    added to exactly one language, and it has exactly one status. -/

namespace CodeMetrics

open Rollup

/-! ### Ranges -/

/-- Whether a value lies in a range. -/
def lies (v : ℕ) (range : ℕ × Option ℕ × String) : Bool := range.1 ≤ v && range.2.1.all (v ≤ ·)

/-- Ranges that follow each other from a value on, the last one open. -/
def Tiles (start : ℕ) : List (ℕ × Option ℕ × String) → Prop
  | [] => False
  | (low, none, _) :: rest => low = start ∧ rest = []
  | (low, some high, _) :: rest => low = start ∧ low ≤ high ∧ Tiles (high + 1) rest

/-- What comes before the first range lies in none. -/
theorem Tiles.countP_below {start v : ℕ} {ranges : List (ℕ × Option ℕ × String)}
    (tiles : Tiles start ranges) (below : v < start) : ranges.countP (lies v) = 0 := by
  induction ranges generalizing start with
  | nil => rfl
  | cons range rest ih =>
    obtain ⟨low, high, label⟩ := range
    cases high with
    | none =>
      obtain ⟨rfl, rfl⟩ := tiles
      simp [lies, below]
    | some high =>
      obtain ⟨rfl, ordered, next⟩ := tiles
      have outside : lies v (low, some high, label) = false := by simp [lies, below]
      rw [List.countP_cons_of_neg (by simp [outside]), ih next (by omega)]

/-- Every other value lies in exactly one. -/
theorem Tiles.countP_eq_one {start v : ℕ} {ranges : List (ℕ × Option ℕ × String)}
    (tiles : Tiles start ranges) (above : start ≤ v) : ranges.countP (lies v) = 1 := by
  induction ranges generalizing start with
  | nil => exact tiles.elim
  | cons range rest ih =>
    obtain ⟨low, high, label⟩ := range
    cases high with
    | none =>
      obtain ⟨rfl, rfl⟩ := tiles
      simp [lies, above]
    | some high =>
      obtain ⟨rfl, ordered, next⟩ := tiles
      by_cases hv : v ≤ high
      · have inside : lies v (low, some high, label) = true := by simp [lies, above, hv]
        rw [List.countP_cons_of_pos inside, next.countP_below (by omega)]
      · have outside : lies v (low, some high, label) = false := by simp [lies, hv]
        rw [List.countP_cons_of_neg (by simp [outside]), ih next (by omega)]

/-- One more value counts in the ranges that it lies in. -/
theorem sumOf_countP_cons (v : ℕ) (values : List ℕ) (ranges : List (ℕ × Option ℕ × String)) :
    sumOf (ranges.map fun range => (v :: values).countP (lies · range))
      = ranges.countP (lies v) + sumOf (ranges.map fun range => values.countP (lies · range)) := by
  induction ranges with
  | nil => rfl
  | cons range rest ih =>
    rw [List.map_cons, sumOf_cons, ih, List.map_cons, sumOf_cons, List.countP_cons,
      List.countP_cons]
    omega

theorem count_distribution (ranges : List (ℕ × Option ℕ × String)) (values : List ℕ) :
    (distribution ranges values).map (·.count)
      = ranges.map fun range => values.countP (lies · range) := by
  rw [distribution, List.map_map]
  rfl

/-- Every value is counted in one range. -/
theorem Tiles.sumOf_distribution {start : ℕ} {ranges : List (ℕ × Option ℕ × String)}
    (tiles : Tiles start ranges) {values : List ℕ} (above : ∀ v ∈ values, start ≤ v) :
    sumOf ((distribution ranges values).map (·.count)) = values.length := by
  rw [count_distribution]
  induction values with
  | nil => exact sumOf_zero
  | cons v values ih =>
    obtain ⟨hv, hvalues⟩ := List.forall_mem_cons.1 above
    rw [sumOf_countP_cons, tiles.countP_eq_one hv, ih hvalues, List.length_cons, Nat.add_comm]

theorem tiles_cyclomaticRanges : Tiles 1 cyclomaticRanges := by
  simp [cyclomaticRanges, Tiles]

theorem tiles_cognitiveRanges : Tiles 0 cognitiveRanges := by
  simp [cognitiveRanges, cyclomaticRanges, Tiles]

/-! ### Languages -/

section Sorted

variable {α : Type} {name : String}

theorem mem_insertSorted {a : α} {p : String × α} {l : List (String × α)}
    (h : p ∈ insertSorted name a l) : p = (name, a) ∨ p ∈ l := by
  induction l with
  | nil => exact Or.inl (List.mem_singleton.1 h)
  | cons q rest ih =>
    rw [insertSorted] at h
    split at h
    · exact List.mem_cons.1 h
    · rcases List.mem_cons.1 h with h | h
      · exact Or.inl h
      · exact Or.inr (List.mem_cons_of_mem _ h)
    · rcases List.mem_cons.1 h with rfl | h
      · exact Or.inr List.mem_cons_self
      · exact (ih h).imp_right (List.mem_cons_of_mem _)

theorem ordered_insertSorted (a : α) {l : List (String × α)} (ordered : Ordered Prod.fst l) :
    Ordered Prod.fst (insertSorted name a l) := by
  induction l with
  | nil => exact List.pairwise_singleton _ _
  | cons q rest ih =>
    obtain ⟨below, tail⟩ := List.pairwise_cons.1 ordered
    rw [insertSorted]
    split
    · next hlt =>
      refine List.pairwise_cons.2 ⟨fun p hp => ?_, ordered⟩
      rcases List.mem_cons.1 hp with rfl | hp
      · exact hlt
      · exact Std.TransCmp.lt_trans hlt (below p hp)
    · next heq =>
      obtain rfl : name = q.1 := Std.LawfulEqCmp.eq_of_compare heq
      exact List.pairwise_cons.2 ⟨below, tail⟩
    · next hgt =>
      refine List.pairwise_cons.2 ⟨fun p hp => ?_, ih tail⟩
      rcases mem_insertSorted hp with rfl | hp
      · exact Std.OrientedCmp.lt_of_gt hgt
      · exact below p hp

theorem lookup_insertSorted (name other : String) (a : α) (l : List (String × α)) :
    (insertSorted name a l).lookup other = if other == name then some a else l.lookup other := by
  induction l with
  | nil => cases h : other == name <;> simp [insertSorted, List.lookup_cons, h]
  | cons q rest ih =>
    obtain ⟨key, b⟩ := q
    rw [insertSorted]
    split
    · cases h : other == name <;> simp [List.lookup_cons, h]
    · next heq =>
      obtain rfl : name = key := Std.LawfulEqCmp.eq_of_compare heq
      cases h : other == name <;> simp [List.lookup_cons, h]
    · next hgt =>
      rw [List.lookup_cons, ih, List.lookup_cons]
      cases h : other == key with
      | true =>
        have apart : other ≠ name := by
          rw [beq_iff_eq.1 h]
          exact ne_of_compare_lt (Std.OrientedCmp.lt_of_gt hgt)
        simp [apart]
      | false => rfl

/-- A name that comes before all names of a list is not in it. -/
theorem lookup_of_below {l : List (String × α)} (below : ∀ p ∈ l, compare name p.1 = .lt) :
    l.lookup name = none := by
  rw [List.lookup_eq_none_iff]
  intro p hp
  simpa using ne_of_compare_lt (below p hp)

/-- What is put under a name takes the place of what was there. -/
theorem sumOf_insertSorted {amount : α → ℕ} {nothing : α} (empty : amount nothing = 0)
    (name : String) (a : α) {l : List (String × α)} (ordered : Ordered Prod.fst l) :
    sumOf ((insertSorted name a l).map fun p => amount p.2)
        + amount ((l.lookup name).getD nothing)
      = sumOf (l.map fun p => amount p.2) + amount a := by
  induction l with
  | nil => simp [insertSorted, empty]
  | cons q rest ih =>
    obtain ⟨key, b⟩ := q
    obtain ⟨below, tail⟩ := List.pairwise_cons.1 ordered
    rw [insertSorted]
    split
    · next hlt =>
      have new : ((key, b) :: rest).lookup name = none := lookup_of_below fun p hp => by
        rcases List.mem_cons.1 hp with rfl | hp
        · exact hlt
        · exact Std.TransCmp.lt_trans hlt (below p hp)
      simp only [new, Option.getD_none, empty, List.map_cons, sumOf_cons]
      omega
    · next heq =>
      obtain rfl : name = key := Std.LawfulEqCmp.eq_of_compare heq
      simp only [List.lookup_cons, beq_self_eq_true, Option.getD_some, List.map_cons, sumOf_cons]
      omega
    · next hgt =>
      have other : (name == key) = false := by
        simpa using (ne_of_compare_lt (Std.OrientedCmp.lt_of_gt hgt)).symm
      have sum := ih tail
      simp only [List.lookup_cons, other, List.map_cons, sumOf_cons]
      omega

end Sorted

/-- The sums of a language with one more file. -/
def LanguageSummary.plus (before : LanguageSummary) (file : FileReport) : LanguageSummary where
  files := before.files + 1
  functions := before.functions + file.routines.length
  codeLines := before.codeLines + file.totals.lines.code
  cyclomatic := before.cyclomatic + file.totals.cyclomatic.sum

theorem addLanguage_eq (languages : List (String × LanguageSummary)) (file : FileReport) :
    addLanguage languages file
      = insertSorted file.language (((languages.lookup file.language).getD {}).plus file)
          languages := rfl

theorem ordered_languages (files : List FileReport) {languages : List (String × LanguageSummary)}
    (ordered : Ordered Prod.fst languages) :
    Ordered Prod.fst (files.foldl addLanguage languages) := by
  induction files generalizing languages with
  | nil => exact ordered
  | cons file files ih => exact ih (ordered_insertSorted _ ordered)

section Amounts

variable {amount : LanguageSummary → ℕ} {brings : FileReport → ℕ} (empty : amount {} = 0)
  (grows : ∀ before file, amount (before.plus file) = amount before + brings file)

include empty grows

/-- What a file brings is added to one language. -/
theorem sumOf_addLanguage {languages : List (String × LanguageSummary)}
    (ordered : Ordered Prod.fst languages) (file : FileReport) :
    sumOf ((addLanguage languages file).map fun p => amount p.2)
      = sumOf (languages.map fun p => amount p.2) + brings file := by
  have sum := sumOf_insertSorted empty file.language
    (((languages.lookup file.language).getD {}).plus file) ordered
  rw [grows] at sum
  rw [addLanguage_eq]
  omega

/-- What the files bring is what the languages have. -/
theorem sumOf_languages (files : List FileReport) {languages : List (String × LanguageSummary)}
    (ordered : Ordered Prod.fst languages) :
    sumOf ((files.foldl addLanguage languages).map fun p => amount p.2)
      = sumOf (languages.map fun p => amount p.2) + sumOf (files.map brings) := by
  induction files generalizing languages with
  | nil => rfl
  | cons file files ih =>
    have next : Ordered Prod.fst (addLanguage languages file) := ordered_insertSorted _ ordered
    rw [List.foldl_cons, ih next, sumOf_addLanguage empty grows ordered, List.map_cons, sumOf_cons,
      Nat.add_assoc]

end Amounts

/-! ### Files -/

/-- Every file has one status. -/
theorem countP_statuses (files : List FileReport) :
    (files.countP fun f => f.status == .ok) + (files.countP fun f => f.status == .partly)
        + (files.countP fun f => f.status == .failed) = files.length := by
  induction files with
  | nil => rfl
  | cons f files ih =>
    simp only [List.countP_cons, List.length_cons]
    cases f.status <;> simp <;> omega

namespace FileReport.Entered

variable {file : FileReport} (h : file.Entered)

include h

/-- Lambdas and others are all routines. -/
theorem kinds : file.totals.counts.functions + file.totals.counts.closures
    = file.routines.length := by
  cases h with
  | measured path language m faults =>
    have := m.routines.countP_le_length (p := fun r => r.kind == .lambda)
    simp only [FileReport.measured, FileTotals.of, RoutineCounts.of]
    omega
  | failed path language error => rfl

theorem wmc : file.totals.wmc = sumOf (file.classes.map (·.wmc)) := by cases h <;> rfl

end FileReport.Entered

/-- The totals of a report that agree with each other, and with the files. -/
structure ProjectReport.Conserved (report : ProjectReport) : Prop where
  files : report.totals.files = report.files.length
  statuses : report.totals.files
    = report.totals.filesOk + report.totals.filesPartial + report.totals.filesFailed
  languages : Ordered Prod.fst report.totals.languages
  languageFiles : report.totals.files = sumOf (report.totals.languages.map (·.2.files))
  functions : report.totals.functions = sumOf (report.files.map (·.routines.length))
  kinds : report.totals.functions
    = report.totals.counts.functions + report.totals.counts.closures
  cyclomaticRanges : report.totals.functions
    = sumOf (report.totals.cyclomaticDistribution.map (·.count))
  cognitiveRanges : report.totals.functions
    = sumOf (report.totals.cognitiveDistribution.map (·.count))
  languageFunctions : report.totals.functions
    = sumOf (report.totals.languages.map (·.2.functions))
  cyclomatic : report.totals.cyclomatic.sum
    = sumOf (report.files.map (·.totals.cyclomatic.sum))
  languageCyclomatic : report.totals.cyclomatic.sum
    = sumOf (report.totals.languages.map (·.2.cyclomatic))
  languageCode : report.totals.lines.code
    = sumOf (report.totals.languages.map (·.2.codeLines))
  wmc : report.totals.wmc = sumOf (report.files.flatMap fun f => f.classes.map (·.wmc))

section Totals

variable {files : List FileReport} (entered : ∀ f ∈ files, f.Entered)

include entered

/-- The routines of all files. -/
theorem functions_totalsBy (plus : Float → Float → Float) :
    (totalsBy plus files).functions = sumOf (files.map (·.routines.length)) := by
  have sum := inProject_totalsBy (m := .functions) (by decide) plus entered
  exact sum.trans (congrArg sumOf (List.map_congr_left fun f hf => (entered f hf).functions))

/-- The routines of all files by kind. -/
theorem counts_totalsBy (plus : Float → Float → Float) :
    (totalsBy plus files).counts.functions + (totalsBy plus files).counts.closures
      = sumOf (files.map (·.routines.length)) := by
  have step : ∀ a b : RoutineCounts, (a.add b).total = a.total + b.total := fun a b => by
    simp only [RoutineCounts.add, RoutineCounts.total]
    omega
  have sum := foldl_count RoutineCounts.add RoutineCounts.total step {}
    (files.map (·.totals.counts))
  have none : RoutineCounts.total {} = 0 := rfl
  rw [List.map_map, none, Nat.zero_add] at sum
  exact sum.trans (congrArg sumOf (List.map_congr_left fun f hf => (entered f hf).kinds))

end Totals

/-- Totals are conserved: however a report is put together from files that were measured or failed,
    each of its counts is the same along every way it is taken. -/
theorem totals_conserved (b : Build) (entered : ∀ f, .file f ∈ b.steps → f.Entered)
    (positive : ∀ f, .file f ∈ b.steps → ∀ r ∈ f.routines, 1 ≤ r.cyclomatic)
    (generatedAt : Option String) (cancelled : Bool) :
    (b.run.finish generatedAt cancelled).Conserved := by
  have entered : ∀ f ∈ b.run.files, f.Entered := b.entered_files entered
  have functions := functions_totalsBy entered (· + ·)
  have cyclomatic := inProject_totalsBy (m := .cyclomatic) (by decide) (· + ·) entered
  have byLanguage : ∀ (amount : LanguageSummary → ℕ) (brings : FileReport → ℕ), amount {} = 0 →
      (∀ before file, amount (before.plus file) = amount before + brings file) →
      sumOf (b.run.files.map brings)
        = sumOf ((b.run.files.foldl addLanguage []).map fun p => amount p.2) := by
    intro amount brings empty grows
    rw [sumOf_languages empty grows b.run.files .nil, List.map_nil, sumOf_nil, Nat.zero_add]
  have positive : ∀ v ∈ (b.run.files.flatMap (·.routines)).map (·.cyclomatic), 1 ≤ v := by
    intro v hv
    obtain ⟨r, hr, rfl⟩ := List.mem_map.1 hv
    obtain ⟨f, hf, hr⟩ := List.mem_flatMap.1 hr
    exact positive f (Build.mem_steps hf) r hr
  have code := foldl_count LineCounts.add (·.code) (fun _ _ => rfl) {}
    (b.run.files.map (·.totals.lines))
  rw [List.map_map, Nat.zero_add] at code
  refine
    { files := rfl
      statuses := (countP_statuses b.run.files).symm
      languages := ordered_languages b.run.files .nil
      languageFiles :=
        (sumOf_one b.run.files).symm.trans (byLanguage (·.files) _ rfl fun _ _ => rfl)
      functions
      kinds := functions.trans (counts_totalsBy entered (· + ·)).symm
      cyclomaticRanges := ?_
      cognitiveRanges := ?_
      languageFunctions := functions.trans (byLanguage (·.functions) _ rfl fun _ _ => rfl)
      cyclomatic
      languageCyclomatic := cyclomatic.trans (byLanguage (·.cyclomatic) _ rfl fun _ _ => rfl)
      languageCode := code.trans (byLanguage (·.codeLines) _ rfl fun _ _ => rfl)
      wmc := ?_ }
  · refine Eq.trans ?_ (tiles_cyclomaticRanges.sumOf_distribution positive).symm
    rw [List.length_map]
    rfl
  · refine Eq.trans ?_ (tiles_cognitiveRanges.sumOf_distribution fun _ _ => Nat.zero_le _).symm
    rw [List.length_map]
    rfl
  · rw [sumOf_flatMap]
    exact congrArg sumOf (List.map_congr_left fun f hf => (entered f hf).wmc)

/-- A function above all bounded ranges, a lambda and a method; one file with a syntax error, one
    that failed, and one whose path is taken. -/
theorem totals_conserved_two_parts :
    let routine (kind : RoutineKind) (cyclomatic cognitive : ℕ) : RoutineMetrics :=
      ⟨"f", kind, 1, 1, 9, 2, 0, cyclomatic, cognitive, 0, 1, 9, 0, 0,
        ⟨1, 1, 1, 1, 2, 2, 2.0, 0.5, 1.0, 0.1, 0.0⟩, ⟨120.0, 70.0⟩, ⟨0, 0, 0, 0.0⟩⟩
    let a := FileReport.measured "a.go" .go
      ⟨[routine .function 51 60, routine .lambda 1 0], { code := 9 }, [⟨"T", 1, 1, 51⟩]⟩ []
    let b := FileReport.measured "b.tsx" .tsx ⟨[routine .method 5 6], { code := 4 }, []⟩
      [⟨7, 1, 8, "unexpected syntax"⟩]
    let c := FileReport.failed "c" none (.unknownLanguage "c")
    let other := FileReport.measured "a.go" .rust ⟨[routine .function 2 2], {}, []⟩ []
    let build : Build :=
      .merge (.add (.new 2) a) (.add (.add (.skip (.add (.new 0) c) "notes") b) other)
    let report := build.run.finish none false
    report.Conserved ∧ report.totals.functions = 3 ∧ report.totals.cyclomatic.sum = 57 ∧
      report.totals.languages.map (·.1) = ["go", "typescript", "unknown"] := by
  intro routine a b c other build report
  have came : ∀ f, .file f ∈ build.steps → f = a ∨ f = c ∨ f = b ∨ f = other := by
    intro f hf
    simpa [build, Build.steps] using hf
  have entered : ∀ f, .file f ∈ build.steps → f.Entered := by
    intro f hf
    rcases came f hf with rfl | rfl | rfl | rfl
    · exact .measured ..
    · exact .failed ..
    · exact .measured ..
    · exact .measured ..
  have positive : ∀ f, .file f ∈ build.steps → ∀ r ∈ f.routines, 1 ≤ r.cyclomatic := by
    intro f hf
    rcases came f hf with rfl | rfl | rfl | rfl <;> decide +kernel
  exact ⟨totals_conserved build entered positive none false, by decide +kernel, by decide +kernel,
    by decide +kernel⟩

end CodeMetrics

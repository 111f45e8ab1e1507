import CodeMetrics.Proofs.ShownPaths

/-! The steps of a path as shown. Leaving out `./` at the front takes no step away and adds none.
    But it looks at two characters at a time: a second slash behind a dot is left at the front, and
    a relative path is shown as one that starts at the root. -/

namespace CodeMetrics

namespace Path

/-- What a path names on the way to a file, single dots apart. -/
inductive Component where
  | root
  | step (name : RawPath)
deriving DecidableEq, Repr

/-- The components of a path, single dots apart. -/
def components (path : RawPath) : List Component :=
  (if isAbsolute path then [.root] else []) ++ (steps path).map .step

/-- A path with `./` at its front, maybe repeatedly, and a second slash right behind it. -/
def SlashBehindDots (path : String) : Prop :=
  ∃ (k : ℕ) (rest : List Char),
    path.toList = (List.replicate (k + 1) ['.', '/']).flatten ++ '/' :: rest

/-! ### Dots at the front -/

theorem dropDots_ne (cs rest : List Char) : dropDots cs ≠ '.' :: '/' :: rest := by
  fun_induction dropDots cs with
  | case1 cs ih => exact ih
  | case2 cs whole => exact whole rest

theorem mem_of_mem_dropDots {c : Char} {cs : List Char} (h : c ∈ dropDots cs) : c ∈ cs := by
  fun_induction dropDots cs with
  | case1 cs ih => exact List.mem_cons_of_mem _ (List.mem_cons_of_mem _ (ih h))
  | case2 => exact h

/-- Dots at the front are no steps. -/
theorem steps_dropDots (cs : List Char) :
    steps (String.ofList (dropDots cs)) = steps (String.ofList cs) := by
  fun_induction dropDots cs with
  | case1 rest ih =>
    rw [ih, steps, steps, pieces_dot]
    rfl
  | case2 => rfl

theorem head?_dropDots_iff (cs : List Char) : (dropDots cs).head? = some '/' ↔
    ∃ k rest, cs = (List.replicate k ['.', '/']).flatten ++ '/' :: rest := by
  fun_induction dropDots cs with
  | case1 cs ih =>
    rw [ih]
    constructor
    · rintro ⟨k, rest, rfl⟩
      exact ⟨k + 1, rest, rfl⟩
    · rintro ⟨k, rest, split⟩
      cases k with
      | zero => simp at split
      | succ k => exact ⟨k, rest, by simpa [List.replicate_succ] using split⟩
  | case2 cs whole =>
    constructor
    · intro slash
      cases cs with
      | nil => cases slash
      | cons c rest => exact ⟨0, rest, by simpa using slash⟩
    · rintro ⟨k, rest, rfl⟩
      cases k with
      | zero => rfl
      | succ k => exact absurd rfl (whole _)

/-! ### Paths as shown -/

section Plain

variable {path : String} (plain : '\\' ∉ path.toList)

include plain

theorem toList_display : (display path).toList = dropDots path.toList := by
  rw [display_ofText plain, String.toList_ofList]

theorem steps_display : steps (display path) = steps path := by
  rw [display_ofText plain, steps_dropDots, String.ofList_toList]

theorem display_display : display (display path) = display path := by
  have plain' : '\\' ∉ (display path).toList := by
    rw [toList_display plain]
    exact fun h => plain (mem_of_mem_dropDots h)
  rw [← String.toList_inj, toList_display plain', toList_display plain]
  exact dropDots_eq_self (dropDots_ne _)

theorem isAbsolute_display_iff (relative : isAbsolute path = false) :
    isAbsolute (display path) = true ↔ SlashBehindDots path := by
  rw [isAbsolute_ofText, toList_display plain, beq_iff_eq, head?_dropDots_iff]
  constructor
  · rintro ⟨k, rest, split⟩
    cases k with
    | zero => simp [isAbsolute_ofText, split] at relative
    | succ k => exact ⟨k, rest, split⟩
  · rintro ⟨k, rest, split⟩
    exact ⟨k + 1, rest, split⟩

theorem components_display (relative : isAbsolute path = false) : components (display path)
    = (if isAbsolute (display path) then [.root] else []) ++ components path := by
  rw [components, components, steps_display plain, relative]
  rfl

end Plain

end Path

namespace FileSystem

/-- A path that is shown plainly leads to the same file as shown. -/
theorem resolve_display {path : RawPath} (plain : Path.ShownPlainly path) (fs : FileSystem)
    {location : Location} {content : FileContent}
    (leads : fs.resolve path = .ok (location, .file content)) :
    fs.resolve (Path.display path) = .ok (location, .file content) := by
  have start : origin fs.workingDirectory (Path.display path)
      = origin fs.workingDirectory path := by
    rw [origin, origin, plain.2.2]
  rw [resolve] at leads
  split at leads
  · cases leads
  · rw [← start, ← resolveFrom_display plain.1 plain.2.1] at leads
    rw [resolve, if_neg fun empty => ?_, leads]
    -- an empty path would lead to the directory that it starts in
    have nowhere : Path.pieces Path.empty = [Path.empty] := rfl
    rw [eq_of_beq empty, resolveFrom, nowhere] at leads
    simp [follow] at leads

/-- A path that is shown as absolute leads from the root as shown. -/
theorem resolve_display_of_isAbsolute {path : String} (plain : '\\' ∉ path.toList)
    (fs : FileSystem) (absolute : Path.isAbsolute (Path.display path) = true) :
    fs.resolve (Path.display path) = fs.resolveFrom maxLinks [] (Path.pieces path) := by
  rw [resolve, if_neg fun empty => ?_,
    resolveFrom_display (RawPath.isText_ofText path) (by rwa [RawPath.text_ofText]), origin,
    absolute, if_pos rfl]
  rw [eq_of_beq empty] at absolute
  cases absolute

end FileSystem

/-- A relative path without backslashes is shown without `./` at its front and shown the same again.
    It is shown as a relative path with the components that it has, and so leads to the same file,
    exactly if no second slash stands right behind `./` at its front. Otherwise it is shown with the
    root before its components, and leads from there. -/
theorem Path.shown_relative_iff {path : String} (plain : '\\' ∉ path.toList)
    (relative : isAbsolute path = false) :
    let shown := display path
    (¬ ['.', '/'] <+: shown.toList) ∧ display shown = shown ∧
    (isAbsolute shown = false ↔ ¬ SlashBehindDots path) ∧
    (components shown = components path ↔ ¬ SlashBehindDots path) ∧
    (¬ SlashBehindDots path → ∀ (fs : FileSystem) (location : Location) (content : FileContent),
      fs.resolve path = .ok (location, .file content) →
        fs.resolve shown = .ok (location, .file content)) ∧
    (SlashBehindDots path → components shown = .root :: components path ∧
      ∀ fs : FileSystem,
        fs.resolve shown = fs.resolveFrom FileSystem.maxLinks [] (pieces path)) := by
  intro shown
  have absolute : isAbsolute shown = true ↔ SlashBehindDots path :=
    isAbsolute_display_iff plain relative
  have stays : isAbsolute shown = false ↔ ¬ SlashBehindDots path := by
    rw [← absolute, Bool.not_eq_true]
  have parts : components shown = (if isAbsolute shown then [.root] else []) ++ components path :=
    components_display plain relative
  refine ⟨?_, display_display plain, stays, ?_, fun whole fs location content leads => ?_,
    fun odd => ⟨?_, fun fs => ?_⟩⟩
  · rintro ⟨rest, front⟩
    rw [toList_display plain] at front
    exact dropDots_ne _ rest front.symm
  · rw [← stays, parts]
    cases isAbsolute shown <;> simp
  · have same := (stays.2 whole).trans relative.symm
    exact fs.resolve_display
      ⟨RawPath.isText_ofText path, by rwa [RawPath.text_ofText], same⟩ leads
  · rw [parts, absolute.2 odd]
    rfl
  · exact fs.resolve_display_of_isAbsolute plain (absolute.2 odd)

/-- A path with dots and repeated slashes all over but for its front, to a file in a project. -/
theorem Path.shown_relative_iff_source :
    let path := "././src//./../src/a.go"
    let content : FileContent := ⟨Utf8.encode "package a\n", none⟩
    let fs : FileSystem :=
      { items :=
          [(["project"], .directory), (["project", "src"], .directory),
           (["project", "src", "a.go"], .file content)]
        workingDirectory := ["project"] }
    '\\' ∉ path.toList ∧ isAbsolute path = false ∧ ¬ SlashBehindDots path ∧
      display path = "src//./../src/a.go" ∧
      components path = [.step "src", .step "..", .step "src", .step "a.go"] ∧
      components (display path) = components path ∧
      fs.resolve (display path) = .ok (["project", "src", "a.go"], .file content) := by
  intro path content fs
  have plain : '\\' ∉ path.toList := by decide +kernel
  have relative : isAbsolute path = false := by decide +kernel
  obtain ⟨-, -, stays, same, leads, -⟩ := shown_relative_iff plain relative
  have whole : ¬ SlashBehindDots path := stays.1 (by decide +kernel)
  have split : pieces path = ([".", ".", "src", "", ".", "..", "src", "a.go"] : List RawPath) := by
    decide +kernel
  have start : FileSystem.origin fs.workingDirectory path = (["project"] : Location) := by
    decide +kernel
  have found : fs.resolve path = .ok (["project", "src", "a.go"], .file content) := by
    rw [FileSystem.resolve, if_neg (by decide +kernel), start, split]
    rfl
  exact ⟨plain, relative, whole, by decide +kernel, by decide +kernel, same.2 whole,
    leads whole fs _ _ found⟩

/-- A file in the working directory that is named with a second slash behind `./` is shown as one at
    the root, where another file may stand. -/
theorem Path.shown_absolute_slashBehindDots :
    let path := ".//a.go"
    let file (text : String) : Item := .file ⟨Utf8.encode text, none⟩
    let fs : FileSystem :=
      { items :=
          [(["project"], .directory), (["project", "a.go"], file "package a\n"),
           (["a.go"], file "package b\n")]
        workingDirectory := ["project"] }
    '\\' ∉ path.toList ∧ isAbsolute path = false ∧
      display path = "/a.go" ∧ isAbsolute (display path) = true ∧
      components path = [.step "a.go"] ∧ components (display path) = [.root, .step "a.go"] ∧
      Discovery.discover fs ⟨{}, {}, .all⟩ [path] = .ok [⟨path, "/a.go"⟩] ∧
      (fs.resolve path).toOption.map (·.1) = some (["project", "a.go"] : Location) ∧
      (fs.resolve (display path)).toOption.map (·.1) = some (["a.go"] : Location) := by
  intro path file fs
  exact ⟨by decide +kernel, by decide +kernel, by decide +kernel, by decide +kernel,
    by decide +kernel, by decide +kernel,
    Discovery.discover_eq (by decide +kernel) (by decide +kernel), by decide +kernel,
    by decide +kernel⟩

end CodeMetrics

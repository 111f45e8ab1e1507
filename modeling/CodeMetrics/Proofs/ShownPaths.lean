import CodeMetrics.Proofs.Collection
import CodeMetrics.Proofs.Discovery
import CodeMetrics.Proofs.PathTexts

/-! Files by their paths as shown. A report knows a file by the path it shows, while discovery tells
    files apart by their locations. A path is shown as text, with slashes in place of backslashes and
    without `./` at its front. Leaving out `./` does not change where a path leads, so two files can
    only be shown alike through bytes that are not text, through a backslash, or through a relative
    path that is shown as an absolute one. -/

namespace CodeMetrics

namespace Path

/-- A path that is shown as it stands, but for `./` at its front: it is text and holds no backslash,
    and it is shown as an absolute one only if it is one. -/
def ShownPlainly (path : RawPath) : Prop :=
  Utf8.IsText path.bytes ∧ '\\' ∉ path.text.toList ∧ isAbsolute (display path) = isAbsolute path

instance (path : RawPath) : Decidable (ShownPlainly path) :=
  inferInstanceAs (Decidable (_ ∧ _ ∧ _))

theorem slashed_of_not_mem {text : String} (h : '\\' ∉ text.toList) : slashed text = text := by
  have same : (text.toList.map fun c => if c = '\\' then '/' else c) = text.toList.map id := by
    refine List.map_congr_left fun c hc => if_neg ?_
    rintro rfl
    exact h hc
  rw [slashed, same, List.map_id, String.ofList_toList]

theorem display_ofText {text : String} (plain : '\\' ∉ text.toList) :
    display text = String.ofList (dropDots text.toList) := by
  rw [display, RawPath.text_ofText, slashed_of_not_mem plain]

theorem dropDots_eq_self {cs : List Char} (h : ∀ rest, cs ≠ '.' :: '/' :: rest) :
    dropDots cs = cs := by
  rw [dropDots]
  exact h

/-- Without backslashes only a relative path can be shown as what it is not, an absolute one. -/
theorem shownPlainly_ofText_iff {text : String} : ShownPlainly text ↔ '\\' ∉ text.toList ∧
    ((dropDots text.toList).head? = some '/' → text.toList.head? = some '/') := by
  rw [ShownPlainly, and_iff_right (RawPath.isText_ofText text), RawPath.text_ofText]
  refine and_congr_right fun plain => ?_
  rw [isAbsolute_ofText, isAbsolute_ofText, display_ofText plain, String.toList_ofList,
    Bool.eq_iff_iff, beq_iff_eq, beq_iff_eq]
  refine ⟨Iff.mp, fun h => ⟨h, fun absolute => ?_⟩⟩
  rwa [dropDots_eq_self]
  intro rest relative
  rw [relative] at absolute
  simp at absolute

theorem head?_dropDots_name {name : List Char} (noSlash : '/' ∉ name) :
    (dropDots name).head? ≠ some '/' := by
  rw [dropDots_eq_self]
  · exact fun h => noSlash (List.mem_of_head? h)
  · rintro rest rfl
    simp at noSlash

/-- A name behind a relative path, with a slash between them, is not shown as an absolute path. -/
theorem head?_dropDots_append {cs name tail : List Char} (noSlash : '/' ∉ name)
    (relative : (dropDots cs).head? ≠ some '/')
    (htail : tail = name ∨ tail = '/' :: name ∧ cs ≠ [] ∧ cs.getLast? ≠ some '/') :
    (dropDots (cs ++ tail)).head? ≠ some '/' := by
  fun_induction dropDots cs with
  | case1 rest ih =>
    rw [List.cons_append, List.cons_append, dropDots]
    refine ih relative ?_
    rcases htail with rfl | ⟨rfl, -, last⟩
    · exact Or.inl rfl
    · cases rest with
      | nil => simp at last
      | cons c rest => exact Or.inr ⟨rfl, List.cons_ne_nil _ _, by simpa using last⟩
  | case2 cs whole =>
    rcases cs with - | ⟨c, - | ⟨d, rest⟩⟩
    · rcases htail with rfl | ⟨-, nonempty, -⟩
      · exact head?_dropDots_name noSlash
      · exact absurd rfl nonempty
    · by_cases dot : c = '.' ∧ tail = '/' :: name
      · -- the one way in which the slash between them is left out
        obtain ⟨rfl, rfl⟩ := dot
        rw [List.singleton_append, dropDots]
        exact head?_dropDots_name noSlash
      · rw [dropDots_eq_self]
        · simpa using relative
        · intro more h
          obtain ⟨hc, hmore⟩ : c = '.' ∧ tail = '/' :: more := List.cons.inj h
          rcases htail with rfl | ⟨htail, -, -⟩
          · exact noSlash (hmore ▸ List.mem_cons_self)
          · exact dot ⟨hc, htail⟩
    · rw [dropDots_eq_self]
      · simpa using relative
      · intro more h
        obtain ⟨hc, hrest⟩ := List.cons.inj h
        obtain ⟨hd, -⟩ := List.cons.inj hrest
        exact whole rest (by rw [hc, hd])

/-- A name that is shown as it stands: text without slashes and backslashes. -/
def PlainName (name : RawPath) : Prop :=
  Utf8.IsText name.bytes ∧ '/' ∉ name.text.toList ∧ '\\' ∉ name.text.toList

instance (name : RawPath) : Decidable (PlainName name) :=
  inferInstanceAs (Decidable (_ ∧ _ ∧ _))

/-- A plain name below a path that is shown plainly is shown plainly. -/
theorem ShownPlainly.join {path name : RawPath} (plain : ShownPlainly path)
    (named : PlainName name) : ShownPlainly (join path name) := by
  obtain ⟨path, rfl⟩ := RawPath.exists_ofText plain.1
  obtain ⟨isText, noSlash, noBackslash⟩ := named
  obtain ⟨name, rfl⟩ := RawPath.exists_ofText isText
  rw [RawPath.text_ofText] at noSlash noBackslash
  obtain ⟨noBackslash', relative⟩ := shownPlainly_ofText_iff.1 plain
  obtain ⟨_, tail, joined, rfl, htail⟩ := exists_join_ofText path name
  rw [joined, shownPlainly_ofText_iff, String.toList_ofList]
  refine ⟨?_, fun absolute => ?_⟩
  · rcases htail with rfl | ⟨rfl, -⟩ <;> simp [noBackslash, noBackslash']
  · cases hpath : path.toList with
    | nil =>
      rw [hpath] at absolute
      rcases htail with rfl | ⟨rfl, -⟩
      · exact absurd absolute (head?_dropDots_name noSlash)
      · rfl
    | cons c cs =>
      rw [hpath] at absolute relative htail
      by_contra hc
      exact head?_dropDots_append noSlash (fun h => hc (relative h))
        (htail.imp_right fun h => ⟨h.1, List.cons_ne_nil _ _, h.2⟩) absolute

end Path

namespace FileSystem

/-- A dot leads nowhere. -/
theorem follow_dropDots (fs : FileSystem) (directory : Location) (cs : List Char) :
    fs.follow directory (Path.pieces (String.ofList (Path.dropDots cs)))
      = fs.follow directory (Path.pieces (String.ofList cs)) := by
  fun_induction Path.dropDots cs with
  | case1 rest ih =>
    rw [ih, Path.pieces_dot, follow]
    simp
  | case2 => rfl

/-- Where a path leads is told by where it starts and by the path as shown. -/
theorem resolveFrom_display {path : RawPath} (isText : Utf8.IsText path.bytes)
    (plain : '\\' ∉ path.text.toList) (fs : FileSystem) (links : ℕ) (directory : Location) :
    fs.resolveFrom links directory (Path.pieces (Path.display path))
      = fs.resolveFrom links directory (Path.pieces path) := by
  obtain ⟨text, rfl⟩ := RawPath.exists_ofText isText
  rw [RawPath.text_ofText] at plain
  have same : fs.follow directory (Path.pieces (Path.display text))
      = fs.follow directory (Path.pieces text) := by
    rw [Path.display_ofText plain, follow_dropDots, String.ofList_toList]
  rw [resolveFrom, resolveFrom, same]

end FileSystem

/-! ### Files that are shown alike -/

namespace Candidate

variable {fs : FileSystem} {c d : Candidate}

/-- Where a file stands can be told from its path as shown, where that is shown plainly. -/
theorem Leads.from_shown (h : c.Leads fs) (plain : Path.ShownPlainly c.path) :
    fs.resolveFrom FileSystem.maxLinks (FileSystem.origin fs.workingDirectory c.shown)
      (Path.pieces c.shown) = .ok (c.location, .file c.content) := by
  have start : FileSystem.origin fs.workingDirectory c.shown
      = FileSystem.origin fs.workingDirectory c.path := by
    rw [FileSystem.origin, FileSystem.origin, shown, plain.2.2]
  rw [Leads, FileSystem.resolve] at h
  split at h
  · cases h
  · rw [start, shown, FileSystem.resolveFrom_display plain.1 plain.2.1]
    exact h

theorem Leads.location_eq_of_shown (hc : c.Leads fs) (hd : d.Leads fs)
    (plain : Path.ShownPlainly c.path) (plain' : Path.ShownPlainly d.path)
    (alike : c.shown = d.shown) : c.location = d.location := by
  have stands := hc.from_shown plain
  rw [alike, hd.from_shown plain'] at stands
  injection stands with stands
  exact (congrArg Prod.fst stands).symm

/-- Where a file stands is told by its path. -/
theorem Leads.location_eq_of_source (hc : c.Leads fs) (hd : d.Leads fs)
    (same : c.source = d.source) : c.location = d.location := by
  have path : c.path = d.path := congrArg SourcePath.path same
  rw [Leads, path, hd] at hc
  injection hc with stands
  exact (congrArg Prod.fst stands).symm

end Candidate

/-! ### Plain names -/

/-- Every name is text without slashes and backslashes. -/
def FileSystem.PlainNames (fs : FileSystem) : Prop :=
  ∀ entry ∈ fs.items, ∀ name ∈ entry.1, Path.PlainName name

instance (fs : FileSystem) : Decidable fs.PlainNames :=
  inferInstanceAs (Decidable (∀ entry ∈ fs.items, ∀ name ∈ entry.1, _))

theorem FileSystem.PlainNames.of_mem_namesIn {fs : FileSystem} (plain : fs.PlainNames)
    {directory : Location} {name : RawPath} (h : name ∈ fs.namesIn directory) :
    Path.PlainName name := by
  rw [namesIn, List.mem_filterMap] at h
  obtain ⟨⟨location, item⟩, hentry, h⟩ := h
  dsimp only at h
  split at h
  · exact plain (location, item) hentry name (List.mem_of_getLast? h)
  · cases h

namespace Discovery

variable {fs : FileSystem} {filters : Filters} {roots : List RawPath} {sources : List SourcePath}

/-- Below a root that is shown plainly plain names lead to files that are shown plainly. -/
theorem shownPlainly_of_mem_walk (names : fs.PlainNames) {depth : ℕ} {above : List Location}
    {directory : Location} {path : RawPath} (plain : Path.ShownPlainly path) {below : List RawPath}
    {c : Candidate} (h : c ∈ walk fs depth above directory path below) :
    Path.ShownPlainly c.path := by
  induction depth generalizing above directory path below with
  | zero => cases h
  | succ depth ih =>
    obtain ⟨name, hname, found⟩ := walk_cases h
    have joined := plain.join (names.of_mem_namesIn hname)
    rcases found with ⟨path, -⟩ | ⟨_, _, _, below⟩
    · exact path ▸ joined
    · exact ih joined below

/-- No file that is not shown plainly is shown like another one. -/
def Apart (sources : List SourcePath) : Prop :=
  ∀ s ∈ sources, ¬ Path.ShownPlainly s.path → ∀ t ∈ sources, t.shown = s.shown → t = s

/-- What is known of the files that were discovered. -/
structure Discovered (sources : List SourcePath) : Prop where
  ordered : sources.Pairwise fun a b => a.shown ≤ b.shown
  nodup : sources.Nodup
  eq_of_shown : ∀ s ∈ sources, ∀ t ∈ sources, Path.ShownPlainly s.path →
    Path.ShownPlainly t.path → s.shown = t.shown → s = t

theorem discovered (found : discover fs filters roots = .ok sources) : Discovered sources := by
  obtain ⟨files, wanted, order, ordered⟩ := wanted_of_discover found
  have same : ∀ c ∈ files, ∀ d ∈ files, c.location = d.location → c = d := fun c hc d hd =>
    List.inj_on_of_nodup_map wanted.distinct hc hd
  have nodup : (files.map Candidate.source).Nodup := by
    refine List.Nodup.map_on (fun c hc d hd h => ?_) wanted.distinct.of_map
    exact same c hc d hd ((wanted.leads c hc).location_eq_of_source (wanted.leads d hd) h)
  refine ⟨ordered, order.nodup_iff.2 nodup, fun s hs t ht plain plain' alike => ?_⟩
  obtain ⟨c, hc, rfl⟩ := List.mem_map.1 (order.mem_iff.1 hs)
  obtain ⟨d, hd, rfl⟩ := List.mem_map.1 (order.mem_iff.1 ht)
  have location := (wanted.leads c hc).location_eq_of_shown (wanted.leads d hd) plain plain' alike
  rw [same c hc d hd location]

/-- Plain roots and names are shown plainly. -/
theorem shownPlainly_of_discover (found : discover fs filters roots = .ok sources)
    (plain : ∀ root ∈ roots, Path.ShownPlainly root) (names : fs.PlainNames) :
    ∀ s ∈ sources, Path.ShownPlainly s.path := by
  obtain ⟨files, wanted, order, -⟩ := wanted_of_discover found
  intro s hs
  obtain ⟨c, hc, rfl⟩ := List.mem_map.1 (order.mem_iff.1 hs)
  rcases wanted.origin c hc with ⟨root, hroot, directory, -, walked⟩ | ⟨named, -⟩
  · exact shownPlainly_of_mem_walk names (plain root hroot) walked
  · exact plain c.path named

namespace Discovered

/-- Where files are shown apart, their paths as shown are distinct. -/
theorem apart_iff_nodup (h : Discovered sources) :
    Apart sources ↔ (sources.map (·.shown)).Nodup := by
  constructor
  · intro apart
    refine List.Nodup.map_on (fun s hs t ht alike => ?_) h.nodup
    by_cases plain : Path.ShownPlainly s.path
    · by_cases plain' : Path.ShownPlainly t.path
      · exact h.eq_of_shown s hs t ht plain plain' alike
      · exact apart t ht plain' s hs alike
    · exact (apart s hs plain t ht alike.symm).symm
  · intro distinct s hs _ t ht alike
    exact List.inj_on_of_nodup_map distinct ht hs alike

/-- Distinct paths in order increase. -/
theorem nodup_iff_increasing (h : Discovered sources) :
    (sources.map (·.shown)).Nodup ↔ sources.Pairwise fun a b => a.shown < b.shown := by
  rw [List.Nodup, List.pairwise_map]
  constructor
  · intro distinct
    refine (h.ordered.and distinct).imp fun ⟨le, ne⟩ => ?_
    by_contra hlt
    exact ne (String.le_antisymm le (String.not_lt.1 hlt))
  · intro increasing
    refine increasing.imp fun lt alike => ?_
    rw [alike] at lt
    exact String.lt_irrefl _ lt

end Discovered

end Discovery

/-! ### Entries -/

namespace Run

/-- Whatever the outcomes of the files are and in whatever order they come in, a report has under
    the path of each file what the file's own outcome says. -/
def KeepsEntries (sources : List SourcePath) : Prop :=
  ∀ (options : RunOptions) (outcome : SourcePath → Outcome) (arrivals : List Outcome),
    (∀ s ∈ sources, (outcome s).path = s.shown) → arrivals.Perm (sources.map outcome) →
    Accounts sources outcome (fun _ => true) (report options sources arrivals)

theorem keepsEntries_iff_nodup {sources : List SourcePath} (nodup : sources.Nodup) :
    KeepsEntries sources ↔ (sources.map (·.shown)).Nodup := by
  constructor
  · intro keeps
    refine List.Nodup.map_on (fun s hs t ht alike => ?_) nodup
    by_contra other
    -- entries that tell the one file from the other
    let language (u : SourcePath) : Option Language := if u = s then none else some .go
    let entry (u : SourcePath) := FileReport.failed u.shown (language u) (.unknownLanguage u.shown)
    have entries := (keeps { languages := .all } (fun u => .failed (entry u)) _ (fun _ _ => rfl)
      (.refl _)).files
    have under : [entry s] = [entry t] := by
      have entries_t := entries t ht
      rw [← alike, entries s hs] at entries_t
      exact entries_t
    have same : (language s).elim "unknown" Language.name
        = (language t).elim "unknown" Language.name :=
      congrArg FileReport.language (List.cons.inj under).1
    rw [show language s = none from if_pos rfl,
      show language t = some .go from if_neg (Ne.symm other)] at same
    exact absurd same (by decide)
  · intro distinct options outcome arrivals path order
    have arrived : Arrived sources outcome (fun _ => true) arrivals :=
      ⟨distinct, path, by simpa using order⟩
    exact arrived.accounts options

end Run

/-- What is discovered when its order is known. -/
theorem Discovery.discover_eq {fs : FileSystem} {filters : Filters} {roots : List RawPath}
    {sources : List SourcePath}
    (h : (wanted fs filters roots).toOption.map (·.map Candidate.source) = some sources)
    (ordered : sources.Pairwise fun a b => a.shown ≤ b.shown) :
    discover fs filters roots = .ok sources := by
  cases hw : wanted fs filters roots with
  | error e => rw [hw] at h; cases h
  | ok files =>
    rw [hw] at h
    have same : files.map Candidate.source = sources := Option.some.inj h
    have sorted : (files.map Candidate.source).mergeSort (fun a b => !(b.shown < a.shown))
        = sources := by
      rw [same]
      refine List.mergeSort_of_pairwise (ordered.imp fun le => ?_)
      simpa using String.not_lt.2 le
    rw [discover, hw, ← sorted]
    rfl

/-- Discovered files are in the order of their paths as shown. Their paths increase, and a report
    keeps an entry for each of them, exactly if no file that is not shown plainly is shown like
    another one; plain roots and names are enough for that. -/
theorem own_entries_iff {fs : FileSystem} {filters : Filters} {roots : List RawPath}
    {sources : List SourcePath} (found : Discovery.discover fs filters roots = .ok sources) :
    (sources.Pairwise fun a b => a.shown ≤ b.shown) ∧
    ((sources.Pairwise fun a b => a.shown < b.shown) ↔ Discovery.Apart sources) ∧
    (Run.KeepsEntries sources ↔ Discovery.Apart sources) ∧
    ((∀ root ∈ roots, Path.ShownPlainly root) → fs.PlainNames → Discovery.Apart sources) := by
  have files := Discovery.discovered found
  refine ⟨files.ordered, ?_, ?_, fun plain names s hs odd => ?_⟩
  · rw [← files.nodup_iff_increasing, files.apart_iff_nodup]
  · rw [Run.keepsEntries_iff_nodup files.nodup, files.apart_iff_nodup]
  · exact absurd (Discovery.shownPlainly_of_discover found plain names s hs) odd

/-- A file that is reached by two plain roots; and a name with a backslash that no other file is
    shown by. -/
theorem own_entries_two_roots :
    let content : FileContent := ⟨Utf8.encode "package a", none⟩
    let filters : Filters := ⟨{}, {}, .all⟩
    let plain : FileSystem :=
      { items :=
          [(["src"], .directory), (["src", "a.go"], .file content), (["b.go"], .file content)] }
    let odd : FileSystem :=
      { items :=
          [(["a"], .directory), (["a", "c.go"], .file content), (["a\\b.go"], .file content)] }
    let sources : List SourcePath := [⟨"b.go", "b.go"⟩, ⟨"./src/a.go", "src/a.go"⟩]
    let others : List SourcePath := [⟨"a\\b.go", "a/b.go"⟩, ⟨"./a/c.go", "a/c.go"⟩]
    Discovery.discover plain filters ["b.go", "./src", "src/a.go"] = .ok sources ∧
      Run.KeepsEntries sources ∧
      Discovery.discover odd filters ["a\\b.go", "."] = .ok others ∧
      ¬ odd.PlainNames ∧ Run.KeepsEntries others := by
  intro content filters plain odd sources others
  have found : Discovery.discover plain filters ["b.go", "./src", "src/a.go"] = .ok sources :=
    Discovery.discover_eq (by decide +kernel) (by decide +kernel)
  have found' : Discovery.discover odd filters ["a\\b.go", "."] = .ok others :=
    Discovery.discover_eq (by decide +kernel) (by decide +kernel)
  obtain ⟨-, -, entries, inputs⟩ := own_entries_iff found
  obtain ⟨-, -, entries', -⟩ := own_entries_iff found'
  have apart : Discovery.Apart others := by
    unfold Discovery.Apart
    decide +kernel
  exact ⟨found, entries.2 (inputs (by decide +kernel) (by decide +kernel)), found',
    by decide +kernel, entries'.2 apart⟩

/-- Two files, one of them with a backslash in its name, are shown alike, and so are two files whose
    names differ in a byte that is not text; only one of them is in the report. -/
theorem shown_alike_odd_names :
    let file : Item := .file ⟨Utf8.encode "package b\n", none⟩
    let slashes : FileSystem :=
      { items := [(["a"], .directory), (["a", "b.go"], file), (["a\\b.go"], file)] }
    let files : List SourcePath := [⟨"a/b.go", "a/b.go"⟩, ⟨"a\\b.go", "a/b.go"⟩]
    let name (b : UInt8) : RawPath := ⟨Utf8.encode "a" ++ b :: Utf8.encode ".go"⟩
    let broken : FileSystem := { items := [([name 0xFF], file), ([name 0xFE], file)] }
    let others : List SourcePath :=
      [⟨Path.join "." (name 0xFF), "a\ufffd.go"⟩, ⟨Path.join "." (name 0xFE), "a\ufffd.go"⟩]
    (Discovery.discover slashes ⟨{}, {}, .all⟩ ["a/b.go", "a\\b.go"] = .ok files ∧
      ¬ (files.Pairwise fun a b => a.shown < b.shown) ∧ ¬ Run.KeepsEntries files ∧
      (run slashes { languages := .all } files).files.length = 1) ∧
    Discovery.discover broken ⟨{}, {}, .all⟩ ["."] = .ok others ∧
      ¬ (others.Pairwise fun a b => a.shown < b.shown) ∧ ¬ Run.KeepsEntries others ∧
      (run broken { languages := .all } others).files.length = 1 := by
  intro file slashes files name broken others
  refine ⟨⟨Discovery.discover_eq (by decide +kernel) (by decide +kernel), by decide +kernel, ?_,
    by decide +kernel⟩, Discovery.discover_eq (by decide +kernel) (by decide +kernel),
    by decide +kernel, ?_, by decide +kernel⟩
  · rw [Run.keepsEntries_iff_nodup (by decide +kernel)]
    decide +kernel
  · rw [Run.keepsEntries_iff_nodup (by decide +kernel)]
    decide +kernel

end CodeMetrics

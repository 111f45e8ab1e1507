import Mathlib.Data.List.Perm.Subperm
import CodeMetrics.Proofs.Analysis
import CodeMetrics.Proofs.Resolution
import CodeMetrics.Proofs.ShownPaths

/-! Which files are discovered. A root offers itself where it is a file, and else the files in the
    directories that its walk enters: those that are neither hidden nor pruned, and no link back to
    a directory on the way. A walk ends by itself, since it follows no link twice and between two
    links it only goes down; so a bound on its depth does not cut it off. Files are kept by what
    some root says of them and not by the root that comes first, so the order of the roots and their
    repetition do not matter. -/

namespace CodeMetrics

namespace Discovery

/-! ### What a walk enters -/

/-- Where a walk is. -/
structure Station where
  directory : Location
  /-- The directories on the way, the last one first. -/
  above : List Location
  path : RawPath
  /-- The names on the way from the root. -/
  names : List RawPath

namespace Station

variable (fs : FileSystem) (s : Station)

/-- The start of a walk. -/
def start (root : RawPath) (directory : Location) : Station := ⟨directory, [directory], root, []⟩

/-- One step further down. -/
def down (name : RawPath) (location : Location) : Station :=
  ⟨location, location :: s.above, Path.join s.path name, s.names ++ [name]⟩

/-- A file in the directory. -/
def candidate (name : RawPath) (location : Location) (content : FileContent) : Candidate where
  path := Path.join s.path name
  relative := Path.slashed (Path.ofNames (s.names ++ [name])).text
  location
  content
  isRoot := false

/-- The directory holds a file under a name that is not hidden. -/
structure Holds (name : RawPath) (location : Location) (content : FileContent) : Prop where
  named : name ∈ fs.namesIn s.directory
  plain : isHidden name = false
  leads : fs.resolve (Path.join s.path name) = .ok (location, .file content)

/-- The walk goes on to a directory: it is neither hidden nor pruned, and no link leads back
    to it. -/
structure Opens (name : RawPath) (location : Location) : Prop where
  named : name ∈ fs.namesIn s.directory
  plain : isHidden name = false
  kept : name.text ∉ prunedNames
  leads : fs.resolve (Path.join s.path name) = .ok (location, .directory)
  new : isLink fs (s.directory ++ [name]) = true → location ∉ s.above

/-- What a walk finds from here on. -/
def walk (depth : ℕ) : List Candidate :=
  Discovery.walk fs depth s.above s.directory s.path s.names

variable {fs s}

/-- A walk finds the files of a directory, and what it finds in the directories it goes on to. -/
theorem mem_walk_succ {depth : ℕ} {c : Candidate} :
    c ∈ s.walk fs (depth + 1) ↔
      (∃ name location content, s.Holds fs name location content ∧
        c = s.candidate name location content) ∨
      ∃ name location, s.Opens fs name location ∧ c ∈ (s.down name location).walk fs depth := by
  rw [walk, Discovery.walk, List.mem_flatMap]
  constructor
  · rintro ⟨name, named, h⟩
    dsimp only at h
    split at h
    · next location content leads =>
      split at h
      · cases h
      · next plain =>
        rw [Bool.not_eq_true] at plain
        exact Or.inl ⟨name, location, content, ⟨named, plain, leads⟩, List.mem_singleton.1 h⟩
    · next location leads =>
      split at h
      · cases h
      · next opens =>
        simp only [Bool.or_eq_true, Bool.and_eq_true, List.contains_iff_mem, not_or, not_and,
          Bool.not_eq_true] at opens
        obtain ⟨⟨plain, kept⟩, new⟩ := opens
        exact Or.inr ⟨name, location, ⟨named, plain, kept, leads, new⟩, h⟩
    · cases h
  · rintro (⟨name, location, content, holds, rfl⟩ | ⟨name, location, opens, h⟩)
    · refine ⟨name, holds.named, ?_⟩
      simp [holds.leads, holds.plain, candidate]
    · refine ⟨name, opens.named, ?_⟩
      have passed : ¬ (isHidden name || prunedNames.contains name.text
          || (isLink fs (s.directory ++ [name]) && s.above.contains location)) = true := by
        simpa [opens.plain, opens.kept] using opens.new
      simp only [opens.leads, if_neg passed]
      exact h

end Station

/-- The stations of the walk from a root. -/
inductive Enters (fs : FileSystem) (root : RawPath) : Station → Prop
  | start {directory : Location} (leads : fs.resolve root = .ok (directory, .directory)) :
    Enters fs root (.start root directory)
  | down {s : Station} {name : RawPath} {location : Location} (enters : Enters fs root s)
    (opens : s.Opens fs name location) : Enters fs root (s.down name location)

variable {fs : FileSystem} {filters : Filters} {root : RawPath} {s : Station}

theorem Enters.leads (h : Enters fs root s) :
    fs.resolve s.path = .ok (s.directory, .directory) := by
  cases h with
  | start leads => exact leads
  | down enters opens => exact opens.leads

theorem Enters.root_leads (h : Enters fs root s) :
    ∃ directory, fs.resolve root = .ok (directory, .directory) := by
  induction h with
  | start leads => exact ⟨_, leads⟩
  | down enters opens ih => exact ih

/-! ### How deep a walk gets -/

/-- What bounds a walk: the links it has followed, and the directories it has gone down to since the
    last of them. -/
structure Bounded (fs : FileSystem) (s : Station) (links below : List Location) : Prop where
  /-- No link is followed twice, as each leads to a directory on the way. -/
  links_nodup : links.Nodup
  links_items : links ⊆ fs.items.map (·.1)
  followed : ∀ directory name, directory ++ [name] ∈ links →
    ∃ left location, fs.resolveFrom left directory [name] = .ok (location, .directory) ∧
      location ∈ s.above
  /-- No directory is entered twice without a link, as each stands in the one before. -/
  below_nodup : below.Nodup
  below_items : below ⊆ fs.items.map (·.1)
  longest : ∀ location ∈ below, location.length ≤ s.directory.length
  length_le : s.above.length ≤ links.length * (fs.items.length + 1) + below.length + 1

namespace Bounded

variable {links below : List Location} {name : RawPath} {location : Location}

/-- Distinct items are no more than all items. -/
theorem length_le_items {locations : List Location} (distinct : locations.Nodup)
    (items : locations ⊆ fs.items.map (·.1)) : locations.length ≤ fs.items.length := by
  simpa using (distinct.subperm items).length_le

theorem start (directory : Location) : Bounded fs (.start root directory) [] [] := by
  constructor <;> simp [Station.start]

/-- Below a directory the walk is in a new one. -/
theorem descend (h : Bounded fs s links below) (opens : s.Opens fs name location)
    (here : location = s.directory ++ [name]) :
    Bounded fs (s.down name location) links (location :: below) where
  links_nodup := h.links_nodup
  links_items := h.links_items
  followed directory name' mem := by
    obtain ⟨left, location', leads, above⟩ := h.followed directory name' mem
    exact ⟨left, location', leads, List.mem_cons_of_mem _ above⟩
  below_nodup := by
    refine List.nodup_cons.2 ⟨fun again => ?_, h.below_nodup⟩
    have shorter := h.longest location again
    rw [here, List.length_append, List.length_singleton] at shorter
    omega
  below_items := by
    refine List.cons_subset.2 ⟨?_, h.below_items⟩
    rw [here]
    exact FileSystem.mem_namesIn.1 opens.named
  longest other mem := by
    rcases List.mem_cons.1 mem with rfl | mem
    · exact Nat.le_refl _
    · have shorter := h.longest other mem
      simp only [Station.down, here, List.length_append, List.length_singleton]
      omega
  length_le := by
    have length := h.length_le
    simp only [Station.down, List.length_cons]
    omega

/-- A link that is followed was not followed before: it would lead to a directory on the way. -/
theorem follow (h : Bounded fs s links below) (opens : s.Opens fs name location) {left : ℕ}
    (leads : fs.resolveFrom left s.directory [name] = .ok (location, .directory))
    (new : location ∉ s.above) :
    Bounded fs (s.down name location) ((s.directory ++ [name]) :: links) [] where
  links_nodup := by
    refine List.nodup_cons.2 ⟨fun again => ?_, h.links_nodup⟩
    obtain ⟨left', location', leads', above⟩ := h.followed _ _ again
    have same := FileSystem.resolveFrom_unique leads leads'
    simp only [Prod.mk.injEq, and_true] at same
    exact new (same ▸ above)
  links_items := List.cons_subset.2 ⟨FileSystem.mem_namesIn.1 opens.named, h.links_items⟩
  followed directory name' mem := by
    rcases List.mem_cons.1 mem with same | mem
    · obtain ⟨rfl, rfl⟩ := List.append_singleton_inj.1 same
      exact ⟨left, location, leads, List.mem_cons_self⟩
    · obtain ⟨left', location', leads', above⟩ := h.followed directory name' mem
      exact ⟨left', location', leads', List.mem_cons_of_mem _ above⟩
  below_nodup := List.nodup_nil
  below_items := List.nil_subset _
  longest := List.forall_mem_nil _
  length_le := by
    have length := h.length_le
    have items := length_le_items h.below_nodup h.below_items
    simp only [Station.down, List.length_cons, List.length_nil, Nat.add_mul]
    omega

/-- The bound on the depth: a stretch of directories for each link, and one before the first. -/
theorem above_le (h : Bounded fs s links below) : s.above.length ≤ maxDepth fs := by
  have items := length_le_items h.links_nodup h.links_items
  have items' := length_le_items h.below_nodup h.below_items
  calc s.above.length
      ≤ links.length * (fs.items.length + 1) + below.length + 1 := h.length_le
    _ ≤ fs.items.length * (fs.items.length + 1) + fs.items.length + 1 := by
        have stretches := Nat.mul_le_mul_right (fs.items.length + 1) items
        omega
    _ = maxDepth fs := by rw [maxDepth, Nat.add_mul, Nat.one_mul, Nat.add_assoc]

end Bounded

/-- A walk stays bounded. What is entered without a link stands in the directory before. -/
theorem Enters.bounded (proper : fs.ProperNames) (h : Enters fs root s) :
    ∃ links below, Bounded fs s links below := by
  induction h with
  | start => exact ⟨[], [], Bounded.start _⟩
  | @down s name location enters opens ih =>
    obtain ⟨links, below, bounded⟩ := ih
    have isName := proper.isName opens.named
    obtain ⟨left, same⟩ := FileSystem.resolve_join enters.leads isName.2.2.2
    have leads := same.symm.trans opens.leads
    cases link : isLink fs (s.directory ++ [name]) with
    | true => exact ⟨_, _, bounded.follow opens leads (opens.new link)⟩
    | false =>
      refine ⟨_, _, bounded.descend opens (FileSystem.resolveFrom_name isName leads ?_)⟩
      intro target there
      simp [isLink, there] at link

/-- The depth of a walk is within its bound. -/
theorem Enters.length_le (proper : fs.ProperNames) (h : Enters fs root s) :
    s.above.length ≤ maxDepth fs := by
  obtain ⟨links, below, bounded⟩ := h.bounded proper
  exact bounded.above_le

/-! ### What a walk finds -/

theorem enters_of_mem_walk {depth : ℕ} {c : Candidate} (enters : Enters fs root s)
    (h : c ∈ s.walk fs depth) : ∃ s', Enters fs root s' ∧
      ∃ name location content, s'.Holds fs name location content ∧
        c = s'.candidate name location content := by
  induction depth generalizing s with
  | zero => cases h
  | succ depth ih =>
    rcases Station.mem_walk_succ.1 h with holds | ⟨name, location, opens, below⟩
    · exact ⟨s, enters, holds⟩
    · exact ih (enters.down opens) below

/-- What is found at a station is found from the start, with as many more steps as lead there. -/
theorem mem_walk_of_enters {directory : Location} {c : Candidate}
    (leads : fs.resolve root = .ok (directory, .directory)) (enters : Enters fs root s) {depth : ℕ}
    (h : c ∈ s.walk fs depth) (steps : s.above.length + depth = maxDepth fs + 1) :
    c ∈ (Station.start root directory).walk fs (maxDepth fs) := by
  induction enters generalizing depth with
  | @start directory' leads' =>
    have same := leads.symm.trans leads'
    simp only [Except.ok.injEq, Prod.mk.injEq, and_true] at same
    subst same
    obtain rfl : depth = maxDepth fs := by simp [Station.start] at steps; omega
    exact h
  | down before opens ih =>
    refine ih (Station.mem_walk_succ.2 (Or.inr ⟨_, _, opens, h⟩)) ?_
    simp [Station.down] at steps
    omega

/-- A walk finds exactly the files of the directories that it enters. -/
theorem mem_walk_iff (proper : fs.ProperNames) {directory : Location}
    (leads : fs.resolve root = .ok (directory, .directory)) {c : Candidate} :
    c ∈ walk fs (maxDepth fs) [directory] directory root [] ↔ ∃ s, Enters fs root s ∧
      ∃ name location content, s.Holds fs name location content ∧
        c = s.candidate name location content := by
  constructor
  · exact enters_of_mem_walk (.start leads)
  · rintro ⟨s, enters, holds⟩
    have deep := enters.length_le proper
    have here : c ∈ s.walk fs (maxDepth fs - s.above.length + 1) :=
      Station.mem_walk_succ.2 (Or.inl holds)
    refine mem_walk_of_enters leads enters here ?_
    omega

end Discovery

/-! ### What a root offers -/

/-- A file passes the globs by its path below the root and its path as shown: none that excludes
    matches either, and one that includes matches one of them, where there are any. -/
structure Filters.Accepts (f : Filters) (relative shown : String) : Prop where
  notExcluded : f.excluded.isMatch relative = false ∧ f.excluded.isMatch shown = false
  included : f.included.isEmpty = true ∨ f.included.isMatch relative = true ∨
    f.included.isMatch shown = true

theorem Filters.selects_iff {f : Filters} {relative shown : String} :
    f.selects relative shown = true ↔ f.Accepts relative shown := by
  rw [selects, Bool.and_eq_true, Bool.not_eq_true', Bool.or_eq_false_iff, Bool.or_eq_true,
    Bool.or_eq_true, or_assoc]
  exact ⟨fun h => ⟨h.1, h.2⟩, fun h => ⟨h.1, h.2⟩⟩

namespace Discovery

/-- A root offers a file that passes the filters: itself, of a language that is asked for or of
    none, or a file of a language that is asked for in a directory that its walk enters. -/
inductive Offers (fs : FileSystem) (filters : Filters) (root : RawPath) : Location → Prop
  | itself {location : Location} {content : FileContent}
    (leads : fs.resolve root = .ok (location, .file content))
    (globs : filters.Accepts (((Path.fileName? root).map RawPath.text).getD (Path.display root))
      (Path.display root))
    (language : ∀ l, detect root content.bytes = some l → filters.languages.includes l = true) :
    Offers fs filters root location
  | below {s : Station} {name : RawPath} {location : Location} {content : FileContent}
    {l : Language} (enters : Enters fs root s) (holds : s.Holds fs name location content)
    (globs : filters.Accepts (Path.slashed (Path.ofNames (s.names ++ [name])).text)
      (Path.display (Path.join s.path name)))
    (known : detect (Path.join s.path name) content.bytes = some l)
    (asked : filters.languages.includes l = true) : Offers fs filters root location

variable {fs : FileSystem} {filters : Filters} {roots : List RawPath}

theorem keeps_iff {c : Candidate} : keeps filters c = true ↔
    filters.Accepts c.relative c.shown ∧
      ((∃ l, detect c.path c.content.bytes = some l ∧ filters.languages.includes l = true) ∨
        (detect c.path c.content.bytes = none ∧ c.isRoot = true)) := by
  rw [keeps, Bool.and_eq_true, Filters.selects_iff]
  refine and_congr_right fun _ => ?_
  cases detect c.path c.content.bytes <;> simp

/-- A root that is a file offers itself, where it is kept. -/
theorem offers_of_file {root : RawPath} {place location : Location} {content : FileContent}
    (found : fs.resolve root = .ok (place, .file content)) :
    (keeps filters ⟨root, ((Path.fileName? root).map RawPath.text).getD (Path.display root), place,
      content, true⟩ = true ∧ place = location) ↔ Offers fs filters root location := by
  rw [keeps_iff]
  constructor
  · rintro ⟨⟨globs, language⟩, rfl⟩
    refine .itself found globs fun l known => ?_
    rcases language with ⟨l', known', asked⟩ | ⟨unknown, -⟩
    · cases known.symm.trans known'
      exact asked
    · cases known.symm.trans unknown
  · intro offers
    cases offers with
    | itself leads globs language =>
      cases found.symm.trans leads
      refine ⟨⟨globs, ?_⟩, rfl⟩
      rcases known : detect root content.bytes with - | l
      · exact Or.inr ⟨rfl, rfl⟩
      · exact Or.inl ⟨l, rfl, language l known⟩
    | below enters =>
      obtain ⟨directory, leads⟩ := enters.root_leads
      cases found.symm.trans leads

/-- A root that is a directory offers the files in what its walk enters, where they are kept. -/
theorem offers_of_directory (proper : fs.ProperNames) {root : RawPath} {place location : Location}
    (found : fs.resolve root = .ok (place, .directory)) :
    (∃ c ∈ walk fs (maxDepth fs) [place] place root [],
        keeps filters c = true ∧ c.location = location) ↔ Offers fs filters root location := by
  simp only [mem_walk_iff proper found, keeps_iff]
  constructor
  · rintro ⟨c, ⟨s, enters, name, location, content, holds, rfl⟩, ⟨globs, language⟩, rfl⟩
    rcases language with ⟨l, known, asked⟩ | ⟨-, isRoot⟩
    · exact .below enters holds globs known asked
    · cases isRoot
  · intro offers
    cases offers with
    | itself leads => cases found.symm.trans leads
    | below enters holds globs known asked =>
      exact ⟨_, ⟨_, enters, _, _, _, holds, rfl⟩, ⟨globs, Or.inl ⟨_, known, asked⟩⟩, rfl⟩

/-- What a root leads to and is wanted is what it offers. -/
theorem offers_iff (proper : fs.ProperNames) {root : RawPath} {cs : List Candidate}
    (offered : candidates fs root = .ok cs) {location : Location} :
    (∃ c ∈ cs, keeps filters c = true ∧ c.location = location)
      ↔ Offers fs filters root location := by
  rw [candidates] at offered
  split at offered
  · cases offered
  · next place content found =>
    cases offered
    simp only [List.mem_singleton, exists_eq_left]
    exact offers_of_file found
  · next place item other found =>
    cases offered
    cases item with
    | directory => exact offers_of_directory proper found
    | file content => exact absurd rfl (other content)
    | link target => exact absurd found (fs.resolve_ne_link root place target)

/-! ### Each file once -/

/-- A location is taken by the first candidate that stands there. -/
theorem mem_locations_foldl {found offered : List Candidate} {location : Location} :
    location ∈ (offered.foldl addNew found).map (·.location)
      ↔ location ∈ found.map (·.location) ∨ location ∈ offered.map (·.location) := by
  induction offered generalizing found with
  | nil => simp
  | cons c offered ih =>
    have added : location ∈ (addNew found c).map (·.location)
        ↔ location ∈ found.map (·.location) ∨ location = c.location := by
      rw [addNew]
      split
      · next taken =>
        obtain ⟨d, hd, same⟩ := List.any_eq_true.1 taken
        refine ⟨Or.inl, ?_⟩
        rintro (h | rfl)
        · exact h
        · exact List.mem_map.2 ⟨d, hd, by simpa using same⟩
      · simp
    rw [List.foldl_cons, ih, added, List.map_cons, List.mem_cons, or_assoc]

/-- The locations of the wanted files are those that some root offers. -/
theorem mem_locations_wanted (proper : fs.ProperNames) {files : List Candidate}
    (h : wanted fs filters roots = .ok files) {location : Location} :
    location ∈ files.map (·.location) ↔ ∃ root ∈ roots, Offers fs filters root location := by
  obtain ⟨offered, each, h⟩ := bind_eq_ok.1 h
  cases h
  rw [mem_locations_foldl, List.map_nil, List.mem_map]
  simp only [List.not_mem_nil, false_or, List.mem_filter, List.mem_flatten]
  constructor
  · rintro ⟨c, ⟨⟨cs, hcs, hc⟩, kept⟩, rfl⟩
    obtain ⟨root, hroot, leads⟩ := mem_of_mapM_ok each hcs
    exact ⟨root, hroot, (offers_iff proper leads).1 ⟨c, hc, kept, rfl⟩⟩
  · rintro ⟨root, hroot, offers⟩
    obtain ⟨cs, hcs, leads⟩ := exists_of_mapM_ok each root hroot
    obtain ⟨c, hc, kept, rfl⟩ := (offers_iff proper leads).2 offers
    exact ⟨c, ⟨⟨cs, hcs, hc⟩, kept⟩, rfl⟩

end Discovery

/-- Where the file or directory of a path stands. -/
def FileSystem.canonical? (fs : FileSystem) (path : RawPath) : Option Location :=
  (fs.resolve path).toOption.map Prod.fst

theorem Candidate.Leads.canonical? {fs : FileSystem} {c : Candidate} (h : c.Leads fs) :
    fs.canonical? c.path = some c.location := by
  rw [FileSystem.canonical?, h]
  rfl

namespace Discovery

/-- Some files are what the roots offer, each once, in the order of their paths as shown. -/
structure Collects (fs : FileSystem) (filters : Filters) (roots : List RawPath)
    (sources : List SourcePath) : Prop where
  ordered : sources.Pairwise fun a b => a.shown ≤ b.shown
  once : (sources.map fun s => fs.canonical? s.path).Nodup
  offered : ∀ place, place ∈ sources.map (fun s => fs.canonical? s.path)
    ↔ ∃ location, place = some location ∧ ∃ root ∈ roots, Offers fs filters root location

variable {fs : FileSystem} {roots : List RawPath}

theorem exists_collects (proper : fs.ProperNames) (filters : Filters)
    (accessible : ∀ root ∈ roots, ∃ place, fs.resolve root = .ok place) :
    ∃ sources, discover fs filters roots = .ok sources ∧ Collects fs filters roots sources := by
  obtain ⟨offered, -, found⟩ := wanted_of_accessible filters accessible
  generalize (offered.flatten.filter (keeps filters)).foldl addNew [] = files at found
  obtain ⟨sources, discovered, order, ordered⟩ := discover_of_wanted found
  have files_spec := wanted_spec found
  have places : (sources.map fun s => fs.canonical? s.path).Perm
      ((files.map (·.location)).map some) := by
    refine (order.map _).trans (List.Perm.of_eq ?_)
    rw [List.map_map, List.map_map]
    exact List.map_congr_left fun c hc => (files_spec.leads c hc).canonical?
  refine ⟨sources, discovered, ordered, ?_, ?_⟩
  · rw [places.nodup_iff]
    exact files_spec.distinct.map fun _ _ => Option.some.inj
  · intro place
    rw [places.mem_iff, List.mem_map]
    constructor
    · rintro ⟨location, mem, rfl⟩
      exact ⟨location, rfl, (mem_locations_wanted proper found).1 mem⟩
    · rintro ⟨location, rfl, offers⟩
      exact ⟨location, (mem_locations_wanted proper found).2 offers, rfl⟩

/-- Which files are discovered does not depend on the order of the roots or on their repetition:
    they are those that some root offers, each once, in the order of their paths as shown. -/
theorem discovered_by_any_root (proper : fs.ProperNames) (filters : Filters)
    {roots roots' : List RawPath} (same : ∀ root, root ∈ roots ↔ root ∈ roots')
    (accessible : ∀ root ∈ roots, ∃ place, fs.resolve root = .ok place) :
    ∃ sources sources', discover fs filters roots = .ok sources ∧
      discover fs filters roots' = .ok sources' ∧
      Collects fs filters roots sources ∧ Collects fs filters roots' sources' ∧
      (sources.map fun s => fs.canonical? s.path).Perm
        (sources'.map fun s => fs.canonical? s.path) := by
  have accessible' : ∀ root ∈ roots', ∃ place, fs.resolve root = .ok place := by
    intro root mem
    exact accessible root ((same root).2 mem)
  obtain ⟨sources, discovered, collects⟩ := exists_collects proper filters accessible
  obtain ⟨sources', discovered', collects'⟩ := exists_collects proper filters accessible'
  refine ⟨sources, sources', discovered, discovered', collects, collects', ?_⟩
  refine (List.perm_ext_iff_of_nodup collects.once collects'.once).2 fun place => ?_
  rw [collects.offered, collects'.offered]
  simp only [same]

/-- A file that one root excludes and another one offers, a link back up that one root's walk
    follows, and a pruned directory that is a root itself. The same files are found under other
    paths. -/
theorem discovered_by_any_root_link_up :
    let file : Item := .file ⟨Utf8.encode "package a", none⟩
    let fs : FileSystem :=
      { items :=
          [(["src"], .directory), (["src", "sub"], .directory), (["src", "sub", "b.go"], file),
           (["src", "sub", "up"], .link ".."), (["vendor"], .directory),
           (["vendor", "c.go"], file)] }
    let filters : Filters := ⟨{}, ⟨[("b.go".toList.map .literal)]⟩, .all⟩
    let sources : List SourcePath :=
      [⟨"src/sub/up/sub/b.go", "src/sub/up/sub/b.go"⟩, ⟨"vendor/c.go", "vendor/c.go"⟩]
    let sources' : List SourcePath :=
      [⟨"src/sub/b.go", "src/sub/b.go"⟩, ⟨"vendor/c.go", "vendor/c.go"⟩]
    discover fs filters ["src/sub", "src", "vendor"] = .ok sources ∧
      discover fs filters ["src", "vendor", "src", "src/sub"] = .ok sources' ∧
      (sources.map fun s => fs.canonical? s.path).Perm
        (sources'.map fun s => fs.canonical? s.path) ∧
      (∃ root ∈ (["src/sub", "src", "vendor"] : List RawPath),
        Offers fs filters root ["src", "sub", "b.go"]) := by
  intro file fs filters sources sources'
  have found : discover fs filters ["src/sub", "src", "vendor"] = .ok sources :=
    discover_eq (by decide +kernel) (by decide +kernel)
  have found' : discover fs filters ["src", "vendor", "src", "src/sub"] = .ok sources' :=
    discover_eq (by decide +kernel) (by decide +kernel)
  have proper : fs.ProperNames := by decide +kernel
  have roots : ∀ root, root ∈ (["src/sub", "src", "vendor"] : List RawPath)
      ↔ root ∈ (["src", "vendor", "src", "src/sub"] : List RawPath) := by
    intro root
    simp only [List.mem_cons, List.not_mem_nil]
    tauto
  obtain ⟨_, _, discovered, discovered', collects, -, same⟩ :=
    discovered_by_any_root proper filters roots (accessible_of_discover found)
  cases found.symm.trans discovered
  cases found'.symm.trans discovered'
  obtain ⟨location, here, offers⟩ :=
    (collects.offered (some ["src", "sub", "b.go"])).1 (by decide +kernel)
  cases here
  exact ⟨found, found', same, offers⟩

end Discovery

end CodeMetrics

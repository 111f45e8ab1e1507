import CodeMetrics.Project.FileSystem

/-! What is written can be read. Where a file goes does not depend on what it holds; once it is
    there, the path that it was written to leads to it, and no other item has changed. -/

namespace CodeMetrics.FileSystem

variable {fs : FileSystem} {place : Location}

/-! ### Items -/

/-- An item that is exchanged is found in the place of the old one. -/
theorem lookup_exchange {items : List (Location × Item)} {item : Item}
    {exchange : Location × Item → Location × Item}
    (exchanges : ∀ entry, exchange entry = (entry.1, if entry.1 == place then item else entry.2))
    (other : Location) : (items.map exchange).lookup other
      = if other = place then (items.lookup other).map fun _ => item else items.lookup other := by
  induction items with
  | nil => simp
  | cons entry items ih =>
    rw [List.map_cons, exchanges, List.lookup_cons, List.lookup_cons, ih]
    by_cases here : other = entry.1
    · subst here
      by_cases same : entry.1 = place <;> simp [same]
    · have differs : (other == entry.1) = false := beq_false_of_ne here
      simp [differs]

/-- An item is where it was put, and everything else is where it was. -/
theorem get?_put (fs : FileSystem) (named : place ≠ []) (item : Item) (other : Location) :
    (fs.put place item).get? other = if other = place then some item else fs.get? other := by
  rw [get?, get?]
  cases other with
  | nil => simp [named.symm]
  | cons name names =>
    simp only [List.isEmpty_cons, Bool.false_eq_true, if_false]
    rw [put]
    split
    · next there =>
      rw [lookup_exchange (fun entry => rfl)]
      split
      · next same =>
        obtain ⟨entry, mem, here⟩ := List.any_eq_true.1 there
        have found := List.lookup_isSome_iff.2 ⟨entry, mem, BEq.symm here⟩
        obtain ⟨old, found⟩ := Option.isSome_iff_exists.1 found
        rw [same, found]
        rfl
      · rfl
    · next missing =>
      rw [List.lookup_append]
      split
      · next same =>
        have absent : fs.items.lookup place = none := by
          rw [← Option.not_isSome_iff_eq_none, List.lookup_isSome_iff]
          rintro ⟨entry, mem, here⟩
          exact missing (List.any_eq_true.2 ⟨entry, mem, BEq.symm here⟩)
        simp [same, absent]
      · next differs =>
        have other : (name :: names == place) = false := beq_false_of_ne differs
        rw [List.lookup_cons, other, List.lookup_nil, Option.or_none]

/-- A place that can hold a file: nothing is there, or a file. -/
structure Vacant (fs : FileSystem) (place : Location) : Prop where
  named : place ≠ []
  no_directory : fs.get? place ≠ some .directory
  no_link : ∀ target, fs.get? place ≠ some (.link target)

theorem Vacant.get?_put (vacant : fs.Vacant place) (content : FileContent) {other : Location}
    {item : Item} (found : fs.get? other = some item) (kept : ∀ content, item ≠ .file content) :
    (fs.put place (.file content)).get? other = some item := by
  rw [FileSystem.get?_put fs vacant.named, if_neg, found]
  rintro rfl
  cases item with
  | file content => exact kept content rfl
  | link target => exact vacant.no_link target found
  | directory => exact vacant.no_directory found

/-! ### The place of a file -/

theorem vacant_of_aim {directory : Location} {pieces : List RawPath}
    (h : fs.aim directory pieces = .place place) : fs.Vacant place := by
  fun_induction aim fs directory pieces with
  | case2 _ _ _ _ ih | case3 _ _ _ _ _ ih | case9 _ _ _ _ _ _ _ _ _ ih => exact ih h
  | case6 directory piece _ _ _ location _ no_directory no_link =>
    obtain rfl := Aim.place.inj h
    exact ⟨by simp [location], no_directory, no_link⟩
  | _ => cases h

/-- Once a file is in its place, a path that was followed there or to a link before it is followed
    in the same way. -/
theorem follow_put (vacant : fs.Vacant place) (content : FileContent) (directory : Location)
    (pieces : List RawPath) :
    (fs.aim directory pieces = .place place →
      (fs.put place (.file content)).follow directory pieces = .found place (.file content)) ∧
    ∀ inside target rest, fs.aim directory pieces = .link inside target rest →
      (fs.put place (.file content)).follow directory pieces = .link inside target rest := by
  fun_induction aim fs directory pieces with
  | case2 directory piece rest skip ih => simpa [follow, skip] using ih
  | case3 directory piece rest skip up ih => simpa [follow, skip, up] using ih
  | case5 directory piece rest skip up location last target found =>
    refine ⟨fun h => (by cases h), fun inside other more h => ?_⟩
    cases h
    have kept := vacant.get?_put content found (fun _ h => by cases h)
    simp [follow, skip, up, location, kept, List.isEmpty_iff.1 last]
  | case6 directory piece rest skip up location last no_directory no_link =>
    refine ⟨fun h => ?_, fun inside other more h => by cases h⟩
    obtain rfl := Aim.place.inj h
    have there : (fs.put location (.file content)).get? location = some (.file content) := by
      rw [get?_put fs vacant.named, if_pos rfl]
    simp [follow, skip, up, location, there, last]
  | case9 directory piece rest skip up location more visible found ih =>
    have kept := vacant.get?_put content found (fun _ h => by cases h)
    simpa [follow, skip, up, location, kept] using ih
  | case10 directory piece rest skip up location more visible target found =>
    refine ⟨fun h => (by cases h), fun inside other left h => ?_⟩
    cases h
    have kept := vacant.get?_put content found (fun _ h => by cases h)
    simp [follow, skip, up, location, kept]
  | _ => exact ⟨fun h => (by cases h), fun _ _ _ h => (by cases h)⟩

/-- Where a file goes does not depend on what it holds, and the path that it was written to leads to
    it. -/
theorem createFrom_cases (fs : FileSystem) (links : Nat) (directory : Location)
    (pieces : List RawPath) :
    (∃ place, fs.Vacant place ∧ ∀ content,
      fs.createFrom content links directory pieces = .ok (fs.put place (.file content)) ∧
      (fs.put place (.file content)).resolveFrom links directory pieces
        = .ok (place, .file content)) ∨
    ∃ fault, ∀ content, fs.createFrom content links directory pieces = .error fault := by
  cases aimed : fs.aim directory pieces with
  | place place =>
    have vacant := vacant_of_aim aimed
    refine .inl ⟨place, vacant, fun content => ?_⟩
    rw [createFrom, aimed, resolveFrom, (follow_put vacant content _ _).1 aimed]
    exact ⟨rfl, rfl⟩
  | fault fault => exact .inr ⟨fault, fun content => by rw [createFrom, aimed]⟩
  | link inside target rest =>
    cases links with
    | zero => exact .inr ⟨.tooManyLinks, fun content => by rw [createFrom, aimed]⟩
    | succ links =>
      rcases createFrom_cases fs links (origin inside target) (Path.pieces target ++ rest) with
        ⟨place, vacant, writes⟩ | ⟨fault, fails⟩
      · refine .inl ⟨place, vacant, fun content => ?_⟩
        rw [createFrom, aimed, resolveFrom, (follow_put vacant content _ _).2 _ _ _ aimed]
        exact writes content
      · refine .inr ⟨fault, fun content => ?_⟩
        rw [createFrom, aimed]
        exact fails content

/-- Whether a file can be created at a path. -/
def canCreate (fs : FileSystem) (path : RawPath) : Prop :=
  ∃ files, fs.create path { bytes := [] } = .ok files

/-- The second file system is the first one with a file written to a path: the path leads to the
    file, and the item at every other location is the one that was there. -/
def Wrote (fs after : FileSystem) (path : RawPath) (content : FileContent) : Prop :=
  after.read path = .ok content ∧ ∃ place, ∀ other ≠ place, after.get? other = fs.get? other

theorem workingDirectory_put (fs : FileSystem) (place : Location) (item : Item) :
    (fs.put place item).workingDirectory = fs.workingDirectory := by
  rw [put]
  split <;> rfl

/-- A path takes any file or none. -/
theorem create_cases (fs : FileSystem) (path : RawPath) :
    (∀ content, ∃ after, fs.create path content = .ok after ∧ fs.Wrote after path content) ∨
    ∃ fault, ∀ content, fs.create path content = .error fault := by
  cases empty : (path == Path.empty) with
  | true => exact .inr ⟨.notFound, fun content => by rw [create, empty, if_pos rfl]⟩
  | false =>
    have created : ∀ content, fs.create path content
        = fs.createFrom content maxLinks (origin fs.workingDirectory path) (Path.pieces path) :=
      fun content => by simp only [create, empty, Bool.false_eq_true, if_false]
    rcases fs.createFrom_cases maxLinks (origin fs.workingDirectory path) (Path.pieces path) with
      ⟨place, vacant, writes⟩ | ⟨fault, fails⟩
    · refine .inl fun content => ?_
      obtain ⟨wrote, leads⟩ := writes content
      refine ⟨_, (created content).trans wrote, ?_, place, fun other apart => ?_⟩
      · simp only [read, resolve, empty, Bool.false_eq_true, if_false, workingDirectory_put, leads]
      · rw [get?_put fs vacant.named, if_neg apart]
    · exact .inr ⟨fault, fun content => (created content).trans (fails content)⟩

/-- Where a file can be created, any content can be written, and nothing else changes. -/
theorem create_of_canCreate {path : RawPath} (h : fs.canCreate path) (content : FileContent) :
    ∃ after, fs.create path content = .ok after ∧ fs.Wrote after path content := by
  obtain ⟨files, created⟩ := h
  rcases fs.create_cases path with writes | ⟨fault, fails⟩
  · exact writes content
  · rw [fails] at created
    cases created

/-- Where no file can be created, no content can be written. -/
theorem create_of_not_canCreate {path : RawPath} (h : ¬ fs.canCreate path) (content : FileContent) :
    ∃ fault, fs.create path content = .error fault := by
  rcases fs.create_cases path with writes | ⟨fault, fails⟩
  · obtain ⟨after, created, _⟩ := writes { bytes := [] }
    exact absurd ⟨after, created⟩ h
  · exact ⟨fault, fails content⟩

end CodeMetrics.FileSystem

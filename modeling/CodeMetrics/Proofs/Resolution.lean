import CodeMetrics.Proofs.Discovery

/-! Paths are resolved step by step. A path with more pieces behind it leads where the pieces lead
    from the end of the path; so a name below a directory is looked up in that directory, whatever
    links were followed on the way there. -/

namespace CodeMetrics

namespace Path

/-! ### Pieces -/

theorem splitAtSlashes_ne_nil (cs : List UInt8) : splitAtSlashes cs ≠ [] := by
  cases cs with
  | nil => simp [splitAtSlashes]
  | cons c cs =>
    rw [splitAtSlashes]
    split
    · simp
    · split <;> simp

theorem splitAtSlashes_name {name : List UInt8} (noSlash : slash ∉ name) :
    splitAtSlashes name = [name] := by
  induction name with
  | nil => rfl
  | cons c name ih =>
    simp only [List.mem_cons, not_or] at noSlash
    rw [splitAtSlashes, if_neg (Ne.symm noSlash.1), ih noSlash.2]

theorem splitAtSlashes_append (front back : List UInt8) :
    splitAtSlashes (front ++ slash :: back) = splitAtSlashes front ++ splitAtSlashes back := by
  induction front with
  | nil => simp [splitAtSlashes]
  | cons c front ih =>
    rw [List.cons_append, splitAtSlashes, splitAtSlashes, ih]
    split
    · simp
    · rcases hfront : splitAtSlashes front with - | ⟨piece, pieces⟩
      · exact absurd hfront (splitAtSlashes_ne_nil front)
      · simp

/-- A name below a path is one more piece; a slash at the end of the path has left an empty one. -/
theorem pieces_join (path : RawPath) {name : RawPath} (noSlash : slash ∉ name.bytes) :
    ∃ front, (pieces path = front ∨ pieces path = front ++ [empty]) ∧
      pieces (join path name) = front ++ [name] := by
  have last : (splitAtSlashes name.bytes).map RawPath.mk = [name] := by
    simp [splitAtSlashes_name noSlash]
  rw [join]
  split
  · next divided =>
    obtain ⟨front, hfront⟩ : ∃ front, path.bytes = front ++ [slash] := by
      simpa using List.getLast?_eq_some_iff.1 (by simpa using divided)
    refine ⟨(splitAtSlashes front).map RawPath.mk, Or.inr ?_, ?_⟩
    · rw [pieces, hfront, splitAtSlashes_append, List.map_append]
      rfl
    · rw [pieces, hfront, List.append_assoc, List.singleton_append, splitAtSlashes_append,
        List.map_append, last]
  · refine ⟨pieces path, Or.inl rfl, ?_⟩
    rw [pieces, splitAtSlashes_append, List.map_append, last, pieces]

/-- A name below a path starts where the path starts. -/
theorem isAbsolute_join {path name : RawPath} (nonempty : path ≠ empty) :
    isAbsolute (join path name) = isAbsolute path := by
  obtain ⟨bytes⟩ := path
  cases bytes with
  | nil => exact absurd rfl nonempty
  | cons b bytes =>
    rw [isAbsolute, isAbsolute, join]
    split <;> rfl

theorem join_ne_empty {path name : RawPath} (nonempty : path ≠ empty) : join path name ≠ empty := by
  obtain ⟨bytes⟩ := path
  cases bytes with
  | nil => exact absurd rfl nonempty
  | cons b bytes =>
    rw [join]
    split <;> simp [empty]

end Path

namespace FileSystem

variable {fs : FileSystem}

/-! ### Following pieces -/

/-- Where following a path stops that has more pieces behind it. -/
def Stop.andThen (fs : FileSystem) (more : List RawPath) : Stop → Stop
  | .found location .directory => fs.follow location more
  | .found location item => if more.isEmpty then .found location item else .fault .notADirectory
  | .link directory target rest => .link directory target (rest ++ more)
  | .fault reason => .fault reason

theorem follow_append (fs : FileSystem) (directory : Location) (pieces more : List RawPath) :
    fs.follow directory (pieces ++ more) = (fs.follow directory pieces).andThen fs more := by
  induction pieces generalizing directory with
  | nil => rfl
  | cons piece rest ih =>
    simp only [List.cons_append, follow]
    split
    · exact ih directory
    · split
      · exact ih directory.dropLast
      · cases fs.get? (directory ++ [piece]) with
        | none => rfl
        | some item =>
          cases item with
          | directory => exact ih (directory ++ [piece])
          | link target => rfl
          | file content => cases rest <;> rfl

/-! ### Following links -/

/-- More pieces are followed from the directory that a path leads to, with the links that are
    left. -/
theorem resolveFrom_append {links : ℕ} {directory location : Location} {pieces : List RawPath}
    (leads : fs.resolveFrom links directory pieces = .ok (location, .directory))
    (more : List RawPath) :
    ∃ left,
      fs.resolveFrom links directory (pieces ++ more) = fs.resolveFrom left location more := by
  fun_induction resolveFrom fs links directory pieces with
  | case1 links directory pieces stop item reached =>
    cases leads
    refine ⟨links, ?_⟩
    rw [resolveFrom, resolveFrom, follow_append, reached]
    rfl
  | case2 => cases leads
  | case3 => cases leads
  | case4 directory pieces directory' target rest reached links ih =>
    obtain ⟨left, same⟩ := ih leads
    refine ⟨left, ?_⟩
    rw [resolveFrom, follow_append, reached, ← same, List.append_assoc]
    rfl

/-- A slash behind a path to a directory does not change where it leads. -/
theorem resolveFrom_of_slash {links : ℕ} {directory location : Location} {pieces : List RawPath}
    (leads : fs.resolveFrom links directory (pieces ++ [Path.empty]) = .ok (location, .directory)) :
    fs.resolveFrom links directory pieces = .ok (location, .directory) := by
  fun_induction resolveFrom fs links directory pieces with
  | case1 links directory pieces stop item reached =>
    rw [resolveFrom, follow_append, reached] at leads
    cases item with
    | directory => simpa [Stop.andThen, follow] using leads
    | file content => simp [Stop.andThen] at leads
    | link target => exact absurd reached (fs.follow_ne_link _ _ _ _)
  | case2 links directory pieces fault reached =>
    rw [resolveFrom, follow_append, reached] at leads
    cases leads
  | case3 directory pieces directory' target rest reached =>
    rw [resolveFrom, follow_append, reached] at leads
    cases leads
  | case4 directory pieces directory' target rest reached links ih =>
    rw [resolveFrom, follow_append, reached] at leads
    refine ih ?_
    rw [List.append_assoc]
    exact leads

/-- Where pieces lead does not depend on how many links may be followed. -/
theorem resolveFrom_unique {links links' : ℕ} {directory : Location} {pieces : List RawPath}
    {place place' : Location × Item} (leads : fs.resolveFrom links directory pieces = .ok place)
    (leads' : fs.resolveFrom links' directory pieces = .ok place') : place = place' := by
  fun_induction resolveFrom fs links directory pieces generalizing links' with
  | case1 links directory pieces stop item reached =>
    rw [resolveFrom, reached] at leads'
    cases leads
    cases leads'
    rfl
  | case2 => cases leads
  | case3 => cases leads
  | case4 directory pieces directory' target rest reached links ih =>
    rw [resolveFrom, reached] at leads'
    cases links' with
    | zero => cases leads'
    | succ links' => exact ih leads leads'

/-! ### Names in a directory -/

end FileSystem

/-- A name that an item can have. -/
def Path.IsName (name : RawPath) : Prop :=
  name ≠ empty ∧ name ≠ here ∧ name ≠ up ∧ slash ∉ name.bytes

instance (name : RawPath) : Decidable (Path.IsName name) :=
  inferInstanceAs (Decidable (_ ∧ _ ∧ _ ∧ _))

namespace FileSystem

variable {fs : FileSystem}

/-- All items have names that items can have. -/
def ProperNames (fs : FileSystem) : Prop :=
  ∀ entry ∈ fs.items, ∀ name ∈ entry.1, Path.IsName name

instance (fs : FileSystem) : Decidable fs.ProperNames :=
  inferInstanceAs (Decidable (∀ entry ∈ fs.items, ∀ name ∈ entry.1, Path.IsName name))

theorem mem_namesIn {directory : Location} {name : RawPath} :
    name ∈ fs.namesIn directory ↔ directory ++ [name] ∈ fs.items.map (·.1) := by
  rw [namesIn, List.mem_filterMap, List.mem_map]
  refine exists_congr fun entry => and_congr_right fun _ => ?_
  obtain ⟨location, item⟩ := entry
  dsimp only
  constructor
  · intro h
    split at h
    · next here =>
      obtain rfl : location.dropLast = directory := by simpa using here
      exact (List.dropLast_append_getLast? _ h).symm
    · cases h
  · rintro rfl
    simp

theorem ProperNames.isName (proper : fs.ProperNames) {directory : Location} {name : RawPath}
    (h : name ∈ fs.namesIn directory) : Path.IsName name := by
  obtain ⟨entry, hentry, at_end⟩ := List.mem_map.1 (mem_namesIn.1 h)
  exact proper entry hentry name (by simp [at_end])

/-- A name that is no link leads to what stands under it. -/
theorem resolveFrom_name {name : RawPath} (proper : Path.IsName name) {links : ℕ}
    {directory location : Location} {item : Item}
    (leads : fs.resolveFrom links directory [name] = .ok (location, item))
    (noLink : ∀ target, fs.get? (directory ++ [name]) ≠ some (.link target)) :
    location = directory ++ [name] := by
  obtain ⟨nonempty, dot, dots, -⟩ := proper
  rw [resolveFrom, follow, if_neg (by simp [nonempty, dot]), if_neg (by simp [dots])] at leads
  cases there : fs.get? (directory ++ [name]) with
  | none => simp [there] at leads
  | some found =>
    cases found with
    | directory => simp_all [follow]
    | file content => simp_all
    | link target => exact absurd there (noLink target)

/-- What a name below a path to a directory leads to is found from that directory. -/
theorem resolve_join {path name : RawPath} {directory : Location}
    (leads : fs.resolve path = .ok (directory, .directory)) (noSlash : Path.slash ∉ name.bytes) :
    ∃ left, fs.resolve (Path.join path name) = fs.resolveFrom left directory [name] := by
  rw [resolve] at leads
  split at leads
  · cases leads
  · next nonempty =>
    rw [beq_iff_eq] at nonempty
    obtain ⟨front, pieces, joined⟩ := Path.pieces_join path noSlash
    have start : fs.resolveFrom maxLinks (origin fs.workingDirectory path) front
        = .ok (directory, .directory) := by
      rcases pieces with rfl | pieces
      · exact leads
      · rw [pieces] at leads
        exact resolveFrom_of_slash leads
    obtain ⟨left, same⟩ := resolveFrom_append start [name]
    refine ⟨left, ?_⟩
    rw [resolve, if_neg (by simpa using Path.join_ne_empty nonempty), origin,
      Path.isAbsolute_join nonempty, joined, ← same, origin]

end FileSystem

end CodeMetrics

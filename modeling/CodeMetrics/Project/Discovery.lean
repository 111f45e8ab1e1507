import CodeMetrics.Glob.Match
import CodeMetrics.Language.Detection
import CodeMetrics.Language.Selection
import CodeMetrics.Project.FileSystem

/-! Finding the files to measure. A root is a file or a directory to walk; hidden entries and
    directories of dependencies are passed over below a root. A file that several paths lead to is
    kept under the first of them. -/

namespace CodeMetrics

/-- Which files are wanted. -/
structure Filters where
  included : Globs
  excluded : Globs
  languages : Selection

namespace Filters

/-- Filters from names of languages and from globs; the first that is wrong counts. -/
def parse (languages included excluded : List String) : Except Error Filters := do
  let languages ← Selection.parse languages
  let included ← Globs.parse included
  let excluded ← Globs.parse excluded
  .ok { included, excluded, languages }

/-- Whether a file passes the globs, by its path below the root or by its path as shown. -/
def selects (f : Filters) (relative shown : String) : Bool :=
  !(f.excluded.isMatch relative || f.excluded.isMatch shown)
    && (f.included.isEmpty || f.included.isMatch relative || f.included.isMatch shown)

end Filters

/-- A file to measure: its path, and the path that reports show. -/
structure SourcePath where
  path : RawPath
  shown : String
deriving DecidableEq, Repr

/-- A file that a root leads to. -/
structure Candidate where
  path : RawPath
  /-- The path below the root. -/
  relative : String
  location : Location
  content : FileContent
  /-- Whether it is a root itself. -/
  isRoot : Bool

/-- The path that reports show. -/
def Candidate.shown (c : Candidate) : String := Path.display c.path

namespace Discovery

/-- Names of directories that are not walked. -/
def prunedNames : List String := [".git", "node_modules", "target", "vendor"]

/-- Whether a name is hidden. -/
def isHidden (name : RawPath) : Bool := name.text.toList.head? == some '.'

/-- Whether the item under a name is a link. -/
def isLink (fs : FileSystem) (location : Location) : Bool :=
  match fs.get? location with
  | some (.link _) => true
  | _ => false

/-- The files below a directory. `above` holds the directories on the way to it and itself: a link
    back to one of them is passed over, as is one that leads nowhere. -/
def walk (fs : FileSystem) :
    Nat → List Location → Location → RawPath → List RawPath → List Candidate
  | 0, _, _, _, _ => []
  | fuel + 1, above, directory, path, names =>
    (fs.namesIn directory).flatMap fun name =>
      let path := Path.join path name
      let names := names ++ [name]
      match fs.resolve path with
      | .ok (location, .file content) =>
        if isHidden name then []
        else [⟨path, Path.slashed (Path.ofNames names).text, location, content, false⟩]
      | .ok (location, .directory) =>
        if isHidden name || prunedNames.contains name.text
            || (isLink fs (directory ++ [name]) && above.contains location) then []
        else walk fs fuel (location :: above) location path names
      | _ => []

/-- How deep a walk can get. A link that is followed leads to a directory that is not on the way yet,
    and between two of them each directory stands in the one before. -/
def maxDepth (fs : FileSystem) : Nat := (fs.items.length + 1) * (fs.items.length + 1)

/-- The files that a root leads to. -/
def candidates (fs : FileSystem) (root : RawPath) : Except Error (List Candidate) :=
  match fs.resolve root with
  | .error fault => .error (.configuration (.inaccessible root.text fault))
  | .ok (location, .file content) =>
    .ok [⟨root, ((Path.fileName? root).map RawPath.text).getD (Path.display root), location, content,
      true⟩]
  | .ok (location, _) => .ok (walk fs (maxDepth fs) [location] location root [])

/-- The language of a file, from its path alone where that is enough. -/
def detect (path : RawPath) (bytes : List UInt8) : Option Language :=
  match Detection.classify path none with
  | some .typeScript | none => Detection.classify path (some (bytes.take Detection.sampleLength))
  | known => known

/-- Whether a file is wanted. One of unknown language is kept only if it is a root. -/
def keeps (filters : Filters) (c : Candidate) : Bool :=
  filters.selects c.relative c.shown
    && match detect c.path c.content.bytes with
      | none => c.isRoot
      | some language => filters.languages.includes language

/-- Adds a candidate, unless its file is there already. What was found by following a path has a
    location, so files need never be told apart by their paths. -/
def addNew (found : List Candidate) (c : Candidate) : List Candidate :=
  if found.any fun other => other.location == c.location then found else found ++ [c]

/-- The wanted files that some roots lead to, each once. -/
def wanted (fs : FileSystem) (filters : Filters) (roots : List RawPath) :
    Except Error (List Candidate) := do
  let offered ← roots.mapM (candidates fs)
  .ok ((offered.flatten.filter (keeps filters)).foldl addNew [])

/-- The files to measure, in the order of their paths as shown. -/
def discover (fs : FileSystem) (filters : Filters) (roots : List RawPath) :
    Except Error (List SourcePath) := do
  let files ← wanted fs filters roots
  .ok ((files.map fun c => ⟨c.path, c.shown⟩).mergeSort fun a b => !(b.shown < a.shown))

end Discovery

end CodeMetrics

import CodeMetrics.Error
import CodeMetrics.Path
import CodeMetrics.Syntax.Tree

/-! The files of a machine. Each item stands under its location, the names that lead to it from the
    root. A path is resolved to a location by following its steps and the links on the way, from the
    root where it starts with a slash and from the working directory where it does not. Everything
    that is there can be read, and nothing changes but by what is written: there are no permissions,
    no items other than files, links and directories, and no one else at work. -/

namespace CodeMetrics

/-- What a file holds: its bytes, and the tree that a parser made of them. -/
structure FileContent where
  bytes : List UInt8
  tree : Option Tree := none

/-- Something in a directory. -/
inductive Item where
  | file (content : FileContent)
  /-- A link, by a path that starts in the directory it stands in. -/
  | link (target : RawPath)
  | directory

/-- The names that lead from the root to an item. -/
abbrev Location := List RawPath

/-- Everything below the root. -/
structure FileSystem where
  items : List (Location × Item) := []
  /-- Where relative paths start. -/
  workingDirectory : Location := []

namespace FileSystem

/-- The item at a location; the root is always there. -/
def get? (fs : FileSystem) (location : Location) : Option Item :=
  if location.isEmpty then some .directory else fs.items.lookup location

/-- Puts an item at a location, in place of the one that is there. -/
def put (fs : FileSystem) (location : Location) (item : Item) : FileSystem :=
  if fs.items.any fun (other, _) => other == location then
    { fs with
      items := fs.items.map fun (other, old) => (other, if other == location then item else old) }
  else { fs with items := fs.items ++ [(location, item)] }

/-- The names in a directory. -/
def namesIn (fs : FileSystem) (directory : Location) : List RawPath :=
  fs.items.filterMap fun (location, _) =>
    if location.dropLast == directory then location.getLast? else none

/-! ### Resolving paths -/

/-- Where following a path stops. -/
inductive Stop where
  | found (location : Location) (item : Item)
  /-- At a link in a directory, with what is left of the path. -/
  | link (directory : Location) (target : RawPath) (rest : List RawPath)
  | fault (fault : SystemFault)

/-- Follows the pieces of a path from a directory up to the first link. Nothing is above the root. -/
def follow (fs : FileSystem) : Location → List RawPath → Stop
  | directory, [] => .found directory .directory
  | directory, piece :: rest =>
    if piece == Path.empty || piece == Path.here then follow fs directory rest
    else if piece == Path.up then follow fs directory.dropLast rest
    else
      let location := directory ++ [piece]
      match fs.get? location with
      | none => .fault .notFound
      | some .directory => follow fs location rest
      | some (.link target) => .link directory target rest
      | some (.file content) =>
        if rest.isEmpty then .found location (.file content) else .fault .notADirectory

/-- Where a path starts that is given in a directory. -/
def origin (directory : Location) (path : RawPath) : Location :=
  if Path.isAbsolute path then [] else directory

/-- The most links on the way. -/
def maxLinks : Nat := 40

/-- Follows the pieces of a path from a directory, with a number of links at most. -/
def resolveFrom (fs : FileSystem) :
    Nat → Location → List RawPath → Except SystemFault (Location × Item)
  | links, directory, pieces =>
    match fs.follow directory pieces with
    | .found location item => .ok (location, item)
    | .fault fault => .error fault
    | .link directory target rest =>
      match links with
      | 0 => .error .tooManyLinks
      | links + 1 =>
        resolveFrom fs links (origin directory target) (Path.pieces target ++ rest)

/-- The location and the item of a path. -/
def resolve (fs : FileSystem) (path : RawPath) : Except SystemFault (Location × Item) :=
  if path == Path.empty then .error .notFound
  else fs.resolveFrom maxLinks (origin fs.workingDirectory path) (Path.pieces path)

/-! ### Reading and writing -/

/-- The content of the file at a path. -/
def read (fs : FileSystem) (path : RawPath) : Except SystemFault FileContent :=
  match fs.resolve path with
  | .error fault => .error fault
  | .ok (_, .file content) => .ok content
  | .ok (_, .directory) => .error .isADirectory
  | .ok (_, .link _) => .error .tooManyLinks

/-- The text of the file at a path. -/
def readText (fs : FileSystem) (path : RawPath) : Except SystemFault String := do
  match Utf8.decode? (← fs.read path).bytes with
  | some text => .ok text
  | none => .error .notText

/-- Whether there is a file at a path. -/
def hasFile (fs : FileSystem) (path : RawPath) : Bool := (fs.read path).toBool

/-- Where following a path to write a file stops. -/
inductive Aim where
  | place (location : Location)
  /-- At a link in a directory, with what is left of the path. -/
  | link (directory : Location) (target : RawPath) (rest : List RawPath)
  | fault (fault : SystemFault)

/-- Follows the pieces of a path from a directory up to the first link or to the place of a file. The
    last name need not be there; with a slash after it it is the name of a directory. -/
def aim (fs : FileSystem) : Location → List RawPath → Aim
  | _, [] => .fault .isADirectory
  | directory, piece :: rest =>
    if piece == Path.empty || piece == Path.here then aim fs directory rest
    else if piece == Path.up then aim fs directory.dropLast rest
    else
      let location := directory ++ [piece]
      if rest.isEmpty then
        match fs.get? location with
        | some .directory => .fault .isADirectory
        | some (.link target) => .link directory target []
        | _ => .place location
      else if rest.all (· == Path.empty) then .fault .isADirectory
      else
        match fs.get? location with
        | none => .fault .notFound
        | some .directory => aim fs location rest
        | some (.link target) => .link directory target rest
        | some (.file _) => .fault .notADirectory

/-- Writes a file at the end of some pieces, with a number of links at most. -/
def createFrom (fs : FileSystem) (content : FileContent) :
    Nat → Location → List RawPath → Except SystemFault FileSystem
  | links, directory, pieces =>
    match fs.aim directory pieces with
    | .place location => .ok (fs.put location (.file content))
    | .fault fault => .error fault
    | .link directory target rest =>
      match links with
      | 0 => .error .tooManyLinks
      | links + 1 =>
        createFrom fs content links (origin directory target) (Path.pieces target ++ rest)

/-- Writes a file at a path; its directory must be there. -/
def create (fs : FileSystem) (path : RawPath) (content : FileContent) :
    Except SystemFault FileSystem :=
  if path == Path.empty then .error .notFound
  else fs.createFrom content maxLinks (origin fs.workingDirectory path) (Path.pieces path)

/-! ### Laying out -/

/-- The directory under a name in another, made where there is none. -/
def enter (state : FileSystem × Location) (name : RawPath) : FileSystem × Location :=
  let (fs, directory) := state
  match fs.resolveFrom maxLinks directory [name] with
  | .ok (location, .directory) => (fs, location)
  | .ok (location, _) => (fs, location)
  | .error _ => (fs.put (directory ++ [name]) .directory, directory ++ [name])

/-- A working directory with nothing in it. -/
def blank : FileSystem where
  items := [(["project"], .directory)]
  workingDirectory := ["project"]

/-- Puts an item at a path below the working directory and makes the directories that lead there. -/
def layOut (fs : FileSystem) (path : RawPath) (item : Item) : FileSystem :=
  let steps := Path.steps path
  match steps.getLast? with
  | none => fs
  | some name =>
    let (fs, directory) := steps.dropLast.foldl enter (fs, fs.workingDirectory)
    fs.put (directory ++ [name]) item

end FileSystem

end CodeMetrics

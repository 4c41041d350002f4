import Mustache.Files.Path
import Mustache.Text.Encoding

/-!
# `Mustache.Files` — a tree of files

Files hold bytes and know when they were changed. Directories are there on their own, and wherever
something is in them. Paths without a slash at their beginning lead from the working directory.

## Contents
- **Places.** `locate`.
- **Looking.** `file?`, `isDirectory`, `stamp`.
- **Changing.** `write`, `makeDirectory`, `remove`.
- **Listing.** `filesBelow`, in the order of their paths.
-/

namespace Mustache

/-- A file. -/
structure FileContent where
  bytes : Bytes
  /-- When the file was changed. -/
  changed : Int
  deriving DecidableEq, Repr

/-- A tree of files. -/
structure Files where
  files : List (Path × FileContent)
  directories : List Path
  /-- Where paths lead from that do not begin with a slash. -/
  workingDirectory : Path
  /-- The home directory of a user. The user at work need not be named. -/
  home : Text → Path

/-- What tells one state of a file from another. -/
inductive Stamp where
  /-- There is no file. -/
  | missing
  | present (changed : Int) (size : Nat)
  deriving DecidableEq, Repr

namespace Files

/-- No files. The working directory and the homes are the place that paths are counted from. -/
def empty : Files := ⟨[], [], ⟨[]⟩, fun _ => ⟨[]⟩⟩

/-- The path from the root, if the working directory has one. -/
def absolute (fs : Files) (p : Path) : Path :=
  if p.isAbsolute then p else fs.workingDirectory.below p.parts

/-- Where a path leads, if all directories on the way are there. -/
def locate (fs : Files) (p : Path) : Path := (fs.absolute p).resolve

/-- Whether a path can be followed: two dots lead out of directories only. -/
def canFollow (fs : Files) (p : Path) : Bool :=
  (fs.absolute p).detours.all fun q => q.parts.isEmpty || fs.directories.contains q.resolve

/-- The file at a path. -/
def file? (fs : Files) (p : Path) : Option FileContent :=
  if fs.canFollow p then (fs.files.find? fun e => e.1 == fs.locate p).map Prod.snd else none

/-- Whether a directory is at a path. -/
def isDirectory (fs : Files) (p : Path) : Bool :=
  fs.canFollow p && fs.directories.contains (fs.locate p)

/-- The state of the file at a path. -/
def stamp (fs : Files) (p : Path) : Stamp :=
  match fs.file? p with
  | some f => .present f.changed f.bytes.length
  | none => .missing

/-- The tree with some directories. -/
def addDirectories (fs : Files) (ps : List Path) : Files :=
  { fs with
    directories := ps.foldl (fun ds p => if ds.contains p then ds else p :: ds) fs.directories }

/-- The tree with a directory and those above it. -/
def makeDirectory (fs : Files) (p : Path) : Files :=
  fs.addDirectories (fs.locate p :: (fs.locate p).parents)

/-- The tree with a file, in place of one at that path. -/
def write (fs : Files) (p : Path) (f : FileContent) : Files :=
  let p := fs.locate p
  let others := fs.files.filter fun e => e.1 != p
  { fs with files := (p, f) :: others }.addDirectories p.parents

/-- The tree without what is at a path and below it. -/
def remove (fs : Files) (p : Path) : Files :=
  let outside (q : Path) : Bool := !(fs.locate p).parts.isPrefixOf q.parts
  { fs with
    files := fs.files.filter fun e => outside e.1
    directories := fs.directories.filter outside }

/-- The files below a directory with their paths from there, in the order of these paths. -/
def filesBelow (fs : Files) (root : Path) : List (List Text × FileContent) :=
  let found := fs.files.filterMap fun e =>
    (e.1.relativeTo? (fs.locate root)).map fun parts => (parts, e.2)
  found.mergeSort fun a b => Path.precedes a.1 b.1

end Files

end Mustache

import Mustache.Files
import Mustache.Partials
import Mustache.Files.Glob

/-!
# `Mustache.Template.File` — templates in files

A template may be kept in a file, and partials in the files of a directory. The name of a partial is
its path from the directory, without the suffix of partial files.

## Contents
- **One file.** `Template.ofFile`.
- **A directory.** `Partials.partialName`, `Partials.ofDirectory`.
-/

namespace Mustache

/-! ## One file -/

/-- The text of a file, in an encoding. -/
def FileContent.readText (f : FileContent) (e : Encoding) : HostM Text :=
  match e.readText? f.bytes with
  | some s => return s
  | none => throw .undecodable

/-- The template in a file. It is called by a name or, without one, by the name of the file. -/
def Template.ofFile (fs : Files) (d : Delimiters) (name : Option Text) (e : Encoding) (p : Path) :
    HostM Template :=
  match fs.file? p with
  | none => throw (.engine (.templateNotFound p.toText))
  | some f => do
      let s ← f.readText e
      let chosen := name.getD []
      Template.ofText d (some (if chosen.isEmpty then p.stem else chosen)) s

/-! ## A directory -/

namespace Partials

/-- The name of a partial: its path without as many characters as the suffix has. Where the suffix
    is empty, nothing is left of the path. -/
def partialName (suffix : Text) (parts : List Text) : Text :=
  let path := Path.joined parts
  if suffix.isEmpty then [] else path.take (path.length - suffix.length)

/-- The templates of some files, set one after the other. -/
def loadFiles (d : Delimiters) (suffix : Text) :
    List (List Text × FileContent) → Table Text Template → HostM (Table Text Template)
  | [], loaded => return loaded
  | (parts, f) :: rest, loaded => do
      let name := partialName suffix parts
      let s ← f.readText .utf8
      let t ← Template.ofText d (some name) s
      loadFiles d suffix rest (loaded.put name t)

/-- The partials in the files below a directory whose names end with a suffix. The suffix may hold
    wildcards. -/
def ofDirectory (fs : Files) (d : Delimiters) (suffix : Text) (root : Path) : HostM Partials :=
  if !fs.isDirectory root then
    throw (.engine (.directoryNotFound root.toText))
  else
    match Glob.ofText? ('*' :: suffix) with
    | none => throw .badValue
    | some pattern => do
        let found := (fs.filesBelow root).filter fun e => Glob.matchesPath pattern e.1
        let templates ← loadFiles d suffix found []
        HostM.report (.partialsLoaded templates.length root.toText)
        return ⟨templates, false⟩

end Partials

end Mustache

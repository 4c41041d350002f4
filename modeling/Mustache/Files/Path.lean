import Mustache.Text

/-!
# `Mustache.Files.Path` — paths

A path is a list of parts. Empty parts and single dots do not count; a path that begins with a slash
has the slash as its first part. Nothing here knows what is where: which directory a path without a
slash at its beginning leads from, and whether two dots can be followed, is up to a tree of files.
-/

namespace Mustache

/-- A path in a file tree. -/
structure Path where
  parts : List Text
  deriving DecidableEq, Repr, Inhabited

namespace Path

/-- The first part of a path that begins with a slash. -/
def rootPart : Text := ['/']

/-- The path that a text writes. -/
def ofText (s : Text) : Path :=
  let parts := (Text.splitOn '/' s).filter fun part => !part.isEmpty && part != ['.']
  ⟨if s.head? == some '/' then rootPart :: parts else parts⟩

/-- The parts of a path with slashes between them. -/
def joined (parts : List Text) : Text := Text.join ['/'] parts

/-- The text of a path. -/
def toText (p : Path) : Text :=
  match p.parts with
  | [] => ['.']
  | part :: rest => if part = rootPart then '/' :: joined rest else joined p.parts

/-- The parts of a path, of which the last comes first, with a further part. Two dots lead back to
    the parent, and from the root nowhere. -/
def step (back : List Text) (part : Text) : List Text :=
  if part = "..".toList then
    match back with
    | [] => []
    | last :: rest => if last = rootPart then back else rest
  else
    part :: back

/-- Whether a path begins with a slash. -/
def isAbsolute (p : Path) : Bool := p.parts.head? == some rootPart

/-- The path without the detours over parents, which only its parts decide: a path that leads from
    some directory still does, and a tilde is a part like others. -/
def resolve (p : Path) : Path := ⟨(p.parts.foldl step []).reverse⟩

/-- The directories that a path leaves by two dots. -/
def detours (p : Path) : List Path :=
  ((List.range p.parts.length).filter fun i => p.parts[i]? == some "..".toList).map fun i =>
    ⟨p.parts.take i⟩

/-- The path of something in a directory. -/
def below (p : Path) (parts : List Text) : Path := ⟨p.parts ++ parts⟩

/-- The directories above a path, the nearest first. -/
def parents (p : Path) : List Path :=
  (List.range p.parts.length).map fun i => ⟨p.parts.take (p.parts.length - 1 - i)⟩

/-- The parts below a directory, if the path lies below it. -/
def relativeTo? (p root : Path) : Option (List Text) :=
  if root.parts.isPrefixOf p.parts then some (p.parts.drop root.parts.length) else none

/-- The last part of a path. -/
def name (p : Path) : Text :=
  match p.parts.getLast? with
  | some part => if part = rootPart then [] else part
  | none => []

/-- The part of a name before its last dot, if there is something before and after that dot. -/
def stemOf (name : Text) : Text :=
  let suffix := name.reverse.takeWhile (· != '.')
  let stem := name.take (name.length - suffix.length - 1)
  if suffix.length < name.length && !suffix.isEmpty && !stem.isEmpty then stem else name

/-- The last part of a path without its suffix. -/
def stem (p : Path) : Text := stemOf p.name

/-- The order of paths by their parts. -/
def precedes : List Text → List Text → Bool
  | [], _ => true
  | _ :: _, [] => false
  | s :: p, t :: q => if s = t then precedes p q else Text.precedes s t

end Path

end Mustache

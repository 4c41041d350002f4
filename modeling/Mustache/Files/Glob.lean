import Mustache.Files.Path

/-!
# `Mustache.Files.Glob` — patterns for paths

In a pattern a question mark stands for any character, an asterisk for any text, and brackets for
one character of a set. A pattern for paths is split at slashes like a path; a part of two asterisks
stands for any number of directories.

## Contents
- **Sets.** `CharSet`.
- **Patterns.** `Wildcard`, `Wildcard.ofText`, `matchesName`.
- **Paths.** `GlobPart`, `Glob.ofText?`, `Glob.matchesPath`.
-/

namespace Mustache

/-! ## Sets -/

/-- A set of characters, or all characters outside it. -/
structure CharSet where
  negated : Bool
  /-- The first and the last character of each range. -/
  ranges : List (Char × Char)
  deriving Repr

namespace CharSet

/-- Whether a character is in a set. -/
def contains (s : CharSet) (c : Char) : Bool :=
  (s.ranges.any fun r => r.1 ≤ c && c ≤ r.2) != s.negated

/-- The ranges between brackets: a hyphen between two characters makes one of all between them. -/
def rangesOf : Text → List (Char × Char)
  | c :: '-' :: d :: s => (c, d) :: rangesOf s
  | c :: s => (c, c) :: rangesOf s
  | [] => []

/-- The set that is written between brackets. -/
def ofText : Text → CharSet
  | '!' :: s => ⟨true, rangesOf s⟩
  | s => ⟨false, rangesOf s⟩

end CharSet

/-! ## Patterns -/

/-- A part of a pattern for names. -/
inductive Wildcard where
  | char (c : Char)
  | anyChar
  | anyText
  | set (s : CharSet)
  deriving Repr

namespace Wildcard

/-- What stands up to the bracket that closes a set, and what follows. A bracket that comes first in
    the set belongs to it. -/
def closeSet? (s : Text) : Option (Text × Text) :=
  let (mark, body) :=
    match s with
    | '!' :: body => (['!'], body)
    | body => ([], body)
  let (first, body) :=
    match body with
    | ']' :: body => ([']'], body)
    | body => ([], body)
  (Text.breakOn [']'] body).map fun (inside, rest) => (mark ++ first ++ inside, rest)

/-- The parts of a pattern, given a bound on their number. A bracket that is not closed stands for
    itself. -/
def partsOf : Nat → Text → List Wildcard
  | 0, _ => []
  | _, [] => []
  | fuel + 1, c :: s =>
      if c = '?' then
        .anyChar :: partsOf fuel s
      else if c = '*' then
        .anyText :: partsOf fuel s
      else if c = '[' then
        match closeSet? s with
        | some (inside, rest) => .set (.ofText inside) :: partsOf fuel rest
        | none => .char c :: partsOf fuel s
      else
        .char c :: partsOf fuel s

/-- The parts of a pattern. -/
def ofText (s : Text) : List Wildcard := partsOf s.length s

/-- Whether a part stands for a character. -/
def accepts : Wildcard → Char → Bool
  | .char c, d => c == d
  | .anyChar, _ => true
  | .set s, d => s.contains d
  | .anyText, _ => false

/-- Whether a property holds of some end of a text. -/
def anyEnd (p : Text → Bool) : Text → Bool
  | [] => p []
  | c :: s => p (c :: s) || anyEnd p s

/-- Whether a pattern stands for a whole name. -/
def matchesName : List Wildcard → Text → Bool
  | [], s => s.isEmpty
  | .anyText :: ws, s => anyEnd (matchesName ws) s
  | w :: ws, s =>
      match s with
      | [] => false
      | c :: s => w.accepts c && matchesName ws s

end Wildcard

/-! ## Paths -/

/-- A part of a pattern for paths. -/
inductive GlobPart where
  /-- Any number of directories. -/
  | directories
  | name (pattern : List Wildcard)
  deriving Repr

namespace Glob

/-- Two asterisks. -/
def doubleAsterisk : Text := ['*', '*']

/-- A part of a pattern for paths. Two asterisks in a row are a part of their own. -/
def partOf? (s : Text) : Option GlobPart :=
  if s = doubleAsterisk then some .directories
  else if (Text.breakOn doubleAsterisk s).isSome then none
  else some (.name (Wildcard.ofText s))

/-- The parts of a pattern for the paths of files at any depth. A pattern that ends with a slash is
    for directories only, and so for no file. -/
def ofText? (s : Text) : Option (List GlobPart) := do
  let parts ← (Path.ofText s).parts.mapM partOf?
  let forDirectories := s.getLast? == some '/'
  return .directories :: parts ++ (if forDirectories then [.name (Wildcard.ofText [])] else [])

/-- Whether a property holds of some end of a list of parts that is not empty. -/
def anyProperEnd (p : List Text → Bool) : List Text → Bool
  | [] => false
  | part :: rest => p (part :: rest) || anyProperEnd p rest

/-- Whether a pattern stands for the path of a file. The last part of the path is never a
    directory. -/
def matchesPath : List GlobPart → List Text → Bool
  | [], parts => parts.isEmpty
  | .directories :: ps, parts => anyProperEnd (matchesPath ps) parts
  | .name pattern :: ps, parts =>
      match parts with
      | [] => false
      | part :: rest => Wildcard.matchesName pattern part && matchesPath ps rest

end Glob

end Mustache

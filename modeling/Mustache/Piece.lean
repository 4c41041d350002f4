import Mustache.Token

/-!
# `Mustache.Piece` — what is left of the static text

A tag that stands alone on its line takes the line with it: the margin before the tag is cut from
the end of the static text that leads up to it, and the margin after the tag from the beginning of
the static text that follows.

## Contents
- **Trimming.** `Piece.trim` cuts the margins from a list of runs.
- **Pieces of a scan.** `Trimmed.ofScan`.
-/

namespace Mustache

/-- A tag with the static text before it, as it is written and as it is kept. -/
structure Piece where
  lead : Text
  kept : Text
  tag : Tag
  deriving DecidableEq, Repr

/-- A template without the margins of its standalone tags. -/
structure Trimmed where
  pieces : List Piece
  /-- The static text after the last tag, as it is written. -/
  tail : Text
  /-- What is kept of it. -/
  keptTail : Text
  deriving DecidableEq, Repr

namespace Piece

/-- Without a number of characters at its end. A number that exceeds the length by some is taken as
    that excess. -/
def cutEnd (n : Nat) (s : Text) : Text :=
  s.take (if n ≤ s.length then s.length - n else s.length - (n - s.length))

/-- What a run keeps of its static text when some characters at its beginning are margin. -/
def keep (skip : Nat) (r : Run) : Text :=
  match r.tag.margins with
  | some m => cutEnd m.leading.length (r.lead.drop skip)
  | none => r.lead.drop skip

/-- How many characters after a run are margin, when this many at its beginning are. -/
def skipAfter (skip : Nat) (r : Run) : Nat :=
  match r.tag.margins with
  | some m => m.trailing.length
  | none => skip - r.source.length

/-- The pieces of some runs, and how many characters after them are margin. -/
def trim (skip : Nat) : List Run → List Piece × Nat
  | [] => ([], skip)
  | r :: rs =>
      let (ps, after) := trim (skipAfter skip r) rs
      (⟨r.lead, keep skip r, r.tag⟩ :: ps, after)

end Piece

/-- The pieces of a scan. -/
def Trimmed.ofScan (s : Scan) : Trimmed :=
  let (pieces, skip) := Piece.trim 0 s.runs
  ⟨pieces, s.tail, s.tail.drop skip⟩

end Mustache

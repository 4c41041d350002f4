import Mustache.Text

/-!
# `Mustache.Position` — rows and columns

A position is a row and a column, both counted from one. `Cursor` follows a text from its beginning
and knows its position at every moment; `LineIndex` finds the position of any offset by binary
search among the newlines.

## Contents
- **Cursor.** `advance` passes over a piece of text; passing over two pieces is passing over both.
- **LineIndex.** `ofText`, `position`.
-/

namespace Mustache

/-! ## Cursor -/

/-- A place in a text. The row is counted from one. -/
structure Cursor where
  /-- The number of characters passed. -/
  offset : Nat
  row : Nat
  /-- What has been passed of the current line, the last character first. -/
  line : Text
  deriving DecidableEq, Repr

namespace Cursor

/-- The beginning of a text. -/
def start : Cursor where
  offset := 0
  row := 1
  line := []

/-- The place after some more characters. -/
def advance (c : Cursor) (s : Text) : Cursor where
  offset := c.offset + s.length
  row := c.row + s.count '\n'
  line := (s.reverse ++ c.line).takeWhile (· != '\n')

/-- The column, counted from one. -/
def col (c : Cursor) : Nat := c.line.length + 1

/-- The part of the current line that has been passed. -/
def linePrefix (c : Cursor) : Text := c.line.reverse

theorem takeWhile_append_takeWhile {α : Type} (p : α → Bool) (s t : List α) :
    (s ++ t.takeWhile p).takeWhile p = (s ++ t).takeWhile p := by
  induction s with
  | nil =>
      induction t with
      | nil => rfl
      | cons b t ih => cases hb : p b <;> simp_all
  | cons a s ih =>
      cases hp : p a
      · simp [hp]
      · simp [hp, ih]

/-- Passing over two pieces one after the other is passing over both. -/
theorem advance_append (c : Cursor) (s t : Text) :
    c.advance (s ++ t) = (c.advance s).advance t := by
  simp [advance, takeWhile_append_takeWhile, Nat.add_assoc]

end Cursor

/-! ## LineIndex -/

/-- The offsets of the newlines of a text, in ascending order. -/
structure LineIndex where
  newlines : Array Nat

namespace LineIndex

/-- The offsets of the newlines of a text that begins at an offset. -/
def newlineOffsets (offset : Nat) : Text → List Nat
  | [] => []
  | c :: cs =>
      if c = '\n' then
        offset :: newlineOffsets (offset + 1) cs
      else
        newlineOffsets (offset + 1) cs

/-- The index of a text. -/
def ofText (s : Text) : LineIndex where
  newlines := (newlineOffsets 0 s).toArray

/-- Between `lo` and `hi`, the least place whose entry is not below the target: the number of
    entries below it when the entries ascend. -/
def search (entries : Array Nat) (target : Int) (lo hi : Nat) : Nat :=
  if lo < hi then
    let mid := (lo + hi) / 2
    if (entries.getD mid 0 : Int) < target then
      search entries target (mid + 1) hi
    else
      search entries target lo mid
  else
    lo
termination_by hi - lo

/-- The row and the column of an offset. The column goes below one before the text. -/
def position (index : LineIndex) (offset : Int) : Nat × Int :=
  let row := search index.newlines offset 0 index.newlines.size
  let lineStart : Nat := if row = 0 then 0 else index.newlines.getD (row - 1) 0 + 1
  (row + 1, offset - lineStart + 1)

end LineIndex

end Mustache

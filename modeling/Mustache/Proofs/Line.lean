import Mustache.Position

/-!
# `Mustache.Proofs.Line` — offsets, lines and positions

The scanner carries a `Cursor` along; what it finds is said of the whole text by offsets. This module has
the offset-level vocabulary (`slice`, `lineStart`, `lineEnd`, `position`) and ties it to the cursor: at
the end of a text `pre`, the cursor has the offset, the row, the column and the line that the whole text
`pre ++ rest` has there, whatever `rest` is.
-/

namespace Mustache

namespace Text

/-- The characters at the offsets from `a` up to `b`, that at `b` excluded. -/
def slice (s : Text) (a b : Nat) : Text := (s.take b).drop a

/-- The offset of the first character of the line in which an offset lies. -/
def lineStart (s : Text) (o : Nat) : Nat := o - ((s.take o).reverse.takeWhile (· != '\n')).length

/-- The offset after the newline that ends the line in which an offset lies, or that of the end of the
    text. -/
def lineEnd (s : Text) (o : Nat) : Nat :=
  o + ((s.drop o).takeWhile (· != '\n') ++ ((s.drop o).dropWhile (· != '\n')).take 1).length

/-- The row and the column of an offset, both counted from one. -/
def position (s : Text) (o : Nat) : Nat × Nat :=
  ((s.take o).count '\n' + 1, o - lineStart s o + 1)

variable {pre mid rest : Text}

/-- The piece of a text between what stands before and what stands after it. -/
theorem slice_append : (pre ++ (mid ++ rest)).slice pre.length (pre.length + mid.length) = mid := by
  rw [slice, List.take_length_add_append, List.take_left, List.drop_left]

theorem lineStart_append :
    (pre ++ rest).lineStart pre.length = pre.length - (pre.reverse.takeWhile (· != '\n')).length := by
  rw [lineStart, List.take_left]

theorem lineEnd_append :
    (pre ++ rest).lineEnd pre.length
      = pre.length + (rest.takeWhile (· != '\n') ++ (rest.dropWhile (· != '\n')).take 1).length := by
  rw [lineEnd, List.drop_left]

theorem length_lastLine_le (pre : Text) :
    (pre.reverse.takeWhile (· != '\n')).length ≤ pre.length := by
  have h := (List.takeWhile_sublist (l := pre.reverse) (· != '\n')).length_le
  rwa [List.length_reverse] at h

/-- The last line of a text is what stands from the beginning of that line on. -/
theorem slice_lineStart :
    (pre ++ rest).slice ((pre ++ rest).lineStart pre.length) pre.length
      = (pre.reverse.takeWhile (· != '\n')).reverse := by
  have hsplit := congrArg List.reverse (List.takeWhile_append_dropWhile (p := (· != '\n'))
    (l := pre.reverse))
  rw [List.reverse_append, List.reverse_reverse] at hsplit
  have hlen : pre.length - (pre.reverse.takeWhile (· != '\n')).length
      = (pre.reverse.dropWhile (· != '\n')).reverse.length := by
    have h := congrArg List.length hsplit
    rw [List.length_append, List.length_reverse, List.length_reverse] at h
    rw [List.length_reverse]
    omega
  rw [lineStart_append, slice, List.take_left, hlen]
  exact (congrArg (List.drop _) hsplit.symm).trans List.drop_left

end Text

/-! ## The cursor -/

namespace Cursor

variable {pre rest : Text}

theorem line_start_advance (pre : Text) :
    (start.advance pre).line = pre.reverse.takeWhile (· != '\n') := by
  simp [advance, start]

theorem offset_start_advance (pre : Text) : (start.advance pre).offset = pre.length := by
  simp [advance, start]

/-- The row and the column of a cursor are those of its offset. -/
theorem position_start_advance :
    ((start.advance pre).row, (start.advance pre).col) = (pre ++ rest).position pre.length := by
  have hle := Text.length_lastLine_le pre
  rw [Text.position, Text.lineStart_append, List.take_left, col, line_start_advance,
    Nat.sub_sub_self hle]
  simp [advance, start, Nat.add_comm]

/-- The line prefix of a cursor is the text from the beginning of its line on. -/
theorem linePrefix_start_advance :
    (start.advance pre).linePrefix
      = (pre ++ rest).slice ((pre ++ rest).lineStart pre.length) pre.length := by
  rw [Text.slice_lineStart, linePrefix, line_start_advance]

end Cursor

end Mustache

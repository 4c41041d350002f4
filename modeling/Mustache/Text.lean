/-!
# `Mustache.Text` — text as a list of characters

Template source, keys, rendered output and configuration strings are all lists of characters, so
that every offset and every length counts characters and induction over a text is induction over a
list.

## Contents
- **Searching.** `breakOn` splits at the first occurrence of a pattern; `splitOn` at every one.
- **Lines.** `lines` cuts after each newline and loses nothing.
- **Blanks.** `isBlank` holds of runs of spaces and tabs.
- **Numerals.** Decimal and hexadecimal digits of natural numbers and integers.
- **Order.** The order by code points, first difference first.
-/

namespace Mustache

/-- A text is the list of its characters. -/
abbrev Text := List Char

namespace Text

/-! ## Searching -/

/-- The text before the first occurrence of `pat` and the text after it. An empty pattern occurs at
    once. -/
def breakOn (pat : Text) : Text → Option (Text × Text)
  | [] => if pat.isEmpty then some ([], []) else none
  | c :: cs =>
      if pat.isPrefixOf (c :: cs) then
        some ([], (c :: cs).drop pat.length)
      else
        (breakOn pat cs).map fun cut => (c :: cut.1, cut.2)

/-- A text is what stands before the first occurrence, the pattern, and what stands after it. -/
theorem eq_of_breakOn {pat s before after : Text} (h : breakOn pat s = some (before, after)) :
    s = before ++ pat ++ after := by
  induction s generalizing before with
  | nil =>
      cases pat with
      | nil => simp [breakOn] at h; simp [h]
      | cons p ps => simp [breakOn] at h
  | cons c cs ih =>
      unfold breakOn at h
      split at h
      · rename_i hp
        obtain ⟨t, ht⟩ := List.isPrefixOf_iff_prefix.mp hp
        simp only [Option.some.injEq, Prod.mk.injEq] at h
        obtain ⟨rfl, rfl⟩ := h
        rw [← ht]
        simp
      · cases hcut : breakOn pat cs with
        | none => simp [hcut] at h
        | some cut =>
            obtain ⟨b, a⟩ := cut
            simp only [hcut, Option.map_some, Option.some.injEq, Prod.mk.injEq] at h
            obtain ⟨rfl, rfl⟩ := h
            simpa using ih hcut

/-- The parts of a text between the occurrences of a character. -/
def splitOn (sep : Char) : Text → List Text
  | [] => [[]]
  | c :: cs =>
      if c = sep then
        [] :: splitOn sep cs
      else
        match splitOn sep cs with
        | [] => [[c]]
        | part :: parts => (c :: part) :: parts

/-- The parts of a text between the occurrences of two equal characters in a row, searched from the
    left. -/
def splitOnTwice (sep : Char) : Text → List Text
  | [] => [[]]
  | [c] => [[c]]
  | c :: d :: cs =>
      if c = sep ∧ d = sep then
        [] :: splitOnTwice sep cs
      else
        match splitOnTwice sep (d :: cs) with
        | [] => [[c]]
        | part :: parts => (c :: part) :: parts

/-- The texts one after the other, with a separator between neighbours. -/
def join (sep : Text) : List Text → Text
  | [] => []
  | [t] => t
  | t :: u :: ts => t ++ sep ++ join sep (u :: ts)

/-! ## Lines -/

/-- The lines of a text, each with the newline that ends it. The last line may lack one. -/
def lines : Text → List Text
  | [] => []
  | c :: cs =>
      if c = '\n' then
        [c] :: lines cs
      else
        match lines cs with
        | [] => [[c]]
        | line :: rest => (c :: line) :: rest

/-- Cutting a text into lines loses nothing. -/
theorem flatten_lines (s : Text) : (lines s).flatten = s := by
  induction s with
  | nil => rfl
  | cons c cs ih =>
      unfold lines
      split
      · simp [ih]
      · split <;> rename_i hl <;> rw [hl] at ih <;> simp_all

/-- Whether the last character of a text is a newline. -/
def endsLine (s : Text) : Bool := s.getLast? == some '\n'

/-- Both line endings, `\r\n` and a lone `\r`, become a newline. -/
def unifyNewlines : Text → Text
  | [] => []
  | '\r' :: '\n' :: cs => '\n' :: unifyNewlines cs
  | c :: cs => (if c = '\r' then '\n' else c) :: unifyNewlines cs

/-! ## Blanks -/

/-- Spaces and tabs only. -/
def isBlank (s : Text) : Bool := s.all fun c => c == ' ' || c == '\t'

/-! ## Numerals -/

/-- The decimal digits of a natural number. -/
def ofNat (n : Nat) : Text := Nat.toDigits 10 n

/-- An integer in decimal, with a sign when it is negative. -/
def ofInt : Int → Text
  | .ofNat n => ofNat n
  | .negSucc n => '-' :: ofNat (n + 1)

/-- A natural number in decimal, filled up with zeros to a width. -/
def padded (width n : Nat) : Text :=
  let digits := ofNat n
  List.replicate (width - digits.length) '0' ++ digits

/-- A natural number in hexadecimal, filled up with zeros to a width. -/
def hex (width n : Nat) : Text :=
  let digits := Nat.toDigits 16 n
  List.replicate (width - digits.length) '0' ++ digits

/-! ## Order -/

/-- The order by code points: the first difference decides, and a proper beginning comes first. -/
def precedes : Text → Text → Bool
  | [], _ => true
  | _ :: _, [] => false
  | c :: cs, d :: ds => if c = d then precedes cs ds else c.toNat < d.toNat

/-- Texts in ascending order. -/
def sort (ts : List Text) : List Text := ts.mergeSort precedes

end Text

end Mustache

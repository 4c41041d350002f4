import Mustache.Text
import Mustache.Text.CaseTable

/-!
# `Mustache.Text.Case` — upper and lower case

The full case mappings of Unicode, which may lengthen a text (`ß` becomes `SS`) and which write a
sigma at the end of a word in its final form.
-/

namespace Mustache.Text

/-- The image of a code point under the first run that holds it. -/
def shiftBy (runs : List (Nat × Nat × Nat × Nat)) (n : Nat) : Option Nat :=
  (runs.find? fun (first, last, step, _) =>
      first ≤ n && n ≤ last && (n - first) % step == 0).map
    fun (first, _, _, image) => n - first + image

/-- One character under a full case mapping. -/
def mapCase (specials : List (Nat × List Nat)) (runs : List (Nat × Nat × Nat × Nat))
    (c : Char) : Text :=
  match specials.lookup c.toNat with
  | some ns => ns.map Char.ofNat
  | none =>
      match shiftBy runs c.toNat with
      | some n => [Char.ofNat n]
      | none => [c]

/-- The upper case of one character. -/
def upperChar (c : Char) : Text :=
  if c.toNat < 0x80 then [c.toUpper] else mapCase upperSpecials upperRuns c

/-- The lower case of one character, outside the context that gives a sigma its final form. -/
def lowerChar (c : Char) : Text :=
  if c.toNat < 0x80 then [c.toLower] else mapCase lowerSpecials lowerRuns c

/-- A text in upper case. -/
def upper (s : Text) : Text := s.flatMap upperChar

/-- Whether a range of a table holds a character. -/
def inRanges (ranges : List (Nat × Nat)) (c : Char) : Bool :=
  ranges.any fun r => r.1 ≤ c.toNat && c.toNat ≤ r.2

/-- Whether the first character that is not ignored for casing is a cased letter. -/
def meetsCased (s : Text) : Bool :=
  match s.find? fun c => !inRanges caseIgnorableRanges c with
  | some c => inRanges casedRanges c
  | none => false

/-- The lower case of a text, given the characters before it from the nearest outwards. A sigma
    after a cased letter and not before one is final. -/
def lowerAfter (before : Text) : Text → Text
  | [] => []
  | c :: cs =>
      let here :=
        if c = 'Σ' then
          [if meetsCased before && !meetsCased cs then 'ς' else 'σ']
        else
          lowerChar c
      here ++ lowerAfter (c :: before) cs

/-- A text in lower case. -/
def lower (s : Text) : Text := lowerAfter [] s

end Mustache.Text

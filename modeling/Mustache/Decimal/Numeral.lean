import Mustache.Text.Digit
import Mustache.Text.Space
import Mustache.Decimal.FloatText

/-!
# `Mustache.Decimal.Numeral` — reading numerals

Numerals in settings may use the decimal digits of any script. The strict readers take digits and
one sign; the lenient one also takes white space around them, but no information separators, and
single underscores between digits. It does not take more digits than the limits allow.
-/

namespace Mustache

/-- What the reading of values is limited to. Where nothing is said there is no limit. -/
class ReadingLimits where
  /-- The most digits of an integer. -/
  digits : Option Nat
  /-- The most lists and objects of a JSON text that are open at a time. -/
  nesting : Option Nat

namespace ReadingLimits

/-- The usual limits. -/
instance usual : ReadingLimits := ⟨some 4300, none⟩

variable [ReadingLimits]

/-- Whether an integer may have a number of digits. -/
def allowsDigits (count : Nat) : Bool := digits.all (count ≤ ·)

/-- Whether a list or an object may be opened in some number of them. -/
def allowsOpening (depth : Nat) : Bool := nesting.all (depth < ·)

end ReadingLimits

namespace Decimal

/-- The number that a run of digits writes, continuing from the digits before it. -/
def digitsFrom (n : Nat) : Text → Option Nat
  | [] => some n
  | c :: cs =>
      match Text.digitValue? c with
      | some d => digitsFrom (10 * n + d) cs
      | none => none

/-- The number that a non-empty run of digits writes. -/
def digits? : Text → Option Nat
  | [] => none
  | s => digitsFrom 0 s

/-- Whether a leading sign is a minus, and the text after the sign if there is one. -/
def cutSign : Text → Bool × Text
  | '-' :: s => (true, s)
  | '+' :: s => (false, s)
  | s => (false, s)

/-- A natural number with a sign. -/
def signed (negative : Bool) (n : Nat) : Int := if negative then -n else n

/-- An optional sign and digits. -/
def integer? (s : Text) : Option Int :=
  let (negative, body) := cutSign s
  (digits? body).map (signed negative)

/-- Without the underscores that stand between two digits. -/
def dropUnderscores : Text → Text
  | [] => []
  | c :: '_' :: d :: cs =>
      if Text.isDigit c && Text.isDigit d then
        c :: dropUnderscores (d :: cs)
      else
        c :: '_' :: dropUnderscores (d :: cs)
  | c :: cs => c :: dropUnderscores cs

/-- White space that may stand around a numeral: all but the information separators. -/
def isPadding (c : Char) : Bool :=
  Text.isSpace c && !(0x1c ≤ c.toNat && c.toNat ≤ 0x1f)

/-- Without the white space around it. -/
def unpadded (s : Text) : Text :=
  ((s.dropWhile isPadding).reverse.dropWhile isPadding).reverse

/-- An integer with white space around it and underscores between its digits, of which there must
    not be too many. -/
def lenientInteger? [ReadingLimits] (s : Text) : Option Int :=
  let (negative, body) := cutSign (unpadded s)
  let run := dropUnderscores body
  if ReadingLimits.allowsDigits run.length then (digits? run).map (signed negative) else none

/-- An optional sign and digits around a point, at least one of them. -/
def pointed? (s : Text) : Option Float :=
  let (negative, body) := cutSign s
  match Text.breakOn ['.'] body with
  | none => none
  | some (whole, places) =>
      if whole.isEmpty && places.isEmpty then
        none
      else
        (digitsFrom 0 (whole ++ places)).map fun m =>
          nearestFloat negative m (-(places.length : Int))

end Decimal

end Mustache

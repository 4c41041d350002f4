import Mustache.Text
import Mustache.Decimal.Shortest

/-!
# `Mustache.Decimal.FloatText` — writing and reading floats

A float is written with the fewest digits that read back, positionally when its decimal exponent is
at least `-4` and below `16`, and with an exponent otherwise.
-/

namespace Mustache.Decimal

/-- How a float is written. -/
structure FloatStyle where
  /-- The least decimal exponent that is written positionally. -/
  firstPositional : Int
  /-- The least exponent above those that are written positionally. -/
  endPositional : Int
  /-- The least number of digits of an exponent. -/
  exponentDigits : Nat

/-- Values are positional from `10^-4` up to `10^16`, and exponents have two digits or more. -/
def valueStyle : FloatStyle where
  firstPositional := -4
  endPositional := 16
  exponentDigits := 2

/-- Zeros in front up to a width. -/
def padLeft (width : Nat) (s : Text) : Text := List.replicate (width - s.length) '0' ++ s

/-- The digits of `digits · 10^t` with a point, and zeros where the point needs them. -/
def positional (digits : Text) (t : Int) : Text :=
  if 0 ≤ t then
    digits ++ List.replicate t.toNat '0' ++ ".0".toList
  else
    let places := (-t).toNat
    let padded := padLeft (places + 1) digits
    let whole := padded.length - places
    padded.take whole ++ '.' :: padded.drop whole

/-- The digits of `digits · 10^t` with one place before the point, and the exponent. -/
def scientific (style : FloatStyle) (digits : Text) (exponent : Int) : Text :=
  let mantissa :=
    match digits with
    | d :: e :: ds => d :: '.' :: e :: ds
    | ds => ds
  let sign := if exponent < 0 then '-' else '+'
  mantissa ++ 'e' :: sign :: padLeft style.exponentDigits (Text.ofNat exponent.natAbs)

/-- The text of a value in a style. -/
def FloatStyle.write (style : FloatStyle) : FloatValue → Text
  | .nan => "nan".toList
  | .infinite negative => if negative then "-inf".toList else "inf".toList
  | .finite negative m q =>
      let body :=
        if m = 0 then
          "0.0".toList
        else
          let (c, t) := shortest m q
          let digits := Text.ofNat c
          let exponent := t + digits.length - 1
          if style.firstPositional ≤ exponent ∧ exponent < style.endPositional then
            positional digits t
          else
            scientific style digits exponent
      if negative then '-' :: body else body

/-- The text of a float. -/
def floatText (x : Float) : Text := valueStyle.write (FloatValue.ofFloat x)

/-- The float nearest to `± m · 10^e`. Magnitudes beyond every float give infinity or zero. -/
def nearestFloat (negative : Bool) (m : Nat) (e : Int) : Float :=
  let size := e + (Nat.toDigits 10 m).length
  let magnitude :=
    if m = 0 ∨ size < -400 then 0.0
    else if 400 < size then 1.0 / 0.0
    else if 0 ≤ e then Float.ofScientific m false e.toNat
    else Float.ofScientific m true (-e).toNat
  if negative then -magnitude else magnitude

end Mustache.Decimal

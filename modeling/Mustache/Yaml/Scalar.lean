import Mustache.Yaml.Timestamp

/-!
# `Mustache.Yaml.Scalar` — what a plain scalar stands for

A scalar without quotes stands for a null, a boolean, an integer, a float or a moment if it is
written like one, and else for its text. The spellings are those of YAML 1.1: `yes` is a boolean, a
leading zero makes an octal numeral, and colons separate the digits of a numeral to the base sixty.

## Contents
- **Words.** Nulls, booleans, infinities.
- **Integers.** `integer?`.
- **Floats.** `float?`.
- **Resolution.** `Plain`, `Plain.ofText`.
-/

namespace Mustache.Yaml

/-! ## Words -/

/-- The spellings of null. -/
def nulls : List Text := ["", "~", "null", "Null", "NULL"].map String.toList

/-- The spellings of the booleans. -/
def booleans : List (Text × Bool) :=
  (["yes", "Yes", "YES", "true", "True", "TRUE", "on", "On", "ON"].map fun w => (w.toList, true))
    ++ ["no", "No", "NO", "false", "False", "FALSE", "off", "Off", "OFF"].map fun w =>
      (w.toList, false)

/-- The spellings of the floats that are no numbers or infinite. -/
def extremes : List (Text × Float) :=
  ([".nan", ".NaN", ".NAN"].map fun w => (w.toList, 0.0 / 0.0))
    ++ ([".inf", ".Inf", ".INF", "+.inf", "+.Inf", "+.INF"].map fun w => (w.toList, 1.0 / 0.0))
    ++ ["-.inf", "-.Inf", "-.INF"].map fun w => (w.toList, -1.0 / 0.0)

/-! ## Integers -/

/-- Without a sign at the beginning, and whether that was a minus. -/
def cutSign : Text → Bool × Text
  | '-' :: s => (true, s)
  | '+' :: s => (false, s)
  | s => (false, s)

/-- Without underscores. -/
def dropUnderscores (s : Text) : Text := s.filter (· != '_')

/-- Whether a text is a digit of a class followed by such digits and underscores. -/
def isNumeral (first others : Char → Bool) : Text → Bool
  | [] => false
  | c :: s => first c && s.all fun d => others d || d == '_'

/-- Binary digits. -/
def isBinary (c : Char) : Bool := c == '0' || c == '1'

/-- Octal digits. -/
def isOctal (c : Char) : Bool := '0' ≤ c && c ≤ '7'

/-- Hexadecimal digits. -/
def isHex (c : Char) : Bool := (Json.hexDigit? c).isSome

/-- The digits one to nine. -/
def isLeading (c : Char) : Bool := '1' ≤ c && c ≤ '9'

/-- The number that digits write in a base. -/
def inBase (base : Nat) (digits : Text) : Nat :=
  digits.foldl (fun n c => base * n + (Json.hexDigit? c).getD 0) 0

/-- A numeral after a marker of its base: digits and underscores. Without digits it has no
    number. -/
def marked? (isBaseDigit : Char → Bool) (base : Nat) (s : Text) : Option (Option Nat) :=
  let digits := dropUnderscores s
  if s.isEmpty || !digits.all isBaseDigit then none
  else if digits.isEmpty then some none
  else some (some (inBase base digits))

/-- One digit, or two that are below sixty. -/
def isSixtieth : Text → Bool
  | [c] => c.isDigit
  | [c, d] => '0' ≤ c && c ≤ '5' && d.isDigit
  | _ => false

/-- What a numeral without a sign writes. -/
def natural? (s : Text) : Option (Option Nat) :=
  match s with
  | ['0'] => some (some 0)
  | '0' :: 'b' :: s => marked? isBinary 2 s
  | '0' :: 'x' :: s => marked? isHex 16 s
  | '0' :: s =>
      if s.all fun c => isOctal c || c == '_' then
        some (some (inBase 8 (dropUnderscores s)))
      else
        none
  | s =>
      match Text.splitOn ':' s with
      | [] => none
      | head :: rest =>
          if isNumeral isLeading Char.isDigit head && rest.all isSixtieth then
            let first := inBase 10 (dropUnderscores head)
            some (some (rest.foldl (fun n d => 60 * n + inBase 10 d) first))
          else
            none

/-- What a scalar that is written like an integer stands for: an integer, or nothing if it has no
    digits. -/
def integer? (s : Text) : Option (Option Int) :=
  let (negative, body) := cutSign s
  (natural? body).map fun n => n.map fun (n : Nat) => if negative then -(n : Int) else n

/-! ## Floats -/

/-- An exponent, which always has a sign, at the end of a scalar. -/
def exponent? : Text → Option Int
  | [] => some 0
  | e :: sign :: digits =>
      if (e == 'e' || e == 'E') && (sign == '+' || sign == '-') && !digits.isEmpty
          && digits.all Char.isDigit then
        let n : Int := inBase 10 digits
        some (if sign == '-' then -n else n)
      else
        none
  | [_] => none

/-- Whether a text is digits and underscores. -/
def isPlaces (s : Text) : Bool := s.all fun c => c.isDigit || c == '_'

/-- The float of the digits around a point. -/
def pointFloat (negative : Bool) (whole places : Text) (exponent : Int) : Float :=
  let places := dropUnderscores places
  Decimal.nearestFloat negative (inBase 10 (dropUnderscores whole ++ places))
    (exponent - places.length)

/-- A float with a point to the base ten. A scalar that begins with the point has no sign. -/
def decimalFloat? (s : Text) : Option Float := do
  let (negative, body) := cutSign s
  let (whole, after) ← Text.breakOn ['.'] body
  let digit (c : Char) : Bool := c.isDigit || c == '_'
  let places := after.takeWhile digit
  let e ← exponent? (after.dropWhile digit)
  if isNumeral Char.isDigit Char.isDigit whole then
    return pointFloat negative whole places e
  else if whole.isEmpty && body.length == s.length
      && isNumeral Char.isDigit Char.isDigit places then
    return pointFloat false whole places e
  else
    none

/-- A float with a point to the base sixty. -/
def sixtiesFloat? (s : Text) : Option Float := do
  let (negative, body) := cutSign s
  let (whole, places) ← Text.breakOn ['.'] body
  match (Text.splitOn ':' whole).reverse with
  | last :: middle :: more =>
      let segments := middle :: more
      let head := segments.getLastD []
      let between := last :: segments.dropLast
      if isPlaces places && between.all isSixtieth && isNumeral Char.isDigit Char.isDigit head then
        let lowest := pointFloat false last places 0
        let step (acc : Float × Float) (d : Text) : Float × Float :=
          (acc.1 + Float.ofNat (inBase 10 (dropUnderscores d)) * acc.2, acc.2 * 60)
        let x := (segments.foldl step (lowest, 60)).1
        return if negative then -x else x
      else
        none
  | _ => none

/-- A float. -/
def float? (s : Text) : Option Float :=
  match extremes.find? fun e => e.1 == s with
  | some (_, x) => some x
  | none =>
      match decimalFloat? s with
      | some x => some x
      | none => sixtiesFloat? s

/-! ## Resolution -/

/-- What a plain scalar stands for. -/
inductive Plain where
  | value (v : Value)
  /-- The entries of other mappings, where it is a key. -/
  | merge
  /-- A default value; where it is a key, its text. -/
  | default
  /-- Nothing, though it is written like an integer or a moment. -/
  | nothing

/-- The key for the entries of other mappings. -/
def mergeKey : Text := "<<".toList

/-- The key for a default value. -/
def defaultKey : Text := "=".toList

/-- A value that may be missing. -/
def Plain.ofOption (v : Option Value) : Plain :=
  match v with
  | some v => .value v
  | none => .nothing

/-- What a plain scalar stands for. -/
def Plain.ofText (s : Text) : Plain :=
  if s = mergeKey then .merge
  else if s = defaultKey then .default
  else if nulls.contains s then .value .null
  else
    match booleans.find? fun e => e.1 == s with
    | some (_, b) => .value (.bool b)
    | none =>
        match float? s, integer? s, timestamp? s with
        | some x, _, _ => .value (.float x)
        | none, some n, _ => .ofOption (n.map .int)
        | none, none, some m => .ofOption (m.map .moment)
        | none, none, none => .value (.text s)

end Mustache.Yaml

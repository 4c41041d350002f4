import Mustache.Json

/-!
# `Mustache.Yaml.Timestamp` — reading dates and times

A scalar that is written like a date is one: four digits for the year, two for the month and two for
the day, with hyphens. A time follows a date, in which month and day may then have one digit, after
a `T` or blanks. Its seconds may have places, of which six count, and a zone may come last. Not
every scalar that is written so is a moment of the calendar.

## Contents
- **Numbers.** `dayNumbers?`, `clockNumbers?`, `zoneMinutes?`.
- **Moments.** `timestamp?`.
-/

namespace Mustache.Yaml

/-! ## Numbers -/

/-- The number of the digits at the beginning of a text, of which there are some, and the rest. -/
def digits? (least most : Nat) (s : Text) : Option (Nat × Text) :=
  let digits := (s.take most).takeWhile Char.isDigit
  if digits.length < least then none else some (Json.decimal digits, s.drop digits.length)

/-- Year, month and day. -/
def dayNumbers? (s : Text) : Option ((Nat × Nat × Nat) × Text) := do
  let (year, s) ← digits? 4 4 s
  let (month, s) ← digits? 1 2 (← Json.expect? '-' s)
  let (day, s) ← digits? 1 2 (← Json.expect? '-' s)
  return ((year, month, day), s)

/-- The microseconds that the places of a second write. -/
def microseconds (places : Text) : Nat :=
  Json.decimal ((places ++ List.replicate 6 '0').take 6)

/-- Hour, minute, second and microsecond. -/
def clockNumbers? (s : Text) : Option ((Nat × Nat × Nat × Nat) × Text) := do
  let (hour, s) ← digits? 1 2 s
  let (minute, s) ← digits? 2 2 (← Json.expect? ':' s)
  let (second, s) ← digits? 2 2 (← Json.expect? ':' s)
  let (places, s) := match s with
    | '.' :: s => Json.cutDigits s
    | s => ([], s)
  return ((hour, minute, second, microseconds places), s)

/-- Without the blanks at the beginning. -/
def dropBlanks (s : Text) : Text := s.dropWhile fun c => c == ' ' || c == '\t'

/-- The time of day after what separates it from the date. -/
def afterSeparator? : Text → Option Text
  | [] => none
  | c :: s =>
      if c = 'T' ∨ c = 't' then some s
      else if c = ' ' ∨ c = '\t' then some (dropBlanks s)
      else none

/-- The minutes of a zone after its sign: the hours, and perhaps minutes. -/
def zoneSize? (s : Text) : Option Nat := do
  let (hours, s) ← digits? 1 2 s
  match s with
  | [] => return hours * 60
  | s =>
      let (minutes, rest) ← digits? 2 2 (← Json.expect? ':' s)
      if rest.isEmpty then return hours * 60 + minutes else none

/-- The minutes of the zone at the end of a timestamp, if there is a zone. -/
def zoneMinutes? (s : Text) : Option (Option Int) :=
  if s.isEmpty then
    some none
  else
    match dropBlanks s with
    | ['Z'] => some (some 0)
    | '+' :: s => (zoneSize? s).map fun n => some (n : Int)
    | '-' :: s => (zoneSize? s).map fun n => some (-(n : Int))
    | _ => none

/-! ## Moments -/

/-- The moment of a date and a time with a zone or without one, if there is one. -/
def moment? (day : Nat × Nat × Nat) (clock : Nat × Nat × Nat × Nat) (zone : Option Int) :
    Option Moment := do
  let (year, month, day) := day
  let (hour, minute, second, microsecond) := clock
  let d ← Date.ofNumbers? year month day
  let c ← Clock.ofNumbers? hour minute second microsecond
  match zone with
  | none => return .time d c none
  | some minutes => return .time d c (some (← Zone.ofMinutes? minutes))

/-- What a scalar that is written like a timestamp stands for: a moment, or nothing if the calendar
    does not have it. -/
def timestamp? (s : Text) : Option (Option Moment) := do
  let ((year, month, day), rest) ← dayNumbers? s
  if rest.isEmpty then
    if s.length = 10 then return (Date.ofNumbers? year month day).map .day else none
  else
    let (clock, rest) ← clockNumbers? (← afterSeparator? rest)
    return moment? (year, month, day) clock (← zoneMinutes? rest)

end Mustache.Yaml

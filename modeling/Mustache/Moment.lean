import Mustache.Text

/-!
# `Mustache.Moment` — dates and times

A moment is a day of the calendar, or a time on such a day, which may say how far its clock is ahead
of universal time. The calendar is the one with a leap year in four years, but not in a hundred, but
in four hundred, extended to the years 1 to 9999.

## Contents
- **Days.** `Date`, `Date.ofNumbers?`, `Date.ordinal`.
- **Times of day.** `Clock`, `Zone`.
- **Moments.** `Moment`, and `Moment.identity`, by which moments are compared.
- **Texts.** `Moment.str`, and `Moment.repr`, which shows how a moment is made.
-/

namespace Mustache

/-! ## Days -/

namespace Date

/-- Whether a year has a leap day. -/
def isLeap (year : Nat) : Bool := year % 4 == 0 && (year % 100 != 0 || year % 400 == 0)

/-- The number of days of a month. -/
def daysIn (year month : Nat) : Nat :=
  match month with
  | 2 => if isLeap year then 29 else 28
  | 4 | 6 | 9 | 11 => 30
  | _ => 31

/-- Whether three numbers are a day of the calendar. -/
def isDay (year month day : Nat) : Bool :=
  1 ≤ year && year ≤ 9999 && 1 ≤ month && month ≤ 12 && 1 ≤ day && day ≤ daysIn year month

end Date

/-- A day of the calendar. -/
structure Date where
  year : Nat
  month : Nat
  day : Nat
  inCalendar : Date.isDay year month day = true
  deriving DecidableEq, Repr

namespace Date

/-- The day of three numbers, if there is one. -/
def ofNumbers? (year month day : Nat) : Option Date :=
  if h : isDay year month day then some ⟨year, month, day, h⟩ else none

/-- The number of days in the years before a year. -/
def daysBeforeYear (year : Nat) : Nat :=
  let past := year - 1
  past * 365 + past / 4 - past / 100 + past / 400

/-- The number of days in the months of a year before a month. -/
def daysBeforeMonth (year month : Nat) : Nat :=
  (List.range (month - 1)).foldl (fun days i => days + daysIn year (i + 1)) 0

/-- The number of a day, counted from the first day of the first year, which is number one. -/
def ordinal (d : Date) : Nat := daysBeforeYear d.year + daysBeforeMonth d.year d.month + d.day

/-- A day as year, month and day. -/
def str (d : Date) : Text :=
  Text.padded 4 d.year ++ '-' :: Text.padded 2 d.month ++ '-' :: Text.padded 2 d.day

end Date

/-! ## Times of day -/

/-- A time of day. -/
structure Clock where
  hour : Nat
  minute : Nat
  second : Nat
  microsecond : Nat
  inDay : hour < 24 ∧ minute < 60 ∧ second < 60 ∧ microsecond < 1000000
  deriving DecidableEq, Repr

namespace Clock

/-- The time of day of four numbers, if there is one. -/
def ofNumbers? (hour minute second microsecond : Nat) : Option Clock :=
  if h : hour < 24 ∧ minute < 60 ∧ second < 60 ∧ microsecond < 1000000 then
    some ⟨hour, minute, second, microsecond, h⟩
  else
    none

/-- The microseconds since midnight. -/
def microseconds (c : Clock) : Nat :=
  ((c.hour * 60 + c.minute) * 60 + c.second) * 1000000 + c.microsecond

/-- A time of day with its microseconds, unless there are none. -/
def str (c : Clock) : Text :=
  Text.padded 2 c.hour ++ ':' :: Text.padded 2 c.minute ++ ':' :: Text.padded 2 c.second
    ++ if c.microsecond = 0 then [] else '.' :: Text.padded 6 c.microsecond

end Clock

/-- How far a clock is ahead of universal time: less than a day, before or after. -/
structure Zone where
  minutes : Int
  inDay : minutes.natAbs < 1440
  deriving DecidableEq, Repr

namespace Zone

/-- Universal time. -/
def universal : Zone := ⟨0, by decide⟩

/-- The zone that is some minutes ahead, if there is one. -/
def ofMinutes? (minutes : Int) : Option Zone :=
  if h : minutes.natAbs < 1440 then some ⟨minutes, h⟩ else none

/-- A zone as sign, hours and minutes. -/
def str (z : Zone) : Text :=
  let size := z.minutes.natAbs
  (if z.minutes < 0 then '-' else '+')
    :: Text.padded 2 (size / 60) ++ ':' :: Text.padded 2 (size % 60)

/-- How a zone is made. A time span counts whole days and the seconds after them. -/
def repr (z : Zone) : Text :=
  let seconds := z.minutes * 60
  if z.minutes = 0 then
    "datetime.timezone.utc".toList
  else
    let span :=
      if z.minutes < 0 then "days=-1, seconds=".toList ++ Text.ofInt (seconds + 86400)
      else "seconds=".toList ++ Text.ofInt seconds
    "datetime.timezone(datetime.timedelta(".toList ++ span ++ "))".toList

end Zone

/-! ## Moments -/

/-- A day, or a time on a day. -/
inductive Moment where
  | day (d : Date)
  | time (d : Date) (c : Clock) (zone : Option Zone)
  deriving DecidableEq, Repr

/-- What makes two moments the same. -/
inductive MomentIdentity where
  | day (ordinal : Nat)
  /-- The microseconds on a clock whose zone is not known. -/
  | onClock (microseconds : Int)
  /-- The microseconds of universal time. -/
  | universal (microseconds : Int)
  deriving DecidableEq, Repr

namespace Moment

/-- Two times with zones are the same if they are at once. A day is no time. -/
def identity : Moment → MomentIdentity
  | .day d => .day d.ordinal
  | .time d c zone =>
      let onClock : Int := d.ordinal * 86400000000 + c.microseconds
      match zone with
      | some z => .universal (onClock - z.minutes * 60000000)
      | none => .onClock onClock

/-! ## Texts -/

/-- A moment as it is read. -/
def str : Moment → Text
  | .day d => d.str
  | .time d c zone =>
      d.str ++ ' ' :: c.str ++ match zone with
        | some z => z.str
        | none => []

/-- The name of the type of a moment in a report. -/
def typeName : Moment → Text
  | .day _ => "date".toList
  | .time .. => "datetime".toList

/-- The numbers of a time of day. Seconds are shown only if they are not zero, or if microseconds
    are. -/
def clockNumbers (c : Clock) : List Nat :=
  if c.microsecond ≠ 0 then [c.hour, c.minute, c.second, c.microsecond]
  else if c.second ≠ 0 then [c.hour, c.minute, c.second]
  else [c.hour, c.minute]

/-- How a moment is made. -/
def repr (m : Moment) : Text :=
  let dayNumbers (d : Date) : List Text := [d.year, d.month, d.day].map Text.ofNat
  let parts := match m with
    | .day d => dayNumbers d
    | .time d c zone =>
        dayNumbers d ++ (clockNumbers c).map Text.ofNat
          ++ match zone with
            | some z => ["tzinfo=".toList ++ z.repr]
            | none => []
  "datetime.".toList ++ m.typeName ++ '(' :: Text.join ", ".toList parts ++ [')']

end Moment

end Mustache

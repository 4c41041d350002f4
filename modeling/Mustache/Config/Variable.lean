import Mustache.Decimal.Numeral
import Mustache.Error
import Mustache.Json
import Mustache.Text.Case

/-!
# `Mustache.Config.Variable` — settings in environment variables

An environment variable whose name begins with the stem of the engine overrides a setting. The rest
of its name is the path of the setting: segments between double underscores if there are any, else
between single ones, in any case. Its value is read as a boolean, an integer, a number with a point
or JSON if it is one, and else as text.

## Contents
- **Names.** `Variable.path?`.
- **Values.** `Variable.value`.
- **Overrides.** `overrides` lists what the environment overrides.
-/

namespace Mustache

namespace Config

/-! ## Names -/

namespace Variable

/-- The segments of the name of a variable without its stem. -/
def segments (name : Text) : List Text :=
  if (Text.breakOn ['_', '_'] name).isSome then
    Text.splitOnTwice '_' name
  else
    Text.splitOn '_' name

/-- The path that a variable sets, unless a segment is empty. -/
def path? (name : Text) : Option (List Text) :=
  let parts := segments name
  if parts.any List.isEmpty then none else some (parts.map Text.lower)

/-- The path that a variable sets. A malformed name is an error if names are checked, and else has
    the empty path. -/
def path (strict : Bool) (name : Text) : Except ConfigurationFault (List Text) :=
  match path? name with
  | some p => .ok p
  | none => if strict then .error (.malformedVariable name) else .ok []

/-! ## Values -/

/-- A boolean in any case. -/
def boolean? (s : Text) : Option Bool :=
  let word := Text.lower s
  if word = "true".toList then some true
  else if word = "false".toList then some false
  else none

/-- Whether a text begins with one character and ends with another. -/
def isBetween (first last : Char) (s : Text) : Bool :=
  s.head? == some first && s.getLast? == some last

/-- A list or an object in JSON. What is no JSON is none, but limits must be kept. -/
def json? [ReadingLimits] (s : Text) : Except Fault (Option Value) :=
  if isBetween '{' '}' s || isBetween '[' ']' s then
    match Json.read s with
    | .ok v => .ok (some v)
    | .error .malformed => .ok none
    | .error .tooLong => .error .badValue
    | .error .tooDeep => .error .exhausted
  else
    .ok none

/-- The value of a variable. White space around it does not count, but among that of an integer
    there must not be an information separator. -/
def value [ReadingLimits] (s : Text) : Except Fault Value :=
  let body := Text.strip s
  match boolean? body with
  | some b => .ok (.bool b)
  | none =>
      if (Decimal.integer? body).isSome then
        match Decimal.lenientInteger? s with
        | some n => .ok (.int n)
        | none => .error .badValue
      else
        match Decimal.pointed? body with
        | some x => .ok (.float x)
        | none => (json? body).map fun v => v.getD (.text body)

end Variable

/-! ## Overrides -/

/-- The variable that names the configuration file. -/
def fileVariable : Text := variableStem ++ "CONFIG".toList

/-- The rest of the name of a variable that sets something. -/
def settingName? (fullName : Text) : Option Text :=
  if fullName = fileVariable then
    none
  else
    match variableStem.isPrefixOf fullName, fullName.drop variableStem.length with
    | true, c :: cs => some (c :: cs)
    | _, _ => none

/-- What variables override: paths with values. -/
abbrev Changes := List (List Text × Value)

/-- What the environment overrides. -/
structure Overrides where
  changes : Changes
  /-- What is wrong with the variable after those that give the changes, if there is one. -/
  fault : Option Fault

namespace Overrides

/-- Overrides with a change before them. -/
def after (o : Overrides) (path : List Text) (v : Value) : Overrides :=
  { o with changes := (path, v) :: o.changes }

/-- All changes, if nothing is wrong with any variable. -/
def complete (o : Overrides) : Except Fault Changes :=
  match o.fault with
  | none => .ok o.changes
  | some fault => .error fault

end Overrides

/-- What some variables override, in the order of the variables. -/
def overridesOf [ReadingLimits] (strict : Bool) (environment : Table Text Text) :
    List Text → Overrides
  | [] => ⟨[], none⟩
  | v :: vs =>
      match settingName? v with
      | none => overridesOf strict environment vs
      | some name =>
          match Variable.path strict name with
          | .error fault => ⟨[], some (.configuration fault)⟩
          | .ok [] => overridesOf strict environment vs
          | .ok path =>
              match Variable.value ((environment.get? v).getD []) with
              | .error fault => ⟨[], some fault⟩
              | .ok w => (overridesOf strict environment vs).after path w

/-- What the environment overrides, in the order of the names of the variables. -/
def overrides [ReadingLimits] (strict : Bool) (environment : Table Text Text) : Overrides :=
  overridesOf strict environment (Text.sort environment.keys)

end Config

end Mustache

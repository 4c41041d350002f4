import Mustache.Config.Schema
import Mustache.Decimal.Numeral
import Mustache.Files.Path
import Mustache.Render

/-!
# `Mustache.Config.Settings` — reading settings off a configuration

A configuration has a section for rendering and one for parsing. A section or setting that is absent
has its default. A setting of the wrong type is read as far as that makes sense: everything has a
text, and numbers and numerals are integers.

## Contents
- **Defaults.** `Config.defaults`, and `Config.bundled?` for the files that come with the engine.
- **Sections.** `Config.sectionOf`, `Config.setting?`.
- **Integers.** `Value.toInteger`.
- **Settings.** `RenderSettings` and `ParseSettings` are read setting by setting.
-/

namespace Mustache

namespace Config

/-! ## Defaults -/

/-- The suffix of partial files. -/
def defaultSuffix : Text := ".mustache".toList

/-- The default configuration. -/
def defaults : Entries :=
  .ofNames
    [("template", .ofNames
        [("delimiters", .ofNames
            [("open", .text Delimiters.braces.opening),
             ("close", .text Delimiters.braces.closing)]),
         ("copy_strings", .bool true)]),
     ("render", .ofNames
        [("escape", .text Escape.defaultName),
         ("max_partial_depth", .int Renderer.defaultMaxDepth),
         ("partial_suffix", .text defaultSuffix)])]

/-- What the files that come with the engine hold: the default configuration and the schema. -/
def bundled? (p : Path) : Option Value :=
  if p.resolve = .ofText "config/defaults.yaml".toList then
    some (.map .dict defaults)
  else if p.resolve = .ofText "schemas/config.schema.yaml".toList then
    some Schema.configurationDocument
  else
    none

/-! ## Sections -/

/-- What a mapping has under a name, if it has something. -/
def setting? (name : String) (v : Value) : Except Fault (Option Value) :=
  match v with
  | .map _ es => .ok (Table.get? es (.text name.toList))
  | .closedMap => .error .badType
  | _ => .error .missingAttribute

/-- A mapping for a value that may be absent. Whatever counts as false is an empty one. -/
def orEmpty (v : Option Value) : Value :=
  match v with
  | some v => if v.truthy then v else .map .dict []
  | none => .map .dict []

/-- A section of a configuration. -/
def sectionOf (name : String) (config : Value) : Except Fault Value :=
  (setting? name config).map orEmpty

end Config

/-! ## Integers -/

/-- The integer that a text writes. -/
def Text.toInteger [ReadingLimits] (s : Text) : Except Fault Int :=
  match Decimal.lenientInteger? s with
  | some n => .ok n
  | none => .error .badValue

/-- The integer that a value stands for. Floats lose their fraction; a numeral may be a text or
    bytes, which must be ASCII. -/
def Value.toInteger [ReadingLimits] : Value → Except Fault Int
  | .int n => .ok n
  | .bool b => .ok (if b then 1 else 0)
  | .float x =>
      match FloatValue.ofFloat x with
      | .nan => .error .badValue
      | v =>
          match v.truncate? with
          | some n => .ok n
          | none => .error .outOfRange
  | .text s => s.toInteger
  | .bytes _ bs =>
      if bs.all (· < 0x80) then
        Text.toInteger (bs.map fun b => Char.ofNat b.toNat)
      else
        .error .badValue
  | _ => .error .badType

/-! ## Settings -/

namespace RenderSettings

/-- The section of the settings for rendering. -/
def part (config : Value) : Except Fault Value := Config.sectionOf "render" config

/-- The name of the escaping policy. -/
def escape (config : Value) : Except Fault Text := do
  let v ← Config.setting? "escape" (← part config)
  return (v.map Value.str).getD Escape.defaultName

/-- How many partials may be open at a time. -/
def maxDepth [ReadingLimits] (config : Value) : Except Fault Int := do
  match ← Config.setting? "max_partial_depth" (← part config) with
  | some v => v.toInteger
  | none => return Renderer.defaultMaxDepth

/-- The suffix of partial files. -/
def partialSuffix (config : Value) : Except Fault Text := do
  let v ← Config.setting? "partial_suffix" (← part config)
  return (v.map Value.str).getD Config.defaultSuffix

end RenderSettings

namespace ParseSettings

/-- The section of the settings for parsing. -/
def part (config : Value) : Except Fault Value := Config.sectionOf "template" config

/-- The delimiters with which a template begins. -/
def delimiters (config : Value) : Except Fault Delimiters := do
  let v ← Config.setting? "delimiters" (← part config)
  let pair := Config.orEmpty v
  let opening ← Config.setting? "open" pair
  let closing ← Config.setting? "close" pair
  return ⟨(opening.map Value.str).getD Delimiters.braces.opening,
    (closing.map Value.str).getD Delimiters.braces.closing⟩

/-- Whether a template keeps copies of its texts. Nothing depends on it. -/
def copyStrings (config : Value) : Except Fault Bool := do
  let v ← Config.setting? "copy_strings" (← part config)
  return (v.map Value.truthy).getD true

/-- The delimiters and whether texts are copied. -/
def options (config : Value) : Except Fault (Delimiters × Bool) := do
  return (← delimiters config, ← copyStrings config)

end ParseSettings

end Mustache

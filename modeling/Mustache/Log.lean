import Mustache.SyntaxError

/-!
# `Mustache.Log` — what the engine reports while it works
-/

namespace Mustache

/-- How grave a report is. -/
inductive LogLevel where
  | debug
  | warning
  deriving DecidableEq, Repr

/-- A report. -/
inductive LogEvent where
  /-- A template was parsed into a number of root elements. -/
  | parsed (name : Option Text) (size : Nat)
  | parseFailed (name : Option Text) (error : SyntaxError)
  /-- A function that needs arguments stands where a value is interpolated. -/
  | interpolationNeedsArguments (key : Text)
  | partialNotFound (name : Text)
  /-- A partial was not expanded because too many expansions are open. -/
  | depthReached (name : Option Text) (limit : Int)
  | partialsLoaded (count : Nat) (directory : Text)
  | configurationLoaded (sources : List Text)
  deriving DecidableEq, Repr

namespace LogEvent

/-- How grave an event is. -/
def level : LogEvent → LogLevel
  | .depthReached .. => .warning
  | _ => .debug

/-- A template's name in a report. -/
def shownName (unnamed : Text) : Option Text → Text
  | some name => if name.isEmpty then unnamed else name
  | none => unnamed

/-- The sentence that reports an event. -/
def message : LogEvent → Text
  | .parsed name size =>
      "Parsed template ".toList ++ shownName "<text>".toList name ++ " (".toList
        ++ Text.ofNat size ++ " root elements)".toList
  | .parseFailed name e =>
      "Template ".toList ++ shownName "<text>".toList name ++ " failed to parse: ".toList
        ++ e.kind.name ++ " at ".toList ++ Text.ofNat e.row ++ ':' :: Text.ofNat e.col
  | .interpolationNeedsArguments key =>
      "Lambda '".toList ++ key ++ "' takes arguments; interpolating nothing".toList
  | .partialNotFound name =>
      "Partial '".toList ++ name ++ "' not found; rendering nothing".toList
  | .depthReached name limit =>
      "Partial '".toList ++ shownName "<anonymous>".toList name
        ++ "' not expanded: nesting depth ".toList ++ Text.ofInt limit ++ " reached".toList
  | .partialsLoaded count directory =>
      "Loaded ".toList ++ Text.ofNat count ++ " partials from ".toList ++ directory
  | .configurationLoaded sources =>
      "Loaded config from ".toList ++ Text.join ", ".toList sources

end LogEvent

end Mustache

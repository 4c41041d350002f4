import Mustache.SyntaxError
import Mustache.Value

/-!
# `Mustache.Error` — errors

The engine's own errors carry their cause, from which the message and the context are read off. A
fault is anything that ends an operation: an error of the engine, an error of the host or a failure
of an operation on a value.

## Contents
- **Causes.** `ConfigurationFault`, `EngineError`.
- **Reports.** `EngineError.kind`, `EngineError.message`, `EngineError.context`.
- **Faults.** `Fault`.
-/

namespace Mustache

/-- What the names of all environment variables of the engine begin with. -/
def variableStem : Text := "WHISKER_".toList

/-! ## Causes -/

/-- What can be wrong with the configuration. -/
inductive ConfigurationFault where
  | fileNotFound (path : Text)
  /-- The text of a file is refused, with what its reader says about it if it says something. -/
  | malformedYaml (path : Text) (problem : Option Text)
  | notAMapping (path typeName : Text)
  /-- The name of an environment variable, without its stem, has an empty segment. -/
  | malformedVariable (name : Text)
  /-- The configuration does not fit its schema at a location. -/
  | invalid (location message source : Text)
  | unknownEscape (policy : Text) (available : List Text)

/-- The kinds of error that the engine reports. -/
inductive ErrorKind where
  | general
  | syntaxError
  | configuration
  | notFound
  deriving DecidableEq, Repr

/-- An error of the engine. -/
inductive EngineError where
  /-- The outcome of a parse has neither a template nor an error. -/
  | emptyOutcome
  /-- A text, possibly with a name, is no template. -/
  | badTemplate (error : SyntaxError) (name : Option Text)
  | badConfiguration (fault : ConfigurationFault)
  | templateNotFound (path : Text)
  | directoryNotFound (path : Text)
  /-- An error in the words of whoever reports it. -/
  | stated (kind : ErrorKind) (message : Text) (context : Entries)

/-! ## Reports -/

namespace ConfigurationFault

/-- The sentence that reports a fault. -/
def message : ConfigurationFault → Text
  | .fileNotFound path => "Config file not found: ".toList ++ path
  | .malformedYaml path problem =>
      "Invalid YAML in ".toList ++ path ++ (problem.map (": ".toList ++ ·)).getD []
  | .notAMapping path _ => "Config file must contain a mapping: ".toList ++ path
  | .malformedVariable name =>
      "Malformed ".toList ++ variableStem ++ "* key: empty segment in '".toList ++ name ++ ['\'']
  | .invalid location message _ =>
      "Invalid configuration at '".toList ++ location ++ "': ".toList ++ message
  | .unknownEscape policy _ => "Unknown escape policy '".toList ++ policy ++ ['\'']

/-- The data that go with a fault. -/
def context : ConfigurationFault → Entries
  | .fileNotFound path | .malformedYaml path _ => .ofNames [("path", .text path)]
  | .notAMapping path typeName => .ofNames [("path", .text path), ("type", .text typeName)]
  | .malformedVariable name => .ofNames [("key", .text (variableStem ++ name))]
  | .invalid location _ source => .ofNames [("path", .text location), ("source", .text source)]
  | .unknownEscape policy available =>
      .ofNames [("policy", .text policy), ("available", .seq .list (available.map .text))]

end ConfigurationFault

namespace SyntaxError

/-- The sentence that reports a syntax error in a template with or without a name. -/
def message (e : SyntaxError) (name : Text) : Text :=
  let place := if name.isEmpty then "line ".toList else name ++ [':']
  let detail := e.detail.getD []
  e.kind.name ++ " at ".toList ++ place ++ Text.ofNat e.row ++ ':' :: Text.ofNat e.col
    ++ (if detail.isEmpty then [] else ": ".toList ++ detail)

/-- The data that go with a syntax error. -/
def context (e : SyntaxError) (name : Text) : Entries :=
  let detail := e.detail.getD []
  .ofNames ([("kind", .text e.kind.name), ("row", .int e.row), ("col", .int e.col)]
    ++ (if detail.isEmpty then [] else [("detail", .text detail)])
    ++ (if name.isEmpty then [] else [("template", .text name)]))

end SyntaxError

namespace EngineError

/-- The kind of an error. -/
def kind : EngineError → ErrorKind
  | .emptyOutcome => .general
  | .badTemplate .. => .syntaxError
  | .badConfiguration _ => .configuration
  | .templateNotFound _ | .directoryNotFound _ => .notFound
  | .stated kind .. => kind

/-- The sentence that reports an error. -/
def message : EngineError → Text
  | .emptyOutcome => "ParseResult holds neither a template nor an error".toList
  | .badTemplate e name => e.message (name.getD [])
  | .badConfiguration f => f.message
  | .templateNotFound path => "Template not found: ".toList ++ path
  | .directoryNotFound path => "Partials directory not found: ".toList ++ path
  | .stated _ message _ => message

/-- The data that go with an error. -/
def context : EngineError → Entries
  | .emptyOutcome => []
  | .badTemplate e name => e.context (name.getD [])
  | .badConfiguration f => f.context
  | .templateNotFound path | .directoryNotFound path => .ofNames [("path", .text path)]
  | .stated _ _ context => context

end EngineError

namespace ErrorKind

/-- Whether errors of a kind are errors in a value that was passed. -/
def isValueError : ErrorKind → Bool
  | .syntaxError | .configuration => true
  | .general | .notFound => false

/-- Whether errors of a kind are errors of the operating system. -/
def isSystemError : ErrorKind → Bool
  | .notFound => true
  | .general | .syntaxError | .configuration => false

end ErrorKind

/-! ## Faults -/

/-- Why an operation ended without a result. -/
inductive Fault where
  | engine (error : EngineError)
  /-- A host function failed with a message. -/
  | host (message : Text)
  /-- The output stream refused a write. -/
  | streamFailed
  /-- An element of a type that rendering does not know. -/
  | unknownElement (typeName : Text)
  /-- A value of a type that does not suit the operation, or arguments that a function does not
      take. -/
  | badType
  | badValue
  | outOfRange
  | missingAttribute
  | missingName
  /-- The last element of nothing was asked for. -/
  | noElement
  | undecodable
  | missingFile
  | notImplemented
  /-- The bound on the depth of rendering was reached. -/
  | exhausted

/-- A fault of the configuration. -/
def Fault.configuration (f : ConfigurationFault) : Fault := .engine (.badConfiguration f)

end Mustache

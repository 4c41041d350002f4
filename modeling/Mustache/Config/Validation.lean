import Mustache.Config.Schema
import Mustache.Value.Display

/-!
# `Mustache.Config.Validation` — a validator

The validator collects whatever does not fit, each violation at its path. Of several violations one
is reported: the one with the shortest path; among those one with the greatest path; among those a
value of the wrong type; and among those the first.

## Contents
- **Violations.** `Violation`, and `Violation.worst?`, the one that is reported.
- **Checking.** `Schema.violations`, and `Schema.collecting`, the validator.
-/

namespace Mustache

/-! ## Violations -/

/-- A value that does not fit. -/
structure Violation where
  /-- Where the value stands. -/
  path : List Text
  /-- Whether the value has the wrong type. -/
  isTypeMismatch : Bool
  message : Text

namespace Violation

/-- The order of paths: the first difference decides, and a proper beginning comes first. -/
def pathBefore : List Text → List Text → Bool
  | [], [] => false
  | [], _ :: _ => true
  | _ :: _, [] => false
  | s :: p, t :: q => if s = t then pathBefore p q else Text.precedes s t

/-- Whether a violation is reported rather than one found before it. -/
def outranks (v earlier : Violation) : Bool :=
  if v.path.length ≠ earlier.path.length then v.path.length < earlier.path.length
  else if v.path ≠ earlier.path then pathBefore earlier.path v.path
  else v.isTypeMismatch && !earlier.isTypeMismatch

/-- The violation that is reported. -/
def worst? : List Violation → Option Violation
  | [] => none
  | v :: vs => some (vs.foldl (fun worst w => if w.outranks worst then w else worst) v)

end Violation

/-- Whether a value is an integer, be it written as a float. -/
def Value.isInteger : Value → Bool
  | .int _ => true
  | .float x => (FloatValue.ofFloat x).isInteger
  | _ => false

/-- Whether a value is a number that is less than an integer. -/
def Value.isBelow (least : Int) : Value → Bool
  | .int n => n < least
  | .float x => x < Float.ofInt least
  | _ => false

/-! ## Checking -/

namespace Schema

/-- A violation at a path if a condition holds. -/
def violationIf (condition : Bool) (path : List Text) (message : Text) : List Violation :=
  if condition then [⟨path, false, message⟩] else []

/-- A value of the wrong type. -/
def mismatch (s : Schema) (path : List Text) (v : Value) : Violation where
  path := path
  isTypeMismatch := true
  message := v.repr ++ " is not of type ".toList ++ Text.quoted s.typeName

/-- A text that must not be empty. -/
def emptyText (path : List Text) (s : Text) : List Violation :=
  violationIf s.isEmpty path (Text.quoted s ++ " should be non-empty".toList)

/-- A text in which a pattern must match something. -/
def unmatched (p : Pattern) (path : List Text) (s : Text) : List Violation :=
  violationIf (!p.search s) path
    (Text.quoted s ++ " does not match ".toList ++ Text.quoted p.text)

/-- Whether a key is the name of a property. -/
def isProperty (properties : List (Text × Schema)) (k : Key) : Bool :=
  k.text?.any fun name => Table.contains properties name

/-- Keys without a schema, in the order of their texts. -/
def unknownKeys (properties : List (Text × Schema)) (path : List Text) (es : Entries) :
    List Violation :=
  let found := es.keys.filter fun k => !isProperty properties k
  let extra := found.mergeSort fun k l => Text.precedes k.str l.str
  let verb := if extra.length = 1 then " was".toList else " were".toList
  violationIf (!extra.isEmpty) path
    ("Additional properties are not allowed (".toList
      ++ Text.join ", ".toList (extra.map Key.repr) ++ verb ++ " unexpected)".toList)

/-- Required names that are missing. -/
def missingNames (required : List Text) (path : List Text) (es : Entries) : List Violation :=
  required.flatMap fun name =>
    violationIf (!es.contains (.text name)) path
      (Text.quoted name ++ " is a required property".toList)

mutual

/-- The violations of a value at a path. -/
def violations (path : List Text) (v : Value) : Schema → List Violation
  | .object required properties =>
      match v.dictEntries? with
      | some es =>
          unknownKeys properties path es ++ missingNames required path es
            ++ propertyViolations path es properties
      | none => [mismatch (.object required properties) path v]
  | .text nonEmpty pattern? =>
      match v with
      | .text s =>
          (if nonEmpty then emptyText path s else [])
            ++ match pattern? with
              | some p => unmatched p path s
              | none => []
      | v => [mismatch (.text nonEmpty pattern?) path v]
  | .boolean =>
      match v with
      | .bool _ => []
      | v => [mismatch .boolean path v]
  | .integer least =>
      (if v.isInteger then [] else [mismatch (.integer least) path v])
        ++ match least with
          | some n =>
              violationIf (v.isBelow n) path
                (v.repr ++ " is less than the minimum of ".toList ++ Text.ofInt n)
          | none => []

/-- The violations of the entries of a dictionary. -/
def propertyViolations (path : List Text) (es : Entries) :
    List (Text × Schema) → List Violation
  | [] => []
  | (name, s) :: rest =>
      (match es.get? (.text name) with
        | some v => violations (path ++ [name]) v s
        | none => [])
        ++ propertyViolations path es rest

end

/-- The validator that collects all violations. -/
instance collecting : Validator where
  rejection? s v := (Violation.worst? (s.violations [] v)).map fun w => ⟨w.path, w.message⟩

end Schema

end Mustache

import Mustache.Error
import Mustache.Text.Pattern

/-!
# `Mustache.Config.Schema` — what a configuration may hold

A schema says which settings there are and which values they take. How a value is checked against a
schema is not decided here: whoever checks is given a validator, which reports one of the things that
do not fit, if anything does not.

## Contents
- **Schemas.** `Schema`, and `Schema.document`, the schema as a value.
- **Validators.** `Schema.Validator`.
- **The configuration.** `Schema.configuration` and `Config.check`.
-/

namespace Mustache

/-! ## Schemas -/

/-- What a value may be. -/
inductive Schema where
  /-- A dictionary that has all required names, and no keys but those with a schema. -/
  | object (required : List Text) (properties : List (Text × Schema))
  /-- A text, not empty if that is asked, in which a pattern matches something if there is one. -/
  | text (nonEmpty : Bool) (pattern? : Option Pattern)
  | boolean
  /-- An integer, with a least value if there is one. -/
  | integer (least : Option Int)

namespace Schema

/-- The name of the type that a schema asks for. -/
def typeName : Schema → Text
  | .object .. => "object".toList
  | .text .. => "string".toList
  | .boolean => "boolean".toList
  | .integer _ => "integer".toList

mutual

/-- The schema as the content of a dictionary. -/
def document : Schema → Entries
  | .object required properties =>
      .ofNames ([("type", .ofString "object"), ("additionalProperties", .bool false)]
        ++ (if required.isEmpty then [] else [("required", .seq .list (required.map .text))])
        ++ [("properties", .map .dict (documents properties))])
  | .text nonEmpty pattern? =>
      .ofNames ([("type", .ofString "string")] ++ (if nonEmpty then [("minLength", .int 1)] else [])
        ++ (match pattern? with
            | some p => [("pattern", .text p.text)]
            | none => []))
  | .boolean => .ofNames [("type", .ofString "boolean")]
  | .integer least =>
      .ofNames (("type", .ofString "integer")
        :: (match least with
            | some n => [("minimum", .int n)]
            | none => []))

def documents : List (Text × Schema) → Entries
  | [] => []
  | (name, s) :: rest => (.text name, .map .dict (document s)) :: documents rest

end

/-! ## Validators -/

/-- Something that does not fit. -/
structure Rejection where
  /-- Where it stands. -/
  path : List Text
  message : Text

/-- Where something stands that does not fit. -/
def Rejection.location (r : Rejection) : Text :=
  let shown := Text.join ['.'] r.path
  if shown.isEmpty then "<root>".toList else shown

/-- A validator. Of several things that do not fit it reports one. -/
class Validator where
  rejection? : Schema → Value → Option Rejection

/-! ## The configuration -/

/-- The pattern of delimiters: characters from beginning to end, none of them white space or an
    equals sign. -/
def delimiterPattern : Pattern := [.start, .outside [.space, .only '='], .finish]

/-- A delimiter. -/
def delimiter : Schema := .text true (some delimiterPattern)

/-- The settings of a section. -/
def group (required : List String) (properties : List (String × Schema)) : Schema :=
  .object (required.map String.toList) (properties.map fun e => (e.1.toList, e.2))

/-- What a configuration may hold. -/
def configuration : Schema :=
  group []
    [("template", group []
        [("delimiters", group ["open", "close"] [("open", delimiter), ("close", delimiter)]),
         ("copy_strings", .boolean)]),
     ("render", group []
        [("escape", .text true none), ("max_partial_depth", .integer (some 1)),
         ("partial_suffix", .text false none)])]

/-- The schema of a configuration as a value. -/
def configurationDocument : Value :=
  .map .dict
    (Entries.ofNames [("$schema", .ofString "https://json-schema.org/draft/2020-12/schema"),
      ("title", .ofString "Whisker configuration")] ++ document configuration)

end Schema

/-- Whether a value fits as a configuration. The source is named in the report if it does not. -/
def Config.check [Schema.Validator] (source : Text) (v : Value) : Except ConfigurationFault Unit :=
  match Schema.Validator.rejection? Schema.configuration v with
  | none => .ok ()
  | some r => .error (.invalid r.location r.message source)

end Mustache

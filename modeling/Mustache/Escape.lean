import Mustache.Error

/-!
# `Mustache.Escape` — escaping policies

A policy turns the text of an escaped interpolation into the text that is written. Policies have
names; the policy `html` replaces the characters that mean something in HTML by entities, and the
policy `none` changes nothing.

## Contents
- **HTML.** `Escape.html`.
- **Registries.** `EscapeRegistry`, `EscapePolicy`, `EscapeRegistry.resolve`.
-/

namespace Mustache

/-- An escaping policy. -/
abbrev Escape := Text → Text

namespace Escape

/-! ## HTML -/

/-- What stands for a character in HTML text and in quoted attributes. -/
def entity : Char → Text
  | '&' => "&amp;".toList
  | '<' => "&lt;".toList
  | '>' => "&gt;".toList
  | '"' => "&quot;".toList
  | c => [c]

/-- Escapes the characters `&`, `<`, `>` and the double quote. -/
def html : Escape := fun s => s.flatMap entity

/-- Escapes nothing. -/
def none : Escape := fun s => s

/-- The name of the policy that is taken when none is chosen. -/
def defaultName : Text := "html".toList

end Escape

/-! ## Registries -/

/-- Policies by name. -/
abbrev EscapeRegistry := Table Text Escape

/-- The policies that are always there. -/
def EscapeRegistry.standard : EscapeRegistry :=
  [("html".toList, Escape.html), ("none".toList, Escape.none)]

/-- The choice of a policy. -/
inductive EscapePolicy where
  /-- No choice: the default. -/
  | unset
  | named (name : Text)
  | custom (f : Escape)

namespace EscapePolicy

/-- The choice, or another one where there is none. -/
def orElse (p q : EscapePolicy) : EscapePolicy :=
  match p with
  | .unset => q
  | p => p

/-- The policy that is chosen, if the registry has it. -/
def resolve (registry : EscapeRegistry) : EscapePolicy → Except ConfigurationFault Escape
  | .custom f => .ok f
  | .unset => find Escape.defaultName
  | .named name => find name
where
  find (name : Text) : Except ConfigurationFault Escape :=
    match registry.get? name with
    | some f => .ok f
    | none => .error (.unknownEscape name (Text.sort registry.keys))

end EscapePolicy

end Mustache

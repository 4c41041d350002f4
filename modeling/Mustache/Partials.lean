import Mustache.Template

/-!
# `Mustache.Partials` — the templates that a template can refer to

Partials are parsed one by one, each from the same delimiters, so a template that declares
delimiters does not change how another one is read.
-/

namespace Mustache

/-- A partial as it is handed over: parsed or not. -/
inductive PartialSource where
  | text (s : Text)
  | template (t : Template)

/-- Templates by name. -/
structure Partials where
  templates : Table Text Template
  /-- Whether the templates were handed over as a table, which is then used as it is. -/
  adopted : Bool

namespace Partials

/-- No partials. -/
def empty : Partials := ⟨[], false⟩

/-- The parsed template of a source that is called by a name. -/
def load (d : Delimiters) (name : Text) : PartialSource → HostM Template
  | .text s => Template.ofText d (some name) s
  | .template t => return t

/-- The templates of some sources, parsed in their order. -/
def loadAll (d : Delimiters) : Table Text PartialSource → HostM (Table Text Template)
  | [] => return []
  | (name, source) :: rest => do
      let t ← load d name source
      return (name, t) :: (← loadAll d rest)

/-- Partials from sources. -/
def ofSources (d : Delimiters) (sources : Table Text PartialSource) : HostM Partials := do
  return ⟨← loadAll d sources, false⟩

/-- The template of a source that is parsed already. -/
def parsed? : PartialSource → Option Template
  | .template t => some t
  | .text _ => none

/-- Partials from sources, if there are any. Sources that are all parsed are used as they are. -/
def ofSources? (d : Delimiters) : Option (Table Text PartialSource) → HostM Partials
  | none => return empty
  | some sources =>
      match sources.mapM fun e => (parsed? e.2).map fun t => (e.1, t) with
      | some templates => return ⟨templates, true⟩
      | none => ofSources d sources

/-- The names in a report about partials. -/
def describe (p : Partials) : Text :=
  "PartialRegistry([".toList
    ++ Text.join ", ".toList ((Text.sort p.templates.keys).map Text.quoted) ++ "])".toList

end Partials

end Mustache

import Mustache.Element.Assembly
import Mustache.Element.Walk
import Mustache.Host

/-!
# `Mustache.Template` — parsed templates

## Contents
- **Templates.** `Template.parse`.
- **Outcomes.** `ParseOutcome` holds what came of reading a text, without a fault.
- **Reported parsing.** `Template.read` and `Template.ofText` report what they do.
-/

namespace Mustache

/-! ## Templates -/

/-- A parsed template, possibly with a name. -/
structure Template where
  elements : List Element
  name : Option Text
  deriving Repr, Inhabited

namespace Template

/-- The template of a text. -/
def parse (d : Delimiters) (name : Option Text) (s : Text) : Except SyntaxError Template :=
  (Element.parse d s).map fun es => ⟨es, name⟩

/-- The number of root elements. -/
def size (t : Template) : Nat := t.elements.length

/-- All elements, each before its children. -/
def walk (t : Template) : List Element := (Walk.start t.elements).toList

end Template

/-! ## Outcomes -/

/-- What came of reading a text: a template or an error. -/
structure ParseOutcome where
  template : Option Template
  error : Option SyntaxError

namespace ParseOutcome

/-- Neither a template nor an error. -/
def empty : ParseOutcome := ⟨none, none⟩

/-- The outcome of a parse. -/
def of : Except SyntaxError Template → ParseOutcome
  | .ok t => ⟨some t, none⟩
  | .error e => ⟨none, some e⟩

/-- Whether there is no error. -/
def ok (o : ParseOutcome) : Bool := o.error.isNone

/-- The template. An error is reported without a name. -/
def unwrap (o : ParseOutcome) : Except EngineError Template :=
  match o.error, o.template with
  | some e, _ => .error (.badTemplate e none)
  | none, some t => .ok t
  | none, none => .error .emptyOutcome

end ParseOutcome

/-! ## Reported parsing -/

namespace Template

/-- The report of a parse. -/
def event (name : Option Text) : Except SyntaxError Template → LogEvent
  | .ok t => .parsed name t.size
  | .error e => .parseFailed name e

/-- What comes of reading a text. -/
def read (d : Delimiters) (name : Option Text) (s : Text) : HostM ParseOutcome := do
  let result := parse d name s
  HostM.report (event name result)
  return .of result

/-- The template of a text. -/
def ofText (d : Delimiters) (name : Option Text) (s : Text) : HostM Template := do
  let result := parse d name s
  HostM.report (event name result)
  match result with
  | .ok t => return t
  | .error e => throw (.engine (.badTemplate e name))

end Template

end Mustache

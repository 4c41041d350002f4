import Mustache.Context
import Mustache.Escape
import Mustache.Partials
import Mustache.Sink

/-!
# `Mustache.Render` — rendering a template

Elements are rendered in order, in a scope: the context, the block overrides in effect and the
number of partials that are open around the element. Everything that a render writes goes through
the current sink at once, so a fault leaves behind exactly what was written before it.

Rendering recurs into children, partials, overrides and the texts that functions give. The recursion
is bounded by an explicit depth; `Renderer.depthBound` suffices where no function is called.

## Contents
- **Computations.** `RenderM`, and how it uses the host and the sink.
- **Elements.** One definition for each kind of element, over the recursion `Recur`.
- **Renders.** `Renderer.elements`, `Renderer.run`, `Renderer.render`, `Renderer.renderTo`, and what the last two
  make of a run.
-/

namespace Mustache

/-! ## Computations -/

/-- What a render changes. -/
structure RenderState where
  host : Host
  sink : Sink

/-- A part of a render. -/
abbrev RenderM := ExceptT Fault (StateM RenderState)

namespace RenderM

/-- A use of the host. -/
def host {α : Type} (x : HostM α) : RenderM α :=
  ExceptT.mk fun s =>
    let (result, h) := x.run s.host
    (result, { s with host := h })

/-- A chunk of output. -/
def emit (c : Chunk) : RenderM Unit :=
  ExceptT.mk fun s =>
    let (sink, refusal) := s.sink.write c
    match refusal with
    | none => (.ok (), { s with sink := sink })
    | some fault => (.error fault, { s with sink := sink })

/-- A part of a render whose output passes through a further layer. -/
def withLayer (l : Layer) (x : RenderM Unit) : RenderM Unit :=
  ExceptT.mk fun s =>
    let (result, s) := x.run { s with sink := s.sink.indented l }
    (result, { s with sink := s.sink.unindented })

/-- The output of a part of a render, collected instead of written. -/
def collect (x : RenderM Unit) : RenderM Text :=
  ExceptT.mk fun s =>
    let (result, t) := x.run { s with sink := .bare .buffer }
    (result.map fun _ => t.sink.device.text, { t with sink := s.sink })

/-- The text of a value. -/
def shown (v : Value) : RenderM Text :=
  match v.shown? with
  | some s => pure s
  | none => throw .undecodable

end RenderM

open RenderM

/-- What surrounds an element while it is rendered. -/
structure Scope where
  stack : Stack
  /-- What is put in place of blocks, by their keys. -/
  overrides : Table Text Element
  /-- The number of open partials. -/
  depth : Nat

/-- The scope with a value on top of the context. -/
def Scope.push (scope : Scope) (v : Value) : Scope := { scope with stack := scope.stack.push v }

/-- What stays the same during all renders of a renderer. -/
structure Renderer where
  partials : Table Text Template
  escape : Escape
  /-- How many partials may be open at a time. -/
  maxDepth : Int

namespace Renderer

/-- How many partials may be open at a time unless this is set. -/
def defaultMaxDepth : Int := 64

/-- A renderer with the escaping that a policy chooses. -/
def ofPolicy (partials : Partials) (registry : EscapeRegistry) (policy : EscapePolicy)
    (maxDepth : Int) : Except Fault Renderer :=
  match policy.resolve registry with
  | .ok escape => .ok ⟨partials.templates, escape, maxDepth⟩
  | .error fault => .error (.configuration fault)

/-! ## Elements -/

/-- The rendering of elements one level further down. -/
abbrev Recur := List Element → Scope → RenderM Unit

/-- The name under which the text of a function is reported when it is no template. -/
def functionTextName : Text := "<lambda>".toList

/-- A text that a function gave, read as a template and rendered in a scope. -/
def renderText (recur : Recur) (d : Delimiters) (scope : Scope) (s : Text) : RenderM Text :=
  match Element.parse d s with
  | .ok es => collect (recur es scope)
  | .error e => throw (.engine (.badTemplate e (some functionTextName)))

/-- The text that stands for a found value. A function is called and its text rendered; a function
    that needs arguments stands for nothing at all. -/
def interpolated? (recur : Recur) (scope : Scope) (key : Text) (v : Value) :
    RenderM (Option Text) :=
  match v.callee? with
  | none => return some (← shown v)
  | some f =>
      match f.signature.arity? with
      | some (_ + 1) => do
          host (HostM.report (.interpolationNeedsArguments key))
          return none
      | _ => do
          let w ← host f.callPlain
          let s ← shown w
          return some (← renderText recur .braces scope s)

/-- An interpolation. -/
def interpolation (r : Renderer) (recur : Recur) (scope : Scope) (key : Text) (escaped : Bool) :
    RenderM Unit := do
  match ← host (scope.stack.resolve (keyPath key)) with
  | none => return
  | some v =>
      match ← interpolated? recur scope key v with
      | none => return
      | some s => emit ⟨.value, if escaped then r.escape s else s⟩

/-- A section over a function that takes the raw body, and the render callback if it takes two
    arguments. What it gives is rendered. -/
def sectionCall (recur : Recur) (scope : Scope) (rawBody : Text) (d : Delimiters)
    (f : HostFunction) : RenderM Unit := do
  let callback :=
    match f.signature.arity? with
    | some (_ + 2) => some (renderText recur d scope)
    | _ => none
  let v ← f.call host [rawBody] callback
  let s ← shown v
  emit ⟨.value, ← renderText recur d scope s⟩

/-- A section for one of the items that the value of a path had. Nothing is rendered for an item
    that has been taken off since. -/
def sectionItem (recur : Recur) (scope : Scope) (path : List Text) (children : List Element)
    (item : Value × Nat) : RenderM Unit := do
  if ← host (scope.stack.stillHas path item.2) then recur children (scope.push item.1)

/-- A section or an inverted section over the items that the value of a path had. -/
def sectionItems (recur : Recur) (scope : Scope) (path : List Text) (inverted : Bool)
    (children : List Element) (items : List Value) : RenderM Unit :=
  if inverted then
    if items.isEmpty then recur children scope else pure ()
  else
    items.zipIdx.forM (sectionItem recur scope path children)

/-- A section. A function that requires no arguments stands for what it gives. -/
def sectionTag (recur : Recur) (scope : Scope) (key : Text) (inverted : Bool)
    (children : List Element) (rawBody : Text) (d : Delimiters) : RenderM Unit := do
  let found ← host (scope.stack.resolve (keyPath key))
  match if inverted then none else found.bind Value.callee? with
  | none => do
      let items ← host (coerceItems found)
      sectionItems recur scope (keyPath key) inverted children items
  | some f =>
      if f.signature.arity? = some 0 then do
        let v ← host f.callPlain
        let items ← host (coerceItems (some v))
        sectionItems recur scope (keyPath key) inverted children items
      else
        sectionCall recur scope rawBody d f

/-- The elements of a template in place of a tag, through a layer if the tag is indented. -/
def expand (r : Renderer) (recur : Recur) (scope : Scope) (t : Template) (indent : Option Text)
    (overrides : Table Text Element) : RenderM Unit :=
  if r.maxDepth ≤ scope.depth then
    host (HostM.report (.depthReached t.name r.maxDepth))
  else
    let inside := recur t.elements { scope with overrides := overrides, depth := scope.depth + 1 }
    match indent with
    | some (c :: cs) => withLayer (.new (c :: cs) []) inside
    | _ => inside

/-- The template of a name, and a report if there is none. -/
def template? (r : Renderer) (name : Text) : RenderM (Option Template) :=
  match r.partials.get? name with
  | some t => return some t
  | none => do
      host (HostM.report (.partialNotFound name))
      return none

/-- A partial. -/
def partialTag (r : Renderer) (recur : Recur) (scope : Scope) (key : Text)
    (indent : Option Text) : RenderM Unit := do
  match ← r.template? key with
  | none => return
  | some t => r.expand recur scope t indent scope.overrides

/-- A parent. The overrides in effect come from further out and take precedence over its own. -/
def parentTag (r : Renderer) (recur : Recur) (scope : Scope) (key : Text)
    (children : List Element) (indent : Option Text) : RenderM Unit := do
  match ← r.template? key with
  | none => return
  | some t =>
      match Element.overrides? children with
      | none => throw .missingAttribute
      | some own => r.expand recur scope t indent (own.putAll scope.overrides)

/-- A block. Its override is rendered without the override itself being in effect, and is moved from
    its own indentation to that of the block if the block stands alone on its line. -/
def blockTag (recur : Recur) (scope : Scope) (key : Text) (children : List Element)
    (indent : Option Text) : RenderM Unit :=
  match scope.overrides.get? key with
  | none => recur children scope
  | some e =>
      let inside :=
        match e.children? with
        | some body => recur body { scope with overrides := scope.overrides.erase key }
        | none => throw .missingAttribute
      match indent, e.indent? with
      | none, _ => inside
      | some _, none => throw .missingAttribute
      | some i, some own => withLayer (.new i (own.getD [])) inside

/-- An element. -/
def element (r : Renderer) (recur : Recur) (scope : Scope) : Element → RenderM Unit
  | .text s => emit ⟨.static, s⟩
  | .interpolation key escaped => r.interpolation recur scope key escaped
  | .sectionTag key inverted children rawBody d =>
      sectionTag recur scope key inverted children rawBody d
  | .partialTag key indent => r.partialTag recur scope key indent
  | .parentTag key children indent => r.parentTag recur scope key children indent
  | .blockTag key children indent => blockTag recur scope key children indent
  | .foreign typeName => throw (.unknownElement typeName)

/-! ## Renders -/

/-- Elements in order, down to a depth. -/
def elements (r : Renderer) : Nat → Recur
  | 0, _, _ => throw .exhausted
  | depth + 1, es, scope => es.forM (r.element (elements r depth) scope)

end Renderer

namespace Element

mutual

/-- The number of levels of a tree. -/
def height : Element → Nat
  | .sectionTag _ _ children _ _ => heightAll children + 1
  | .parentTag _ children _ => heightAll children + 1
  | .blockTag _ children _ => heightAll children + 1
  | .text _ | .interpolation .. | .partialTag .. | .foreign _ => 1

/-- The number of levels of a forest. -/
def heightAll : List Element → Nat
  | [] => 0
  | e :: es => max e.height (heightAll es)

end

end Element

namespace Renderer

/-- The number of overrides that can be in effect at a time: one for each block in a parent. -/
def overrideBound (r : Renderer) (es : List Element) : Nat :=
  let all := es :: r.partials.map fun e => e.2.elements
  (all.map Element.sizeAll).foldl (· + ·) 0

/-- The number of levels of the highest template. -/
def heightBound (r : Renderer) (es : List Element) : Nat :=
  let all := es :: r.partials.map fun e => e.2.elements
  (all.map Element.heightAll).foldl max 0

/-- A depth at which no render is cut short that calls no function: at each level of partials every
    override can be entered once, and within it every level of a tree. -/
def depthBound (r : Renderer) (es : List Element) : Nat :=
  (r.maxDepth.toNat + 1) * (r.overrideBound es + 1) * (r.heightBound es + 1) + 1

/-- The further depth that is left for the texts of functions. -/
def functionDepth : Nat := 100000

/-- The render of some elements into a sink, with a bound on the depth. -/
def run (r : Renderer) (depth : Nat) (es : List Element) (stack : Stack) (s : RenderState) :
    Except Fault Unit × RenderState :=
  (r.elements depth es ⟨stack, [], 0⟩).run s

/-- The render of a template to a device: its outcome, and the device after it. -/
def renderTo (r : Renderer) (d : Device) (t : Template) (stack : Stack) :
    StateM Host (Except Fault Unit × Device) := fun h =>
  let depth := r.depthBound t.elements + functionDepth
  let (result, s) := r.run depth t.elements stack ⟨h, .bare d⟩
  ((result, s.sink.device), s.host)

/-- The output of a template. -/
def render (r : Renderer) (t : Template) (stack : Stack) : HostM Text := ExceptT.mk do
  let (result, d) ← r.renderTo .buffer t stack
  return result.map fun _ => d.text

/-! ### Laws -/

/-- A render to a device is a run down to a depth that suffices. -/
theorem renderTo_run {r : Renderer} {d : Device} {t : Template} {stack : Stack} {h : Host}
    {outcome : Except Fault Unit} {s : RenderState}
    (hrun : r.run (r.depthBound t.elements + functionDepth) t.elements stack ⟨h, .bare d⟩ = (outcome, s)) :
    (r.renderTo d t stack).run h = ((outcome, s.sink.device), s.host) := by
  have hstate : ∀ x : StateM Host (Except Fault Unit × Device), x.run h = x h := fun _ => rfl
  have hbody : r.renderTo d t stack = fun h =>
      match r.run (r.depthBound t.elements + functionDepth) t.elements stack ⟨h, .bare d⟩ with
      | (result, s) => ((result, s.sink.device), s.host) := rfl
  -- the run is replaced before it is reduced, since reduction would compute it as far as it goes
  rw [hstate, hbody]
  show (match r.run (r.depthBound t.elements + functionDepth) t.elements stack ⟨h, .bare d⟩ with
    | (result, s) => ((result, s.sink.device), s.host)) = _
  rw [hrun]

/-- A render to a text is a render to a buffer. -/
theorem render_run (r : Renderer) (t : Template) (stack : Stack) (h : Host) :
    (r.render t stack).run h =
      (((r.renderTo .buffer t stack).run h).1.1.map fun _ => ((r.renderTo .buffer t stack).run h).1.2.text,
        ((r.renderTo .buffer t stack).run h).2) := by
  have hbody : ∀ x : StateM Host (Except Fault Unit × Device),
      (ExceptT.mk (do let (result, d) ← x; return result.map fun _ => d.text) : HostM Text).run h
        = ((x.run h).1.1.map fun _ => (x.run h).1.2.text, (x.run h).2) := fun _ => rfl
  exact hbody _

end Renderer

end Mustache

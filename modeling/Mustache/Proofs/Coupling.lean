import Mustache.Proofs.Faults
import Mustache.Proofs.Running

/-!
# `Mustache.Proofs.Coupling` — two renders side by side

Elements are rendered over the recursion `Recur`, which renders whatever they bring in. To compare two renders, one
says what their parts have to do with each other from a state on. If this survives the ways in which parts are put
together (`RenderM.Coupling`), then it holds of an element as soon as it holds of what the element brings in, and
the definitions of the elements are not opened again.

What an element can bring in is listed by `Renderer.Descends`: the children of a section or a block, the body of an
override, the elements of a partial one level further down. Only the function that a key resolves to can bring in
anything else.

* `Coupling.interpolation`, `Coupling.sectionTag`, `Coupling.expand`, `Coupling.blockTag` — each kind of element, in
  two scopes that may differ in all but the context;
* `Coupling.element` — **elements are coupled where what they bring in is coupled**.
-/

namespace Mustache

/-! ## Couplings -/

namespace RenderM

/-- A relation between parts of a render that holds from every state on. -/
def Always (R : {α : Type} → RenderState → RenderM α → RenderM α → Prop) {α : Type} (x y : RenderM α) : Prop :=
  ∀ s, R s x y

/-- A relation between parts of a render, from a state on, that survives the ways in which parts are put together.
    Nothing is asked here of output and of layers: what can be written depends on the element. -/
structure Coupling (R : {α : Type} → RenderState → RenderM α → RenderM α → Prop) : Prop where
  ofPure : ∀ {α : Type} (v : α), Always R (pure v) (pure v)
  ofBind : ∀ {α β : Type} {x y : RenderM α} {k k' : α → RenderM β} {s : RenderState}, R s x y →
    (∀ v t, x.run s = (.ok v, t) → R t (k v) (k' v)) → R s (x >>= k) (y >>= k')
  ofHost : ∀ {α : Type} {x : HostM α}, x.Settles → Always R (host x) (host x)
  ofThrow : ∀ {α : Type} {f : Fault}, f ≠ .exhausted → Always R (throw f : RenderM α) (throw f)
  ofCollect : ∀ {x y : RenderM Unit}, Always R x y → Always R (collect x) (collect y)

end RenderM

open RenderM

/-! ## Descents -/

namespace Renderer

/-- `r.Descends scope e es inside`: the render of `e` in `scope` can render `es` in the scope `inside`, and not by
    calling a function. -/
inductive Descends (r : Renderer) (scope : Scope) : Element → List Element → Scope → Prop where
  /-- The children of an inverted section. -/
  | absent {key raw : Text} {children : List Element} {d : Delimiters} :
      Descends r scope (.sectionTag key true children raw d) children scope
  /-- The children of a section, for an item. -/
  | item {key raw : Text} {children : List Element} {d : Delimiters} (v : Value) :
      Descends r scope (.sectionTag key false children raw d) children (scope.push v)
  /-- A partial, one level further down. -/
  | partialUse {key : Text} {indent : Option Text} {t : Template} (ht : r.partials.get? key = some t)
      (hdepth : scope.depth < r.maxDepth) :
      Descends r scope (.partialTag key indent) t.elements { scope with depth := scope.depth + 1 }
  /-- The template of a parent, one level further down and with the parent's overrides. -/
  | parent {key : Text} {children : List Element} {indent : Option Text} {t : Template}
      {own : Table Text Element} (ht : r.partials.get? key = some t)
      (hown : Element.overrides? children = some own) (hdepth : scope.depth < r.maxDepth) :
      Descends r scope (.parentTag key children indent) t.elements
        { scope with overrides := own.putAll scope.overrides, depth := scope.depth + 1 }
  /-- The children of a block that nothing overrides. -/
  | block {key : Text} {children : List Element} {indent : Option Text}
      (hget : scope.overrides.get? key = none) :
      Descends r scope (.blockTag key children indent) children scope
  /-- The body of an override, which is not in effect inside itself. -/
  | override {key : Text} {children body : List Element} {indent : Option Text} {e : Element}
      (hget : scope.overrides.get? key = some e) (hbody : e.children? = some body) :
      Descends r scope (.blockTag key children indent) body
        { scope with overrides := scope.overrides.erase key }

/-- `r.Emits e c`: the render of `e` can write the chunk `c` itself, and not by calling a function. -/
inductive Emits (r : Renderer) : Element → Chunk → Prop where
  | static (t : Text) : Emits r (.text t) ⟨.static, t⟩
  | value (key : Text) (escaped : Bool) (t : Text) :
      Emits r (.interpolation key escaped) ⟨.value, if escaped then r.escape t else t⟩

end Renderer

/-- Whether an element has a key that is resolved, and its value is a function. -/
def Element.resolvesCallable (scope : Scope) (s : RenderState) : Element → Bool
  | .interpolation key _ | .sectionTag key .. =>
      match ((scope.stack.resolve (keyPath key)).run s.host).1 with
      | .ok (some v) => v.isCallable
      | _ => false
  | _ => false

theorem Renderer.get?_of_template? {r : Renderer} {name : Text} {t : Template} {s s' : RenderState}
    (h : (r.template? name).run s = (.ok (some t), s')) : r.partials.get? name = some t := by
  unfold template? at h
  split at h
  · rename_i t' hget
    cases h
    exact hget
  · cases h

/-! ## Elements -/

namespace RenderM.Coupling

open Renderer (Recur)

variable {R : {α : Type} → RenderState → RenderM α → RenderM α → Prop} {recur recur' : Recur} {r : Renderer}
  {scope scope' : Scope} {s : RenderState}

theorem always_bind (C : Coupling R) {α β : Type} {x y : RenderM α} {k k' : α → RenderM β} (hx : Always R x y)
    (hk : ∀ v, Always R (k v) (k' v)) : Always R (x >>= k) (y >>= k') := by
  intro s
  exact C.ofBind (hx s) fun v t _ => hk v t

theorem always_forM (C : Coupling R) {α : Type} {es : List α} {k k' : α → RenderM Unit}
    (h : ∀ e ∈ es, Always R (k e) (k' e)) : Always R (es.forM k) (es.forM k') := by
  induction es with
  | nil => exact C.ofPure _
  | cons e es ih =>
      refine C.always_bind (h e List.mem_cons_self) fun _ => ?_
      exact ih fun f hf => h f (List.mem_cons_of_mem e hf)

/-- Where each of some parts is coupled with several on the other side, so are all of them, one after the other. -/
theorem always_forM_flatMap (C : Coupling R) {α β : Type} {es : List α} {f : α → List β} {k : α → RenderM Unit}
    {k' : β → RenderM Unit} (h : ∀ e ∈ es, Always R (k e) ((f e).forM k')) :
    Always R (es.forM k) ((es.flatMap f).forM k') := by
  induction es with
  | nil => exact C.ofPure _
  | cons e es ih =>
      have happend : ((e :: es).flatMap f).forM k' = (f e).forM k' >>= fun _ => (es.flatMap f).forM k' :=
        List.forM_append
      rw [happend]
      refine C.always_bind (h e List.mem_cons_self) fun _ => ?_
      exact ih fun g hg => h g (List.mem_cons_of_mem e hg)

theorem always_shown (C : Coupling R) (v : Value) : Always R (shown v) (shown v) := by
  unfold shown
  split
  · exact C.ofPure _
  · exact C.ofThrow (by simp)

theorem always_renderText (C : Coupling R) (h : ∀ es, Always R (recur es scope) (recur' es scope'))
    (d : Delimiters) (text : Text) :
    Always R (Renderer.renderText recur d scope text) (Renderer.renderText recur' d scope' text) := by
  unfold Renderer.renderText
  split
  · exact C.ofCollect (h _)
  · exact C.ofThrow (by simp)

/-- A call is coupled with itself when what it renders is. -/
theorem always_call (C : Coupling R) (f : HostFunction) (arguments : List Text)
    {callback callback' : Option (Text → RenderM Text)} (hsome : callback.isSome = callback'.isSome)
    (h : ∀ text, Always R (callback.getD (fun _ => pure []) text) (callback'.getD (fun _ => pure []) text)) :
    Always R (f.call host arguments callback) (f.call host arguments callback') :=
  f.call_rel C.ofPure C.always_bind (fun _ hx => C.ofHost hx) arguments hsome h

theorem interpolation (C : Coupling R) {key : Text} (escaped : Bool) (hstack : scope'.stack = scope.stack)
    (hemit : ∀ c, r.Emits (.interpolation key escaped) c → Always R (emit c) (emit c))
    (hcallable : (Element.interpolation key escaped).resolvesCallable scope s = true →
      ∀ es, Always R (recur es scope) (recur' es scope')) :
    R s (r.interpolation recur scope key escaped) (r.interpolation recur' scope' key escaped) := by
  unfold Renderer.interpolation
  rw [hstack]
  refine C.ofBind (C.ofHost (scope.stack.settles_resolve _) s) fun found t hfound => ?_
  cases found with
  | none => exact C.ofPure _ t
  | some v =>
      have hresolve : ((scope.stack.resolve (keyPath key)).run s.host).1 = .ok (some v) :=
        congrArg Prod.fst hfound
      -- only the text of a function needs the recursion
      have hshown : Always R (Renderer.interpolated? recur scope key v)
          (Renderer.interpolated? recur' scope' key v) := by
        unfold Renderer.interpolated?
        cases hcallee : v.callee? with
        | none => exact C.always_bind (C.always_shown v) fun _ => C.ofPure _
        | some f =>
            have hes : ∀ es, Always R (recur es scope) (recur' es scope') :=
              hcallable (by simp [Element.resolvesCallable, hresolve, Value.isCallable, hcallee])
            dsimp only
            split
            · exact C.always_bind (C.ofHost (HostM.settles_report _)) fun _ => C.ofPure _
            · refine C.always_bind (C.ofHost f.settles_callPlain) fun w => ?_
              refine C.always_bind (C.always_shown w) fun text => ?_
              exact C.always_bind (C.always_renderText hes _ text) fun _ => C.ofPure _
      refine C.ofBind (hshown t) fun shown u _ => ?_
      cases shown with
      | none => exact C.ofPure _ u
      | some text => exact hemit _ (.value key escaped text) u

theorem always_sectionCall (C : Coupling R) (hemit : ∀ c, Always R (emit c) (emit c))
    (h : ∀ es, Always R (recur es scope) (recur' es scope')) (raw : Text) (d : Delimiters) (f : HostFunction) :
    Always R (Renderer.sectionCall recur scope raw d f) (Renderer.sectionCall recur' scope' raw d f) := by
  have htext := C.always_renderText h d
  rw [Renderer.sectionCall_eq, Renderer.sectionCall_eq]
  refine C.always_bind (C.always_call f [raw] ?_ fun text => ?_) fun v => ?_
  · unfold Renderer.callback?
    split <;> rfl
  · unfold Renderer.callback?
    split
    · exact htext text
    · exact C.ofPure _
  · refine C.always_bind (C.always_shown v) fun text => ?_
    exact C.always_bind (htext text) fun _ => hemit _

theorem always_sectionItems (C : Coupling R) {inverted : Bool} {children children' : List Element}
    (hstack : scope'.stack = scope.stack)
    (habsent : inverted = true → Always R (recur children scope) (recur' children' scope'))
    (hitem : inverted = false → ∀ v, Always R (recur children (scope.push v)) (recur' children' (scope'.push v)))
    (path : List Text) (items : List Value) :
    Always R (Renderer.sectionItems recur scope path inverted children items)
      (Renderer.sectionItems recur' scope' path inverted children' items) := by
  unfold Renderer.sectionItems
  cases inverted with
  | true =>
      simp only [if_true]
      split
      · exact habsent rfl
      · exact C.ofPure _
  | false =>
      refine C.always_forM fun item _ => ?_
      unfold Renderer.sectionItem
      rw [hstack]
      refine C.always_bind (C.ofHost (scope.stack.settles_stillHas path item.2)) fun here => ?_
      cases here with
      | true => exact hitem rfl item.1
      | false => exact C.ofPure _

theorem sectionTag (C : Coupling R) {key raw : Text} {inverted : Bool} {children children' : List Element}
    {d : Delimiters} (hstack : scope'.stack = scope.stack)
    (habsent : inverted = true → Always R (recur children scope) (recur' children' scope'))
    (hitem : inverted = false → ∀ v, Always R (recur children (scope.push v)) (recur' children' (scope'.push v)))
    (hcallable : (Element.sectionTag key inverted children raw d).resolvesCallable scope s = true →
      (∀ es, Always R (recur es scope) (recur' es scope')) ∧ ∀ c, Always R (emit c) (emit c)) :
    R s (Renderer.sectionTag recur scope key inverted children raw d)
      (Renderer.sectionTag recur' scope' key inverted children' raw d) := by
  unfold Renderer.sectionTag
  rw [hstack]
  refine C.ofBind (C.ofHost (scope.stack.settles_resolve _) s) fun found t hfound => ?_
  have hresolve : ((scope.stack.resolve (keyPath key)).run s.host).1 = .ok found :=
    congrArg Prod.fst hfound
  have hitems : ∀ found, Always R
      (host (coerceItems found) >>= fun items =>
        Renderer.sectionItems recur scope (keyPath key) inverted children items)
      (host (coerceItems found) >>= fun items =>
        Renderer.sectionItems recur' scope' (keyPath key) inverted children' items) := by
    intro found
    exact C.always_bind (C.ofHost (settles_coerceItems found)) fun items =>
      C.always_sectionItems hstack habsent hitem _ items
  split
  · exact hitems found t
  · rename_i f hcallee
    -- only a section that is not inverted calls what it finds
    obtain ⟨hes, hemit⟩ := hcallable (by
      cases inverted with
      | true => cases hcallee
      | false =>
          obtain ⟨v, rfl, hv⟩ := Option.bind_eq_some_iff.mp hcallee
          simp [Element.resolvesCallable, hresolve, Value.isCallable, hv])
    split
    · exact C.always_bind (C.ofHost f.settles_callPlain) (fun v => hitems (some v)) t
    · exact C.always_sectionCall hemit hes raw d f t

theorem always_template? (C : Coupling R) (name : Text) : Always R (r.template? name) (r.template? name) := by
  unfold Renderer.template?
  split
  · exact C.ofPure _
  · exact C.always_bind (C.ofHost (HostM.settles_report _)) fun _ => C.ofPure _

theorem always_expand (C : Coupling R) (t : Template) (indent : Option Text) (overrides : Table Text Element)
    (hlayer : ∀ (l : Layer) (x y : RenderM Unit), indent = some l.indent → Always R x y →
      Always R (withLayer l x) (withLayer l y))
    (h : scope.depth < r.maxDepth →
      Always R (recur t.elements { scope with overrides := overrides, depth := scope.depth + 1 })
        (recur' t.elements { scope with overrides := overrides, depth := scope.depth + 1 })) :
    Always R (r.expand recur scope t indent overrides) (r.expand recur' scope t indent overrides) := by
  unfold Renderer.expand
  split
  · exact C.ofHost (HostM.settles_report _)
  · rename_i hdepth
    have hinside := h (by omega)
    dsimp only
    split
    · exact hlayer _ _ _ rfl hinside
    · exact hinside

theorem always_blockTag (C : Coupling R) {key : Text} {children : List Element} {indent : Option Text}
    (hlayer : ∀ (l : Layer) (x y : RenderM Unit), indent = some l.indent → Always R x y →
      Always R (withLayer l x) (withLayer l y))
    (h : ∀ es inside, r.Descends scope (.blockTag key children indent) es inside →
      Always R (recur es inside) (recur' es inside)) :
    Always R (Renderer.blockTag recur scope key children indent)
      (Renderer.blockTag recur' scope key children indent) := by
  unfold Renderer.blockTag
  split
  · rename_i hget
    exact h _ _ (.block hget)
  · rename_i e hget
    cases hbody : e.children? with
    | none =>
        dsimp only
        split
        · exact C.ofThrow (by simp)
        · exact C.ofThrow (by simp)
        · exact hlayer _ _ _ rfl (C.ofThrow (by simp))
    | some body =>
        have hinside := h _ _ (.override hget hbody)
        dsimp only
        split
        · exact hinside
        · exact C.ofThrow (by simp)
        · exact hlayer _ _ _ rfl hinside

/-- **Elements are coupled where what they bring in is coupled**, unless they resolve a function. -/
theorem element (C : Coupling R) (e : Element) (hemit : ∀ c, r.Emits e c → Always R (emit c) (emit c))
    (hlayer : ∀ (l : Layer) (x y : RenderM Unit), e.indent? = some (some l.indent) → Always R x y →
      Always R (withLayer l x) (withLayer l y))
    (hdescends : ∀ es inside, r.Descends scope e es inside → Always R (recur es inside) (recur' es inside))
    (hcallable : e.resolvesCallable scope s = true →
      (∀ es, Always R (recur es scope) (recur' es scope)) ∧ ∀ c, Always R (emit c) (emit c)) :
    R s (r.element recur scope e) (r.element recur' scope e) := by
  have hlayer' : ∀ indent, e.indent? = some indent → ∀ (l : Layer) (x y : RenderM Unit), indent = some l.indent →
      Always R x y → Always R (withLayer l x) (withLayer l y) := by
    rintro indent he l x y rfl hxy
    exact hlayer l x y he hxy
  cases e with
  | text t => exact hemit _ (.static t) s
  | interpolation key escaped => exact C.interpolation escaped rfl hemit fun hc => (hcallable hc).1
  | sectionTag key inverted children raw d =>
      refine C.sectionTag rfl ?_ ?_ hcallable
      · rintro rfl
        exact hdescends _ _ .absent
      · rintro rfl v
        exact hdescends _ _ (.item v)
  | partialTag key indent =>
      refine C.ofBind (C.always_template? key s) fun found t hfound => ?_
      cases found with
      | none => exact C.ofPure _ t
      | some u =>
          have hu := Renderer.get?_of_template? hfound
          exact C.always_expand u indent _ (hlayer' _ rfl) (fun hdepth => hdescends _ _ (.partialUse hu hdepth)) t
  | parentTag key children indent =>
      refine C.ofBind (C.always_template? key s) fun found t hfound => ?_
      cases found with
      | none => exact C.ofPure _ t
      | some u =>
          have hu := Renderer.get?_of_template? hfound
          dsimp only
          split
          · exact C.ofThrow (by simp) t
          · rename_i own hown
            exact C.always_expand u indent _ (hlayer' _ rfl)
              (fun hdepth => hdescends _ _ (.parent hu hown hdepth)) t
  | blockTag key children indent => exact C.always_blockTag (hlayer' _ rfl) hdescends s
  | foreign typeName => exact C.ofThrow (by simp) s

end RenderM.Coupling

end Mustache

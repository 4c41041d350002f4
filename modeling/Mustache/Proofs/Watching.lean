import Mustache.Proofs.Descent

/-!
# `Mustache.Proofs.Watching` — what a render comes to

To say that a render never comes to some moment, it is rendered under a watch: a condition on the elements being
rendered, the next element, its scope and the state. The watched render ends with a fault of our choice as soon as
the condition holds. No part of a render goes on after a fault, so the condition never holds exactly when the watch
makes no difference, whichever the fault (`Renderer.Avoids`).

* `RenderM.AgreeUnless` — a part agrees with another one unless it is stopped: a coupling, and no exception where the
  part would have to stop with two faults (`RenderM.agreeAt_of_agreeUnless`);
* `Renderer.Invariant.avoids` — a watch makes no difference when some invariant of the descents excludes it;
* `Renderer.avoids_deeperThan` — **at most as many partials and parents are open inside one another as the cap
  allows**, whatever the elements, the data and the functions.
-/

namespace Mustache

open RenderM

/-! ## Watched renders -/

namespace RenderM

/-- A part of a render, or a fault instead if a condition holds of the state. -/
def unlessFault (stop : RenderState → Bool) (fault : Fault) (x : RenderM Unit) : RenderM Unit := do
  if stop (← get) then throw fault else x

theorem run_unlessFault (stop : RenderState → Bool) (fault : Fault) (x : RenderM Unit) (s : RenderState) :
    (unlessFault stop fault x).run s = if stop s then (.error fault, s) else x.run s := by
  show (if stop s then throw fault else x).run s = _
  split <;> rfl

section Agreement

variable {ok : Fault → Prop} {stop : RenderState → Bool} {fault : Fault} {x y : RenderM Unit} {s : RenderState}

theorem AgreeAt.unlessFault_left (hstop : stop s = false) (h : AgreeAt ok s x y) :
    AgreeAt ok s (unlessFault stop fault x) y := by
  unfold AgreeAt
  rw [run_unlessFault, hstop]
  exact h

theorem agreeAt_unlessFault (hfault : ok fault) (h : stop s = false → AgreeAt ok s x y) :
    AgreeAt ok s (unlessFault stop fault x) (unlessFault stop fault y) := by
  unfold AgreeAt
  rw [run_unlessFault, run_unlessFault]
  cases hstop : stop s with
  | true =>
      refine ⟨rfl, fun f hf => ?_⟩
      cases hf
      exact hfault
  | false => exact h hstop

end Agreement

/-! ### Parts that may be stopped -/

section Stopping

variable {α β : Type} {ok : Fault → Prop} {fault : Fault} {s : RenderState}

/-- From a state on, a part agrees with another one, or it was stopped with a fault. -/
def AgreeUnless (ok : Fault → Prop) (fault : Fault) (s : RenderState) (x y : RenderM α) : Prop :=
  AgreeAt ok s x y ∨ ∃ t, x.run s = (.error fault, t)

theorem AgreeUnless.of_run_eq {x x' y : RenderM α} (heq : x.run s = x'.run s) (h : AgreeUnless ok fault s x' y) :
    AgreeUnless ok fault s x y := by
  unfold AgreeUnless AgreeAt at h ⊢
  rwa [heq]

theorem AgreeUnless.congr_right {x y y' : RenderM α} (h : AgreeUnless ok fault s x y) (heq : y.run s = y'.run s) :
    AgreeUnless ok fault s x y' := by
  unfold AgreeUnless AgreeAt at h ⊢
  rwa [← heq]

theorem AgreeUnless.bind {x y : RenderM α} {k k' : α → RenderM β} (hx : AgreeUnless ok fault s x y)
    (hk : ∀ v t, x.run s = (.ok v, t) → AgreeUnless ok fault t (k v) (k' v)) :
    AgreeUnless ok fault s (x >>= k) (y >>= k') := by
  rcases hx with hx | ⟨t, hstop⟩
  · rcases hrun : x.run s with ⟨f | v, t⟩
    · exact .inl (hx.bind fun v t h => nomatch hrun.symm.trans h)
    · rcases hk v t hrun with hv | ⟨u, hstop⟩
      · refine .inl (hx.bind fun v' t' h => ?_)
        cases hrun.symm.trans h
        exact hv
      · exact .inr ⟨u, (run_bind_ok hrun).trans hstop⟩
  · exact .inr ⟨t, run_bind_error hstop⟩

theorem AgreeUnless.collect {x y : RenderM Unit} (h : AgreeUnless ok fault { s with sink := .bare .buffer } x y) :
    AgreeUnless ok fault s (collect x) (collect y) := by
  rcases h with h | ⟨t, hstop⟩
  · exact .inl h.collect
  · refine .inr ⟨{ t with sink := s.sink }, ?_⟩
    rw [run_collect, hstop]
    rfl

theorem AgreeUnless.withLayer {l : Layer} {x y : RenderM Unit} (h : ∀ s, AgreeUnless ok fault s x y) :
    AgreeUnless ok fault s (withLayer l x) (withLayer l y) := by
  rcases h { s with sink := s.sink.indented l } with ⟨heq, hok⟩ | ⟨t, hstop⟩
  · refine .inl ⟨?_, hok⟩
    rw [run_withLayer, run_withLayer, heq]
  · refine .inr ⟨{ t with sink := t.sink.unindented }, ?_⟩
    rw [run_withLayer, hstop]

/-- To agree unless it is stopped is a coupling. -/
theorem coupling_agreeUnless (hok : ∀ f, f ≠ .exhausted → ok f) (fault : Fault) :
    Coupling (fun s x y => AgreeUnless ok fault s x y) where
  ofPure v s := .inl (agree_pure v s)
  ofBind := AgreeUnless.bind
  ofHost hx s := .inl (agree_host hok hx s)
  ofThrow hf s := .inl (agree_throw hok hf s)
  ofCollect h _ := .collect (h _)

theorem AgreeUnless.unlessFault {stop : RenderState → Bool} {x y : RenderM Unit}
    (h : stop s = false → AgreeUnless ok fault s x y) : AgreeUnless ok fault s (unlessFault stop fault x) y := by
  cases hstop : stop s with
  | true =>
      refine .inr ⟨s, ?_⟩
      rw [run_unlessFault, hstop]
      rfl
  | false =>
      refine (h hstop).of_run_eq ?_
      rw [run_unlessFault, hstop]
      rfl

theorem AgreeUnless.unlessFault_both {stop : RenderState → Bool} {fault' : Fault} {x y : RenderM Unit}
    (h : stop s = false → AgreeUnless ok fault s x y) :
    AgreeUnless ok fault s (RenderM.unlessFault stop fault x) (RenderM.unlessFault stop fault' y) := by
  cases hstop : stop s with
  | true => exact .unlessFault fun hgo => absurd hgo (by simp [hstop])
  | false =>
      refine .unlessFault fun _ => ?_
      unfold AgreeUnless AgreeAt
      rw [run_unlessFault, hstop]
      exact h hstop

/-- A part that can be stopped with any fault, and does the same whichever it is, is never stopped. -/
theorem agreeAt_of_agreeUnless {x y : RenderM α} {stopped : Fault → RenderM α}
    (hsame : ∀ fault, (stopped fault).run s = x.run s) (h : ∀ fault, AgreeUnless ok fault s (stopped fault) y) :
    AgreeAt ok s x y := by
  have hx : ∀ fault, AgreeUnless ok fault s x y := fun fault => (h fault).of_run_eq (hsame fault).symm
  rcases hx .badType with hagree | ⟨t, hstop⟩
  · exact hagree
  · rcases hx .badValue with hagree | ⟨t', hstop'⟩
    · exact hagree
    · -- one run cannot end with two faults
      cases hstop.symm.trans hstop'

end Stopping

end RenderM

/-- A condition on a moment of a render: the elements that are being rendered, the innermost first, the element
    that comes next inside them, its scope, and the state. -/
abbrev Watch := List Element → Element → Scope → RenderState → Bool

/-- Whether an element brings in a template. -/
def Element.isExpansion : Element → Bool
  | .partialTag .. | .parentTag .. => true
  | _ => false

namespace Watch

/-- The next element resolves a function. -/
def callable : Watch := fun _ e scope s => e.resolvesCallable scope s

/-- More partials and parents than a number are open inside one another. -/
def deeperThan (n : Nat) : Watch := fun around _ _ _ => n < around.countP Element.isExpansion

end Watch

namespace Renderer

/-- Elements in order, down to a depth, under a watch that ends the render with a fault. The list holds the
    elements that are being rendered. -/
def watched (r : Renderer) (w : Watch) (fault : Fault) : Nat → List Element → Recur
  | 0, _, _, _ => throw .exhausted
  | depth + 1, around, es, scope =>
      es.forM fun e =>
        unlessFault (w around e scope) fault (r.element (watched r w fault depth (e :: around)) scope e)

/-- Down to a depth, the render of some elements in a scope and from a state on never comes to a moment of which
    the condition holds: to end the render there makes no difference. -/
def Avoids (r : Renderer) (w : Watch) (depth : Nat) (es : List Element) (scope : Scope) (s : RenderState) :
    Prop :=
  ∀ fault, (r.watched w fault depth [] es scope).run s = (r.elements depth es scope).run s

variable {r : Renderer} {scope inside : Scope} {e : Element} {es : List Element}

/-- A render comes to its first element. -/
theorem not_avoids_of_head {w : Watch} {s : RenderState} (h : w [] e scope s = true) (depth : Nat) :
    ¬ r.Avoids w (depth + 1) (e :: es) scope s := by
  intro havoids
  have hfault : ∀ fault, (r.watched w fault (depth + 1) [] (e :: es) scope).run s = (.error fault, s) := by
    intro fault
    refine run_bind_error ?_
    rw [run_unlessFault, h]
    rfl
  -- two faults cannot both be the outcome of the render
  have heq := (havoids .badType).trans (havoids .badValue).symm
  rw [hfault, hfault] at heq
  cases heq

/-! ## Invariants -/

/-- What is true of all that a render descends to: `I around es scope` is to hold of some elements in a scope,
    inside the elements `around`. -/
structure Invariant (r : Renderer) (I : List Element → List Element → Scope → Prop) : Prop where
  descends : ∀ {around es es' e scope inside}, I around es scope → e ∈ es →
    r.Descends scope e es' inside → I (e :: around) es' inside
  /-- The text of a function can hold any elements. -/
  calls : ∀ {around es e scope s}, I around es scope → e ∈ es → e.resolvesCallable scope s = true →
    ∀ es', I (e :: around) es' scope

/-- **A watch that an invariant excludes makes no difference.** -/
theorem Invariant.watched_agree {I : List Element → List Element → Scope → Prop} (hI : r.Invariant I)
    {w : Watch} (hw : ∀ around es scope e s, I around es scope → e ∈ es → w around e scope s = false) (fault : Fault)
    (depth : Nat) {around : List Element} (h : I around es scope) :
    Agree (fun _ => True) (r.watched w fault depth around es scope) (r.elements depth es scope) := by
  induction depth generalizing around es scope with
  | zero => exact fun s => ⟨rfl, fun _ _ => trivial⟩
  | succ depth ih =>
      refine (coupling_agreeAt fun _ _ => trivial).always_forM fun e he s => .unlessFault_left (hw _ _ _ _ s h he) ?_
      exact element_agree (fun _ _ => trivial) r e (fun es' inside hd => ih (hI.descends h he hd))
        fun hc es' => ih (hI.calls h he hc es')

theorem Invariant.avoids {I : List Element → List Element → Scope → Prop} (hI : r.Invariant I) {w : Watch}
    (hw : ∀ around es scope e s, I around es scope → e ∈ es → w around e scope s = false)
    (h : I [] es scope) (depth : Nat) (s : RenderState) : r.Avoids w depth es scope s :=
  fun fault => (hI.watched_agree hw fault depth h s).1

/-! ## The depth of partials -/

/-- A descent goes one level down exactly at a partial or a parent, and not beyond the cap. -/
theorem Descends.depth_eq (h : r.Descends scope e es inside) :
    inside.depth = scope.depth + (if e.isExpansion then 1 else 0) ∧
      (e.isExpansion = true → inside.depth ≤ r.maxDepth.toNat) := by
  cases h with
  | partialUse _ hdepth => exact ⟨rfl, fun _ => by dsimp only; omega⟩
  | parent _ _ hdepth => exact ⟨rfl, fun _ => by dsimp only; omega⟩
  | absent | item | block | override => exact ⟨rfl, fun h => nomatch h⟩

theorem isExpansion_of_resolvesCallable {s : RenderState} (h : e.resolvesCallable scope s = true) :
    e.isExpansion = false := by
  cases e with
  | interpolation | sectionTag => rfl
  | _ => cases h

/-- The depth of a scope is the number of the partials and parents around it. -/
theorem invariant_depth (r : Renderer) :
    r.Invariant fun around _ scope =>
      around.countP Element.isExpansion = scope.depth ∧ scope.depth ≤ r.maxDepth.toNat where
  descends := by
    rintro around es es' e scope inside ⟨hcount, hle⟩ - hd
    obtain ⟨hdepth, hcap⟩ := hd.depth_eq
    rw [List.countP_cons, hcount, hdepth]
    refine ⟨rfl, ?_⟩
    cases hexp : e.isExpansion with
    | true =>
        have hcap := hcap hexp
        rw [hdepth, hexp] at hcap
        exact hcap
    | false => exact hle
  calls := by
    rintro around es e scope s ⟨hcount, hle⟩ - hc es'
    rw [List.countP_cons, isExpansion_of_resolvesCallable hc, hcount]
    exact ⟨rfl, hle⟩

/-- **The cap bounds the open partials.** -/
theorem avoids_deeperThan (r : Renderer) (depth : Nat) (es : List Element) (stack : Stack)
    (overrides : Table Text Element) (s : RenderState) :
    r.Avoids (.deeperThan r.maxDepth.toNat) depth es ⟨stack, overrides, 0⟩ s := by
  refine r.invariant_depth.avoids ?_ ⟨rfl, Nat.zero_le _⟩ depth s
  rintro around es scope e s ⟨hcount, hle⟩ -
  exact decide_eq_false (by omega)

end Renderer

end Mustache

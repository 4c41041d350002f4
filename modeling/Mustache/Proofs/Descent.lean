import Mustache.Proofs.Coupling

/-!
# `Mustache.Proofs.Descent` — what the render of an element depends on

The simplest coupling is agreement: two parts of a render do the same from the same state on.

* `RenderM.Agree` — two parts of a render end in the same way, with none but some faults;
* `Renderer.element_agree` — **an element depends on the recursion only where it descends**, unless it resolves a
  function.
-/

namespace Mustache

/-! ## Agreement -/

namespace RenderM

variable {α β : Type} {ok : Fault → Prop}

/-- From a state on, two parts of a render end with the same outcome in the same state, and a fault with which they
    end is one of some. -/
def AgreeAt (ok : Fault → Prop) (s : RenderState) (x y : RenderM α) : Prop :=
  x.run s = y.run s ∧ ∀ f, (x.run s).1 = .error f → ok f

/-- Two parts of a render agree, from every state on. -/
def Agree (ok : Fault → Prop) (x y : RenderM α) : Prop := ∀ s, AgreeAt ok s x y

theorem agree_pure (v : α) : Agree ok (pure v) (pure v) := fun _ => ⟨rfl, fun _ h => nomatch h⟩

theorem AgreeAt.bind {x y : RenderM α} {k k' : α → RenderM β} {s : RenderState} (hx : AgreeAt ok s x y)
    (hk : ∀ v t, x.run s = (.ok v, t) → AgreeAt ok t (k v) (k' v)) :
    AgreeAt ok s (x >>= k) (y >>= k') := by
  obtain ⟨heq, hok⟩ := hx
  unfold AgreeAt
  rw [run_bind, run_bind, ← heq]
  rcases hrun : x.run s with ⟨f | v, t⟩
  · rw [hrun] at hok
    refine ⟨rfl, fun f' h => ?_⟩
    cases h
    exact hok f rfl
  · exact hk v t hrun

theorem agree_withLayer {x y : RenderM Unit} (l : Layer) (h : Agree ok x y) :
    Agree ok (withLayer l x) (withLayer l y) := by
  intro s
  obtain ⟨heq, hok⟩ := h { s with sink := s.sink.indented l }
  unfold AgreeAt
  rw [run_withLayer, run_withLayer, ← heq]
  exact ⟨rfl, hok⟩

theorem AgreeAt.collect {x y : RenderM Unit} {s : RenderState} (h : AgreeAt ok { s with sink := .bare .buffer } x y) :
    AgreeAt ok s (collect x) (collect y) := by
  obtain ⟨heq, hok⟩ := h
  unfold AgreeAt
  rw [run_collect, run_collect, ← heq]
  refine ⟨rfl, fun f hf => ?_⟩
  rcases hrun : (x.run { s with sink := .bare .buffer }).1 with f' | v
  · rw [hrun] at hf hok
    cases hf
    exact hok f rfl
  · rw [hrun] at hf
    cases hf

section Parts

variable (hok : ∀ f, f ≠ .exhausted → ok f)

include hok

theorem agree_throw {f : Fault} (hf : f ≠ .exhausted) : Agree ok (throw f : RenderM α) (throw f) := by
  refine fun s => ⟨rfl, fun f' h => ?_⟩
  cases h
  exact hok f hf

theorem agree_host {x : HostM α} (hx : x.Settles) : Agree ok (host x) (host x) := by
  refine fun s => ⟨rfl, fun f h => hok f ?_⟩
  rintro rfl
  exact hx.ne_exhausted s.host h

theorem agree_emit (c : Chunk) : Agree ok (emit c) (emit c) := by
  refine fun s => ⟨rfl, fun f h => hok f ?_⟩
  rw [run_emit] at h
  cases hrefusal : (s.sink.write c).2 with
  | none =>
      rw [hrefusal] at h
      cases h
  | some fault =>
      rw [hrefusal] at h
      cases h
      exact Sink.write_ne_exhausted hrefusal

/-- Agreement, with all faults but exhaustion allowed, is a coupling. -/
theorem coupling_agreeAt : Coupling (fun s x y => AgreeAt ok s x y) where
  ofPure := agree_pure
  ofBind := AgreeAt.bind
  ofHost hx := agree_host hok hx
  ofThrow hf := agree_throw hok hf
  ofCollect h _ := .collect (h _)

end Parts

end RenderM

open RenderM

namespace Renderer

variable {ok : Fault → Prop} {recur recur' : Recur} {scope : Scope} {s : RenderState}

/-- **An element depends on the recursion only where it descends**, unless it resolves a function. -/
theorem element_agree (hok : ∀ f, f ≠ .exhausted → ok f) (r : Renderer) (e : Element)
    (hdescends : ∀ es inside, r.Descends scope e es inside → Agree ok (recur es inside) (recur' es inside))
    (hcallable : e.resolvesCallable scope s = true → ∀ es, Agree ok (recur es scope) (recur' es scope)) :
    AgreeAt ok s (r.element recur scope e) (r.element recur' scope e) :=
  (coupling_agreeAt hok).element e (fun c _ => agree_emit hok c) (fun l _ _ _ h => agree_withLayer l h) hdescends
    fun hc => ⟨hcallable hc, agree_emit hok⟩

end Renderer

end Mustache

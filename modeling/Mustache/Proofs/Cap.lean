import Mustache.Proofs.Coupling

/-!
# `Mustache.Proofs.Cap` — renders that stay below the cap

The cap on open partials shows in a render only where it is reached, and then it is reported. So a render that
reports nothing of the kind can be followed by another one under other caps, at other depths or over other trees, as
long as the other one does not reach its cap where the first does not.

* `Host.capReports` — how often the log reports that the cap is reached; no part of a render takes back a report;
* `RenderM.Follows` — a part does what another one does, unless that one reports the cap or ends with a fault that is
  not allowed. It is a coupling, so the definitions of the elements stay closed;
* `Renderer.expand_followed`, `Renderer.expand_follows` — an expansion need be followed only below the cap.
-/

namespace Mustache

/-! ## Reports -/

/-- Whether an event reports that the cap on open partials is reached. -/
def LogEvent.isDepthReached : LogEvent → Bool
  | .depthReached .. => true
  | _ => false

namespace Host

/-- How often the log reports that the cap on open partials is reached. -/
def capReports (h : Host) : Nat := h.log.countP LogEvent.isDepthReached

theorem capReports_le_of_suffix {h h' : Host} (hlog : h.log <:+ h'.log) : h.capReports ≤ h'.capReports :=
  hlog.sublist.countP_le

end Host

/-! ## Following -/

namespace RenderM

variable {α β : Type} {ok : Fault → Prop}

/-- From a state on, a part `x` takes back no report of the cap; and if it makes none and ends with no fault but an
    allowed one, then the part `y` does what `x` does. -/
structure FollowsAt (ok : Fault → Prop) (s : RenderState) (x y : RenderM α) : Prop where
  le : s.host.capReports ≤ (x.run s).2.host.capReports
  run_eq : (x.run s).2.host.capReports = s.host.capReports → (∀ f, (x.run s).1 = .error f → ok f) →
    y.run s = x.run s

/-- From every state on, a part `y` follows a part `x`. -/
def Follows (ok : Fault → Prop) (x y : RenderM α) : Prop := ∀ s, FollowsAt ok s x y

/-- What follows a part that reports no cap and is not cut short does the same. -/
theorem Follows.run_eq_of_ends {x y : RenderM α} (h : Follows (· ≠ .exhausted) x y) {s : RenderState}
    (hends : (x.run s).1 ≠ .error .exhausted) (hquiet : (x.run s).2.host.capReports = s.host.capReports) :
    y.run s = x.run s := by
  refine (h s).run_eq hquiet ?_
  rintro f hf rfl
  exact hends hf

theorem follows_pure (v : α) : Follows ok (pure v) (pure v) := fun _ => ⟨Nat.le_refl _, fun _ _ => rfl⟩

theorem follows_throw (f : Fault) : Follows ok (throw f : RenderM α) (throw f) :=
  fun _ => ⟨Nat.le_refl _, fun _ _ => rfl⟩

/-- A fault that is not allowed need not be followed. -/
theorem follows_of_not_ok {f : Fault} (hf : ¬ ok f) (y : RenderM α) : Follows ok (throw f) y := by
  intro s
  refine ⟨Nat.le_refl _, fun _ hok => ?_⟩
  exact absurd (hok f rfl) hf

theorem follows_host {x : HostM α} (hx : x.Settles) : Follows ok (host x) (host x) := by
  intro s
  refine ⟨?_, fun _ _ => rfl⟩
  rw [run_host]
  exact Host.capReports_le_of_suffix (hx.log_suffix s.host)

/-- A part that begins with a report of the cap need not be followed. -/
theorem follows_report {e : LogEvent} (he : e.isDepthReached = true) (y : RenderM Unit) :
    Follows ok (host (HostM.report e)) y := by
  intro s
  have hreports : ((host (HostM.report e)).run s).2.host.capReports = s.host.capReports + 1 :=
    List.countP_cons_of_pos he
  refine ⟨?_, fun heq => ?_⟩
  · rw [hreports]
    exact Nat.le_succ _
  · rw [hreports] at heq
    omega

theorem follows_emit (c : Chunk) : Follows ok (emit c) (emit c) := by
  intro s
  have hhost : ((emit c).run s).2.host = s.host := by rw [run_emit]
  exact ⟨Nat.le_of_eq (congrArg Host.capReports hhost.symm), fun _ _ => rfl⟩

theorem FollowsAt.bind {x y : RenderM α} {k k' : α → RenderM β} {s : RenderState} (hx : FollowsAt ok s x y)
    (hk : ∀ v t, x.run s = (.ok v, t) → FollowsAt ok t (k v) (k' v)) : FollowsAt ok s (x >>= k) (y >>= k') := by
  obtain ⟨hle, heq⟩ := hx
  rcases hrun : x.run s with ⟨f | v, t⟩
  · -- the first part ends the whole, so there is nothing else to follow
    have hwhole : (x >>= k).run s = (.error f, t) := run_bind_error hrun
    rw [hrun] at hle heq
    constructor
    · rw [hwhole]
      exact hle
    · intro hreports hok
      rw [hwhole] at hreports hok ⊢
      exact run_bind_error (heq hreports fun f' hf' => hok f' (by cases hf'; rfl))
  · have hwhole : (x >>= k).run s = (k v).run t := run_bind_ok hrun
    obtain ⟨hle', heq'⟩ := hk v t hrun
    rw [hrun] at hle heq
    constructor
    · rw [hwhole]
      exact Nat.le_trans hle hle'
    · intro hreports hok
      rw [hwhole] at hreports hok ⊢
      -- reports are only added, so neither of the two parts has made any
      have hfirst : t.host.capReports = s.host.capReports := by
        apply Nat.le_antisymm _ hle
        rw [← hreports]
        exact hle'
      have hy : y.run s = (.ok v, t) := heq hfirst fun f hf => nomatch hf
      rw [run_bind_ok hy]
      exact heq' (hreports.trans hfirst.symm) hok

theorem follows_withLayer {x y : RenderM Unit} (l : Layer) (h : Follows ok x y) :
    Follows ok (withLayer l x) (withLayer l y) := by
  intro s
  obtain ⟨hle, heq⟩ := h { s with sink := s.sink.indented l }
  refine ⟨hle, fun hreports hok => ?_⟩
  rw [run_withLayer, run_withLayer, heq hreports hok]

theorem follows_collect {x y : RenderM Unit} (h : Follows ok x y) : Follows ok (collect x) (collect y) := by
  intro s
  obtain ⟨hle, heq⟩ := h { s with sink := .bare .buffer }
  refine ⟨hle, fun hreports hok => ?_⟩
  have hfaults : ∀ f, (x.run { s with sink := .bare .buffer }).1 = .error f → ok f := by
    intro f hf
    apply hok f
    rw [run_collect, hf]
    rfl
  rw [run_collect, run_collect, heq hreports hfaults]

/-- To follow is a coupling. -/
theorem coupling_followsAt (ok : Fault → Prop) : Coupling (fun s x y => FollowsAt ok s x y) where
  ofPure := follows_pure
  ofBind := FollowsAt.bind
  ofHost := follows_host
  ofThrow _ := follows_throw _
  ofCollect := follows_collect

end RenderM

open RenderM

/-! ## Expansions -/

namespace Renderer

variable {r : Renderer} {cap : Int} {recur recur' : Recur} {scope scope' : Scope} {t : Template}
  {indent : Option Text} {overrides overrides' : Table Text Element} {ok : Fault → Prop}

/-- An expansion without indentation is followed by what follows the elements that it brings in below the cap. -/
theorem expand_followed {y : RenderM Unit} (hindent : indent.getD [] = [])
    (h : scope.depth < r.maxDepth →
      Follows ok (recur t.elements { scope with overrides := overrides, depth := scope.depth + 1 }) y) :
    Follows ok (r.expand recur scope t indent overrides) y := by
  rcases Int.lt_or_le scope.depth r.maxDepth with hbelow | hcapped
  · rw [expand_of_below hbelow hindent]
    exact h hbelow
  · rw [expand_of_capped hcapped]
    exact follows_report rfl y

/-- An expansion follows another one that reaches its cap no later. -/
theorem expand_follows (hcap : cap ≤ scope'.depth → r.maxDepth ≤ scope.depth)
    (h : scope.depth < r.maxDepth →
      Follows ok (recur t.elements { scope with overrides := overrides, depth := scope.depth + 1 })
        (recur' t.elements { scope' with overrides := overrides', depth := scope'.depth + 1 })) :
    Follows ok (r.expand recur scope t indent overrides)
      (expand { r with maxDepth := cap } recur' scope' t indent overrides') := by
  rcases Int.lt_or_le scope.depth r.maxDepth with hbelow | hcapped
  · have hbelow' : ¬ cap ≤ scope'.depth := fun hc => absurd (hcap hc) (by omega)
    unfold expand
    rw [if_neg (by omega), if_neg hbelow']
    dsimp only
    split
    · exact follows_withLayer _ (h hbelow)
    · exact h hbelow
  · rw [expand_of_capped hcapped]
    exact follows_report rfl _

end Renderer

end Mustache

import Mustache.Proofs.Gaps

/-!
# `Mustache.Proofs.Suppression` — inverted sections that are not rendered

An inverted section over a value that has items is not rendered, but its key is resolved and the value coerced to
items. That leaves a trace if it calls a function or reads a stream: a stream that is coerced has been read to its end
and has no items for a later section. Otherwise the host is as it was before.

* `HostM.Unreported` — lookups report nothing and forget no call;
* `Scope.suppresses`, `Renderer.element_of_suppresses` — **an inverted section that leaves no trace**;
* `Renderer.Suppresses` — whenever a render comes to the section in the gap of a template, the section leaves no trace;
* `run_fillAll_of_suppresses` — **then the template is rendered as if the section were not there**.
-/

namespace Mustache

open RenderM

/-! ## Uses of the host that report nothing -/

namespace HostM

/-- However a use of the host ends, it has reported nothing, and the calls before it are remembered. -/
structure Unreported {α : Type} (x : HostM α) : Prop where
  log_eq : ∀ h, (x.run h).2.log = h.log
  calls_suffix : ∀ h, h.calls <:+ (x.run h).2.calls

theorem Unreported.bind {α β : Type} {x : HostM α} {k : α → HostM β} (hx : x.Unreported) (hk : ∀ v, (k v).Unreported) :
    (x >>= k).Unreported where
  log_eq h := by
    have hlog := hx.log_eq h
    rw [Fault.run_bind]
    rcases hrun : x.run h with ⟨f | v, h'⟩
    · rwa [hrun] at hlog
    · rw [hrun] at hlog
      exact ((hk v).log_eq h').trans hlog
  calls_suffix h := by
    have hcalls := hx.calls_suffix h
    rw [Fault.run_bind]
    rcases hrun : x.run h with ⟨f | v, h'⟩
    · rwa [hrun] at hcalls
    · rw [hrun] at hcalls
      exact hcalls.trans ((hk v).calls_suffix h')

theorem closed_unreported : Closed Unreported where
  ofPure _ := ⟨fun _ => rfl, fun _ => List.suffix_rfl⟩
  ofBind := .bind
  ofThrow _ := ⟨fun _ => rfl, fun _ => List.suffix_rfl⟩
  ofTally _ := ⟨fun _ => rfl, fun _ => List.suffix_rfl⟩
  ofSetTally _ _ := ⟨fun _ => rfl, fun _ => List.suffix_rfl⟩
  ofRecord c := ⟨fun _ => rfl, fun h => List.suffix_cons c h.calls⟩
  ofRenew _ := ⟨fun _ => rfl, fun _ => List.suffix_rfl⟩

/-- A use of the host that neither reports nor calls nor changes a cell leaves the host as it was. -/
theorem Unreported.host_eq {α : Type} {x : HostM α} (hx : x.Unreported) {h : Host}
    (hcalls : (x.run h).2.calls.length = h.calls.length) (htallies : (x.run h).2.tallies = h.tallies) :
    (x.run h).2 = h := by
  have hsame := (hx.calls_suffix h).eq_of_length hcalls.symm
  calc (x.run h).2 = ⟨(x.run h).2.tallies, (x.run h).2.calls, (x.run h).2.log⟩ := rfl
    _ = ⟨h.tallies, h.calls, h.log⟩ := by rw [htallies, ← hsame, hx.log_eq h]
    _ = h := rfl

end HostM

/-! ## Suppressed sections -/

/-- Whether a value is a stream. -/
def Value.isStream : Value → Bool
  | .stream .. => true
  | _ => false

/-- To coerce a value that is no stream is to look at it. -/
theorem coerceItems_run_of_not_stream {v : Value} (hv : v.isStream = false) (h : Host) :
    ((coerceItems (some v)).run h).2 = h := by
  unfold coerceItems
  dsimp only
  split
  · cases v with
    | stream => cases hv
    | _ => rfl
  · split <;> rfl

/-- Whether an inverted section with a key leaves no trace: its key resolves without a call of a function and without
    reading a stream, and to a value that is no stream and has items. -/
def Scope.suppresses (scope : Scope) (key : Text) (s : RenderState) : Bool :=
  match (scope.stack.resolve (keyPath key)).run s.host with
  | (.ok (some v), h) =>
      h.calls.length == s.host.calls.length && h.tallies == s.host.tallies && !v.isStream &&
        match ((coerceItems (some v)).run h).1 with
        | .ok items => !items.isEmpty
        | .error _ => false
  | _ => false

/-- From every state on, a part does the same as another one, unless it is stopped. -/
def RenderM.SameUnless (fault : Fault) (x y : RenderM Unit) : Prop :=
  ∀ s, AgreeUnless (fun _ => True) fault s x y

namespace Renderer

variable {r : Renderer} {recur : Recur} {scope : Scope} {key : Text} {children : List Element} {raw : Text}
  {d : Delimiters} {s : RenderState}

/-- **An inverted section over a value with items leaves no trace**, if neither resolving nor coercing the value
    does. -/
theorem element_of_suppresses (h : scope.suppresses key s = true) :
    (r.element recur scope (.sectionTag key true children raw d)).run s = (.ok (), s) := by
  unfold Scope.suppresses at h
  split at h
  · rename_i v h' hresolve
    simp only [Bool.and_eq_true, beq_iff_eq, Bool.not_eq_true'] at h
    obtain ⟨⟨⟨hcalls, htallies⟩, hstream⟩, hitems⟩ := h
    have hhost : h' = s.host := by
      have heq := (HostM.closed_unreported.resolve scope.stack (keyPath key)).host_eq (h := s.host)
        (by rwa [hresolve]) (by rwa [hresolve])
      rwa [hresolve] at heq
    have hcoerce := coerceItems_run_of_not_stream hstream h'
    rcases hrun : (coerceItems (some v)).run h' with ⟨f | items, h''⟩
    · rw [hrun] at hitems
      cases hitems
    · rw [hrun] at hitems hcoerce
      dsimp only at hitems hcoerce
      have hnot : items.isEmpty = false := by simpa using hitems
      rw [hcoerce, hhost] at hrun
      rw [hhost] at hresolve
      show (Renderer.sectionTag recur scope key true children raw d).run s = _
      unfold Renderer.sectionTag
      rw [run_bind_ok (v := some v) (t := s) (by rw [run_host, hresolve])]
      show (host (coerceItems (some v)) >>= _).run s = _
      rw [run_bind_ok (v := items) (t := s) (by rw [run_host, hrun])]
      unfold sectionItems
      rw [if_pos rfl, hnot]
      rfl
  · cases h

/-- An element, or a fault instead if the value of a key leaves a trace. -/
def unlessTrace (r : Renderer) (key : Text) (fault : Fault) (e : Element) (recur : Recur) (scope : Scope) :
    RenderM Unit :=
  unlessFault (fun s => !scope.suppresses key s) fault (r.element recur scope e)

/-- Whenever the render of some elements in a scope, down to a depth and from a state on, comes to the gap, the value
    of a key leaves no trace there: to end the render otherwise makes no difference to the element in the gap. -/
def Suppresses (r : Renderer) (gap key : Text) (e : Element) (depth : Nat) (es : List Element) (scope : Scope)
    (s : RenderState) : Prop :=
  ∀ fault, (r.gapped gap (r.unlessTrace key fault e) depth es scope).run s
    = (r.elements depth (Element.fillAll gap [e] es) (scope.fill gap [e])).run s

section Gapped

variable {recur' : Recur} {gap : Text} {fault : Fault} {e : Element} {n : Nat} {es : List Element}

theorem element_sameUnless (e : Element) (h : ∀ es inside, SameUnless fault (recur es inside) (recur' es inside)) :
    SameUnless fault (r.element recur scope e) (r.element recur' scope e) := by
  have hok : ∀ f : Fault, f ≠ .exhausted → (fun _ => True) f := fun _ _ => trivial
  have hemit : ∀ c, SameUnless fault (emit c) (emit c) := fun c s => .inl (agree_emit hok c s)
  intro s
  exact (coupling_agreeUnless hok fault).element e (fun c _ => hemit c) (fun l x y _ hxy s => .withLayer hxy)
    (fun es inside _ => h es inside) fun _ => ⟨fun es => h es scope, hemit⟩

/-- Renders with a gap do the same, unless one is stopped, when they do the same in place of the gap as soon as what
    is brought in there does the same. -/
theorem gapped_sameUnless {x y : Recur → Scope → RenderM Unit}
    (h : ∀ {recur recur' : Recur}, (∀ es inside, SameUnless fault (recur es inside) (recur' es inside)) →
      ∀ scope, SameUnless fault (x recur scope) (y recur' scope)) (n : Nat) (es : List Element) (scope : Scope) :
    SameUnless fault (r.gapped gap x n es scope) (r.gapped gap y n es scope) := by
  induction n generalizing es scope with
  | zero => exact fun s => .inl ⟨rfl, fun _ _ => trivial⟩
  | succ n ih =>
      refine (coupling_agreeUnless (fun _ _ => trivial) fault).always_forM fun e _ s => ?_
      split
      · exact h ih scope s
      · exact element_sameUnless e ih s

/-- It is enough to end the render with one fault, and to see that it does not end so. -/
theorem suppresses_of_unstopped (hpartials : ∀ p ∈ r.partials, Element.Gapless gap p.2.elements)
    (he : Element.Gapless gap [e]) (fault : Fault)
    (hrun : ((r.gapped gap (r.unlessTrace key fault e) n es scope).run s).1 ≠ .error fault) :
    r.Suppresses gap key e n es scope s := by
  -- where the run is not stopped, it does the same as all that it does the same as unless it is stopped
  have hsame : ∀ {x : Recur → Scope → RenderM Unit},
      (∀ {recur recur' : Recur}, (∀ es inside, SameUnless fault (recur es inside) (recur' es inside)) →
        ∀ scope, SameUnless fault (r.unlessTrace key fault e recur scope) (x recur' scope)) →
      (r.gapped gap (r.unlessTrace key fault e) n es scope).run s = (r.gapped gap x n es scope).run s := by
    intro x hx
    rcases gapped_sameUnless hx n es scope s with hagree | ⟨t, hstop⟩
    · exact hagree.1
    · exact absurd (congrArg Prod.fst hstop) hrun
  have hfaults : ∀ fault', (r.gapped gap (r.unlessTrace key fault e) n es scope).run s
      = (r.gapped gap (r.unlessTrace key fault' e) n es scope).run s := fun fault' =>
    hsame fun h scope s => .unlessFault_both fun _ => element_sameUnless e h s
  have hunwatched : (r.gapped gap (r.unlessTrace key fault e) n es scope).run s
      = (r.gapped gap (fun recur scope => [e].forM (r.element recur scope)) n es scope).run s :=
    hsame fun h scope s => .unlessFault fun _ => (element_sameUnless e h s).congr_right (by
      show _ = (r.element _ scope e >>= fun _ => pure ()).run s
      rw [bind_pure_unit])
  intro fault'
  rw [← hfaults, hunwatched, gapped_eq_elements hpartials he]

end Gapped

end Renderer

/-- **A suppressed section leaves no trace.** Let an inverted section stand in the gap of a template, and let its key
    resolve, whenever a render comes to it, without a call of a function and without reading a stream, to a value that
    is no stream and has items. Then the render, down to any depth and to any sink, is the render of the template
    without the section: it ends with the same outcome, writes the same, and leaves the host in the same state. -/
theorem run_fillAll_of_suppresses {r : Renderer} {gap key raw : Text} {children es : List Element} {d : Delimiters}
    {n : Nat} {stack : Stack} {s : RenderState} (hpartials : ∀ p ∈ r.partials, Element.Gapless gap p.2.elements)
    (hsuppresses : r.Suppresses gap key (.sectionTag key true children raw d) n es ⟨stack, [], 0⟩ s) :
    r.run n (Element.fillAll gap [.sectionTag key true children raw d] es) stack s
      = r.run n (Element.fillAll gap [] es) stack s := by
  have hnone : r.gapped gap (fun _ _ => pure ()) n es ⟨stack, [], 0⟩
      = r.elements n (Element.fillAll gap [] es) ⟨stack, [], 0⟩ :=
    Renderer.gapped_eq_elements hpartials Element.everywhere_nil n es ⟨stack, [], 0⟩
  have hagree := agreeAt_of_agreeUnless hsuppresses fun fault =>
    r.gapped_sameUnless (fun _ scope _ => AgreeUnless.unlessFault fun hstop => .inl ⟨by
      rw [Renderer.element_of_suppresses (by simpa using hstop)]
      rfl, fun _ _ => trivial⟩) n es ⟨stack, [], 0⟩ s
  exact hagree.1.trans (congrArg (·.run s) hnone)

/-! ### Lists and streams -/

/-- What is shown in place of the items when there are none. -/
def noItems : Element := .sectionTag ['x'] true [.text ['-']] ['-'] .braces

/-- The items, after a gap for what is shown in their place. -/
def itemsAfterGap : List Element :=
  [.foreign ['g'], .sectionTag ['x'] false [.interpolation ['.'] true] "\x7b\x7b.\x7d\x7d".toList .braces]

/-- A renderer that has the items, with what is shown in their place, for a partial. -/
def itemsRenderer : Renderer := ⟨[(['p'], ⟨Element.fillAll ['g'] [noItems] itemsAfterGap, none⟩)], Escape.html, 2⟩

/-- Two rows with items, then one row for the partial. -/
def rowsAroundGap : List Element :=
  [.sectionTag ['r'] false itemsAfterGap [] .braces, .partialTag ['p'] none]

/-- The rows, and no items outside them. -/
def rowsStack : Stack :=
  .ofValues [.map .dict [(.text ['x'], .seq .list []),
    (.text ['r'], .seq .list [.map .dict [(.text ['x'], .seq .list [.int 1, .int 2])],
      .map .dict [(.text ['x'], .seq .tuple [.int 3])]])]]

theorem gapless_noItems : Element.Gapless ['g'] [noItems] := by
  simp [Element.Gapless, noItems, Element.isGap, Element.everywhere_cons, Element.everywhere_nil, Element.children,
    Element.children?]

theorem gapless_items : Element.Gapless ['g'] (Element.fillAll ['g'] [noItems] itemsAfterGap) := by
  refine Element.everywhere_cons.mpr ⟨Element.everywhere_singleton.mp gapless_noItems, ?_⟩
  simp [Element.fillAll, Element.fill, Element.isGap, Element.everywhere_cons, Element.everywhere_nil,
    Element.children, Element.children?]

/-- The section is suppressed for both rows. The same section in the partial is rendered. -/
theorem run_fillAll_of_suppresses_rows :
    ((∀ p ∈ itemsRenderer.partials, Element.Gapless ['g'] p.2.elements) ∧
      itemsRenderer.Suppresses ['g'] ['x'] noItems 9 rowsAroundGap ⟨rowsStack, [], 0⟩ ⟨.fresh, .bare .buffer⟩) ∧
    itemsRenderer.run 9 (Element.fillAll ['g'] [noItems] rowsAroundGap) rowsStack ⟨.fresh, .bare .buffer⟩
      = itemsRenderer.run 9 (Element.fillAll ['g'] [] rowsAroundGap) rowsStack ⟨.fresh, .bare .buffer⟩ ∧
    (itemsRenderer.run 9 (Element.fillAll ['g'] [] rowsAroundGap) rowsStack
      ⟨.fresh, .bare .buffer⟩).2.sink.device.text = "123-".toList := by
  have hpartials : ∀ p ∈ itemsRenderer.partials, Element.Gapless ['g'] p.2.elements :=
    List.forall_mem_singleton.mpr gapless_items
  have hsuppresses : itemsRenderer.Suppresses ['g'] ['x'] noItems 9 rowsAroundGap ⟨rowsStack, [], 0⟩
      ⟨.fresh, .bare .buffer⟩ := by
    have hok : ((itemsRenderer.gapped ['g'] (itemsRenderer.unlessTrace ['x'] .badType noItems) 9 rowsAroundGap
        ⟨rowsStack, [], 0⟩).run ⟨.fresh, .bare .buffer⟩).1.isOk = true := by
      decide +kernel
    refine Renderer.suppresses_of_unstopped hpartials gapless_noItems .badType fun h => ?_
    rw [h] at hok
    cases hok
  have hrun := run_fillAll_of_suppresses hpartials hsuppresses
  refine ⟨⟨hpartials, hsuppresses⟩, hrun, ?_⟩
  decide +kernel

/-- One stream. -/
def streamStack : Stack := .ofValues [.map .dict [(.text ['x'], .stream 0 [.int 1, .int 2])]]

/-- **An inverted section over a stream leaves a trace.** No function is called and the stream has items, but the
    inverted section reads them, and none are left for the section after it. -/
theorem run_fillAll_of_stream :
    Element.parse .braces "\x7b\x7b^x\x7d\x7d-\x7b\x7b/x\x7d\x7d\x7b\x7b#x\x7d\x7d\x7b\x7b.\x7d\x7d\x7b\x7b/x\x7d\x7d".toList
      = .ok (Element.fillAll ['g'] [noItems] itemsAfterGap) ∧
    (∃ v, (streamStack.resolve (keyPath ['x'])).run ⟨#[0], [], []⟩ = (.ok (some v), ⟨#[0], [], []⟩) ∧
      ∃ items, ((coerceItems (some v)).run ⟨#[0], [], []⟩).1 = .ok items ∧ items ≠ []) ∧
    ((itemsRenderer.render ⟨Element.fillAll ['g'] [noItems] itemsAfterGap, none⟩ streamStack).run
      ⟨#[0], [], []⟩).1 = .ok [] ∧
    ((itemsRenderer.render ⟨Element.fillAll ['g'] [] itemsAfterGap, none⟩ streamStack).run
      ⟨#[0], [], []⟩).1 = .ok "12".toList := by
  refine ⟨?_, ⟨.stream 0 [.int 1, .int 2], ?_, [.int 1, .int 2], ?_, nofun⟩, ?_, ?_⟩
  · with_unfolding_all rfl
  · rfl
  · rfl
  · with_unfolding_all rfl
  · with_unfolding_all rfl

end Mustache

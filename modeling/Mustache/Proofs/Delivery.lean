import Mathlib.Data.List.Infix
import Mustache.Proofs.Coupling
import Mustache.Proofs.Feeding

/-!
# `Mustache.Proofs.Delivery` — a render and its device

A render never looks at its device: it writes texts until it ends or the device refuses one. So there is one series
of texts for a template, whatever the device is. `RenderM.Delivers` says this of a part of a render, and it survives
the ways in which parts are put together; the layers of the sink, with the lines that they have begun, are on the
side of the render.

* `Renderer.renderTo_delivers` — the texts of a render, its outcome and the host after it are the same for all
  devices that take the texts, and any other device holds those before the one that it refuses;
* `render_agrees_with_streams` — hence a render to a text, to a stream of characters and to one of bytes end in the
  same way with the same text and the same use of the host;
* `renderTo_limited` — **and a stream that fails holds exactly the writes before its failure**.
-/

namespace Mustache

/-! ## Parts of a render -/

namespace RenderM

variable {α β : Type}

/-- `Delivers x h ls ws o h' ls'`: with the host `h` and under the layers `ls`, the part `x` writes the texts `ws`,
    none of them empty, and ends with the outcome `o`, the host `h'` and the layers `ls'`. A device that refuses one
    of the texts ends it there. -/
structure Delivers (x : RenderM α) (h : Host) (ls : List Layer) (ws : List Text) (o : Except Fault α) (h' : Host)
    (ls' : List Layer) : Prop where
  nonempty : ∀ w ∈ ws, w ≠ []
  taken : ∀ {d d' : Device}, d.endurance ≠ .unwritable → d.feed ws = (d', none) →
    x.run ⟨h, ⟨ls, d⟩⟩ = (o, ⟨h', ⟨ls', d'⟩⟩)
  refused : ∀ {d d' : Device} {f : Fault}, d.endurance ≠ .unwritable → d.feed ws = (d', some f) →
    ∃ t, x.run ⟨h, ⟨ls, d⟩⟩ = (.error f, t) ∧ t.sink.device = d'

/-- From a state on whose device takes everything, a part writes texts that it would write to every device. -/
def DeliversAt (s : RenderState) (x : RenderM α) : Prop :=
  s.sink.device.endurance = .endless → ∃ ws o h' ls', Delivers x s.host s.sink.layers ws o h' ls'

variable {x : RenderM α} {k : α → RenderM β} {h h' h'' : Host} {ls ls' ls'' : List Layer} {ws vs : List Text}

/-- A part that writes nothing. -/
theorem Delivers.silent {o : Except Fault α} (hx : ∀ d, x.run ⟨h, ⟨ls, d⟩⟩ = (o, ⟨h', ⟨ls', d⟩⟩)) :
    Delivers x h ls [] o h' ls' where
  nonempty := by simp
  taken := by
    intro d d' _ hfeed
    cases hfeed
    exact hx d
  refused := by
    intro d d' f _ hfeed
    cases hfeed

/-- One part after another. -/
theorem Delivers.bind {v : α} {o : Except Fault β} (hx : Delivers x h ls ws (.ok v) h' ls')
    (hk : Delivers (k v) h' ls' vs o h'' ls'') : Delivers (x >>= k) h ls (ws ++ vs) o h'' ls'' where
  nonempty := by
    intro w hw
    exact (List.mem_append.mp hw).elim (hx.nonempty w) (hk.nonempty w)
  taken := by
    intro d d' hd hfeed
    rcases hfirst : d.feed ws with ⟨d₁, _ | f⟩
    · rw [Device.feed_append_of_taken hfirst] at hfeed
      have hd₁ : d₁.endurance ≠ .unwritable := by
        have hsame := Device.endurance_feed d ws
        rw [hfirst] at hsame
        rwa [hsame]
      rw [run_bind_ok (hx.taken hd hfirst)]
      exact hk.taken hd₁ hfeed
    · rw [Device.feed_append_of_refused hfirst] at hfeed
      cases hfeed
  refused := by
    intro d d' f hd hfeed
    rcases hfirst : d.feed ws with ⟨d₁, _ | f'⟩
    · rw [Device.feed_append_of_taken hfirst] at hfeed
      have hd₁ : d₁.endurance ≠ .unwritable := by
        have hsame := Device.endurance_feed d ws
        rw [hfirst] at hsame
        rwa [hsame]
      rw [run_bind_ok (hx.taken hd hfirst)]
      exact hk.refused hd₁ hfeed
    · -- the refusal ends the first part, and the second is not begun
      rw [Device.feed_append_of_refused hfirst] at hfeed
      cases hfeed
      obtain ⟨t, hrun, ht⟩ := hx.refused hd hfirst
      exact ⟨t, run_bind_error hrun, ht⟩

/-- A part that ends with a fault, and what would come after it. -/
theorem Delivers.bind_error {f : Fault} (hx : Delivers x h ls ws (.error f) h' ls') :
    Delivers (x >>= k) h ls ws (.error f) h' ls' where
  nonempty := hx.nonempty
  taken hd hfeed := run_bind_error (hx.taken hd hfeed)
  refused hd hfeed := by
    obtain ⟨t, hrun, ht⟩ := hx.refused hd hfeed
    exact ⟨t, run_bind_error hrun, ht⟩

/-- A chunk is delivered as the texts that the layers make of it. -/
theorem delivers_emit (c : Chunk) (h : Host) (ls : List Layer) :
    Delivers (emit c) h ls (Sink.texts (Layer.passAll ls [(c, [])]).1) (.ok ()) h
      (Layer.passAll ls [(c, [])]).2 where
  nonempty := Sink.texts_ne_nil
  taken := by
    intro d d' hd hfeed
    have hwrite : (⟨ls, d⟩ : Sink).write c = _ := Sink.drain_of_taken hd hfeed
    rw [run_emit, hwrite]
    rfl
  refused := by
    intro d d' f hd hfeed
    obtain ⟨rest, hwrite⟩ : ∃ rest, (⟨ls, d⟩ : Sink).write c = (⟨rest, d'⟩, some f) :=
      Sink.drain_of_refused hd hfeed
    rw [run_emit, hwrite]
    exact ⟨_, rfl, rfl⟩

theorem Delivers.withLayer {x : RenderM Unit} {o : Except Fault Unit} (l : Layer)
    (hx : Delivers x h (l :: ls) ws o h' ls') : Delivers (withLayer l x) h ls ws o h' ls'.tail where
  nonempty := hx.nonempty
  taken := by
    intro d d' hd hfeed
    have hrun : x.run ⟨h, (⟨ls, d⟩ : Sink).indented l⟩ = _ := hx.taken hd hfeed
    rw [run_withLayer, hrun]
    rfl
  refused := by
    intro d d' f hd hfeed
    obtain ⟨t, hrun, ht⟩ := hx.refused hd hfeed
    have hrun : x.run ⟨h, (⟨ls, d⟩ : Sink).indented l⟩ = _ := hrun
    rw [run_withLayer, hrun]
    exact ⟨_, rfl, ht⟩

/-- What is collected does not reach the device. -/
theorem Delivers.collect {x : RenderM Unit} {o : Except Fault Unit} (hx : Delivers x h [] ws o h' ls') :
    Delivers (collect x) h ls [] (o.map fun _ => (Device.buffer.acceptAll ws).text) h' ls := by
  have hrun : x.run ⟨h, Sink.bare .buffer⟩ = (o, ⟨h', ⟨ls', Device.buffer.acceptAll ws⟩⟩) :=
    hx.taken (by simp [Device.buffer, Device.new]) (Device.feed_endless rfl ws)
  refine Delivers.silent fun d => ?_
  rw [run_collect, hrun]

theorem DeliversAt.bind {s : RenderState} (hx : DeliversAt s x)
    (hk : ∀ v t, x.run s = (.ok v, t) → DeliversAt t (k v)) : DeliversAt s (x >>= k) := by
  intro hs
  obtain ⟨ws, o, h', ls', hdelivers⟩ := hx hs
  have hrun := hdelivers.taken (d := s.sink.device) (by simp [hs]) (Device.feed_endless hs ws)
  cases o with
  | error f => exact ⟨ws, .error f, h', ls', hdelivers.bind_error⟩
  | ok v =>
      have hend : (s.sink.device.acceptAll ws).endurance = .endless :=
        (Device.endurance_acceptAll _ _).trans hs
      obtain ⟨vs, o, h'', ls'', hrest⟩ := hk v _ hrun hend
      exact ⟨ws ++ vs, o, h'', ls'', hdelivers.bind hrest⟩

/-- To write texts without regard to the device is a coupling, of a part with itself. -/
theorem coupling_deliversAt : Coupling (fun s x _ => DeliversAt s x) where
  ofPure v s _ := ⟨[], _, _, _, .silent fun d => rfl⟩
  ofBind := DeliversAt.bind
  ofHost {_ x} _ s _ :=
    ⟨[], (x.run s.host).1, (x.run s.host).2, s.sink.layers, .silent fun d => run_host x _⟩
  ofThrow _ s _ := ⟨[], _, _, _, .silent fun d => rfl⟩
  ofCollect hx s _ := by
    obtain ⟨ws, o, h', ls', hdelivers⟩ := hx { s with sink := .bare .buffer } rfl
    exact ⟨[], _, h', _, hdelivers.collect⟩

end RenderM

open RenderM

/-! ## Renders -/

namespace Renderer

/-- Elements write texts without regard to the device. -/
theorem elements_deliversAt (r : Renderer) (n : Nat) (es : List Element) (scope : Scope) (s : RenderState) :
    DeliversAt s (r.elements n es scope) := by
  have hemit : ∀ c s, DeliversAt s (emit c) := fun c s _ => ⟨_, _, _, _, delivers_emit c _ _⟩
  have hlayer : ∀ (l : Layer) (x : RenderM Unit), (∀ s, DeliversAt s x) → ∀ s, DeliversAt s (withLayer l x) := by
    intro l x hx s hs
    obtain ⟨ws, o, h', ls', hdelivers⟩ := hx { s with sink := s.sink.indented l } hs
    exact ⟨ws, o, h', ls'.tail, hdelivers.withLayer l⟩
  induction n generalizing es scope s with
  | zero => exact fun _ => ⟨[], _, _, _, .silent fun d => rfl⟩
  | succ n ih =>
      have hinside : ∀ es inside,
          Always (fun s x _ => DeliversAt s x) (r.elements n es inside) (r.elements n es inside) := ih
      have helements : Always (fun s x _ => DeliversAt s x) (r.elements (n + 1) es scope)
          (r.elements (n + 1) es scope) := by
        refine coupling_deliversAt.always_forM fun e _ s => ?_
        exact coupling_deliversAt.element e (fun c _ => hemit c) (fun l x _ _ hx => hlayer l x hx)
          (fun es inside _ => hinside es inside) fun _ => ⟨fun es => hinside es scope, hemit⟩
      exact helements s

/-- **One series of texts for all devices.** -/
theorem renderTo_delivers (r : Renderer) (t : Template) (stack : Stack) (h : Host) :
    ∃ ws o h', (∀ w ∈ ws, w ≠ []) ∧
      (∀ d d' : Device, d.endurance ≠ .unwritable → d.feed ws = (d', none) →
        (r.renderTo d t stack).run h = ((o, d'), h')) ∧
      ∀ (d d' : Device) (f : Fault), d.endurance ≠ .unwritable → d.feed ws = (d', some f) →
        ((r.renderTo d t stack).run h).1 = (.error f, d') := by
  obtain ⟨ws, o, h', ls', hdelivers⟩ := r.elements_deliversAt (r.depthBound t.elements + functionDepth) t.elements
    ⟨stack, [], 0⟩ ⟨h, .bare .buffer⟩ rfl
  refine ⟨ws, o, h', hdelivers.nonempty, fun d d' hd hfeed => ?_, fun d d' f hd hfeed => ?_⟩
  · exact renderTo_run (hdelivers.taken hd hfeed)
  · obtain ⟨u, hrun, rfl⟩ := hdelivers.refused hd hfeed
    rw [renderTo_run hrun]

end Renderer

/-! ## Streams -/

/-- **All ways to render agree.** From one state of the host, the render of a template to a text, that to a stream of
    characters and that to a stream of bytes end with the same fault, or all three end well, with the host in the same
    state: it has been called as often, with the same arguments, in the same order. In either case the streams were
    given the same texts, one by one, as characters and as their UTF-8 encoding, so that the bytes decode to the
    characters. If the renders end well, this is the text that the first one gives, and the streams count its
    characters and its bytes. -/
theorem render_agrees_with_streams (r : Renderer) (t : Template) (stack : Stack) (h : Host) :
    let text := (r.render t stack).run h
    let chars := (r.renderTo (.new .characters .endless) t stack).run h
    let bytes := (r.renderTo (.new .bytes .endless) t stack).run h
    ((∃ fault, text.1 = .error fault ∧ chars.1.1 = .error fault ∧ bytes.1.1 = .error fault) ∨
      (text.1 = .ok chars.1.2.text ∧ chars.1.1 = .ok () ∧ bytes.1.1 = .ok ())) ∧
    (chars.2 = text.2 ∧ bytes.2 = text.2) ∧
    (∃ ws : List Text, chars.1.2.packets.reverse = ws.map .characters ∧
      bytes.1.2.packets.reverse = ws.map fun w => .bytes (Text.utf8 w)) ∧
    (bytes.1.2.encoded = Text.utf8 chars.1.2.text ∧
      Encoding.utf8.decode? bytes.1.2.encoded = some chars.1.2.text) ∧
    chars.1.2.written = chars.1.2.text.length ∧ bytes.1.2.written = bytes.1.2.encoded.length := by
  obtain ⟨ws, o, h', hws, htaken, -⟩ := r.renderTo_delivers t stack h
  have hrun : ∀ m, (r.renderTo (.new m .endless) t stack).run h = ((o, (Device.new m .endless).acceptAll ws), h') :=
    fun m => htaken _ _ (by simp [Device.new]) (Device.feed_endless rfl ws)
  have htext : ((Device.new .characters .endless).acceptAll ws).text = ws.flatten := Device.text_acceptAll _ ws
  have hencoded : ((Device.new .bytes .endless).acceptAll ws).encoded = Text.utf8 ws.flatten :=
    Device.encoded_acceptAll _ ws
  intro text chars bytes
  have hchars : chars = _ := hrun .characters
  have hbytes : bytes = _ := hrun .bytes
  have htextRun : text = (o.map fun _ => ws.flatten, h') := by
    have hbuffer : (r.renderTo .buffer t stack).run h = _ := hrun .characters
    unfold text
    rw [Renderer.render_run, hbuffer, htext]
  rw [htextRun, hchars, hbytes]
  dsimp only
  rw [htext, hencoded, Device.acceptAll_new _ _ hws, Device.acceptAll_new _ _ hws]
  refine ⟨?_, ⟨rfl, rfl⟩, ⟨ws, List.reverse_reverse _, List.reverse_reverse _⟩, ⟨rfl, Encoding.decode?_utf8 _⟩,
    rfl, rfl⟩
  cases o with
  | error fault => exact .inl ⟨fault, rfl, rfl, rfl⟩
  | ok => exact .inr ⟨rfl, rfl, rfl⟩

/-- **A stream that fails holds exactly the writes before its failure.** Where a stream that never fails is given some
    writes, one that fails after `k` writes makes no difference if there are no more than `k` of them. Otherwise the
    render ends with the failure of the stream, which holds the first `k` writes; the refused write is the last one
    that the render attempts. -/
theorem renderTo_limited (r : Renderer) (t : Template) (stack : Stack) (h : Host) (m : Medium) (k : Nat) :
    let full := (r.renderTo (.new m .endless) t stack).run h
    let cut := (r.renderTo (.new m (.limited k)) t stack).run h
    (full.1.2.writes ≤ k → cut = ((full.1.1, { full.1.2 with endurance := .limited k }), full.2)) ∧
    (k < full.1.2.writes →
      cut.1.1 = .error .streamFailed ∧
      cut.1.2.packets.reverse = full.1.2.packets.reverse.take k ∧
      cut.1.2.text <+: full.1.2.text ∧ cut.1.2.encoded <+: full.1.2.encoded ∧
      cut.1.2.refusals = 1) := by
  obtain ⟨ws, o, h', hws, htaken, hrefused⟩ := r.renderTo_delivers t stack h
  intro full cut
  have hfull : full = _ := htaken _ _ (by simp [Device.new]) (Device.feed_endless rfl ws)
  have hnone : (Device.new m (.limited k)).writes = 0 := rfl
  rw [hfull, Device.acceptAll_new m _ hws]
  simp only [Device.writes, List.length_reverse, List.length_map, List.reverse_reverse]
  refine ⟨fun hk => ?_, fun hk => ?_⟩
  · have hfeed := Device.feed_limited (d := .new m (.limited k)) rfl hws (by omega)
    have hcut : cut = _ := htaken _ _ (by simp [Device.new]) hfeed
    rw [hcut, Device.acceptAll_new m _ hws]
  · have hfeed := Device.feed_limited_lt (d := .new m (.limited k)) rfl hws (Nat.zero_le k) (by omega)
    have htake : ∀ v ∈ ws.take k, v ≠ [] := fun v hv => hws v (List.mem_of_mem_take hv)
    have hcut : cut.1 = _ := hrefused _ _ _ (by simp [Device.new]) hfeed
    rw [hnone, Nat.sub_zero, Device.acceptAll_new m _ htake] at hcut
    have hheld : cut.1.2.packets.reverse = (ws.map m.pack).take k := by
      rw [hcut, Device.refuse, List.reverse_reverse, List.map_take]
    refine ⟨congrArg Prod.fst hcut, hheld, ?_, ?_, ?_⟩
    · rw [Device.text, hheld, Device.text, List.reverse_reverse]
      exact (List.take_prefix k _).flatMap _
    · rw [Device.encoded, hheld, Device.encoded, List.reverse_reverse]
      exact (List.take_prefix k _).flatMap _
    · rw [hcut]
      rfl

end Mustache

import Mustache.Proofs.Feeding
import Mustache.Proofs.Indentation
import Mustache.Proofs.Watching

/-!
# `Mustache.Proofs.Markup` — no markup comes from data

Under the policy `html` a value is escaped before it is written, and everything else that reaches the device is static
text or indentation. The layers of the sink cut static text and put indentation between its lines, but they pass a
value on in one piece, so an entity in it is never broken.

What is claimed of the output is claimed here of a character `c`: each `c` in a text begins an entity
(`Escape.Guarded`), which for `<`, `>` and the double quote says that there is none.

* `Escape.guarded_html` — escaped text is guarded, and texts that are guarded can be put together;
* `Layer.passAll_harmless` — the layers pass on harmless chunks of a harmless chunk;
* `RenderM.coupling_harmlessAt` — so the text of the device stays guarded, however parts of a render are put together;
* `render_escapes_markup` — **the markup in the output is the markup in the templates**, whatever the data.
-/

namespace Mustache

/-! ## Guarded text -/

namespace Escape

/-- The characters that mean something in HTML. -/
def markup : List Char := ['<', '>', '"', '&']

theorem mem_markup {c : Char} (h : c ∈ ['<', '>', '"']) : c ∈ markup ∧ c ≠ '&' := by
  simp only [List.mem_cons, List.not_mem_nil, or_false] at h
  rcases h with rfl | rfl | rfl <;> decide

/-- What follows `&` in the entities. -/
def entityNames : List Text := ["amp;".toList, "lt;".toList, "gt;".toList, "quot;".toList]

/-- Every `c` in a text begins an entity. -/
def Guarded (c : Char) (s : Text) : Prop :=
  ∀ before after, s = before ++ c :: after → c = '&' ∧ ∃ name ∈ entityNames, name <+: after

variable {c x : Char} {s t name : Text}

theorem guarded_of_not_mem (h : c ∉ s) : Guarded c s := by
  rintro before after rfl
  exact absurd (List.mem_append_right before List.mem_cons_self) h

theorem not_mem_of_guarded (hc : c ≠ '&') (h : Guarded c s) : c ∉ s := by
  intro hmem
  obtain ⟨before, after, hs⟩ := List.append_of_mem hmem
  exact hc (h before after hs).1

theorem Guarded.append (hs : Guarded c s) (ht : Guarded c t) : Guarded c (s ++ t) := by
  intro before after h
  rcases List.append_eq_append_iff.mp h with ⟨middle, -, hright⟩ | ⟨middle, hleft, hright⟩
  · exact ht middle after hright
  · cases middle with
    | nil => exact ht [] after hright.symm
    | cons x middle =>
        obtain ⟨rfl, rfl⟩ := List.cons.inj hright
        obtain ⟨hc, name, hname, hprefix⟩ := hs before middle hleft
        exact ⟨hc, name, hname, hprefix.trans (List.prefix_append middle t)⟩

/-- The name of an entity has no markup in it. -/
theorem not_mem_entityName (hc : c ∈ markup) (hname : name ∈ entityNames) : c ∉ name := by
  simp only [entityNames, List.mem_cons, List.not_mem_nil, or_false] at hname
  simp only [markup, List.mem_cons, List.not_mem_nil, or_false] at hc
  rcases hname with rfl | rfl | rfl | rfl <;> rcases hc with rfl | rfl | rfl | rfl <;> decide

/-- The entity of a name. -/
theorem guarded_entityName (hc : c ∈ markup) (hname : name ∈ entityNames) : Guarded c ('&' :: name) := by
  intro before after h
  cases before with
  | nil =>
      obtain ⟨rfl, rfl⟩ := List.cons.inj h
      exact ⟨rfl, name, hname, List.prefix_refl name⟩
  | cons x before =>
      obtain ⟨-, rfl⟩ := List.cons.inj h
      exact absurd (List.mem_append_right before List.mem_cons_self) (not_mem_entityName hc hname)

theorem guarded_entity (hc : c ∈ markup) (x : Char) : Guarded c (entity x) := by
  unfold entity
  split
  · exact guarded_entityName hc (by decide)
  · exact guarded_entityName hc (by decide)
  · exact guarded_entityName hc (by decide)
  · exact guarded_entityName hc (by decide)
  · rename_i hamp hlt hgt hquot
    refine guarded_of_not_mem fun hmem => ?_
    obtain rfl := List.mem_singleton.mp hmem
    simp only [markup, List.mem_cons, List.not_mem_nil, or_false] at hc
    rcases hc with rfl | rfl | rfl | rfl
    · exact hlt rfl
    · exact hgt rfl
    · exact hquot rfl
    · exact hamp rfl

/-- **Escaped text is guarded.** -/
theorem guarded_html (hc : c ∈ markup) (s : Text) : Guarded c (html s) := by
  induction s with
  | nil => exact guarded_of_not_mem List.not_mem_nil
  | cons x s ih =>
      have hcons : html (x :: s) = entity x ++ html s := List.flatMap_cons
      rw [hcons]
      exact (guarded_entity hc x).append ih

end Escape

open Escape (Guarded)

/-! ## Layers -/

/-- A chunk that brings in no `c`: static text without one, or a value in which each begins an entity. -/
def Chunk.Harmless (c : Char) (chunk : Chunk) : Prop :=
  match chunk.kind with
  | .static => c ∉ chunk.text
  | .value => Guarded c chunk.text

theorem Chunk.Harmless.guarded {c : Char} {chunk : Chunk} (h : chunk.Harmless c) : Guarded c chunk.text := by
  unfold Harmless at h
  split at h
  · exact Escape.guarded_of_not_mem h
  · exact h

namespace Layer

variable {c : Char} {l : Layer} {chunk : Chunk} {line : Text}

theorem takeMargin_suffix (margin s : Text) : (takeMargin margin s).2 <:+ s := by
  induction margin generalizing s with
  | nil =>
      unfold takeMargin
      exact List.suffix_refl s
  | cons m ms ih =>
      cases s with
      | nil => exact List.suffix_refl []
      | cons x s =>
          unfold takeMargin
          split
          · exact (ih s).trans (List.suffix_cons x s)
          · exact List.suffix_refl _

theorem emit_harmless (hl : c ∉ l.indent) (h : chunk.Harmless c) : ∀ p ∈ l.emit chunk, p.1.Harmless c := by
  unfold emit
  refine List.forall_mem_append.mpr ⟨?_, List.forall_mem_singleton.mpr h⟩
  split
  · exact List.forall_mem_singleton.mpr hl
  · exact fun _ hp => absurd hp List.not_mem_nil

theorem putLine_harmless (hl : c ∉ l.indent) (hline : c ∉ line) :
    (∀ p ∈ (l.putLine line).1, p.1.Harmless c) ∧ (l.putLine line).2.indent = l.indent := by
  have hleft : c ∉ (takeMargin l.pending line).2 := fun h => hline ((takeMargin_suffix _ _).subset h)
  unfold putLine
  dsimp only
  split
  · exact ⟨fun _ hp => absurd hp List.not_mem_nil, rfl⟩
  · refine ⟨emit_harmless hl hleft, ?_⟩
    split <;> rfl

theorem putLines_harmless {lines : List Text} (hl : c ∉ l.indent) (hlines : ∀ line ∈ lines, c ∉ line) :
    (∀ p ∈ (l.putLines lines).1, p.1.Harmless c) ∧ (l.putLines lines).2.indent = l.indent := by
  induction lines generalizing l with
  | nil => exact ⟨fun _ hp => absurd hp List.not_mem_nil, rfl⟩
  | cons line lines ih =>
      obtain ⟨hline, hlines⟩ := List.forall_mem_cons.mp hlines
      obtain ⟨hfirst, hindent⟩ := putLine_harmless hl hline
      obtain ⟨hrest, hindent'⟩ := ih (hindent ▸ hl) hlines
      exact ⟨List.forall_mem_append.mpr ⟨hfirst, hrest⟩, hindent'.trans hindent⟩

theorem put_harmless (hl : c ∉ l.indent) (h : chunk.Harmless c) :
    (∀ p ∈ (l.put chunk).1, p.1.Harmless c) ∧ (l.put chunk).2.indent = l.indent := by
  unfold put
  split
  · exact ⟨fun _ hp => absurd hp List.not_mem_nil, rfl⟩
  · split
    · exact ⟨emit_harmless hl h, rfl⟩
    · rename_i hkind
      have htext : c ∉ chunk.text := by
        unfold Chunk.Harmless at h
        rwa [hkind] at h
      refine putLines_harmless hl fun line hline hmem => htext ?_
      rw [← Text.flatten_lines chunk.text]
      exact List.mem_flatten_of_mem hline hmem

theorem pass_harmless {chunks : List (Chunk × List Layer)} (hl : c ∉ l.indent)
    (h : ∀ p ∈ chunks, p.1.Harmless c) :
    (∀ p ∈ (l.pass chunks).1, p.1.Harmless c) ∧ (l.pass chunks).2.indent = l.indent := by
  induction chunks generalizing l with
  | nil => exact ⟨fun _ hp => absurd hp List.not_mem_nil, rfl⟩
  | cons p chunks ih =>
      obtain ⟨hp, hchunks⟩ := List.forall_mem_cons.mp h
      obtain ⟨hfirst, hindent⟩ := put_harmless hl hp
      obtain ⟨hrest, hindent'⟩ := ih (hindent ▸ hl) hchunks
      refine ⟨List.forall_mem_append.mpr ⟨?_, hrest⟩, hindent'.trans hindent⟩
      exact List.forall_mem_map.mpr hfirst

/-- **The layers pass on harmless chunks.** -/
theorem passAll_harmless {layers : List Layer} {chunks : List (Chunk × List Layer)}
    (hlayers : ∀ l ∈ layers, c ∉ l.indent) (h : ∀ p ∈ chunks, p.1.Harmless c) :
    (∀ p ∈ (passAll layers chunks).1, p.1.Harmless c) ∧ ∀ l ∈ (passAll layers chunks).2, c ∉ l.indent := by
  induction layers generalizing chunks with
  | nil => exact ⟨h, hlayers⟩
  | cons l layers ih =>
      obtain ⟨hl, hlayers⟩ := List.forall_mem_cons.mp hlayers
      obtain ⟨hpieces, hindent⟩ := pass_harmless hl h
      obtain ⟨hall, hinner⟩ := ih hlayers hpieces
      exact ⟨hall, List.forall_mem_cons.mpr ⟨hindent ▸ hl, hinner⟩⟩

end Layer

namespace Sink

variable {c : Char} {d : Device} {layers : List Layer} {chunks : List (Chunk × List Layer)}

theorem drain_guarded (hd : Guarded c d.text) (h : ∀ p ∈ chunks, p.1.Harmless c) :
    Guarded c (drain d layers chunks).1.device.text := by
  induction chunks generalizing d with
  | nil => exact hd
  | cons p chunks ih =>
      obtain ⟨hp, hchunks⟩ := List.forall_mem_cons.mp h
      unfold drain
      split
      · exact hd
      · refine ih ?_ hchunks
        rw [Device.text_accept]
        exact hd.append hp.guarded

theorem layers_drain (h : (drain d layers chunks).2 = none) : (drain d layers chunks).1.layers = layers := by
  induction chunks generalizing d with
  | nil => rfl
  | cons p chunks ih =>
      unfold drain at h ⊢
      split
      · rename_i fault hrefusal
        rw [hrefusal] at h
        cases h
      · rename_i hrefusal
        rw [hrefusal] at h
        exact ih h

end Sink

/-! ## Parts of a render -/

/-- What has been written is guarded, and no indentation brings in a `c`. -/
structure RenderState.Harmless (c : Char) (s : RenderState) : Prop where
  layers : ∀ l ∈ s.sink.layers, c ∉ l.indent
  text : Guarded c s.sink.device.text

namespace RenderM

variable {α β : Type} {c : Char} {s : RenderState}

/-- From a harmless state on, a part leaves a guarded text behind, and a harmless state unless it ends with a
    fault. -/
def HarmlessAt (c : Char) (s : RenderState) (x : RenderM α) : Prop :=
  s.Harmless c → Guarded c (x.run s).2.sink.device.text ∧ ∀ v, (x.run s).1 = .ok v → (x.run s).2.Harmless c

/-- A part that leaves the sink as it is. -/
theorem harmlessAt_of_sink {x : RenderM α} (h : (x.run s).2.sink = s.sink) : HarmlessAt c s x := by
  rintro ⟨hlayers, htext⟩
  refine ⟨h ▸ htext, fun _ _ => ⟨?_, ?_⟩⟩
  · rwa [h]
  · rwa [h]

theorem HarmlessAt.bind {x : RenderM α} {k : α → RenderM β} (hx : HarmlessAt c s x)
    (hk : ∀ v t, x.run s = (.ok v, t) → HarmlessAt c t (k v)) : HarmlessAt c s (x >>= k) := by
  intro hs
  obtain ⟨htext, hok⟩ := hx hs
  rw [run_bind]
  rcases hrun : x.run s with ⟨f | v, t⟩
  · rw [hrun] at htext
    exact ⟨htext, fun _ h => nomatch h⟩
  · rw [hrun] at hok
    exact hk v t hrun (hok v rfl)

/-- To leave behind guarded text is a coupling, of a part with itself. -/
theorem coupling_harmlessAt (c : Char) : Coupling (fun s x _ => HarmlessAt c s x) where
  ofPure _ _ := harmlessAt_of_sink rfl
  ofBind := HarmlessAt.bind
  ofHost _ _ := harmlessAt_of_sink rfl
  ofThrow _ _ := harmlessAt_of_sink rfl
  ofCollect _ _ := harmlessAt_of_sink rfl

theorem HarmlessAt.unlessFault {stop : RenderState → Bool} {fault : Fault} {x : RenderM Unit}
    (h : stop s = false → HarmlessAt c s x) : HarmlessAt c s (unlessFault stop fault x) := by
  unfold HarmlessAt
  rw [run_unlessFault]
  cases hstop : stop s with
  | true => exact fun hs => ⟨hs.text, fun _ h => nomatch h⟩
  | false => exact h hstop

theorem harmlessAt_emit {chunk : Chunk} (h : chunk.Harmless c) : HarmlessAt c s (emit chunk) := by
  rintro ⟨hlayers, htext⟩
  have hchunk : ∀ p ∈ [(chunk, ([] : List Layer))], p.1.Harmless c := List.forall_mem_singleton.mpr h
  obtain ⟨hpieces, hinside⟩ := Layer.passAll_harmless hlayers hchunk
  have hdevice : Guarded c (s.sink.write chunk).1.device.text := Sink.drain_guarded htext hpieces
  rw [run_emit]
  refine ⟨hdevice, fun v hv => ⟨?_, hdevice⟩⟩
  have hnone : (s.sink.write chunk).2 = none := by
    cases hrefusal : (s.sink.write chunk).2 with
    | none => rfl
    | some fault =>
        rw [hrefusal] at hv
        cases hv
  have hleft : (s.sink.write chunk).1.layers = _ := Sink.layers_drain hnone
  dsimp only
  rwa [hleft]

theorem harmlessAt_withLayer {l : Layer} {x : RenderM Unit} (hl : c ∉ l.indent) (hx : ∀ s, HarmlessAt c s x) :
    HarmlessAt c s (withLayer l x) := by
  rintro ⟨hlayers, htext⟩
  obtain ⟨htext, hok⟩ := hx { s with sink := s.sink.indented l } ⟨List.forall_mem_cons.mpr ⟨hl, hlayers⟩, htext⟩
  rw [run_withLayer]
  exact ⟨htext, fun v hv => ⟨fun l hl => (hok v hv).layers l (List.mem_of_mem_tail hl), htext⟩⟩

end RenderM

open RenderM

/-! ## Renders -/

/-- An element that brings in no `c`: neither as static text nor as indentation nor with a raw value. -/
structure Element.Harmless (c : Char) (e : Element) : Prop where
  text : ∀ s, e = .text s → c ∉ s
  raw : ∀ key, e ≠ .interpolation key false
  indent : ∀ indent, e.indent? = some (some indent) → c ∉ indent

namespace Renderer

variable {r : Renderer} {c : Char} {es : List Element} {scope : Scope}

theorem Emits.harmless {e : Element} {chunk : Chunk} (h : r.Emits e chunk) (hescape : r.escape = Escape.html)
    (hc : c ∈ Escape.markup) (he : e.Harmless c) : chunk.Harmless c := by
  cases h with
  | static t => exact he.text t rfl
  | value key escaped t =>
      cases escaped with
      | true =>
          rw [if_pos rfl, hescape]
          exact Escape.guarded_html hc t
      | false => exact absurd rfl (he.raw key)

/-- Under a watch for functions, harmless elements leave guarded text behind. By induction on the depth: what an
    element descends to is as harmless as everything around it. -/
theorem watched_harmlessAt (hescape : r.escape = Escape.html) (hc : c ∈ Escape.markup) (fault : Fault) (n : Nat)
    (around : List Element) (h : Throughout (Element.Everywhere (Element.Harmless c)) r es scope) (s : RenderState) :
    HarmlessAt c s (r.watched .callable fault n around es scope) := by
  induction n generalizing around es scope s with
  | zero => exact harmlessAt_of_sink rfl
  | succ n ih =>
      have hinside : ∀ e ∈ es, ∀ es' inside, r.Descends scope e es' inside →
          Always (fun s x _ => HarmlessAt c s x) (r.watched .callable fault n (e :: around) es' inside)
            (r.watched .callable fault n (e :: around) es' inside) :=
        fun e he es' inside hd => ih (e :: around) (hd.throughout h he fun hfs hf => hfs.children hf)
      have helements : Always (fun s x _ => HarmlessAt c s x) (r.watched .callable fault (n + 1) around es scope)
          (r.watched .callable fault (n + 1) around es scope) := by
        refine (coupling_harmlessAt c).always_forM fun e he s => HarmlessAt.unlessFault fun hcallable => ?_
        have hharmless := h.elements.root he
        refine (coupling_harmlessAt c).element e (fun chunk hchunk s => ?_) (fun l x _ hl hx s => ?_) (hinside e he)
          fun hcall => ?_
        · exact harmlessAt_emit (hchunk.harmless hescape hc hharmless)
        · exact harmlessAt_withLayer (hharmless.indent _ hl) hx
        · exact absurd (hcall.symm.trans hcallable) (by simp)
      exact helements s

/-! ## Output -/

/-- The template that is rendered and all partials that there are. -/
def templates (r : Renderer) (t : Template) : List Template := t :: r.partials.map Prod.snd

/-- `r.Output t stack h d out`: the render of a template to the device `d`, on which nothing has been written, leaves
    the text `out` there. The text that a render gives is what a buffer holds. -/
inductive Output (r : Renderer) (t : Template) (stack : Stack) (h : Host) : Device → Text → Prop where
  | device (m : Medium) (e : Endurance) :
      Output r t stack h (.new m e) ((r.renderTo (.new m e) t stack).run h).1.2.text
  | text {out : Text} (hout : ((r.render t stack).run h).1 = .ok out) : Output r t stack h .buffer out

variable {t : Template} {stack : Stack} {h : Host} {d : Device} {out : Text}

theorem Output.eq_text (hout : r.Output t stack h d out) :
    d.packets = [] ∧ out = ((r.renderTo d t stack).run h).1.2.text := by
  cases hout with
  | device m e => exact ⟨rfl, rfl⟩
  | text hout =>
      refine ⟨rfl, ?_⟩
      rw [render_run] at hout
      dsimp only at hout
      cases hresult : ((r.renderTo .buffer t stack).run h).1.1 with
      | error fault =>
          rw [hresult] at hout
          cases hout
      | ok =>
          rw [hresult] at hout
          cases hout
          rfl

/-- What harmless templates put out is guarded, if no value that the render resolves is a function. -/
theorem Output.guarded (hout : r.Output t stack h d out) (hescape : r.escape = Escape.html)
    (hc : c ∈ Escape.markup)
    (hharmless : ∀ u ∈ r.templates t, Element.Everywhere (Element.Harmless c) u.elements)
    (hcalls : r.Avoids .callable (r.depthBound t.elements + functionDepth) t.elements ⟨stack, [], 0⟩ ⟨h, .bare d⟩) :
    Guarded c out := by
  obtain ⟨hpackets, rfl⟩ := hout.eq_text
  obtain ⟨ht, hpartials⟩ := List.forall_mem_cons.mp hharmless
  have hstart : RenderState.Harmless c ⟨h, .bare d⟩ := by
    refine ⟨fun _ hl => absurd hl List.not_mem_nil, Escape.guarded_of_not_mem ?_⟩
    have hempty : d.text = [] := by rw [Device.text, hpackets]; rfl
    exact hempty ▸ List.not_mem_nil
  have hthroughout : Throughout (Element.Everywhere (Element.Harmless c)) r t.elements ⟨stack, [], 0⟩ :=
    ⟨fun p hp => hpartials p.2 (List.mem_map_of_mem hp), fun _ hp => absurd hp List.not_mem_nil, ht⟩
  have hwatched := (watched_harmlessAt hescape hc .badType (r.depthBound t.elements + functionDepth) []
    hthroughout _ hstart).1
  rcases hrun : (r.elements (r.depthBound t.elements + functionDepth) t.elements ⟨stack, [], 0⟩).run ⟨h, .bare d⟩
    with ⟨outcome, u⟩
  rw [hcalls .badType, hrun] at hwatched
  rw [renderTo_run hrun]
  exact hwatched

end Renderer

/-- **No markup comes from data.** Under the policy `html`, let the template and all partials be parsed texts without
    raw interpolations, and let no value that the render resolves be a function. Then each of `<`, `>` and the double
    quote that is in no static text of theirs is not in the output, and if `&` is in none, each `&` in the output
    begins an entity. This is so for any data, and for the output to any device, including what is written before a
    fault. -/
theorem render_escapes_markup {r : Renderer} {t : Template} {stack : Stack} {h : Host} {d : Device} {out : Text}
    (hescape : r.escape = Escape.html)
    (hparsed : ∀ u ∈ r.templates t, ∃ delimiters name s, Template.parse delimiters name s = .ok u)
    (hraw : ∀ u ∈ r.templates t, ∀ key, ¬ Element.Within (.interpolation key false) u.elements)
    (hcalls : r.Avoids .callable (r.depthBound t.elements + Renderer.functionDepth) t.elements ⟨stack, [], 0⟩
      ⟨h, .bare d⟩)
    (hout : r.Output t stack h d out) :
    (∀ c ∈ ['<', '>', '"'], (∀ u ∈ r.templates t, ∀ s, Element.Within (.text s) u.elements → c ∉ s) → c ∉ out) ∧
    ((∀ u ∈ r.templates t, ∀ s, Element.Within (.text s) u.elements → '&' ∉ s) →
      ∀ before after, out = before ++ '&' :: after →
        ∃ name ∈ ["amp;".toList, "lt;".toList, "gt;".toList, "quot;".toList], name <+: after) := by
  have hguarded : ∀ c ∈ Escape.markup,
      (∀ u ∈ r.templates t, ∀ s, Element.Within (.text s) u.elements → c ∉ s) → Guarded c out := by
    intro c hc hstatic
    refine hout.guarded hescape hc (fun u hu e he => ⟨?_, ?_, ?_⟩) hcalls
    · rintro s rfl
      exact hstatic u hu s he
    · rintro key rfl
      exact hraw u hu key he
    · -- indentation is blank, since the template is a parsed text
      intro indent hindent hmem
      obtain ⟨delimiters, name, s, hparse⟩ := hparsed u hu
      rcases Template.parse_blankIndent hparse e he indent hindent c hmem with rfl | rfl
      · exact absurd hc (by decide)
      · exact absurd hc (by decide)
  refine ⟨fun c hc hstatic => ?_, fun hstatic before after heq => ?_⟩
  · obtain ⟨hmarkup, hne⟩ := Escape.mem_markup hc
    exact Escape.not_mem_of_guarded hne (hguarded c hmarkup hstatic)
  · exact (hguarded '&' (by decide) hstatic before after heq).2

/-! ### An indented partial -/

/-- A partial that is alone on its line. -/
def indentedUse : Template := ⟨[.partialTag ['p'] (some [' '])], none⟩

/-- A line with a value in it. -/
def lineWithValue : Template := ⟨[.text ['a'], .interpolation ['x'] true, .text ['\n']], none⟩

/-- A renderer that has the line for a partial. -/
def lineRenderer : Renderer := ⟨[(['p'], lineWithValue)], Escape.html, 1⟩

/-- A value that is full of markup. -/
def markupStack : Stack := .ofValues [.map .dict [(.text ['x'], .text "<b>\"&".toList)]]

/-- A value that is full of markup, on an indented line of a partial. -/
theorem render_escapes_markup_indented :
    (∀ u ∈ lineRenderer.templates indentedUse, ∃ delimiters name s, Template.parse delimiters name s = .ok u) ∧
    ((lineRenderer.render indentedUse markupStack).run .fresh).1 = .ok " a&lt;b&gt;&quot;&amp;\n".toList ∧
    (∀ c ∈ ['<', '>', '"'], c ∉ " a&lt;b&gt;&quot;&amp;\n".toList) ∧
    ∀ before after, " a&lt;b&gt;&quot;&amp;\n".toList = before ++ '&' :: after →
      ∃ name ∈ ["amp;".toList, "lt;".toList, "gt;".toList, "quot;".toList], name <+: after := by
  have hcases : ∀ {P : Template → Prop}, P indentedUse → P lineWithValue →
      ∀ u ∈ lineRenderer.templates indentedUse, P u := by
    intro P huse hline
    exact List.forall_mem_cons.mpr ⟨huse, List.forall_mem_singleton.mpr hline⟩
  have hparsed : ∀ u ∈ lineRenderer.templates indentedUse, ∃ delimiters name s,
      Template.parse delimiters name s = .ok u := by
    refine hcases ⟨⟨['|'], ['|']⟩, none, " |>p|\n".toList, ?_⟩ ⟨⟨['|'], ['|']⟩, none, "a|x|\n".toList, ?_⟩
    · with_unfolding_all rfl
    · with_unfolding_all rfl
  have hroots : ∀ u ∈ lineRenderer.templates indentedUse, ∀ e, Element.Within e u.elements → e ∈ u.elements := by
    refine hcases (fun e he => he.mem_of_leaves ?_) (fun e he => he.mem_of_leaves ?_)
    · simp [indentedUse, Element.children, Element.children?]
    · simp [lineWithValue, Element.children, Element.children?]
  have hraw : ∀ u ∈ lineRenderer.templates indentedUse, ∀ key,
      ¬ Element.Within (.interpolation key false) u.elements := by
    intro u hu key h
    have hall := hcases (P := fun u => Element.interpolation key false ∉ u.elements)
      (by simp [indentedUse]) (by simp [lineWithValue])
    exact hall u hu (hroots u hu _ h)
  have hstatic : ∀ c ∈ Escape.markup, ∀ u ∈ lineRenderer.templates indentedUse, ∀ s,
      Element.Within (.text s) u.elements → c ∉ s := by
    intro c hc u hu s h
    have hall := hcases (P := fun u => Element.text s ∈ u.elements → s = ['a'] ∨ s = ['\n'])
      (by simp [indentedUse]) (by simp [lineWithValue])
    simp only [Escape.markup, List.mem_cons, List.not_mem_nil, or_false] at hc
    rcases hall u hu (hroots u hu _ h) with rfl | rfl <;> rcases hc with rfl | rfl | rfl | rfl <;> decide
  have hcalls : lineRenderer.Avoids .callable (lineRenderer.depthBound indentedUse.elements + Renderer.functionDepth)
      indentedUse.elements ⟨markupStack, [], 0⟩ ⟨.fresh, .bare .buffer⟩ := by
    intro fault
    with_unfolding_all rfl
  have hout : ((lineRenderer.render indentedUse markupStack).run .fresh).1
      = .ok " a&lt;b&gt;&quot;&amp;\n".toList := by
    with_unfolding_all rfl
  obtain ⟨hnone, hentity⟩ := render_escapes_markup rfl hparsed hraw hcalls (.text hout)
  exact ⟨hparsed, hout, fun c hc => hnone c hc (hstatic c (Escape.mem_markup hc).1), hentity (hstatic '&' (by decide))⟩

end Mustache

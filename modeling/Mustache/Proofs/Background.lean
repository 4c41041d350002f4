import Mustache.Proofs.Heredity
import Mustache.Proofs.Markup

/-!
# `Mustache.Proofs.Background` — what no template asks for

The first segment of a key is looked up in the frames from the most local one outwards, and all further segments in
what is found before them. So a frame below the whole context is asked only for first segments that no other frame
offers, and it answers as if it were not there if it has none of these names. Partials and overrides bring in other
templates with keys of their own, but no other frames below the context.

* `Stack.resolve_append_of_silent` — a lookup passes over a frame that is silent on its first segment;
* `Scope.over` — a scope with a frame below its context, and `Renderer.element_over`: **an element over a further
  frame is rendered like the element itself**, as long as what it brings in is rendered over that frame too;
* `renderTo_append_of_disjoint` — hence **a mapping that has none of the names that templates ask for makes no
  difference** to a render that comes to no function.
-/

namespace Mustache

open RenderM

/-! ## Silent frames -/

/-- A frame that offers nothing under a name, and changes nothing when it is asked. -/
def Frame.Silent (f : Frame) (name : Text) : Prop := f.lookup name = pure none

theorem KeyMark.ofFloat_ne_text (x : Float) (s : Text) : KeyMark.ofFloat x ≠ .text s := by
  unfold KeyMark.ofFloat
  dsimp only
  split <;> exact nofun

theorem Key.eq_of_beq_text {k : Key} {name : Text} (h : (k == .text name) = true) : k = .text name := by
  have hidentity := Key.beq_iff.mp h
  cases k with
  | text s => exact congrArg Key.text (KeyMark.text.inj (List.head_eq_of_cons_eq hidentity))
  | float x => exact absurd (List.head_eq_of_cons_eq hidentity) (KeyMark.ofFloat_ne_text x name)
  | _ => cases hidentity

theorem Table.get?_text_eq_none {es : Entries} {name : Text} (h : Key.text name ∉ Table.keys es) :
    Table.get? es (.text name) = none := by
  induction es with
  | nil => rfl
  | cons e es ih =>
      have hne : ¬ (e.1 == Key.text name) = true := fun heq =>
        h (List.mem_cons.mpr (.inl (Key.eq_of_beq_text heq).symm))
      rw [Table.get?, if_neg hne]
      exact ih fun hmem => h (List.mem_cons_of_mem _ hmem)

/-- A mapping is silent on the names that it does not have. -/
theorem Value.silent_of_isMapping {v : Value} {name : Text} (hmap : v.isMapping = true)
    (hname : ∀ es, v.entries? = some es → .text name ∉ Table.keys es) : v.toFrame.Silent name := by
  cases v with
  | map kind es => exact congrArg pure (Table.get?_text_eq_none (hname es rfl))
  | closedMap => rfl
  | _ => cases hmap

namespace Stack

variable {stack : Stack} {f : Frame} {name : Text} {path : List Text}

theorem find?_append_of_silent (h : f.Silent name) : find? (stack ++ [f]) name = find? stack name := by
  induction stack with
  | nil =>
      show (f.lookup name >>= _) = _
      rw [h, pure_bind]
  | cons g stack ih =>
      rw [List.cons_append, find?, find?, ih]

/-- **A lookup passes over a frame below the context** that is silent on its first segment. A lookup of the value on
    top needs another frame above it. -/
theorem resolve_append_of_silent (hne : stack ≠ []) (h : ∀ name, path.head? = some name → f.Silent name) :
    resolve (stack ++ [f]) path = resolve stack path := by
  cases path with
  | nil =>
      cases stack with
      | nil => exact absurd rfl hne
      | cons g stack => rfl
  | cons head rest => rw [resolve, resolve, find?_append_of_silent (h head rfl)]

/-- A frame below the context takes no items off the value on top. -/
theorem stillHas_append (hne : stack ≠ []) (f : Frame) (path : List Text) :
    stillHas (stack ++ [f]) path = stillHas stack path := by
  cases stack with
  | nil => exact absurd rfl hne
  | cons g stack =>
      obtain ⟨kind, value, names⟩ := g
      cases path with
      | cons => rfl
      | nil => cases kind <;> cases value <;> rfl

end Stack

/-! ## Scopes over a frame -/

/-- The first segment of the key that an element resolves, unless it asks for the value on top of the context. -/
def Element.asked? : Element → Option Text
  | .interpolation key _ | .sectionTag key .. => (keyPath key).head?
  | .text _ | .partialTag .. | .parentTag .. | .blockTag .. | .foreign _ => none

/-- The scope with a frame below its context. -/
def Scope.over (scope : Scope) (f : Frame) : Scope := { scope with stack := scope.stack ++ [f] }

namespace Renderer

variable {r : Renderer} {scope : Scope} {f : Frame} {recur : Recur}

/-- **An element over a frame that is silent on what it asks for** is rendered like the element itself, with all that
    it brings in over that frame. -/
theorem element_over (hne : scope.stack ≠ []) (e : Element) (he : ∀ name, e.asked? = some name → f.Silent name) :
    r.element recur (scope.over f) e = r.element (fun es inside => recur es (inside.over f)) scope e := by
  cases e with
  | interpolation key escaped =>
      have hresolve : (scope.over f).stack.resolve (keyPath key) = scope.stack.resolve (keyPath key) :=
        Stack.resolve_append_of_silent hne he
      show r.interpolation recur (scope.over f) key escaped = _
      unfold interpolation
      rw [hresolve]
      rfl
  | sectionTag key inverted children raw d =>
      have hresolve : (scope.over f).stack.resolve (keyPath key) = scope.stack.resolve (keyPath key) :=
        Stack.resolve_append_of_silent hne he
      have hitems : sectionItems recur (scope.over f) (keyPath key) inverted children
          = sectionItems (fun es inside => recur es (inside.over f)) scope (keyPath key) inverted children := by
        have hstill : (scope.over f).stack.stillHas (keyPath key) = scope.stack.stillHas (keyPath key) :=
          Stack.stillHas_append hne f _
        funext items
        unfold sectionItems sectionItem
        rw [hstill]
        rfl
      show Renderer.sectionTag recur (scope.over f) key inverted children raw d = _
      unfold Renderer.sectionTag
      rw [hresolve, hitems]
      rfl
  | text | partialTag | parentTag | blockTag | foreign => rfl

theorem Descends.stack_ne_nil {e : Element} {es : List Element} {inside : Scope} (h : r.Descends scope e es inside)
    (hne : scope.stack ≠ []) : inside.stack ≠ [] := by
  cases h with
  | item v => exact List.cons_ne_nil _ _
  | _ => exact hne

/-- Under a watch for functions, elements that ask for nothing of a frame are rendered in the same way over it, unless
    they are stopped. By induction on the depth: what an element descends to asks for nothing of the frame either. -/
theorem watched_over (fault : Fault) (n : Nat) (around : List Element) {es : List Element}
    (h : Throughout (Element.Everywhere fun e => ∀ name, e.asked? = some name → f.Silent name) r es scope)
    (hne : scope.stack ≠ []) :
    Always (fun s x y => AgreeUnless (fun _ => True) fault s x y) (r.watched .callable fault n around es scope)
      (r.elements n es (scope.over f)) := by
  induction n generalizing around es scope with
  | zero => exact fun s => .inl ⟨rfl, fun _ _ => trivial⟩
  | succ n ih =>
      have hok : ∀ g : Fault, g ≠ .exhausted → (fun _ => True) g := fun _ _ => trivial
      have C := coupling_agreeUnless hok fault
      refine C.always_forM fun e he s => AgreeUnless.unlessFault fun hcallable => ?_
      rw [element_over hne e (h.elements.root he)]
      refine C.element e (fun c _ s => .inl (agree_emit hok c s)) (fun l x y _ hxy s => .withLayer hxy)
        (fun es' inside hd => ?_) fun hc => absurd (hc.symm.trans hcallable) (by simp)
      exact ih (e :: around) (hd.throughout h he fun hfs hf => hfs.children hf) (hd.stack_ne_nil hne)

/-- The first segments of the keys that a template and all partials resolve. -/
def asks (r : Renderer) (t : Template) (name : Text) : Prop :=
  ∃ u ∈ r.templates t, ∃ e, Element.Within e u.elements ∧ e.asked? = some name

end Renderer

/-- **What no template asks for is irrelevant.** Let a mapping have none of the names with which the keys of a template
    and of all partials begin, and let no value that the render resolves be a function. Then the render to any device
    is the same with the mapping below a context that is not empty: the outcome, what is written, and what becomes of
    the host. -/
theorem renderTo_append_of_disjoint {r : Renderer} {t : Template} {stack : Stack} {v : Value} {d : Device} {h : Host}
    (hne : stack ≠ []) (hmap : v.isMapping = true)
    (hdisjoint : ∀ es, v.entries? = some es → ∀ name, r.asks t name → .text name ∉ Table.keys es)
    (hcalls : r.Avoids .callable (r.depthBound t.elements + Renderer.functionDepth) t.elements ⟨stack, [], 0⟩
      ⟨h, .bare d⟩) :
    (r.renderTo d t (stack ++ [v.toFrame])).run h = (r.renderTo d t stack).run h := by
  have hsilent : ∀ u ∈ r.templates t,
      Element.Everywhere (fun e => ∀ name, e.asked? = some name → v.toFrame.Silent name) u.elements := by
    intro u hu e he name hname
    exact v.silent_of_isMapping hmap fun es hes => hdisjoint es hes name ⟨u, hu, e, he, hname⟩
  obtain ⟨ht, hpartials⟩ := List.forall_mem_cons.mp hsilent
  have hagree := agreeAt_of_agreeUnless hcalls fun fault =>
    r.watched_over fault _ [] ⟨fun p hp => hpartials p.2 (List.mem_map_of_mem hp), fun _ hp => absurd hp List.not_mem_nil,
      ht⟩ hne ⟨h, .bare d⟩
  rcases hrun : r.run (r.depthBound t.elements + Renderer.functionDepth) t.elements stack ⟨h, .bare d⟩
    with ⟨outcome, s⟩
  rw [Renderer.renderTo_run hrun]
  exact Renderer.renderTo_run (hagree.1.symm.trans hrun)

/-! ### Names after the first segment -/

/-- A section with a dotted key and a partial in it. -/
def greeting : Template :=
  ⟨[.sectionTag ['u'] false [.interpolation ['n', '.', 'f'] true, .partialTag ['p'] none] [] .braces], none⟩

/-- A renderer that has a value and the item itself for the partial. -/
def greetingRenderer : Renderer :=
  ⟨[(['p'], ⟨[.interpolation ['s'] true, .interpolation ['.'] true], none⟩)], Escape.html, 1⟩

/-- The values that are asked for. The items have no name of their own for the partial. -/
def greetingStack : Stack :=
  .ofValues [.map .dict [(.text ['n'], .map .dict [(.text ['f'], .text ['A'])]), (.text ['s'], .text ['-'])],
    .map .dict [(.text ['u'], .seq .list [.int 1, .int 2])]]

/-- A mapping whose names occur as a later segment and as the key of the partial only. -/
def unasked : Value := .map .dict [(.text ['f'], .text ['B']), (.text ['p'], .text ['C'])]

theorem asks_greeting {name : Text} (h : greetingRenderer.asks greeting name) : name ∈ [['u'], ['n'], ['s']] := by
  obtain ⟨u, hu, e, he, hname⟩ := h
  have hevery : Element.Everywhere (fun e => ∀ name, e.asked? = some name → name ∈ [['u'], ['n'], ['s']])
      u.elements := by
    rcases List.mem_cons.mp hu with rfl | hu
    · simp [greeting, Element.everywhere_cons, Element.everywhere_nil, Element.children, Element.children?,
        Element.asked?, keyPath, Text.splitOn]
    · cases List.mem_singleton.mp hu
      simp [Element.everywhere_cons, Element.everywhere_nil, Element.children, Element.children?,
        Element.asked?, keyPath, Text.splitOn]
  exact hevery e he name hname

/-- A mapping below the context that has a later segment of a key and the key of a partial. -/
theorem renderTo_append_of_disjoint_dotted :
    (greetingStack ≠ [] ∧ unasked.isMapping = true ∧
      (∀ es, unasked.entries? = some es → ∀ name, greetingRenderer.asks greeting name → .text name ∉ Table.keys es) ∧
      greetingRenderer.Avoids .callable (greetingRenderer.depthBound greeting.elements + Renderer.functionDepth)
        greeting.elements ⟨greetingStack, [], 0⟩ ⟨.fresh, .bare .buffer⟩) ∧
    (greetingRenderer.renderTo .buffer greeting (greetingStack ++ [unasked.toFrame])).run .fresh
      = (greetingRenderer.renderTo .buffer greeting greetingStack).run .fresh ∧
    ((greetingRenderer.renderTo .buffer greeting greetingStack).run .fresh).1.2.text = "A-1A-2".toList := by
  have hdisjoint : ∀ es, unasked.entries? = some es → ∀ name, greetingRenderer.asks greeting name →
      .text name ∉ Table.keys es := by
    intro es hes name hname
    cases hes
    have hmem := asks_greeting hname
    simp only [List.mem_cons, List.not_mem_nil, or_false] at hmem
    rcases hmem with rfl | rfl | rfl <;> simp [Table.keys]
  have hcalls : greetingRenderer.Avoids .callable
      (greetingRenderer.depthBound greeting.elements + Renderer.functionDepth) greeting.elements
      ⟨greetingStack, [], 0⟩ ⟨.fresh, .bare .buffer⟩ := by
    intro fault
    with_unfolding_all rfl
  have hne : greetingStack ≠ [] := List.cons_ne_nil _ _
  refine ⟨⟨hne, rfl, hdisjoint, hcalls⟩, renderTo_append_of_disjoint hne rfl hdisjoint hcalls, ?_⟩
  with_unfolding_all rfl

end Mustache

import Mustache.Proofs.Parsed
import Mustache.Proofs.Watching

/-!
# `Mustache.Proofs.Gaps` — templates with a gap

To speak of one place in a template, the element there is replaced by a gap: an element of a type that occurs nowhere
else. Filled with the element, the gap gives the template back; filled with nothing, it gives the template without the
element. A gap among the children of a parent is not filled, since these are no elements to render but overrides, and
the raw bodies of the sections around a gap stay as they are.

* `Element.fill`, `Element.fillAll` — elements with others in place of all gaps;
* `Renderer.element_fill` — **an element and what it brings in can be filled one after the other**;
* `Renderer.gapped` — a render that does something of our choice in place of a gap, and
  `Renderer.gapped_eq_elements` — how it renders a filled template.
-/

namespace Mustache

open RenderM

/-! ## Gaps -/

namespace Element

/-- Whether an element is a gap. -/
def isGap (gap : Text) : Element → Bool
  | .foreign typeName => typeName == gap
  | _ => false

/-- A forest without gaps. -/
def Gapless (gap : Text) (es : List Element) : Prop := Everywhere (·.isGap gap = false) es

mutual

/-- An element with some elements in place of all gaps inside it. -/
def fill (gap : Text) (fs : List Element) : Element → Element
  | .sectionTag key inverted children rawBody d => .sectionTag key inverted (fillAll gap fs children) rawBody d
  | .parentTag key children indent => .parentTag key (fillBodies gap fs children) indent
  | .blockTag key children indent => .blockTag key (fillAll gap fs children) indent
  | .text s => .text s
  | .interpolation key escaped => .interpolation key escaped
  | .partialTag key indent => .partialTag key indent
  | .foreign typeName => .foreign typeName

/-- Elements with some elements in place of all gaps among them and inside them. -/
def fillAll (gap : Text) (fs : List Element) : List Element → List Element
  | [] => []
  | e :: es => (if e.isGap gap then fs else [fill gap fs e]) ++ fillAll gap fs es

/-- An override with some elements in place of all gaps in its body. Whatever it is, its children are rendered. -/
def fillBody (gap : Text) (fs : List Element) : Element → Element
  | .sectionTag key inverted children rawBody d => .sectionTag key inverted (fillAll gap fs children) rawBody d
  | .parentTag key children indent => .parentTag key (fillAll gap fs children) indent
  | .blockTag key children indent => .blockTag key (fillAll gap fs children) indent
  | .text s => .text s
  | .interpolation key escaped => .interpolation key escaped
  | .partialTag key indent => .partialTag key indent
  | .foreign typeName => .foreign typeName

/-- Overrides with some elements in place of all gaps in their bodies. -/
def fillBodies (gap : Text) (fs : List Element) : List Element → List Element
  | [] => []
  | e :: es => fillBody gap fs e :: fillBodies gap fs es

end

section Laws

variable {gap : Text} {es : List Element}

mutual

theorem fill_of_gapless {gap : Text} {e : Element} (h : Gapless gap e.children) (fs : List Element) :
    e.fill gap fs = e := by
  cases e with
  | sectionTag key inverted children raw d =>
      exact congrArg (sectionTag key inverted · raw d) (fillAll_of_gapless h fs)
  | parentTag key children indent => exact congrArg (parentTag key · indent) (fillBodies_of_gapless h fs)
  | blockTag key children indent => exact congrArg (blockTag key · indent) (fillAll_of_gapless h fs)
  | text | interpolation | partialTag | foreign => rfl

theorem fillAll_of_gapless {gap : Text} {es : List Element} (h : Gapless gap es) (fs : List Element) :
    fillAll gap fs es = es := by
  cases es with
  | nil => rfl
  | cons e es =>
      obtain ⟨⟨he, hchildren⟩, hes⟩ := everywhere_cons.mp h
      rw [fillAll, he, fill_of_gapless hchildren fs, fillAll_of_gapless hes fs]
      rfl

theorem fillBody_of_gapless {gap : Text} {e : Element} (h : Gapless gap e.children) (fs : List Element) :
    e.fillBody gap fs = e := by
  cases e with
  | sectionTag key inverted children raw d =>
      exact congrArg (sectionTag key inverted · raw d) (fillAll_of_gapless h fs)
  | parentTag key children indent => exact congrArg (parentTag key · indent) (fillAll_of_gapless h fs)
  | blockTag key children indent => exact congrArg (blockTag key · indent) (fillAll_of_gapless h fs)
  | text | interpolation | partialTag | foreign => rfl

theorem fillBodies_of_gapless {gap : Text} {es : List Element} (h : Gapless gap es) (fs : List Element) :
    fillBodies gap fs es = es := by
  cases es with
  | nil => rfl
  | cons e es =>
      obtain ⟨⟨-, hchildren⟩, hes⟩ := everywhere_cons.mp h
      rw [fillBodies, fillBody_of_gapless hchildren fs, fillBodies_of_gapless hes fs]

end

theorem gapless_of_parse {d : Delimiters} {s : Text} (h : parse d s = .ok es) (gap : Text) : Gapless gap es := by
  intro e he
  have hknown := parse_known h e he
  cases e with
  | foreign => cases hknown
  | _ => rfl

variable (fs : List Element)

theorem key?_fillBody (e : Element) : (e.fillBody gap fs).key? = e.key? := by
  cases e <;> rfl

theorem indent?_fillBody (e : Element) : (e.fillBody gap fs).indent? = e.indent? := by
  cases e <;> rfl

theorem children?_fillBody (e : Element) : (e.fillBody gap fs).children? = e.children?.map (fillAll gap fs) := by
  cases e <;> rfl

theorem overrides?_fillBodies (es : List Element) :
    overrides? (fillBodies gap fs es) = (overrides? es).map (List.map (Prod.map id (fillBody gap fs))) := by
  induction es with
  | nil => rfl
  | cons e es ih =>
      rw [fillBodies, overrides?, overrides?, key?_fillBody, ih]
      cases e.key? with
      | none => rfl
      | some key =>
          cases overrides? es with
          | none => rfl
          | some rest => exact congrArg (fun t => some ((key, e.fillBody gap fs) :: t)) (Table.erase_map _ rest key)

end Laws

end Element

open Element

/-! ## Filled renders -/

/-- The scope with some elements in place of all gaps in the bodies of the overrides. -/
def Scope.fill (scope : Scope) (gap : Text) (fs : List Element) : Scope :=
  { scope with overrides := scope.overrides.map (Prod.map id (fillBody gap fs)) }

namespace Renderer

/-- A recursion that fills what it is given. -/
def Recur.filled (recur : Recur) (gap : Text) (fs : List Element) : Recur :=
  fun es scope => recur (fillAll gap fs es) (scope.fill gap fs)

section Filling

variable {r : Renderer} {gap : Text} {fs : List Element} {recur : Recur} {scope : Scope}

/-- The text of a function is parsed, so it has no gaps. -/
theorem renderText_fill (d : Delimiters) :
    renderText recur d (scope.fill gap fs) = renderText (recur.filled gap fs) d scope := by
  funext s
  unfold renderText
  split
  · rename_i es hes
    rw [Recur.filled, fillAll_of_gapless (gapless_of_parse hes gap)]
  · rfl

theorem interpolation_fill (key : Text) (escaped : Bool) :
    r.interpolation recur (scope.fill gap fs) key escaped
      = r.interpolation (recur.filled gap fs) scope key escaped := by
  have hshown : ∀ v, interpolated? recur (scope.fill gap fs) key v
      = interpolated? (recur.filled gap fs) scope key v := by
    intro v
    unfold interpolated?
    rw [renderText_fill]
  unfold interpolation
  simp only [hshown]
  rfl

theorem sectionTag_fill (key : Text) (inverted : Bool) (children : List Element) (raw : Text) (d : Delimiters) :
    Renderer.sectionTag recur (scope.fill gap fs) key inverted (fillAll gap fs children) raw d
      = Renderer.sectionTag (recur.filled gap fs) scope key inverted children raw d := by
  have hcall : ∀ f, sectionCall recur (scope.fill gap fs) raw d f
      = sectionCall (recur.filled gap fs) scope raw d f := by
    intro f
    rw [sectionCall_eq, sectionCall_eq, callback?, callback?, renderText_fill]
  unfold Renderer.sectionTag
  simp only [hcall]
  rfl

theorem expand_fill {t : Template} (ht : Gapless gap t.elements) (indent : Option Text)
    (overrides : Table Text Element) :
    r.expand recur (scope.fill gap fs) t indent (overrides.map (Prod.map id (fillBody gap fs)))
      = r.expand (recur.filled gap fs) scope t indent overrides := by
  unfold expand
  rw [Recur.filled, fillAll_of_gapless ht]
  rfl

theorem blockTag_fill (key : Text) (children : List Element) (indent : Option Text) :
    blockTag recur (scope.fill gap fs) key (fillAll gap fs children) indent
      = blockTag (recur.filled gap fs) scope key children indent := by
  have hget : (scope.fill gap fs).overrides.get? key = (scope.overrides.get? key).map (fillBody gap fs) :=
    Table.get?_map _ _ _
  have herase : (scope.fill gap fs).overrides.erase key
      = (scope.overrides.erase key).map (Prod.map id (fillBody gap fs)) := Table.erase_map _ _ _
  unfold blockTag
  rw [hget]
  cases scope.overrides.get? key with
  | none => rfl
  | some e =>
      dsimp only [Option.map_some]
      rw [herase, indent?_fillBody, children?_fillBody]
      cases e.children? <;> rfl

/-- **An element and what it brings in can be filled one after the other.** -/
theorem element_fill (hpartials : ∀ p ∈ r.partials, Gapless gap p.2.elements) (e : Element) :
    r.element recur (scope.fill gap fs) (e.fill gap fs) = r.element (recur.filled gap fs) scope e := by
  have htemplate : ∀ {k k' : Option Template → RenderM Unit} (key : Text), k none = k' none →
      (∀ t, Gapless gap t.elements → k (some t) = k' (some t)) → (r.template? key >>= k) = (r.template? key >>= k') := by
    intro k k' key hnone hsome
    cases hget : r.partials.get? key with
    | none =>
        rw [template?, hget]
        simp only [bind_assoc, pure_bind, hnone]
    | some t =>
        rw [template?_of_get? hget, pure_bind, pure_bind]
        exact hsome t (Table.of_get? (P := fun t : Template => Gapless gap t.elements) hget hpartials)
  cases e with
  | text | foreign => rfl
  | interpolation key escaped => exact interpolation_fill key escaped
  | sectionTag key inverted children raw d => exact sectionTag_fill key inverted children raw d
  | partialTag key indent => exact htemplate key rfl fun t ht => expand_fill ht indent scope.overrides
  | parentTag key children indent =>
      refine htemplate key rfl fun t ht => ?_
      dsimp only
      rw [overrides?_fillBodies]
      cases overrides? children with
      | none => rfl
      | some own =>
          show r.expand recur (scope.fill gap fs) t indent (Table.putAll (own.map _) (scope.overrides.map _)) = _
          rw [Table.putAll_map]
          exact expand_fill ht indent _
  | blockTag key children indent => exact blockTag_fill key children indent

end Filling

/-! ## Renders with a gap -/

/-- Elements in order, down to a depth, with something else in place of a gap. -/
def gapped (r : Renderer) (gap : Text) (x : Recur → Scope → RenderM Unit) : Nat → Recur
  | 0, _, _ => throw .exhausted
  | depth + 1, es, scope =>
      es.forM fun e => if e.isGap gap then x (gapped r gap x depth) scope else r.element (gapped r gap x depth) scope e

/-- **A filled template is rendered with what fills it in place of the gap.** -/
theorem gapped_eq_elements {r : Renderer} {gap : Text} {fs : List Element}
    (hpartials : ∀ p ∈ r.partials, Gapless gap p.2.elements) (hfs : Gapless gap fs) (n : Nat) (es : List Element)
    (scope : Scope) :
    r.gapped gap (fun recur scope => fs.forM (r.element recur scope)) n es scope
      = r.elements n (fillAll gap fs es) (scope.fill gap fs) := by
  induction n generalizing es scope with
  | zero => rfl
  | succ n ih =>
      have hrecur : r.gapped gap (fun recur scope => fs.forM (r.element recur scope)) n
          = Recur.filled (r.elements n) gap fs := funext fun es => funext fun scope => ih es scope
      have helement : ∀ e, r.element (Recur.filled (r.elements n) gap fs) scope e
          = r.element (r.elements n) (scope.fill gap fs) (e.fill gap fs) := fun e => (element_fill hpartials e).symm
      -- what fills a gap has no gaps itself
      have hfill : ∀ f ∈ fs, f.fill gap fs = f := fun f hf => fill_of_gapless (hfs.children hf) fs
      have hgap : fs.forM (r.element (Recur.filled (r.elements n) gap fs) scope)
          = fs.forM (r.element (r.elements n) (scope.fill gap fs)) := by
        have hmap : (fs.map (fill gap fs)).forM (r.element (r.elements n) (scope.fill gap fs))
            = fs.forM fun f => r.element (r.elements n) (scope.fill gap fs) (f.fill gap fs) := List.forM_map
        rw [funext helement, ← hmap, List.map_congr_left hfill, List.map_id']
      unfold gapped elements
      rw [hrecur]
      induction es with
      | nil => rfl
      | cons e es ihes =>
          have happend : (fillAll gap fs (e :: es)).forM (r.element (r.elements n) (scope.fill gap fs))
              = (if e.isGap gap then fs else [e.fill gap fs]).forM (r.element (r.elements n) (scope.fill gap fs)) >>=
                  fun _ => (fillAll gap fs es).forM (r.element (r.elements n) (scope.fill gap fs)) :=
            List.forM_append
          rw [happend, ← ihes]
          show (if e.isGap gap then _ else _) >>= _ = _
          cases e.isGap gap with
          | true => exact congrArg (· >>= _) hgap
          | false => exact congrArg (· >>= _) ((helement e).trans (bind_pure _).symm)

end Renderer

end Mustache

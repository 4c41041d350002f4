import Mustache.Proofs.Skeleton

/-!
# `Mustache.Proofs.Bodies` — trees without their raw bodies

The raw body of a section is the one thing in a tree that shows how its template was written: what a comment says, or
what was cut from around a tag. `Element.bodilessAll` empties it, at every depth. What is left of the tree depends on
what is kept of a template only, so it can be assembled from pieces without their source.

* `Assembly.run_bodiless` — assembling a template without its source gives its tree without raw bodies, or the same
  fault without its place;
* `Assembly.run_append_congr` — two ends of a template that assemble alike from every state can be exchanged.
-/

namespace Mustache

/-! ## Trees -/

namespace Element

mutual

/-- An element whose sections have no raw body. -/
def bodiless : Element → Element
  | .text chars => .text chars
  | .interpolation key escaped => .interpolation key escaped
  | .sectionTag key inverted children _ d => .sectionTag key inverted (bodilessAll children) [] d
  | .partialTag key indent => .partialTag key indent
  | .parentTag key children indent => .parentTag key (bodilessAll children) indent
  | .blockTag key children indent => .blockTag key (bodilessAll children) indent
  | .foreign typeName => .foreign typeName

/-- A forest whose sections have no raw body, at all depths. -/
def bodilessAll : List Element → List Element
  | [] => []
  | e :: es => bodiless e :: bodilessAll es

end

theorem bodilessAll_eq_map (es : List Element) : bodilessAll es = es.map bodiless := by
  induction es with
  | nil => rfl
  | cons e es ih => rw [bodilessAll, ih, List.map_cons]

theorem bodilessAll_reverse (es : List Element) : bodilessAll es.reverse = (bodilessAll es).reverse := by
  rw [bodilessAll_eq_map, bodilessAll_eq_map, List.map_reverse]

/-- Static text has no raw body, so it is joined as before. -/
theorem push_bodiless (e : Element) (es : List Element) :
    push e.bodiless (bodilessAll es) = bodilessAll (push e es) := by
  cases e with
  | text t =>
      rcases es with _ | ⟨f, es⟩
      · rfl
      · cases f <;> rfl
  | _ => rfl

theorem bodilessAll_filter_isBlock (es : List Element) :
    bodilessAll (es.filter isBlock) = (bodilessAll es).filter isBlock := by
  have hblock : isBlock ∘ bodiless = isBlock := by
    funext e
    cases e <;> rfl
  rw [bodilessAll_eq_map, bodilessAll_eq_map, List.filter_map, hblock]

end Element

/-! ## Pieces -/

/-- A tag without its source and its place. Its margins stay, for they may indent what replaces it. -/
def Tag.sourceless (t : Tag) : Tag := { t with source := [], start := 0, row := 0, col := 0 }

/-- A piece without its source. -/
def Piece.sourceless (p : Piece) : Piece := ⟨[], p.kept, p.tag.sourceless⟩

/-- A template without its source: what is kept of it. -/
def Trimmed.sourceless (t : Trimmed) : Trimmed := ⟨t.pieces.map Piece.sourceless, [], t.keptTail⟩

namespace Trimmed

theorem sourceless_append (x y : Trimmed) : (x.append y).sourceless = x.sourceless.append y.sourceless := by
  obtain ⟨pieces, tail, keptTail⟩ := y
  cases pieces with
  | nil => rfl
  | cons p ps => simp [append, sourceless, Piece.sourceless]

/-- How far down a template stands does not show in what is kept of it. -/
theorem sourceless_below (chars rows : Nat) (t : Trimmed) : (t.below chars rows).sourceless = t.sourceless := by
  simp only [sourceless, below, List.map_map]
  rfl

end Trimmed

/-! ## Assembly -/

/-- An open tag without its source; its siblings without raw bodies. -/
def OpenTag.bodiless (o : OpenTag) : OpenTag := ⟨o.tag.sourceless, Element.bodilessAll o.siblings, []⟩

namespace Assembly

/-- A state without the source that has been read. -/
def bodiless (a : Assembly) : Assembly := ⟨a.stack.map OpenTag.bodiless, Element.bodilessAll a.siblings, []⟩

variable (a : Assembly)

theorem add_bodiless (source : Text) (e : Element) : a.bodiless.add [] e.bodiless = (a.add source e).bodiless := by
  have hpush := Element.push_bodiless e a.siblings
  unfold add
  simp only [bodiless, addSource, hpush]
  rfl

theorem addText_bodiless (lead kept : Text) : a.bodiless.addText [] kept = (a.addText lead kept).bodiless := by
  cases kept with
  | nil => rfl
  | cons c kept => exact add_bodiless a lead (.text (c :: kept))

/-- The element of an open tag encloses its children without their raw bodies. -/
theorem bodiless_enclose (t : Tag) (children : List Element) (raw : Text) :
    (enclose t children raw).bodiless = enclose t.sourceless (Element.bodilessAll children) [] := by
  unfold enclose
  have hkind : t.sourceless.kind = t.kind := rfl
  rw [hkind]
  cases t.kind with
  | parent => exact congrArg (Element.parentTag t.key · t.indent) (Element.bodilessAll_filter_isBlock children)
  | _ => rfl

theorem leave_bodiless (t : Tag) :
    a.bodiless.leave t.sourceless = ((a.leave t).map bodiless).mapError SyntaxError.unplaced := by
  obtain ⟨stack, siblings, raw⟩ := a
  cases stack with
  | nil => rfl
  | cons o os =>
      unfold leave
      show (if o.tag.key = t.key then _ else _)
        = ((if o.tag.key = t.key then _ else _ : Except SyntaxError Assembly).map _).mapError _
      split
      · have henclose := bodiless_enclose o.tag siblings.reverse raw.reverse
        rw [Element.bodilessAll_reverse] at henclose
        have hadd := add_bodiless ⟨os, o.siblings, o.raw⟩ (o.tag.source ++ raw.reverse ++ t.source)
          (enclose o.tag siblings.reverse raw.reverse)
        rw [henclose] at hadd
        exact congrArg Except.ok hadd
      · rfl

theorem step_bodiless (p : Piece) :
    a.bodiless.step p.sourceless = ((a.step p).map bodiless).mapError SyntaxError.unplaced := by
  have htext : a.bodiless.addText p.sourceless.lead p.sourceless.kept = (a.addText p.lead p.kept).bodiless :=
    addText_bodiless a p.lead p.kept
  rw [step, htext, step]
  generalize a.addText p.lead p.kept = a
  have hkind : p.sourceless.tag.kind = p.tag.kind := rfl
  unfold addTag
  rw [hkind]
  cases p.tag.kind with
  | escaped => exact congrArg Except.ok (add_bodiless a p.tag.source (.interpolation p.tag.key true))
  | raw => exact congrArg Except.ok (add_bodiless a p.tag.source (.interpolation p.tag.key false))
  | partialUse => exact congrArg Except.ok (add_bodiless a p.tag.source (.partialTag p.tag.key p.tag.indent))
  | close => exact leave_bodiless a p.tag
  | _ => rfl

theorem finish_bodiless :
    a.bodiless.finish = (a.finish.map Element.bodilessAll).mapError SyntaxError.unplaced := by
  obtain ⟨stack, siblings, raw⟩ := a
  cases stack with
  | nil => exact congrArg Except.ok (Element.bodilessAll_reverse siblings).symm
  | cons o os => rfl

/-- **Assembling a template without its source** gives its tree without raw bodies. -/
theorem run_bodiless (t : Trimmed) :
    run t.sourceless = ((run t).map Element.bodilessAll).mapError SyntaxError.unplaced := by
  apply run_hom rfl step_bodiless
  intro a
  rw [addText_bodiless a t.tail t.keptTail, finish_bodiless]

/-- Of two templates that assemble alike without their source, one has a tree when the other has, and the trees differ
    in raw bodies only. -/
theorem exists_of_run_sourceless {x y : Trimmed} {es : List Element} (h : run x.sourceless = run y.sourceless)
    (hx : run x = .ok es) : ∃ fs, run y = .ok fs ∧ Element.bodilessAll fs = Element.bodilessAll es := by
  rw [run_bodiless, run_bodiless, hx] at h
  cases hy : run y with
  | error e =>
      rw [hy] at h
      cases h
  | ok fs =>
      rw [hy] at h
      exact ⟨fs, rfl, (Except.ok.inj h).symm⟩

/-! ## Exchanging the end of a template -/

/-- A fault in the first of two templates ends the assembly. -/
theorem runFrom_append_error {a : Assembly} {x : Trimmed} {e : SyntaxError}
    (h : x.pieces.foldlM step a = .error e) (y : Trimmed) : runFrom a (x.append y) = .error e := by
  unfold runFrom Trimmed.append
  cases hy : y.pieces with
  | nil => simp only [h]; rfl
  | cons p ps => simp only [List.foldlM_append, h]; rfl

/-- **Two ends that assemble alike from every state** can be exchanged, whatever stands before them. -/
theorem run_append_congr {y z : Trimmed} (h : ∀ a, runFrom a y = runFrom a z) (x : Trimmed) :
    run (x.append y) = run (x.append z) := by
  rw [run_eq, run_eq]
  cases hfold : x.pieces.foldlM step empty with
  | error e => rw [runFrom_append_error hfold, runFrom_append_error hfold]
  | ok a => rw [runFrom_append hfold, runFrom_append hfold, h]

end Assembly

end Mustache

import Mustache.Proofs.Assembling

/-!
# `Mustache.Proofs.Skeleton` — trees without their static text

What trimming does to a template shows in its tree in two ways only: in the static texts, and in the
indentation of tags that are alone on their line. `Element.skeletonAll` forgets both, at every depth. What
is left of the tree does not depend on where its tags stand, so it can be assembled from pieces without
kept text, whose tags have neither a place nor margins.

* `Assembly.run_skeleton` — assembling the skeleton of a template gives the skeleton of its tree, or the
  same fault without its place;
* `Element.Within` — the elements at any depth of a forest, and `Element.Within.skeletonAll`, those of its
  skeleton.
-/

namespace Mustache

/-! ## Trees -/

namespace Element

mutual

/-- An element without static text and indentation; of static text nothing is left. -/
def skeleton : Element → List Element
  | .text _ => []
  | .interpolation key escaped => [.interpolation key escaped]
  | .sectionTag key inverted children rawBody d =>
      [.sectionTag key inverted (skeletonAll children) rawBody d]
  | .partialTag key _ => [.partialTag key none]
  | .parentTag key children _ => [.parentTag key (skeletonAll children) none]
  | .blockTag key children _ => [.blockTag key (skeletonAll children) none]
  | .foreign typeName => [.foreign typeName]

/-- A forest without static text and indentation, at all depths. -/
def skeletonAll : List Element → List Element
  | [] => []
  | e :: es => skeleton e ++ skeletonAll es

end

variable {e f : Element} {es fs : List Element}

theorem skeletonAll_eq_flatMap (es : List Element) : skeletonAll es = es.flatMap skeleton := by
  induction es with
  | nil => rfl
  | cons e es ih => rw [skeletonAll, ih, List.flatMap_cons]

theorem skeletonAll_append : skeletonAll (es ++ fs) = skeletonAll es ++ skeletonAll fs := by
  rw [skeletonAll_eq_flatMap, skeletonAll_eq_flatMap, skeletonAll_eq_flatMap, List.flatMap_append]

/-- Of one element at most one is left. -/
theorem skeleton_reverse (e : Element) : (skeleton e).reverse = skeleton e := by
  cases e <;> rfl

theorem skeletonAll_reverse (es : List Element) : skeletonAll es.reverse = (skeletonAll es).reverse := by
  induction es with
  | nil => rfl
  | cons e es ih =>
      rw [List.reverse_cons, skeletonAll_append, ih, skeletonAll, skeletonAll, skeletonAll, List.append_nil,
        List.reverse_append, skeleton_reverse]

/-- Whether a new sibling is joined to the last one makes no difference. -/
theorem skeletonAll_push (e : Element) (es : List Element) :
    skeletonAll (push e es) = skeleton e ++ skeletonAll es := by
  cases e with
  | text t =>
      rcases es with _ | ⟨f, es⟩
      · rfl
      · cases f <;> rfl
  | _ => rfl

/-- What is left of an element is no static text. -/
theorem push_of_mem_skeleton (h : f ∈ skeleton e) (es : List Element) : push f es = f :: es := by
  cases e with
  | text t => cases h
  | _ =>
      obtain rfl := List.mem_singleton.mp h
      rfl

theorem skeletonAll_filter_isBlock (es : List Element) :
    skeletonAll (es.filter isBlock) = (skeletonAll es).filter isBlock := by
  induction es with
  | nil => rfl
  | cons e es ih =>
      cases e with
      | blockTag key children _ => exact congrArg (.blockTag key (skeletonAll children) none :: ·) ih
      | _ => exact ih

/-! ### Elements at any depth -/

/-- An element of a forest, at any depth. -/
inductive Within (e : Element) : List Element → Prop where
  | root {es : List Element} (he : e ∈ es) : Within e es
  | child {es : List Element} {f : Element} (hf : f ∈ es) (he : Within e f.children) : Within e es

theorem Within.mono (h : Within e es) (hsub : ∀ f ∈ es, f ∈ fs) : Within e fs := by
  cases h with
  | root he => exact .root (hsub _ he)
  | child hf he => exact .child (hsub _ hf) he

theorem within_append : Within e (es ++ fs) ↔ Within e es ∨ Within e fs := by
  constructor
  · intro h
    cases h with
    | root he => exact (List.mem_append.mp he).imp .root .root
    | child hf he => exact (List.mem_append.mp hf).imp (.child · he) (.child · he)
  · rintro (h | h)
    · exact h.mono fun _ => List.mem_append_left fs
    · exact h.mono fun _ => List.mem_append_right es

theorem within_singleton : Within e [f] ↔ e = f ∨ Within e f.children := by
  constructor
  · intro h
    cases h with
    | root he => exact Or.inl (List.mem_singleton.mp he)
    | child hf he => exact Or.inr (List.mem_singleton.mp hf ▸ he)
  · rintro (rfl | h)
    · exact .root List.mem_cons_self
    · exact .child List.mem_cons_self h

theorem not_within_nil : ¬ Within e [] := by
  rintro (he | ⟨hf, -⟩)
  · exact List.not_mem_nil he
  · exact List.not_mem_nil hf

/-- Of elements that have no children, only the elements themselves are within. -/
theorem Within.mem_of_leaves (h : Within e es) (hleaves : ∀ f ∈ es, f.children = []) : e ∈ es := by
  cases h with
  | root he => exact he
  | child hf he =>
      rw [hleaves _ hf] at he
      exact absurd he not_within_nil

/-- The skeleton has what is left of each element at any depth. -/
theorem Within.skeletonAll (h : Within e es) (hf : f ∈ skeleton e) : Within f (skeletonAll es) := by
  induction h with
  | root he => exact .root (skeletonAll_eq_flatMap _ ▸ List.mem_flatMap.mpr ⟨_, he, hf⟩)
  | @child es g hg hinner ih =>
      -- static text has nothing inside it, so something is left of `g`
      have hleft : ∃ g' ∈ skeleton g, g'.children = Element.skeletonAll g.children := by
        cases g with
        | text t => exact absurd hinner not_within_nil
        | _ => exact ⟨_, List.mem_singleton.mpr rfl, rfl⟩
      obtain ⟨g', hg', hchildren⟩ := hleft
      exact .child (skeletonAll_eq_flatMap _ ▸ List.mem_flatMap.mpr ⟨_, hg, hg'⟩) (hchildren ▸ ih)

end Element

/-! ## Pieces -/

/-- An error without its place. -/
def SyntaxError.unplaced (e : SyntaxError) : SyntaxError := { e with row := 0, col := 0 }

namespace Tag

/-- A tag without its place and its margins. -/
def unplaced (t : Tag) : Tag := { t with start := 0, row := 0, col := 0, margins := none }

theorem indent_unplaced (t : Tag) : t.unplaced.indent = none := by
  unfold indent
  split <;> rfl

end Tag

/-- A piece of which no text is kept. -/
def Piece.skeleton (p : Piece) : Piece := ⟨p.lead, [], p.tag.unplaced⟩

/-- A run as a piece of which no text is kept. -/
def Run.skeleton (r : Run) : Piece := ⟨r.lead, [], r.tag.unplaced⟩

/-- A template of which no static text is kept. -/
def Trimmed.skeleton (t : Trimmed) : Trimmed := ⟨t.pieces.map Piece.skeleton, t.tail, []⟩

/-- Trimming does not show in the skeleton. -/
theorem Trimmed.skeleton_ofScan (sc : Scan) :
    (Trimmed.ofScan sc).skeleton = ⟨sc.runs.map Run.skeleton, sc.tail, []⟩ := by
  have htrim : ∀ skip (rs : List Run),
      (Piece.trim skip rs).1.map Piece.skeleton = rs.map Run.skeleton := by
    intro skip rs
    induction rs generalizing skip with
    | nil => rfl
    | cons r rs ih => exact congrArg (r.skeleton :: ·) (ih _)
  exact congrArg (Trimmed.mk · sc.tail []) (htrim 0 sc.runs)

/-! ## Assembly -/

/-- An open tag without its place; its siblings without static text. -/
def OpenTag.skeleton (o : OpenTag) : OpenTag := ⟨o.tag.unplaced, Element.skeletonAll o.siblings, o.raw⟩

namespace Assembly

/-- A state without static text and the places of its open tags. -/
def skeleton (a : Assembly) : Assembly :=
  ⟨a.stack.map OpenTag.skeleton, Element.skeletonAll a.siblings, a.raw⟩

variable (a : Assembly)

theorem addText_skeleton (lead kept : Text) :
    a.skeleton.addText lead [] = (a.addText lead kept).skeleton := by
  unfold addText
  cases kept with
  | nil => rfl
  | cons c kept => simp [skeleton, addSource, Element.skeletonAll_push, Element.skeleton]

theorem add_skeleton (source : Text) {e f : Element} (h : Element.skeleton e = [f]) :
    a.skeleton.add source f = (a.add source e).skeleton := by
  have hpush := Element.push_of_mem_skeleton (h ▸ List.mem_singleton_self f)
    (Element.skeletonAll a.siblings)
  simp [add, addSource, skeleton, hpush, Element.skeletonAll_push, h]

/-- The element of an open tag encloses the skeleton of its children. -/
theorem skeleton_enclose (t : Tag) (children : List Element) (raw : Text) :
    Element.skeleton (enclose t children raw)
      = [enclose t.unplaced (Element.skeletonAll children) raw] := by
  unfold enclose
  have hkind : t.unplaced.kind = t.kind := rfl
  rw [hkind, Tag.indent_unplaced]
  cases t.kind with
  | parent => simp [Element.skeleton, Element.skeletonAll_filter_isBlock, Tag.unplaced]
  | _ => rfl

theorem leave_skeleton (t : Tag) :
    a.skeleton.leave t.unplaced = ((a.leave t).map skeleton).mapError SyntaxError.unplaced := by
  obtain ⟨stack, siblings, raw⟩ := a
  cases stack with
  | nil => rfl
  | cons o os =>
      unfold leave
      show (if o.tag.key = t.key then _ else _)
        = ((if o.tag.key = t.key then _ else _ : Except SyntaxError Assembly).map _).mapError _
      split
      · have henclose := skeleton_enclose o.tag siblings.reverse raw.reverse
        rw [Element.skeletonAll_reverse] at henclose
        exact congrArg Except.ok (add_skeleton ⟨os, o.siblings, o.raw⟩ _ henclose)
      · rfl

theorem step_skeleton (p : Piece) :
    a.skeleton.step p.skeleton = ((a.step p).map skeleton).mapError SyntaxError.unplaced := by
  have htext : a.skeleton.addText p.skeleton.lead p.skeleton.kept = (a.addText p.lead p.kept).skeleton :=
    addText_skeleton a p.lead p.kept
  rw [step, htext, step]
  generalize a.addText p.lead p.kept = a
  have hkind : p.skeleton.tag.kind = p.tag.kind := rfl
  unfold addTag
  rw [hkind]
  cases p.tag.kind with
  | escaped | raw => exact congrArg Except.ok (add_skeleton a _ rfl)
  | partialUse =>
      have hindent : p.skeleton.tag.indent = none := p.tag.indent_unplaced
      rw [hindent]
      exact congrArg Except.ok (add_skeleton a _ rfl)
  | close => exact leave_skeleton a p.tag
  | _ => rfl

theorem finish_skeleton :
    a.skeleton.finish = (a.finish.map Element.skeletonAll).mapError SyntaxError.unplaced := by
  obtain ⟨stack, siblings, raw⟩ := a
  cases stack with
  | nil => exact congrArg Except.ok (Element.skeletonAll_reverse siblings).symm
  | cons o os => rfl

/-- **Assembling the skeleton of a template** gives the skeleton of its tree. -/
theorem run_skeleton (t : Trimmed) :
    run t.skeleton = ((run t).map Element.skeletonAll).mapError SyntaxError.unplaced := by
  apply run_hom rfl step_skeleton
  -- what is kept of the tail is static text again
  intro a
  rw [addText_skeleton a t.tail t.keptTail, finish_skeleton]

end Assembly

end Mustache

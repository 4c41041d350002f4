import Mustache.Proofs.Assembling
import Mustache.Proofs.Heredity
import Mustache.Template

/-!
# `Mustache.Proofs.Parsed` — what is true of all parsed elements

The elements of a parsed text are its static text and what its tags become. So to say something of all of them, at
any depth, it is enough to say it of static text, of the leaf that a single tag becomes, and of the element that an
open tag becomes with whatever children (`Element.Arises`).

* `Assembly.step_everywhere` — a step of the assembly keeps what is true of all elements;
* `Element.parse_everywhere` — **hence it is true of all elements of a parsed text**;
* `Element.parse_known` — a parsed text holds no element of an unknown type.
-/

namespace Mustache

namespace Element

/-- What the tags of a kind become is of a kind, and so is static text. -/
structure Arises (P : Tag → Prop) (Q : Element → Prop) : Prop where
  text : ∀ s, Q (.text s)
  interpolation : ∀ key escaped, Q (.interpolation key escaped)
  partialUse : ∀ t : Tag, P t → Q (.partialTag t.key t.indent)
  enclosed : ∀ (t : Tag) (children : List Element) (raw : Text), P t → Q (Assembly.enclose t children raw)

variable {P : Tag → Prop} {Q : Element → Prop} {e : Element} {es : List Element} {t : Tag}

theorem everywhere_push (htext : ∀ s, Q (.text s)) (he : Everywhere Q [e]) (hes : Everywhere Q es) :
    Everywhere Q (push e es) := by
  unfold push
  split
  · -- a joined text has no children
    exact everywhere_cons.mpr ⟨⟨htext _, everywhere_nil⟩, (everywhere_cons.mp hes).2⟩
  · exact everywhere_append.mpr ⟨he, hes⟩

theorem mem_of_mem_enclose {f : Element} {raw : Text} (hf : f ∈ (Assembly.enclose t es raw).children) : f ∈ es := by
  unfold Assembly.enclose at hf
  split at hf
  · exact (List.mem_filter.mp hf).1
  · exact hf
  · exact hf

end Element

open Element

/-! ## Pieces -/

theorem Piece.forall_trim {rs : List Run} {P : Tag → Prop} (h : ∀ r ∈ rs, P r.tag) (skip : Nat) :
    ∀ p ∈ (Piece.trim skip rs).1, P p.tag := by
  induction rs generalizing skip with
  | nil => exact fun _ hp => absurd hp List.not_mem_nil
  | cons r rs ih =>
      obtain ⟨hr, hrs⟩ := List.forall_mem_cons.mp h
      exact List.forall_mem_cons.mpr ⟨hr, ih hrs _⟩

/-! ## Assembly -/

namespace Assembly

variable {P : Tag → Prop} {Q : Element → Prop} {a a' : Assembly} {t : Tag} {p : Piece}

/-- Something is true of all tags that are open, and of all elements that have been read. -/
structure Everywhere (P : Tag → Prop) (Q : Element → Prop) (a : Assembly) : Prop where
  siblings : Element.Everywhere Q a.siblings
  stack : ∀ o ∈ a.stack, P o.tag ∧ Element.Everywhere Q o.siblings

theorem Everywhere.addText (h : a.Everywhere P Q) (hA : Arises P Q) (lead kept : Text) :
    (a.addText lead kept).Everywhere P Q := by
  refine ⟨?_, h.stack⟩
  unfold Assembly.addText
  dsimp only
  split
  · exact h.siblings
  · exact everywhere_push hA.text (everywhere_singleton.mpr ⟨hA.text kept, everywhere_nil⟩) h.siblings

theorem Everywhere.add {e : Element} (h : a.Everywhere P Q) (hA : Arises P Q) (he : Element.Everywhere Q [e])
    (source : Text) : (a.add source e).Everywhere P Q :=
  ⟨everywhere_push hA.text he h.siblings, h.stack⟩

theorem Everywhere.leave (h : a.Everywhere P Q) (hA : Arises P Q) (hleave : a.leave t = .ok a') :
    a'.Everywhere P Q := by
  unfold Assembly.leave at hleave
  split at hleave
  · cases hleave
  · rename_i o stack hstack
    obtain ⟨⟨ho, hsiblings⟩, hrest⟩ := List.forall_mem_cons.mp (hstack ▸ h.stack)
    split at hleave
    · cases hleave
      have houter : Everywhere P Q ⟨stack, o.siblings, o.raw⟩ := ⟨hsiblings, hrest⟩
      have hinner := h.siblings.mono fun _ he => List.mem_reverse.mp he
      refine houter.add hA (everywhere_singleton.mpr ⟨hA.enclosed _ _ _ ho, ?_⟩) _
      exact hinner.mono fun _ hf => mem_of_mem_enclose hf
    · cases hleave

theorem Everywhere.addTag (h : a.Everywhere P Q) (hA : Arises P Q) (ht : P t) (hadd : a.addTag t = .ok a') :
    a'.Everywhere P Q := by
  have hleaf : ∀ {e : Element}, e.children = [] → Q e → (a.add t.source e).Everywhere P Q := by
    intro e hchildren he
    exact h.add hA (everywhere_singleton.mpr ⟨he, hchildren ▸ everywhere_nil⟩) _
  unfold Assembly.addTag at hadd
  split at hadd
  · cases hadd
    exact hleaf rfl (hA.interpolation _ _)
  · cases hadd
    exact hleaf rfl (hA.interpolation _ _)
  · cases hadd
    exact hleaf rfl (hA.partialUse t ht)
  iterate 4
    cases hadd
    exact ⟨everywhere_nil, List.forall_mem_cons.mpr ⟨⟨ht, h.siblings⟩, h.stack⟩⟩
  · exact h.leave hA hadd
  iterate 2
    cases hadd
    exact ⟨h.siblings, h.stack⟩

/-- **A step keeps what is true of all elements.** -/
theorem step_everywhere (hA : Arises P Q) (h : a.Everywhere P Q) (hp : P p.tag) (hstep : a.step p = .ok a') :
    a'.Everywhere P Q :=
  (h.addText hA p.lead p.kept).addTag hA hp hstep

theorem foldlM_everywhere {ps : List Piece} (hA : Arises P Q) (h : a.Everywhere P Q) (hps : ∀ p ∈ ps, P p.tag)
    (hrun : ps.foldlM step a = .ok a') : a'.Everywhere P Q := by
  induction ps generalizing a with
  | nil =>
      cases hrun
      exact h
  | cons p ps ih =>
      obtain ⟨hp, hps⟩ := List.forall_mem_cons.mp hps
      rw [List.foldlM_cons] at hrun
      cases hstep : a.step p with
      | error e =>
          rw [hstep] at hrun
          cases hrun
      | ok b =>
          rw [hstep] at hrun
          exact ih (step_everywhere hA h hp hstep) hps hrun

theorem run_everywhere {t : Trimmed} {es : List Element} (hA : Arises P Q) (hps : ∀ p ∈ t.pieces, P p.tag)
    (hrun : run t = .ok es) : Element.Everywhere Q es := by
  have hempty : Everywhere P Q empty := ⟨everywhere_nil, fun _ ho => absurd ho List.not_mem_nil⟩
  unfold run at hrun
  cases hfold : t.pieces.foldlM step empty with
  | error e =>
      rw [hfold] at hrun
      cases hrun
  | ok a =>
      rw [hfold] at hrun
      have hfinish : (a.addText t.tail t.keptTail).finish = .ok es := hrun
      have hlast := (foldlM_everywhere hA hempty hps hfold).addText hA t.tail t.keptTail
      unfold finish at hfinish
      split at hfinish
      · cases hfinish
        exact hlast.siblings.mono fun _ he => List.mem_reverse.mp he
      · cases hfinish

end Assembly

/-! ## Templates -/

section Templates

variable {P : Tag → Prop} {Q : Element → Prop} {d : Delimiters} {s : Text}

/-- **What is true of whatever arises from the tags of a text is true of all elements of the parsed text.** -/
theorem Element.parse_everywhere {es : List Element} (hA : Arises P Q) (htags : ∀ r ∈ (Scan.ofText d s).runs, P r.tag)
    (h : parse d s = .ok es) : Everywhere Q es := by
  rw [parse_of_scan (scan_of_parse h)] at h
  exact Assembly.run_everywhere hA (Piece.forall_trim htags 0) h

theorem Template.elements_of_parse {name : Option Text} {t : Template} (h : parse d name s = .ok t) :
    Element.parse d s = .ok t.elements := by
  unfold parse at h
  cases hes : Element.parse d s with
  | error e =>
      rw [hes] at h
      cases h
  | ok es =>
      rw [hes] at h
      cases h
      rfl

/-- Whether an element is of a type that rendering knows. -/
def Element.isKnown : Element → Bool
  | .foreign _ => false
  | _ => true

theorem Element.parse_known {es : List Element} (h : parse d s = .ok es) : Everywhere (·.isKnown = true) es := by
  refine parse_everywhere (P := fun _ => True) ⟨fun _ => rfl, fun _ _ => rfl, fun _ _ => rfl, ?_⟩
    (fun _ _ => trivial) h
  intro t children raw _
  unfold Assembly.enclose
  split <;> rfl

end Templates

end Mustache

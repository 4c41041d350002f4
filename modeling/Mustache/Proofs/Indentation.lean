import Mustache.Proofs.Margins
import Mustache.Proofs.Parsed
import Mustache.Proofs.Scanning

/-!
# `Mustache.Proofs.Indentation` — the indentation of parsed elements

An element takes its indentation from the margin before its tag, and a margin is blank. So whatever the text of a
template, no indentation in it brings in anything but spaces and tabs.

* `Scans.blankIndent` — the margins that a scan finds are blank;
* `Element.blankIndent_arises` — elements have the indentation of their tags;
* `Element.parse_blankIndent` — **hence all indentation in a parsed text is blank**.
-/

namespace Mustache

/-! ## Blank indentation -/

/-- A tag whose indentation is blank, if it has one. -/
def Tag.BlankIndent (t : Tag) : Prop := ∀ indent, t.indent = some indent → ∀ c ∈ indent, c = ' ' ∨ c = '\t'

namespace Element

/-- An element whose indentation is blank, if it has one. -/
def BlankIndent (e : Element) : Prop :=
  ∀ indent, e.indent? = some (some indent) → ∀ c ∈ indent, c = ' ' ∨ c = '\t'

theorem blankIndent_arises : Arises Tag.BlankIndent BlankIndent where
  text _ := fun _ h => nomatch h
  interpolation _ _ := fun _ h => nomatch h
  partialUse _ ht := fun indent h => ht indent (Option.some.inj h)
  enclosed t children raw ht := by
    have hindent : ∀ indent, some t.indent = some (some indent) → ∀ c ∈ indent, c = ' ' ∨ c = '\t' :=
      fun indent h => ht indent (Option.some.inj h)
    unfold Assembly.enclose
    cases t.kind with
    | parent | block => exact hindent
    | _ => exact fun _ h => nomatch h

end Element

open Element

/-! ## Scans -/

/-- The margins of a placed tag are blank. -/
theorem Tag.blankIndent_place (d : Delimiters) (here : Cursor) (t : TagText) (rest : Text) :
    (Tag.place d here t rest).BlankIndent := by
  intro indent h
  have hmargins : ∀ m, (Tag.place d here t rest).margins = some m → ∀ c ∈ m.leading, c = ' ' ∨ c = '\t' := by
    intro m hm
    unfold Tag.place at hm
    dsimp only at hm
    split at hm
    · obtain ⟨hleading, hblank, -⟩ := Margins.of_around? hm
      rwa [hleading]
    · cases hm
  unfold Tag.indent at h
  split at h
  · obtain ⟨m, hm, rfl⟩ := Option.map_eq_some_iff.mp h
    exact hmargins m hm
  · cases h

theorem Scans.blankIndent {pre s : Text} {d : Delimiters} {sc : Scan} (h : Scans pre d s sc) :
    ∀ r ∈ sc.runs, r.tag.BlankIndent := by
  induction h with
  | finish | fail => exact fun _ hr => absurd hr List.not_mem_nil
  | tag _ _ _ ih => exact List.forall_mem_cons.mpr ⟨Tag.blankIndent_place _ _ _ _, ih⟩

/-! ## Templates -/

/-- **All indentation in a parsed text is blank.** -/
theorem Element.parse_blankIndent {d : Delimiters} {s : Text} {es : List Element} (h : parse d s = .ok es) :
    Everywhere BlankIndent es :=
  parse_everywhere blankIndent_arises (Scan.scans_ofText d s).blankIndent h

theorem Template.parse_blankIndent {d : Delimiters} {name : Option Text} {s : Text} {t : Template}
    (h : parse d name s = .ok t) : Everywhere Element.BlankIndent t.elements :=
  Element.parse_blankIndent (elements_of_parse h)

end Mustache

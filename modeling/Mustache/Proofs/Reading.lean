import Mustache.Tag
import Mustache.Proofs.Search

/-!
# `Mustache.Proofs.Reading` — what reading one tag yields

`TagText.read` takes a tag from the text after an opening delimiter. Everything that later modules need
to know about it is stated here, so that they never open it again:

* `TagText.read_eq_ok_iff` — the tag is sigil, content and closing text, cut at the **leftmost** closing
  text after the sigil;
* `TagText.eq_of_ofContent` — each field of the tag, by its kind and content, and `TagText.key_of_read`, what its
  key is;
* `TagText.read_append` / `TagText.read_alone` — text after the tag does not change the tag;
* `TagText.endsSolid_of_read` / `TagText.usable_of_read` — between delimiters without white space a tag
  ends in a visible character, and the delimiters that it declares are again without white space.
-/

namespace Mustache

/-! ## Text without white space -/

namespace Text

/-- No character is white space. -/
def Solid (s : Text) : Prop := ∀ c ∈ s, isSpace c = false

instance (s : Text) : Decidable (Solid s) :=
  decidable_of_iff (s.all fun c => !isSpace c) (by simp [Solid])

/-- The last character is there and is no white space. -/
def EndsSolid (s : Text) : Prop := ∃ init x, s = init ++ [x] ∧ isSpace x = false

theorem EndsSolid.append {s : Text} (h : EndsSolid s) (t : Text) : EndsSolid (t ++ s) := by
  obtain ⟨init, x, rfl, hx⟩ := h
  exact ⟨t ++ init, x, (List.append_assoc _ _ _).symm, hx⟩

theorem Solid.endsSolid {s : Text} (h : Solid s) (hne : s ≠ []) : EndsSolid s :=
  ⟨s.dropLast, s.getLast hne, (List.dropLast_concat_getLast hne).symm, h _ (List.getLast_mem hne)⟩

theorem Solid.stripLeft {s : Text} (h : Solid s) : stripLeft s = s := by
  cases s with
  | nil => rfl
  | cons c cs => simp [Text.stripLeft, h c List.mem_cons_self]

theorem Solid.reverse {s : Text} (h : Solid s) : Solid s.reverse :=
  fun c hc => h c (List.mem_reverse.mp hc)

/-- There is nothing to strip from text without white space. -/
theorem Solid.strip {s : Text} (h : Solid s) : strip s = s := by
  have hright : (s.reverse.dropWhile isSpace).reverse = s := by
    have hrev : s.reverse.dropWhile isSpace = s.reverse := h.reverse.stripLeft
    rw [hrev, List.reverse_reverse]
  rw [Text.strip, h.stripLeft]
  exact hright

theorem Solid.any_isSpace {s : Text} (h : Solid s) : s.any isSpace = false := by
  rw [List.any_eq_false]
  intro c hc
  rw [h c hc]
  exact Bool.false_ne_true

theorem solid_cons {c : Char} {s : Text} (hc : isSpace c = false) (hs : Solid s) : Solid (c :: s) := by
  intro x hx
  rcases List.mem_cons.mp hx with rfl | hx
  · exact hc
  · exact hs x hx

/-- A word is there and has no white space. -/
theorem solid_of_mem_words {s w : Text} (h : w ∈ words s) : w ≠ [] ∧ Solid w := by
  induction s generalizing w with
  | nil => exact absurd h List.not_mem_nil
  | cons c cs ih =>
      have hsingle : isSpace c = false → [c] ≠ [] ∧ Solid [c] := fun hc =>
        ⟨List.cons_ne_nil _ _, solid_cons hc fun _ hx => absurd hx List.not_mem_nil⟩
      unfold words at h
      split at h
      · exact ih h
      · rename_i hspace
        have hc : isSpace c = false := Bool.eq_false_iff.mpr hspace
        split at h
        · exact List.mem_singleton.mp h ▸ hsingle hc
        · split at h
          · rcases List.mem_cons.mp h with rfl | h
            · exact hsingle hc
            · exact ih h
          · split at h
            · exact List.mem_singleton.mp h ▸ hsingle hc
            · rename_i v vs hwords
              rcases List.mem_cons.mp h with rfl | h
              · have hv : v ∈ words (_ :: _) := hwords ▸ List.mem_cons_self
                exact ⟨List.cons_ne_nil _ _, solid_cons hc (ih hv).2⟩
              · exact ih (hwords ▸ List.mem_cons_of_mem _ h)

end Text

/-! ## Usable delimiters -/

/-- Both markers are there and have no white space. -/
structure Delimiters.Usable (d : Delimiters) : Prop where
  opening_ne : d.opening ≠ []
  closing_ne : d.closing ≠ []
  opening_solid : Text.Solid d.opening
  closing_solid : Text.Solid d.closing

instance (d : Delimiters) : Decidable d.Usable :=
  decidable_of_iff (d.opening ≠ [] ∧ d.closing ≠ [] ∧ Text.Solid d.opening ∧ Text.Solid d.closing)
    ⟨fun ⟨ho, hc, hos, hcs⟩ => ⟨ho, hc, hos, hcs⟩,
      fun h => ⟨h.opening_ne, h.closing_ne, h.opening_solid, h.closing_solid⟩⟩

namespace TagText

variable {d : Delimiters} {inner content source rest : Text} {kind : TagKind} {t : TagText}

/-- Declared delimiters are words, so they are usable whatever the delimiters of the declaration. -/
theorem usable_of_declared {e : Delimiters} (h : declared? content = some e) : e.Usable := by
  unfold declared? at h
  split at h
  · rename_i o c hwords
    split at h
    · exact absurd h (by simp)
    · obtain rfl := Option.some.inj h
      obtain ⟨ho, hos⟩ := Text.solid_of_mem_words (w := o) (s := content) (by simp [hwords])
      obtain ⟨hc, hcs⟩ := Text.solid_of_mem_words (w := c) (s := content) (by simp [hwords])
      exact ⟨ho, hc, hos, hcs⟩
  · exact absurd h (by simp)

/-! ## Contents of a tag -/

/-- Every field of a tag whose content suits its kind. -/
theorem eq_of_ofContent (h : ofContent kind source content = .ok t) :
    t = ⟨kind, Text.strip content, source,
      if kind = .delimiters then declared? content else none⟩ := by
  unfold ofContent at h
  dsimp only at h
  split at h
  · cases h; rfl
  · split at h
    · rename_i e he
      cases h
      rw [if_pos rfl, he]
    · cases h
  · rename_i _ hkind
    split at h
    · cases h
    · split at h
      · cases h
      · cases h
        rw [if_neg hkind]

/-- A key without white space suits every kind that has a key. -/
theorem ofContent_key (hc : kind ≠ .comment) (hd : kind ≠ .delimiters) (hne : content ≠ [])
    (hsolid : Text.Solid content) :
    ofContent kind source content = .ok ⟨kind, content, source, none⟩ := by
  have hempty : content.isEmpty = false := List.isEmpty_eq_false_iff.mpr hne
  unfold ofContent
  dsimp only
  split
  · exact absurd rfl hc
  · exact absurd rfl hd
  · simp [hsolid.strip, hempty, hsolid.any_isSpace]

/-- What suits a kind other than a comment and a declaration is a key. -/
theorem key_of_ofContent (h : ofContent kind source content = .ok t)
    (hkind : kind ≠ .comment ∧ kind ≠ .delimiters) : t.key ≠ [] ∧ Text.Solid t.key := by
  unfold ofContent at h
  dsimp only at h
  split at h
  · exact absurd rfl hkind.1
  · exact absurd rfl hkind.2
  · split at h
    · cases h
    · rename_i hne
      split at h
      · cases h
      · rename_i hspace
        cases h
        constructor
        · intro hnil
          exact hne (List.isEmpty_iff.mpr hnil)
        · intro c hc
          exact Bool.eq_false_iff.mpr fun hc' => hspace (List.any_eq_true.mpr ⟨c, hc, hc'⟩)

/-! ## Extent of a tag -/

/-- The sigil of the tag whose text follows the opening delimiter, or nothing. -/
def sigilOf (inner : Text) : Text := if TagKind.ofText inner = .escaped then [] else inner.take 1

theorem sigilOf_append_drop (inner : Text) : sigilOf inner ++ inner.drop (sigilOf inner).length = inner := by
  unfold sigilOf
  split
  · rfl
  · cases inner <;> simp

theorem read_eq (d : Delimiters) (inner : Text) :
    read d inner =
      match Text.breakOn (closingFor d inner) (inner.drop (sigilOf inner).length) with
      | none => .error (.unterminated (closingFor d inner) d.opening)
      | some (content, rest) =>
          match ofContent (TagKind.ofText inner) (sigilOf inner ++ content ++ closingFor d inner)
            content with
          | .error fault => .error fault
          | .ok tag => .ok (tag, rest) := rfl

/-- **The extent of a tag.** After the sigil the content runs up to the leftmost closing text. -/
theorem read_eq_ok_iff :
    read d inner = .ok (t, rest) ↔ ∃ content,
      inner = sigilOf inner ++ (content ++ (closingFor d inner ++ rest)) ∧
      Text.Clear (closingFor d inner) content (closingFor d inner ++ rest) ∧
      ofContent (TagKind.ofText inner) (sigilOf inner ++ content ++ closingFor d inner) content
        = .ok t := by
  rw [read_eq]
  constructor
  · intro h
    split at h
    · cases h
    · rename_i content rest' hcut
      split at h
      · cases h
      · rename_i tag hok
        cases h
        obtain ⟨hdrop, hclear⟩ := Text.breakOn_eq_some_iff.mp hcut
        refine ⟨content, ?_, hclear, hok⟩
        rw [← hdrop, sigilOf_append_drop]
  · rintro ⟨content, hinner, hclear, hok⟩
    have hdrop : inner.drop (sigilOf inner).length = content ++ (closingFor d inner ++ rest) :=
      List.append_cancel_left ((sigilOf_append_drop inner).trans hinner)
    rw [hdrop, Text.breakOn_eq_some_iff.mpr ⟨rfl, hclear⟩]
    simp only [hok]

theorem ne_nil_of_read (h : read d inner = .ok (t, rest)) : inner ≠ [] := by
  rintro rfl
  exact absurd (length_lt_of_read h) (Nat.not_lt_zero _)

/-- What the first character of a tag decides does not depend on the text after it. -/
theorem ofText_append (h : inner ≠ []) (u : Text) : TagKind.ofText (inner ++ u) = TagKind.ofText inner := by
  obtain ⟨c, cs, rfl⟩ := List.exists_cons_of_ne_nil h
  rfl

theorem sigilOf_append (h : inner ≠ []) (u : Text) : sigilOf (inner ++ u) = sigilOf inner := by
  unfold sigilOf
  rw [ofText_append h]
  obtain ⟨c, cs, rfl⟩ := List.exists_cons_of_ne_nil h
  rfl

theorem closingFor_append (h : inner ≠ []) (u : Text) : closingFor d (inner ++ u) = closingFor d inner := by
  obtain ⟨c, cs, rfl⟩ := List.exists_cons_of_ne_nil h
  unfold closingFor
  rw [List.cons_append]
  split <;> simp_all

/-- Text after a tag does not change the tag. -/
theorem read_append (h : read d inner = .ok (t, rest)) (u : Text) :
    read d (inner ++ u) = .ok (t, rest ++ u) := by
  have hne := ne_nil_of_read h
  obtain ⟨content, hinner, hclear, hok⟩ := read_eq_ok_iff.mp h
  refine read_eq_ok_iff.mpr ⟨content, ?_, ?_, ?_⟩
  · rw [sigilOf_append hne, closingFor_append hne, ← List.append_assoc _ rest u, ← List.append_assoc content,
      ← List.append_assoc (sigilOf _), ← hinner]
  · rw [closingFor_append hne]
    exact hclear.congr_after
  · rw [ofText_append hne, sigilOf_append hne, closingFor_append hne]
    exact hok

/-- A tag is read from its own characters alone. -/
theorem read_alone (h : read d (t.source ++ rest) = .ok (t, rest)) : read d t.source = .ok (t, []) := by
  have hne : t.source ≠ [] := by
    intro hnil
    have hlt := length_lt_of_read h
    rw [hnil] at hlt
    exact Nat.lt_irrefl _ hlt
  obtain ⟨content, -, hclear, hok⟩ := read_eq_ok_iff.mp h
  rw [ofText_append hne, sigilOf_append hne, closingFor_append hne] at hok
  rw [closingFor_append hne] at hclear
  refine read_eq_ok_iff.mpr ⟨content, ?_, hclear.congr_after, hok⟩
  rw [List.append_nil, ← List.append_assoc]
  exact source_of_ofContent hok

/-- Only a declaration declares delimiters. -/
theorem replacement_of_read (h : read d inner = .ok (t, rest)) (hkind : t.kind ≠ .delimiters) :
    t.replacement = none := by
  obtain ⟨content, -, -, hok⟩ := read_eq_ok_iff.mp h
  have heq := eq_of_ofContent hok
  rw [heq] at hkind ⊢
  exact if_neg hkind

/-- A tag that is neither a comment nor a declaration has a key. -/
theorem key_of_read (h : read d inner = .ok (t, rest)) (hkind : t.kind ≠ .comment ∧ t.kind ≠ .delimiters) :
    t.key ≠ [] ∧ Text.Solid t.key := by
  obtain ⟨content, -, -, hok⟩ := read_eq_ok_iff.mp h
  have hof : t.kind = TagKind.ofText inner := congrArg TagText.kind (eq_of_ofContent hok)
  exact key_of_ofContent hok (hof ▸ hkind)

/-- The closing text of a tag is the closing delimiter, with at most one character before it. -/
theorem closingFor_eq (d : Delimiters) (inner : Text) :
    ∃ extra, closingFor d inner = extra ++ d.closing := by
  unfold closingFor
  split
  · exact ⟨[_], rfl⟩
  · exact ⟨[_], rfl⟩
  · exact ⟨[], rfl⟩

/-- The closing text of a tag between usable delimiters has no white space. -/
theorem solid_closingFor (hd : d.Usable) (inner : Text) : Text.Solid (closingFor d inner) := by
  unfold closingFor
  split
  · exact Text.solid_cons rfl hd.closing_solid
  · exact Text.solid_cons rfl hd.closing_solid
  · exact hd.closing_solid

/-- Between usable delimiters a tag ends in a visible character. -/
theorem endsSolid_of_read (hd : d.Usable) (h : read d inner = .ok (t, rest)) :
    Text.EndsSolid t.source := by
  obtain ⟨content, -, -, hok⟩ := read_eq_ok_iff.mp h
  obtain ⟨extra, hclosing⟩ := closingFor_eq d inner
  rw [source_of_ofContent hok, hclosing, ← List.append_assoc]
  exact (hd.closing_solid.endsSolid hd.closing_ne).append _

/-- The delimiters in effect after a tag are usable when those of the tag are. -/
theorem usable_of_read (hd : d.Usable) (h : read d inner = .ok (t, rest)) :
    (t.replacement.getD d).Usable := by
  obtain ⟨content, -, -, hok⟩ := read_eq_ok_iff.mp h
  rw [eq_of_ofContent hok]
  dsimp only
  split
  · cases hdec : declared? content with
    | none => exact hd
    | some e => exact usable_of_declared hdec
  · exact hd

end TagText

end Mustache

import Mustache.Proofs.Trimming

/-!
# `Mustache.Proofs.Standalone` — which tags stand alone

Whether a tag has its line for itself is decided by the scanner with cuts and comparisons. Here it is said by what the
source holds: blanks up to the tag, and blanks and the end of the line behind it. A line ends with `\n`, with `\r\n` or
with the text; in addition the scanner takes a `\r` for the end of a line if it is the last character of the text.

* `Margins.trailing?_eq_some_iff` — the rest of a line after a tag;
* `Scan.margins_eq_some_iff` — the margins of a tag that has been scanned;
* `standalone_iff` — **which tags of a text stand alone, and where their lines end**;
* `standalone_lone_return` — a `\r` behind which the text ends does not end a line, but a tag before it stands alone.
-/

namespace Mustache

/-! ## Line endings -/

namespace Text

/-- Spaces and tabs only. -/
def Blank (s : Text) : Prop := ∀ c ∈ s, c = ' ' ∨ c = '\t'

/-- `LineEnd ending rest`: a line ends with `ending`, and the text goes on with `rest`. -/
inductive LineEnd : Text → Text → Prop where
  | newline {rest : Text} : LineEnd ['\n'] rest
  | crlf {rest : Text} : LineEnd ['\r', '\n'] rest
  /-- The text ends. -/
  | stop : LineEnd [] []

/-- A text begins with blanks and the end of a line, which make up `trailing`. -/
def ClosesLine (s trailing : Text) : Prop :=
  ∃ blank ending rest, s = blank ++ (ending ++ rest) ∧ trailing = blank ++ ending ∧ Blank blank ∧ LineEnd ending rest

/-- A text is blanks and a `\r`. -/
def LoneReturn (s : Text) : Prop := ∃ blank, s = blank ++ ['\r'] ∧ Blank blank

theorem Blank.newline_not_mem {s : Text} (h : Blank s) : '\n' ∉ s := by
  intro hmem
  rcases h _ hmem with heq | heq <;> cases heq

theorem Blank.getLast?_ne {s : Text} (h : Blank s) : s.getLast? ≠ some '\r' := by
  intro hlast
  rcases h _ (List.mem_of_getLast? hlast) with heq | heq <;> cases heq

theorem LoneReturn.newline_not_mem {s : Text} (h : LoneReturn s) : '\n' ∉ s := by
  obtain ⟨blank, rfl, hblank⟩ := h
  simp [hblank.newline_not_mem]

/-- A `\r` ends no line unless a newline follows. -/
theorem LoneReturn.not_closesLine {s trailing : Text} (h : LoneReturn s) : ¬ ClosesLine s trailing := by
  rintro ⟨blank, ending, rest, rfl, rfl, hblank, hending⟩
  cases hending with
  | newline | crlf => exact h.newline_not_mem (by simp)
  | stop =>
      obtain ⟨blank', heq, -⟩ := h
      rw [List.append_nil, List.append_nil] at heq
      exact hblank.getLast?_ne (by rw [heq, List.getLast?_concat])

end Text

open Text (Blank ClosesLine LoneReturn)

/-! ## The trailing margin -/

namespace Margins

variable {after trailing : Text}

/-- The rest of the last line of a text. -/
theorem trailing?_last {line : Text} (hline : '\n' ∉ line) :
    trailing? line
      = if Text.isBlank (if line.getLast? = some '\r' then line.dropLast else line) then some line else none := by
  have hsplit := Text.takeWhile_append_newline line
  have hdrop : line.dropWhile (· != '\n') = [] := by
    rcases Text.dropWhile_newline line with hnil | ⟨later, hcons⟩
    · exact hnil
    · rw [hcons] at hsplit
      exact absurd (hsplit ▸ List.mem_append_right _ List.mem_cons_self) hline
  rw [hdrop, List.append_nil] at hsplit
  unfold trailing?
  simp [hsplit, hdrop]

/-- The rest of a line that is blank, with or without a `\r` behind the blanks. -/
theorem isBlank_dropReturn {line : Text} :
    Text.isBlank (if line.getLast? = some '\r' then line.dropLast else line) = true ↔ Blank line ∨ LoneReturn line := by
  by_cases hlast : line.getLast? = some '\r'
  · obtain ⟨blank, rfl⟩ := List.getLast?_eq_some_iff.mp hlast
    rw [if_pos hlast, List.dropLast_concat, Text.isBlank_iff]
    constructor
    · intro h
      exact Or.inr ⟨blank, rfl, h⟩
    · rintro (h | ⟨blank', heq, h⟩)
      · exact absurd hlast h.getLast?_ne
      · rwa [List.append_cancel_right heq]
  · rw [if_neg hlast, Text.isBlank_iff]
    constructor
    · exact Or.inl
    · rintro (h | ⟨blank, rfl, -⟩)
      · exact h
      · exact absurd List.getLast?_concat hlast

/-- **The trailing margin of a tag** is blanks and the end of the line, or all that is left of the text if that is
    blanks and a `\r`. -/
theorem trailing?_eq_some_iff :
    trailing? after = some trailing ↔ ClosesLine after trailing ∨ LoneReturn after ∧ trailing = after := by
  constructor
  · intro h
    have hsplit := Text.takeWhile_append_newline after
    have hline : '\n' ∉ after.takeWhile (· != '\n') := fun hmem => Text.mem_takeWhile_newline hmem rfl
    generalize after.takeWhile (· != '\n') = line at hsplit hline
    rcases Text.dropWhile_newline after with hrest | ⟨later, hrest⟩
    · -- the line is the last one
      rw [hrest, List.append_nil] at hsplit
      subst hsplit
      rw [trailing?_last hline] at h
      obtain ⟨hdrop, htrailing⟩ := Option.ite_none_right_eq_some.mp h
      obtain rfl := Option.some.inj htrailing
      rcases isBlank_dropReturn.mp hdrop with hblank | hreturn
      · exact Or.inl ⟨line, [], [], by simp, by simp, hblank, .stop⟩
      · exact Or.inr ⟨hreturn, rfl⟩
    · rw [hrest] at hsplit
      subst hsplit
      rw [trailing?_line hline] at h
      obtain ⟨hdrop, htrailing⟩ := Option.ite_none_right_eq_some.mp h
      obtain rfl := Option.some.inj htrailing
      rcases isBlank_dropReturn.mp hdrop with hblank | ⟨blank, rfl, hblank⟩
      · exact Or.inl ⟨line, ['\n'], later, by simp, rfl, hblank, .newline⟩
      · exact Or.inl ⟨blank, ['\r', '\n'], later, by simp, by simp, hblank, .crlf⟩
  · rintro (⟨blank, ending, rest, rfl, rfl, hblank, hending⟩ | ⟨hreturn, rfl⟩)
    · cases hending with
      | newline =>
          show trailing? (blank ++ '\n' :: rest) = _
          rw [trailing?_line hblank.newline_not_mem, if_pos (isBlank_dropReturn.mpr (Or.inl hblank))]
      | crlf =>
          have hline : '\n' ∉ blank ++ ['\r'] := by simp [hblank.newline_not_mem]
          have hcrlf : blank ++ (['\r', '\n'] ++ rest) = (blank ++ ['\r']) ++ '\n' :: rest := by simp
          rw [hcrlf, trailing?_line hline, if_pos (isBlank_dropReturn.mpr (Or.inr ⟨blank, rfl, hblank⟩))]
          simp
      | stop =>
          rw [List.append_nil, List.append_nil, trailing?_last hblank.newline_not_mem,
            if_pos (isBlank_dropReturn.mpr (Or.inl hblank))]
    · rw [trailing?_last hreturn.newline_not_mem, if_pos (isBlank_dropReturn.mpr (Or.inr hreturn))]

/-- The margins of a tag are the text before it on its line and its trailing margin, if the former is blank. -/
theorem around?_eq_some_iff {before : Text} {m : Margins} :
    around? before after = some m ↔ m.leading = before ∧ Blank before ∧ trailing? after = some m.trailing := by
  constructor
  · exact of_around?
  · rintro ⟨rfl, hblank, htrailing⟩
    unfold around?
    rw [if_pos (Text.isBlank_iff.mpr hblank), htrailing]
    rfl

end Margins

/-! ## Tags of a scan -/

theorem TagKind.standsAlone_iff {kind : TagKind} : kind.standsAlone = true ↔ kind ≠ .escaped ∧ kind ≠ .raw := by
  cases kind <;> decide

/-- **The margins of a tag in the source**: what is before it on its line, if that is blank, and what it takes of the
    text behind it, if it is no interpolation. -/
theorem Scan.margins_eq_some_iff {d : Delimiters} {s : Text} {t : Tag} {m : Margins} (ht : t ∈ (Scan.ofText d s).tags) :
    t.margins = some m ↔
      (t.kind ≠ .escaped ∧ t.kind ≠ .raw) ∧ m.leading = s.slice (s.lineStart t.start) t.start ∧ Blank m.leading ∧
        (ClosesLine (s.drop t.stop) m.trailing ∨ LoneReturn (s.drop t.stop) ∧ m.trailing = s.drop t.stop) := by
  rw [Scan.tags_eq] at ht
  obtain ⟨r, hr, rfl⟩ := List.mem_map.mp ht
  obtain ⟨before, e, u, rest, htext, -, hplace⟩ := (Scan.scans_ofText d s).placed r hr
  obtain rfl : s = before ++ (e.opening ++ u.source) ++ rest := htext
  have hstart := Tag.start_place e before u rest
  have hstop := Tag.stop_place e before u rest
  rw [hplace, hstart, hstop, List.drop_left, ← Margins.trailing?_eq_some_iff]
  have hprefix : (Cursor.start.advance before).linePrefix
      = (before ++ (e.opening ++ u.source) ++ rest).slice
        ((before ++ (e.opening ++ u.source) ++ rest).lineStart before.length) before.length := by
    rw [List.append_assoc]
    exact Cursor.linePrefix_start_advance
  rw [← hprefix, ← TagKind.standsAlone_iff]
  show (if u.kind.standsAlone then _ else none) = some m ↔ u.kind.standsAlone = true ∧ _
  rw [Option.ite_none_right_eq_some, Margins.around?_eq_some_iff]
  constructor
  · rintro ⟨hkind, hleading, hblank, htrailing⟩
    exact ⟨hkind, hleading, hleading ▸ hblank, htrailing⟩
  · rintro ⟨hkind, hleading, hblank, htrailing⟩
    exact ⟨hkind, hleading, hleading ▸ hblank, htrailing⟩

/-- **Which tags stand alone.** A tag of a scan stands alone exactly when it is no interpolation, blanks are before it
    on its line, and behind it are blanks and the end of the line, or blanks and a `\r` that ends the text. Its leading
    margin is then what is before it on the line, and its trailing margin ends where the line does: behind its `\n` or
    `\r\n`, or else where the text ends. -/
theorem standalone_iff {d : Delimiters} {s : Text} {t : Tag} (ht : t ∈ (Scan.ofText d s).tags) :
    (t.standalone = true ↔
      (t.kind ≠ .escaped ∧ t.kind ≠ .raw) ∧ Blank (s.slice (s.lineStart t.start) t.start) ∧
        ((∃ trailing, ClosesLine (s.drop t.stop) trailing) ∨ LoneReturn (s.drop t.stop))) ∧
    ∀ m, t.margins = some m →
      m.leading = s.slice (s.lineStart t.start) t.start ∧
        (ClosesLine (s.drop t.stop) m.trailing ∨ LoneReturn (s.drop t.stop) ∧ m.trailing = s.drop t.stop) := by
  constructor
  · rw [Tag.standalone, Option.isSome_iff_exists]
    constructor
    · rintro ⟨m, hm⟩
      obtain ⟨hkind, hleading, hblank, htrailing⟩ := (Scan.margins_eq_some_iff ht).mp hm
      exact ⟨hkind, hleading ▸ hblank, htrailing.imp (fun h => ⟨m.trailing, h⟩) And.left⟩
    · rintro ⟨hkind, hblank, ⟨trailing, htrailing⟩ | hreturn⟩
      · exact ⟨⟨_, trailing⟩, (Scan.margins_eq_some_iff ht).mpr ⟨hkind, rfl, hblank, Or.inl htrailing⟩⟩
      · exact ⟨⟨_, s.drop t.stop⟩, (Scan.margins_eq_some_iff ht).mpr ⟨hkind, rfl, hblank, Or.inr ⟨hreturn, rfl⟩⟩⟩
  · intro m hm
    obtain ⟨-, hleading, -, htrailing⟩ := (Scan.margins_eq_some_iff ht).mp hm
    exact ⟨hleading, htrailing⟩

/-- An indented comment of two lines, with a blank behind it and `\r\n` at the end of the line. -/
theorem standalone_iff_crlf :
    ∃ t ∈ (Scan.ofText ⟨['|'], ['|']⟩ "a\n |!b\nc| \r\nd".toList).tags, t.standalone = true ∧
      Blank (Text.slice "a\n |!b\nc| \r\nd".toList (Text.lineStart "a\n |!b\nc| \r\nd".toList t.start) t.start) ∧
      ((∃ trailing, ClosesLine ("a\n |!b\nc| \r\nd".toList.drop t.stop) trailing) ∨
        LoneReturn ("a\n |!b\nc| \r\nd".toList.drop t.stop)) := by
  have htags : ∃ t ∈ (Scan.ofText ⟨['|'], ['|']⟩ "a\n |!b\nc| \r\nd".toList).tags, t.standalone = true := by
    decide +kernel
  obtain ⟨t, ht, hstandalone⟩ := htags
  exact ⟨t, ht, hstandalone, ((standalone_iff ht).1.mp hstandalone).2⟩

/-- **A `\r` that ends the text is no end of a line**, but a tag before it stands alone. -/
theorem standalone_lone_return :
    ∃ t ∈ (Scan.ofText .braces "\x7b\x7b!c\x7d\x7d\r".toList).tags, t.standalone = true ∧
      ¬ ∃ trailing, ClosesLine ("\x7b\x7b!c\x7d\x7d\r".toList.drop t.stop) trailing := by
  have htags : ∃ t ∈ (Scan.ofText .braces "\x7b\x7b!c\x7d\x7d\r".toList).tags,
      t.standalone = true ∧ "\x7b\x7b!c\x7d\x7d\r".toList.drop t.stop = ['\r'] := by
    decide +kernel
  obtain ⟨t, ht, hstandalone, hrest⟩ := htags
  have hreturn : LoneReturn ['\r'] := ⟨[], rfl, fun _ hc => absurd hc List.not_mem_nil⟩
  refine ⟨t, ht, hstandalone, ?_⟩
  rintro ⟨trailing, htrailing⟩
  rw [hrest] at htrailing
  exact hreturn.not_closesLine htrailing

end Mustache

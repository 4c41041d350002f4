import Mustache.Proofs.Bodies
import Mustache.Proofs.Seam

/-!
# `Mustache.Proofs.Comments` — comments that have their lines for themselves

A standalone comment leaves no trace in the tree: the template without its lines has the same tree, raw bodies aside.
What follows the lines moves up when they are deleted. It is scanned as before there, for it comes after whole lines
with and without the comment, and a text scans after whole lines as it does on its own (`Scans.afterLines`).

* `Scans.ownLines` — a standalone tag cuts its text into whole lines that scan without it, its own lines, and the text
  behind them (`OwnLines`);
* `OwnLines.sourceless_eq` / `OwnLines.sourceless_without` — what is kept of the text with these lines, if the tag
  declares nothing, and without them: in either case what is kept of the parts, each on its own;
* `Assembly.runFrom_comment` — the lines of a comment assemble to nothing, from every state;
* `parse_without_comment` — **a template without the lines of a standalone comment** has the same tree.
-/

namespace Mustache

open Text (EndsSolid)

/-! ## The lines of a tag -/

/-- Without the characters at the offsets from `a` up to `b`, that at `b` excluded. -/
def Text.delete (s : Text) (a b : Nat) : Text := s.take a ++ s.drop b

/-- `OwnLines pre d s t a sc u m b`: the text `s`, which stands after `pre`, is `a`, then the tag `t` between its
    margins `m`, then `b`. A line ends where `a` does, `a` scans to `sc` under `d`, and the tag reads as `u` under the
    delimiters that hold then. -/
structure OwnLines (pre : Text) (d : Delimiters) (s : Text) (t : Tag) (a : Text) (sc : Scan) (u : TagText)
    (m : Margins) (b : Text) : Prop where
  text : s = a ++ (m.leading ++ ((sc.delimitersAfter d).opening ++ (u.source ++ (m.trailing ++ b))))
  scans : Scans pre d a sc
  ok : sc.failure = none
  lines : (pre ++ a).WholeLines
  blank : ∀ c ∈ m.leading, c = ' ' ∨ c = '\t'
  trailing : Margins.trailing? (m.trailing ++ b) = some m.trailing
  read : TagText.read (sc.delimitersAfter d) (u.source ++ (m.trailing ++ b)) = .ok (u, m.trailing ++ b)
  tag : t = Tag.place (sc.delimitersAfter d) (Cursor.start.advance (pre ++ (a ++ m.leading))) u (m.trailing ++ b)

/-- What stands before the last line of a text is whole lines. -/
theorem Text.exists_wholeLines (s : Text) :
    ∃ a, s = a ++ (s.reverse.takeWhile (· != '\n')).reverse ∧ a.WholeLines := by
  have hsplit := congrArg List.reverse (Text.takeWhile_append_newline s.reverse)
  rw [List.reverse_append, List.reverse_reverse] at hsplit
  refine ⟨_, hsplit.symm, ?_⟩
  rcases Text.dropWhile_newline s.reverse with hnil | ⟨later, hcons⟩
  · exact Or.inl (by rw [hnil]; rfl)
  · exact Or.inr ⟨later.reverse, by rw [hcons, List.reverse_cons]⟩

/-- No tag begins in white space. -/
theorem Delimiters.Usable.clear {d : Delimiters} {lead rest : Text} (hd : d.Usable)
    (h : ∀ c ∈ lead, Text.isSpace c = true) : Text.Clear d.opening lead rest := by
  apply Text.clear_of_disjoint hd.opening_ne
  intro c hc hmem
  have hsolid := hd.opening_solid c hmem
  rw [h c hc] at hsolid
  cases hsolid

namespace Cut

variable {pre s lead inner : Text} {d : Delimiters}

/-- After whole lines nothing is cut. -/
theorem of_wholeLines (h : pre.WholeLines) (s : Text) : Cut pre s 0 where
  le := Nat.zero_le _
  white := by intro c hc; exact absurd hc List.not_mem_nil
  fence := by
    intro _ c hc
    rw [List.take_zero, List.append_nil] at hc
    rcases Text.wholeLines_iff.mp h with rfl | hlast
    · cases hc
    · rw [hlast] at hc
      obtain rfl := Option.some.inj hc
      exact ⟨by decide, by decide⟩

/-- A blank line before a tag begins in the static text before the tag. -/
theorem exists_lines (hd : d.Usable) (h : Cut pre (lead ++ (d.opening ++ inner)) 0)
    (hblank : ∀ c ∈ (Cursor.start.advance (pre ++ lead)).linePrefix, c = ' ' ∨ c = '\t') :
    ∃ a, lead = a ++ (Cursor.start.advance (pre ++ lead)).linePrefix ∧ (pre ++ a).WholeLines := by
  obtain ⟨a, hsplit, hlines⟩ := Text.exists_wholeLines (pre ++ lead)
  rw [Cursor.linePrefix, Cursor.line_start_advance] at hblank ⊢
  have hlen := h.length_lastLine_le hd fun c hc => hblank c (List.mem_reverse.mpr hc)
  rw [Nat.zero_add, ← List.length_reverse] at hlen
  generalize ((pre ++ lead).reverse.takeWhile (· != '\n')).reverse = line at hsplit hlen
  rcases List.append_eq_append_iff.mp hsplit with ⟨a', rfl, rfl⟩ | ⟨extra, rfl, rfl⟩
  · exact ⟨a', rfl, hlines⟩
  · -- the line is no longer than the static text, so it begins with it at the latest
    rw [List.length_append] at hlen
    obtain rfl : extra = [] := List.eq_nil_of_length_eq_zero (by omega)
    exact ⟨[], rfl, by simpa using hlines⟩

end Cut

namespace OwnLines

variable {pre a b lead rest : Text} {d : Delimiters} {sc : Scan} {t : Tag} {u v : TagText} {m : Margins}

/-- The first tag of a text: the static text before it is cut where the line of the tag begins. -/
theorem first (hd : d.Usable) (hpre : pre = [] ∨ EndsSolid pre)
    (hclear : Text.Clear d.opening lead (d.opening ++ (u.source ++ rest)))
    (hread : TagText.read d (u.source ++ rest) = .ok (u, rest))
    (hm : (Tag.place d (Cursor.start.advance (pre ++ lead)) u rest).margins = some m) :
    ∃ a b, OwnLines pre d (lead ++ (d.opening ++ (u.source ++ rest)))
      (Tag.place d (Cursor.start.advance (pre ++ lead)) u rest) a ⟨[], a, none⟩ u m b := by
  obtain ⟨hleading, hblank, htrailing⟩ := Margins.of_around? (Option.ite_none_right_eq_some.mp hm).2
  have hcut : Cut pre (lead ++ (d.opening ++ (u.source ++ rest))) 0 := by
    rcases hpre with rfl | hsolid
    · exact .start _
    · exact .of_endsSolid hsolid _
  obtain ⟨a, hlead, hlines⟩ := hcut.exists_lines hd hblank
  obtain ⟨b, rfl, -⟩ := Margins.split_of_trailing? htrailing
  rw [← hleading] at hlead hblank
  subst hlead
  refine ⟨a, b, ?_⟩
  constructor
  case text =>
    show _ = a ++ (m.leading ++ (d.opening ++ _))
    simp
  case scans => exact .finish (Text.Clear.of_append (Text.clear_append.mp hclear).1)
  case ok => rfl
  case lines => exact hlines
  case blank => exact hblank
  case trailing => exact htrailing
  case read => exact hread
  case tag => rfl

/-- A tag that stands before the lines is part of what precedes them; it is read as before. -/
theorem behind (hclear : Text.Clear d.opening lead (d.opening ++ (v.source ++ rest)))
    (hread : TagText.read d (v.source ++ rest) = .ok (v, rest))
    (h : OwnLines (pre ++ lead ++ (d.opening ++ v.source)) (v.replacement.getD d) rest t a sc u m b) :
    OwnLines pre d (lead ++ (d.opening ++ (v.source ++ rest))) t (lead ++ (d.opening ++ (v.source ++ a)))
      (sc.cons ⟨lead, Tag.place d (Cursor.start.advance (pre ++ lead)) v a⟩) u m b := by
  have hafter : (sc.cons ⟨lead, Tag.place d (Cursor.start.advance (pre ++ lead)) v a⟩).delimitersAfter d
      = sc.delimitersAfter (v.replacement.getD d) := Scan.delimitersAfter_cons d _ sc
  constructor
  case text =>
    rw [hafter]
    simpa using h.text
  case scans => exact .tag hclear.congr_after (TagText.read_append (TagText.read_alone hread) a) h.scans
  case ok => exact h.ok
  case lines => simpa using h.lines
  case blank => exact h.blank
  case trailing => exact h.trailing
  case read =>
    rw [hafter]
    exact h.read
  case tag =>
    rw [hafter]
    simpa using h.tag

end OwnLines

/-- **A standalone tag has its lines for itself.** By induction on the scan, whatever stands before the place at which
    it begins; that is nothing or a tag, so the blanks of the line are within the text. -/
theorem Scans.ownLines {pre s : Text} {d : Delimiters} {sc : Scan} {r : Run} {m : Margins} (h : Scans pre d s sc)
    (hd : d.Usable) (hpre : pre = [] ∨ EndsSolid pre) (hr : r ∈ sc.runs) (hm : r.tag.margins = some m) :
    ∃ a sca u b, OwnLines pre d s r.tag a sca u m b := by
  induction h with
  | finish | fail => exact absurd hr List.not_mem_nil
  | @tag pre d lead rest t sc hclear hread hrest ih =>
      rcases List.mem_cons.mp hr with rfl | hr
      · obtain ⟨a, b, hown⟩ := OwnLines.first hd hpre hclear hread hm
        exact ⟨a, _, t, b, hown⟩
      · have hsolid : EndsSolid (pre ++ lead ++ (d.opening ++ t.source)) :=
          ((TagText.endsSolid_of_read hd hread).append _).append _
        obtain ⟨a, sca, u, b, hown⟩ := ih (TagText.usable_of_read hd hread) (Or.inr hsolid) hr
        exact ⟨_, _, u, b, hown.behind hclear hread⟩

namespace Tag.MarginsIn

variable {s : Text} {t : Tag} {m : Margins}

/-- The line of a tag begins with its leading margin. -/
theorem lineStart_add (h : t.MarginsIn s m) : s.lineStart t.start + m.leading.length = t.start := by
  have hstart : t.start ≤ s.length :=
    Nat.le_trans (Nat.le_trans (Nat.le_add_right _ _) h.le_lineEnd) h.lineEnd_le
  rw [h.leading, Text.length_slice hstart, Nat.add_sub_of_le h.lineStart_le]

/-- The line of a tag ends with its trailing margin. -/
theorem lineEnd_eq (h : t.MarginsIn s m) : s.lineEnd t.stop = t.stop + m.trailing.length := by
  rw [h.trailing, Text.length_slice h.lineEnd_le, Nat.add_sub_of_le h.le_lineEnd]

end Tag.MarginsIn

/-! ## The scan with and without the lines -/

/-- After whole lines, and at the end of a text, a text scans as it does on its own, further down. -/
theorem Scans.ofText_below {pre s : Text} (h : s = [] ∨ pre.WholeLines) (d : Delimiters) :
    Scans pre d s ((Scan.ofText d s).below pre.length (pre.count '\n')) := by
  rcases h with rfl | hpre
  · have hnil : Scan.ofText d [] = ⟨[], [], none⟩ := (Scans.finish Text.clear_nil).ofText_eq
    rw [hnil]
    exact .finish Text.clear_nil
  · have hlines := (Scan.scans_ofText d s).afterLines hpre
    rwa [List.append_nil] at hlines

namespace Scan

variable {d : Delimiters} {s : Text}

theorem failure_below {chars rows : Nat} {sc : Scan} :
    (sc.below chars rows).failure = none ↔ sc.failure = none := by
  unfold below
  rw [Option.map_eq_none_iff]

/-- No leading margin reaches back over the beginning of a text, wherever it stands. -/
theorem length_leading_le (hd : d.Usable) (hok : (ofText d s).failure = none) {chars rows : Nat} :
    ∀ r ∈ ((ofText d s).below chars rows).runs, ∀ m, r.tag.margins = some m →
      m.leading.length ≤ r.lead.length := by
  have hle := ((scans_ofText d s).laid hd hok (Cut.start s)).length_leading_le
  intro r hr m hm
  obtain ⟨r₀, hr₀, rfl⟩ := List.mem_map.mp hr
  exact hle r₀ hr₀ m hm

end Scan

/-- A standalone tag between its margins, taken apart. -/
def Scan.ofLines (t : Tag) (m : Margins) : Scan := ⟨[⟨m.leading, t⟩], m.trailing, none⟩

/-- Nothing is kept around a standalone tag. -/
theorem Trimmed.ofScan_ofLines {t : Tag} {m : Margins} (hm : t.margins = some m) :
    ofScan (Scan.ofLines t m) = ⟨[⟨m.leading, [], t⟩], m.trailing, []⟩ := by
  have hkeep : Piece.keep 0 ⟨m.leading, t⟩ = [] := by
    simp only [Piece.keep, hm]
    exact Piece.cutEnd_length m.leading
  have hskip : Piece.skipAfter 0 ⟨m.leading, t⟩ = m.trailing.length := by
    simp only [Piece.skipAfter, hm]
  simp only [ofScan, Scan.ofLines, Piece.trim, hkeep, hskip, List.drop_length]

namespace OwnLines

variable {s a b : Text} {d : Delimiters} {sc : Scan} {t : Tag} {u : TagText} {m : Margins}

theorem usable (h : OwnLines [] d s t a sc u m b) (hd : d.Usable) : (sc.delimitersAfter d).Usable :=
  h.scans.usable_delimitersAfter hd

/-- The lines of a tag that declares nothing, and the text behind them, are scanned one after the other. -/
theorem scans_lines (h : OwnLines [] d s t a sc u m b) (hd : d.Usable) (hu : u.replacement = none) :
    ∃ chars rows, Scans a (sc.delimitersAfter d)
      (m.leading ++ ((sc.delimitersAfter d).opening ++ (u.source ++ (m.trailing ++ b))))
      ((Scan.ofLines t m).append ((Scan.ofText (sc.delimitersAfter d) b).below chars rows)) := by
  have he := h.usable hd
  have hread := h.read
  have htag : t = Tag.place (sc.delimitersAfter d) (Cursor.start.advance (a ++ m.leading)) u (m.trailing ++ b) := h.tag
  obtain ⟨later, hsplit, hline⟩ := Margins.split_of_trailing? h.trailing
  obtain rfl := List.append_cancel_left hsplit
  generalize sc.delimitersAfter d = e at *
  have hleading : Text.Clear e.opening m.leading (e.opening ++ (u.source ++ (m.trailing ++ b))) := by
    apply he.clear
    intro c hc
    rcases h.blank c hc with rfl | rfl <;> rfl
  have htrailing : Text.Clear e.opening m.trailing b := by
    apply he.clear
    exact fun c hc => Margins.isSpace_of_mem_alphabet (Margins.mem_of_trailing? h.trailing c hc)
  -- unless the text ends with the lines, they end in a newline
  have hlines : b = [] ∨ (a ++ m.leading ++ (e.opening ++ u.source) ++ m.trailing).WholeLines := by
    by_cases hb : b = []
    · exact Or.inl hb
    · obtain ⟨line, hnewline⟩ := hline hb
      exact Or.inr (Or.inr ⟨_, by rw [hnewline, ← List.append_assoc]⟩)
  have hrest := (Scans.ofText_below hlines e).prepend htrailing
  have hscan := Scans.tag hleading hread (by rw [hu]; exact hrest)
  rw [← htag] at hscan
  exact ⟨_, _, hscan⟩

/-- **What is kept around the lines** of a tag that declares nothing: no margin crosses either end of them. -/
theorem sourceless_eq (h : OwnLines [] d s t a sc u m b) (hd : d.Usable) (hu : u.replacement = none)
    (hm : t.margins = some m) (hok : (Scan.ofText d s).failure = none) :
    (Scan.ofText (sc.delimitersAfter d) b).failure = none ∧
    (Trimmed.ofScan (Scan.ofText d s)).sourceless = (Trimmed.ofScan sc).sourceless.append
      ((Trimmed.ofScan (Scan.ofLines t m)).sourceless.append
        (Trimmed.ofScan (Scan.ofText (sc.delimitersAfter d) b)).sourceless) := by
  have he := h.usable hd
  obtain ⟨chars, rows, hlines⟩ := h.scans_lines hd hu
  have hscan := h.scans.append hd h.ok h.lines hlines
  rw [← h.text] at hscan
  rw [hscan.ofText_eq, Scan.failure_append] at hok
  have hokB := hok
  rw [Scan.failure_append, Scan.failure_below] at hokB
  refine ⟨hokB, ?_⟩
  have htrim : (Piece.trim 0 (Scan.ofLines t m).runs).2 ≤ (Scan.ofLines t m).tail.length := by
    simp [Scan.ofLines, Piece.trim, Piece.skipAfter, hm]
  rw [hscan.ofText_eq,
    Trimmed.ofScan_append (h.scans.laid hd h.ok (Cut.start a)).trim_snd_le
      (hlines.laid he hok (Cut.of_wholeLines h.lines _)).length_leading_le,
    Trimmed.ofScan_append htrim (Scan.length_leading_le he hokB), Trimmed.ofScan_below,
    Trimmed.sourceless_append, Trimmed.sourceless_append, Trimmed.sourceless_below]

/-- **What is kept without the lines.** What follows them moves up, and that does not show. -/
theorem sourceless_without (h : OwnLines [] d s t a sc u m b) (hd : d.Usable)
    (hok : (Scan.ofText (sc.delimitersAfter d) b).failure = none) :
    (Scan.ofText d (a ++ b)).failure = none ∧
    (Trimmed.ofScan (Scan.ofText d (a ++ b))).sourceless = (Trimmed.ofScan sc).sourceless.append
      (Trimmed.ofScan (Scan.ofText (sc.delimitersAfter d) b)).sourceless := by
  have hbelow := Scans.ofText_below (s := b) (Or.inr h.lines) (sc.delimitersAfter d)
  have hscan := h.scans.append hd h.ok h.lines hbelow
  rw [hscan.ofText_eq, Scan.failure_append, Scan.failure_below]
  refine ⟨hok, ?_⟩
  rw [Trimmed.ofScan_append (h.scans.laid hd h.ok (Cut.start a)).trim_snd_le
      (Scan.length_leading_le (h.usable hd) hok),
    Trimmed.ofScan_below, Trimmed.sourceless_append, Trimmed.sourceless_below]

/-- Deleting the lines leaves what is before and what is behind them. -/
theorem delete_eq (h : OwnLines [] d s t a sc u m b) (hm : t.MarginsIn s m) :
    s.delete (s.lineStart t.start) (s.lineEnd t.stop) = a ++ b := by
  have htext : s = a ++ (m.leading ++ ((sc.delimitersAfter d).opening ++ u.source)) ++ m.trailing ++ b := by
    rw [h.text]
    simp
  have hstart : s.lineStart t.start + m.leading.length = a.length + m.leading.length := by
    rw [hm.lineStart_add, h.tag, ← List.length_append]
    exact Tag.start_place _ _ _ _
  have hstop : t.stop = (a ++ (m.leading ++ ((sc.delimitersAfter d).opening ++ u.source))).length := by
    rw [h.tag, Tag.stop_place]
    simp
  rw [hm.lineEnd_eq, hstop, ← List.length_append, Nat.add_right_cancel hstart, Text.delete]
  have htake : s.take a.length = a := by
    rw [h.text]
    exact List.take_left
  rw [htake]
  generalize a ++ (m.leading ++ ((sc.delimitersAfter d).opening ++ u.source)) ++ m.trailing = before at htext ⊢
  rw [htext, List.drop_left]

end OwnLines

/-! ## Comments -/

/-- The lines of a comment assemble to nothing: no text of them is kept, and the tag leaves nothing in the tree. -/
theorem Assembly.runFrom_comment {t : Tag} (h : t.kind = .comment) (a : Assembly) (m : Margins) (x : Trimmed) :
    runFrom a ((⟨[⟨m.leading, [], t⟩], m.trailing, []⟩ : Trimmed).sourceless.append x) = runFrom a x := by
  have hkind : t.sourceless.kind = .comment := h
  have htag : a.addTag t.sourceless = .ok a := by
    unfold addTag
    rw [hkind]
    rfl
  have hstep : [(Piece.mk m.leading [] t).sourceless].foldlM step a = .ok a := by
    rw [List.foldlM_cons]
    show (a.addTag t.sourceless >>= _) = _
    rw [htag]
    rfl
  exact runFrom_append hstep x

/-- **Standalone comments leave no trace.** When a text parses between usable delimiters and a comment in it stands
    alone, at whatever depth, the text without the lines of the comment parses too, and to the same tree, raw bodies
    aside. The lines go from the beginning of that of the tag to the end of that of its closing delimiter. -/
theorem parse_without_comment {d : Delimiters} {s : Text} {es : List Element} {t : Tag} (hd : d.Usable)
    (hparse : Element.parse d s = .ok es) (ht : t ∈ (Scan.ofText d s).tags) (hkind : t.kind = .comment)
    (hstandalone : t.standalone = true) :
    ∃ fs, Element.parse d (s.delete (s.lineStart t.start) (s.lineEnd t.stop)) = .ok fs ∧
      Element.bodilessAll fs = Element.bodilessAll es := by
  have hscan := Scan.scans_ofText d s
  have hok := Element.scan_of_parse hparse
  obtain ⟨m, hm⟩ := Option.isSome_iff_exists.mp hstandalone
  rw [Scan.tags_eq] at ht
  have hmargins := ((hscan.laid hd hok (Cut.start s)).tags t ht).2 m hm
  obtain ⟨r, hr, rfl⟩ := List.mem_map.mp ht
  -- the text is whole lines, the comment with its margins, and the text behind it
  obtain ⟨a, sc, u, b, hown⟩ := hscan.ownLines hd (Or.inl rfl) hr hm
  have hu : u.replacement = none := by
    apply TagText.replacement_of_read hown.read
    have hsame : u.kind = r.tag.kind := by
      rw [hown.tag]
      rfl
    rw [hsame, hkind]
    decide
  obtain ⟨hokB, hwith⟩ := hown.sourceless_eq hd hu hm hok
  obtain ⟨hokAB, hwithout⟩ := hown.sourceless_without hd hokB
  rw [hown.delete_eq hmargins, Element.parse_of_scan hokAB]
  rw [Element.parse_of_scan hok] at hparse
  -- what is kept of the two texts differs by the comment only
  apply Assembly.exists_of_run_sourceless _ hparse
  rw [hwith, hwithout, Trimmed.ofScan_ofLines hm]
  exact Assembly.run_append_congr (fun a => Assembly.runFrom_comment hkind a m _) _

/-- A comment of two lines, indented and with blanks behind it, in the inner one of two sections. -/
theorem parse_without_comment_nested :
    ∃ t ∈ (Scan.ofText ⟨['|'], ['|']⟩ "|#a|\n|#b|\nx\n |!c\nd| \r\ny|/b|\n|/a|".toList).tags,
      t.kind = .comment ∧ t.standalone = true ∧
      Text.delete "|#a|\n|#b|\nx\n |!c\nd| \r\ny|/b|\n|/a|".toList
          (Text.lineStart "|#a|\n|#b|\nx\n |!c\nd| \r\ny|/b|\n|/a|".toList t.start)
          (Text.lineEnd "|#a|\n|#b|\nx\n |!c\nd| \r\ny|/b|\n|/a|".toList t.stop)
        = "|#a|\n|#b|\nx\ny|/b|\n|/a|".toList ∧
      ∃ fs, Element.parse ⟨['|'], ['|']⟩ "|#a|\n|#b|\nx\ny|/b|\n|/a|".toList = .ok fs ∧
        Element.bodilessAll fs =
          [.sectionTag ['a'] false
            [.sectionTag ['b'] false [.text "x\ny".toList] [] ⟨['|'], ['|']⟩, .text ['\n']] [] ⟨['|'], ['|']⟩] := by
  have htag : ∃ t ∈ (Scan.ofText ⟨['|'], ['|']⟩ "|#a|\n|#b|\nx\n |!c\nd| \r\ny|/b|\n|/a|".toList).tags,
      t.kind = .comment ∧ t.standalone = true ∧
      Text.delete "|#a|\n|#b|\nx\n |!c\nd| \r\ny|/b|\n|/a|".toList
          (Text.lineStart "|#a|\n|#b|\nx\n |!c\nd| \r\ny|/b|\n|/a|".toList t.start)
          (Text.lineEnd "|#a|\n|#b|\nx\n |!c\nd| \r\ny|/b|\n|/a|".toList t.stop)
        = "|#a|\n|#b|\nx\ny|/b|\n|/a|".toList := by
    decide +kernel
  have hparse : Element.parse ⟨['|'], ['|']⟩ "|#a|\n|#b|\nx\n |!c\nd| \r\ny|/b|\n|/a|".toList =
      .ok [.sectionTag ['a'] false
        [.sectionTag ['b'] false [.text "x\ny".toList] "\nx\n |!c\nd| \r\ny".toList ⟨['|'], ['|']⟩, .text ['\n']]
        "\n|#b|\nx\n |!c\nd| \r\ny|/b|\n".toList ⟨['|'], ['|']⟩] := by
    with_unfolding_all rfl
  obtain ⟨t, ht, hkind, hstandalone, hdelete⟩ := htag
  have hresult := parse_without_comment (by decide) hparse ht hkind hstandalone
  rw [hdelete] at hresult
  exact ⟨t, ht, hkind, hstandalone, hdelete, hresult⟩

end Mustache

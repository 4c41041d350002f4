import Mustache.Proofs.Assembling
import Mustache.Proofs.Trimming

/-!
# `Mustache.Proofs.Seam` — parsing line by line

A template can be parsed in two parts when the first is made of whole lines and parses on its own: no
tag, no margin and no open tag crosses the seam. Each stage of parsing has its law.

* `Scans.append` — the second part is scanned after the first, under the delimiters that hold there. The
  static text at the seam becomes one lead (`Scan.append`);
* `Scans.afterLines` — after whole lines, a text scans as it does on its own, further down;
* `Trimmed.ofScan_append` — no margin crosses the seam, so the parts are trimmed on their own;
* `parse_append` — the elements of the first part are followed by those of the second, and a fault of the
  second part is the fault of the whole, as many rows further down as the first part has.
-/

namespace Mustache

/-! ## Whole lines -/

namespace Text

/-- Nothing, or lines each of which has its newline. -/
def WholeLines (s : Text) : Prop := s = [] ∨ ∃ init, s = init ++ ['\n']

theorem wholeLines_iff {s : Text} : WholeLines s ↔ s = [] ∨ s.getLast? = some '\n' := by
  rcases List.eq_nil_or_concat s with rfl | ⟨init, x, rfl⟩
  · exact ⟨fun _ => Or.inl rfl, fun _ => Or.inl rfl⟩
  · rw [List.concat_eq_append, List.getLast?_concat]
    constructor
    · rintro (hnil | ⟨init', hinit⟩)
      · exact Or.inl hnil
      · exact Or.inr (congrArg some (List.singleton_inj.mp (List.append_inj' hinit rfl).2))
    · rintro (hnil | hlast)
      · exact Or.inl hnil
      · exact Or.inr ⟨init, by rw [Option.some.inj hlast]⟩

instance (s : Text) : Decidable (WholeLines s) := decidable_of_iff _ wholeLines_iff.symm

/-- After a visible character there are whole lines only if there is a newline. -/
theorem WholeLines.of_append {s t : Text} (h : WholeLines (s ++ t)) (hs : EndsSolid s) :
    ∃ init, t = init ++ ['\n'] := by
  obtain ⟨front, x, rfl, hx⟩ := hs
  rcases h with hnil | ⟨init, hinit⟩
  · simp at hnil
  · rcases List.eq_nil_or_concat t with rfl | ⟨t', c, rfl⟩
    · rw [List.append_nil] at hinit
      obtain rfl : x = '\n' := List.singleton_inj.mp (List.append_inj' hinit rfl).2
      cases hx
    · rw [List.concat_eq_append, ← List.append_assoc] at hinit
      obtain rfl : c = '\n' := List.singleton_inj.mp (List.append_inj' hinit rfl).2
      exact ⟨t', List.concat_eq_append⟩

theorem newline_not_mem {pat : Text} (h : Solid pat) : '\n' ∉ pat := by
  intro hmem
  have hspace := h '\n' hmem
  cases hspace

/-- No occurrence of a visible pattern reaches past whole lines. -/
theorem Clear.of_wholeLines {pat s t : Text} (hpat : Solid pat) (hs : WholeLines s)
    (h : Clear pat s []) : Clear pat s t := by
  rcases hs with rfl | ⟨init, rfl⟩
  · exact clear_nil
  · exact h.of_fence (newline_not_mem hpat)

end Text

/-- After whole lines the cursor is at the beginning of a line, further down. -/
theorem Cursor.advance_wholeLines {a : Text} (ha : a.WholeLines) (s : Text) :
    start.advance (a ++ s) = { start.advance s with
      offset := a.length + (start.advance s).offset
      row := (start.advance s).row + a.count '\n' } := by
  have hline : (s.reverse ++ a.reverse).takeWhile (· != '\n') = s.reverse.takeWhile (· != '\n') := by
    rcases ha with rfl | ⟨init, rfl⟩
    · rw [List.reverse_nil, List.append_nil]
    · rw [List.reverse_concat]
      exact Text.takeWhile_newline_cons _ _
  simp only [advance, start, List.length_append, List.count_append, List.reverse_append,
    List.append_nil, hline, Nat.zero_add, Cursor.mk.injEq, true_and, and_true]
  omega

/-! ## Scanning at a seam -/

namespace Scan

/-- A scan with more static text at its beginning. -/
def prepend (t : Text) (sc : Scan) : Scan :=
  match sc.runs with
  | [] => { sc with tail := t ++ sc.tail }
  | r :: rs => { sc with runs := { r with lead := t ++ r.lead } :: rs }

/-- A scan of what follows the text of another scan, after that scan. -/
def append (x y : Scan) : Scan :=
  { y.prepend x.tail with runs := x.runs ++ (y.prepend x.tail).runs }

/-- A scan some characters and rows further down. -/
def below (chars rows : Nat) (sc : Scan) : Scan :=
  { sc with
    runs := sc.runs.map fun r => { r with tag := r.tag.below chars rows }
    failure := sc.failure.map (SyntaxError.below rows) }

theorem failure_append (x y : Scan) : (x.append y).failure = y.failure := by
  unfold append prepend
  cases y.runs <;> rfl

end Scan

namespace Scans

variable {pre a s t u : Text} {d : Delimiters} {sc sc' : Scan}

/-- After whole lines a text scans as it does without them. -/
theorem afterLines (h : Scans pre d s sc) (ha : a.WholeLines) :
    Scans (a ++ pre) d s (sc.below a.length (a.count '\n')) := by
  induction h with
  | finish hclear => exact .finish hclear
  | @fail pre d lead inner fault hclear hne hread =>
      have hfail : Scans (a ++ pre) d (lead ++ (d.opening ++ inner)) _ := .fail hclear hne hread
      rw [List.append_assoc, Cursor.advance_wholeLines ha] at hfail
      exact hfail
  | @tag pre d lead rest t sc hclear hread hrest ih =>
      have htext : a ++ (pre ++ lead ++ (d.opening ++ t.source))
          = a ++ pre ++ lead ++ (d.opening ++ t.source) := by simp
      rw [htext] at ih
      have htag := Scans.tag hclear hread ih
      rw [List.append_assoc a, Cursor.advance_wholeLines ha] at htag
      exact htag

/-- Static text without a tag leads up to the first tag after it. -/
theorem prepend (h : Scans (pre ++ t) d s sc) (hclear : Text.Clear d.opening t s) :
    Scans pre d (t ++ s) (sc.prepend t) := by
  cases h with
  | finish hclear' =>
      exact .finish (Text.clear_append.mpr ⟨(List.append_nil s).symm ▸ hclear, hclear'⟩)
  | @fail _ _ lead inner fault hclear' hne hread =>
      have hfail : Scans pre d ((t ++ lead) ++ (d.opening ++ inner)) _ := .fail
        (Text.clear_append.mpr ⟨hclear, hclear'⟩)
        (fun hnil => hne (List.append_eq_nil_iff.mp (List.append_assoc t lead _ ▸ hnil)).2) hread
      rw [List.append_assoc t, ← List.append_assoc pre] at hfail
      exact hfail
  | @tag _ _ lead rest tag sc hclear' hread hrest =>
      rw [List.append_assoc pre t lead] at hrest
      have htag : Scans pre d ((t ++ lead) ++ (d.opening ++ (tag.source ++ rest))) _ :=
        .tag (Text.clear_append.mpr ⟨hclear, hclear'⟩) hread hrest
      rw [List.append_assoc t, ← List.append_assoc pre] at htag
      exact htag

/-- **Scanning across a seam.** After whole lines that scan, a text is scanned under the delimiters that
    hold at their end. -/
theorem append (h : Scans pre d s sc) (hd : d.Usable) (hok : sc.failure = none) (hs : s.WholeLines)
    (h' : Scans (pre ++ s) (sc.delimitersAfter d) u sc') :
    Scans pre d (s ++ u) (sc.append sc') := by
  induction h with
  -- no occurrence reaches across the newline at the seam
  | finish hclear => exact h'.prepend (hclear.of_wholeLines hd.opening_solid hs)
  | fail => cases hok
  | @tag pre d lead rest t sc hclear hread hrest ih =>
      -- the tag ends in a visible character, so the newline at the end of the lines stands after it
      have hsolid : Text.EndsSolid (lead ++ (d.opening ++ t.source)) :=
        ((TagText.endsSolid_of_read hd hread).append _).append _
      have htext : lead ++ (d.opening ++ (t.source ++ rest))
          = lead ++ (d.opening ++ t.source) ++ rest := by simp
      obtain ⟨init, hinit⟩ := Text.WholeLines.of_append (htext ▸ hs) hsolid
      have hnewline : '\n' ∈ rest := by rw [hinit]; simp
      -- the margins of the tag end in its own line
      have hplace : ∀ here, Tag.place d here t (rest ++ u) = Tag.place d here t rest := by
        intro here
        simp only [Tag.place, Margins.around?, Margins.trailing?_append hnewline]
      have hbefore : pre ++ (lead ++ (d.opening ++ (t.source ++ rest)))
          = pre ++ lead ++ (d.opening ++ t.source) ++ rest := by simp
      rw [Scan.delimitersAfter_cons, hbefore] at h'
      have htag : Scans pre d (lead ++ (d.opening ++ (t.source ++ (rest ++ u)))) _ := .tag
        (by rw [← List.append_assoc t.source]; exact hclear.congr_after)
        (by rw [← List.append_assoc t.source]; exact TagText.read_append hread u)
        (ih (TagText.usable_of_read hd hread) hok (Or.inr ⟨init, hinit⟩) h')
      rw [hplace] at htag
      simpa [Scan.cons, Scan.append] using htag

/-- The delimiters at the end of a scan are usable when those at its beginning are. -/
theorem usable_delimitersAfter (h : Scans pre d s sc) (hd : d.Usable) : (sc.delimitersAfter d).Usable := by
  induction h with
  | finish | fail => exact hd
  | @tag pre d lead rest t sc hclear hread hrest ih =>
      rw [Scan.delimitersAfter_cons]
      exact ih (TagText.usable_of_read hd hread)

end Scans

/-! ## Trimming at a seam -/

/-- A leading margin is no longer than the static text before the tag. -/
theorem Run.LaidAt.length_leading_le {s : Text} {g k : Nat} {r : Run} {m : Margins}
    (h : r.LaidAt s g k) (hm : r.tag.margins = some m) : m.leading.length ≤ r.lead.length := by
  have hkeep := Nat.le_trans h.le h.le_keepStop
  rw [Tag.keepStop_of_margins hm] at hkeep
  rw [(h.margins m hm).leading, Text.length_slice h.start_le, h.length_lead]
  omega

namespace Laid

variable {s tail : Text} {g k : Nat} {rs : List Run}

/-- What is cut after the last tag is part of the static text there. -/
theorem trim_snd_le (h : Laid s g k rs tail) : (Piece.trim (k - g) rs).2 ≤ tail.length := by
  induction h with
  | @last g k tail hle hend htail =>
      rw [htail, Text.length_slice (Nat.le_refl _)]
      exact Nat.sub_le_sub_right hend g
  | @run g k r rs tail hrun hrest ih =>
      rw [Piece.trim, hrun.skipAfter_eq]
      exact ih

theorem length_leading_le (h : Laid s g k rs tail) :
    ∀ r ∈ rs, ∀ m, r.tag.margins = some m → m.leading.length ≤ r.lead.length := by
  induction h with
  | last => intro r hr; exact absurd hr List.not_mem_nil
  | @run g k r rs tail hrun hrest ih =>
      intro r' hr'
      rcases List.mem_cons.mp hr' with rfl | hr'
      · exact fun m hm => hrun.length_leading_le hm
      · exact ih r' hr'

end Laid

namespace Piece

/-- Static text before a run is trimmed on its own. -/
theorem keep_prepend {t : Text} {skip : Nat} {r : Run} (hskip : skip ≤ t.length)
    (hr : ∀ m, r.tag.margins = some m → m.leading.length ≤ r.lead.length) :
    keep skip { r with lead := t ++ r.lead } = t.drop skip ++ keep 0 r := by
  unfold keep
  dsimp only
  rw [List.drop_append_of_le_length hskip, List.drop_zero]
  cases hm : r.tag.margins with
  | none => rfl
  | some m => exact cutEnd_append (hr m hm)

theorem skipAfter_prepend {t : Text} {skip : Nat} {r : Run} (hskip : skip ≤ t.length) :
    skipAfter skip { r with lead := t ++ r.lead } = skipAfter 0 r := by
  unfold skipAfter
  cases hm : r.tag.margins with
  | none =>
      have hle : skip ≤ (Run.source { r with lead := t ++ r.lead }).length := by
        simp only [Run.source, List.length_append]
        omega
      show skip - _ = 0 - _
      rw [Nat.sub_eq_zero_of_le hle, Nat.zero_sub]
  | some m => rfl

theorem trim_append (skip : Nat) (rs rs' : List Run) :
    trim skip (rs ++ rs') =
      ((trim skip rs).1 ++ (trim (trim skip rs).2 rs').1, (trim (trim skip rs).2 rs').2) := by
  induction rs generalizing skip with
  | nil => rfl
  | cons r rs ih => simp only [List.cons_append, trim, ih]

theorem trim_below (chars rows skip : Nat) (rs : List Run) :
    trim skip (rs.map fun r => { r with tag := r.tag.below chars rows })
      = ((trim skip rs).1.map (below chars rows), (trim skip rs).2) := by
  induction rs generalizing skip with
  | nil => rfl
  | cons r rs ih =>
      have hskip : skipAfter skip { r with tag := r.tag.below chars rows } = skipAfter skip r := rfl
      simp only [List.map_cons, trim, hskip, ih]
      rfl

end Piece

namespace Trimmed

theorem ofScan_below (chars rows : Nat) (sc : Scan) :
    ofScan (sc.below chars rows) = (ofScan sc).below chars rows := by
  simp only [ofScan, Scan.below, Piece.trim_below]
  rfl

/-- **Trimming across a seam.** When no margin crosses it, the two parts are trimmed on their own. -/
theorem ofScan_append {x y : Scan} (hx : (Piece.trim 0 x.runs).2 ≤ x.tail.length)
    (hy : ∀ r ∈ y.runs, ∀ m, r.tag.margins = some m → m.leading.length ≤ r.lead.length) :
    ofScan (x.append y) = (ofScan x).append (ofScan y) := by
  obtain ⟨runs, tail, failure⟩ := y
  unfold ofScan Scan.append Scan.prepend
  cases runs with
  | nil =>
      simp only [append, Piece.trim, List.append_nil, List.drop_zero]
      rw [List.drop_append_of_le_length hx]
  | cons r rs =>
      have hkeep := Piece.keep_prepend hx (hy r List.mem_cons_self)
      simp only [Piece.trim_append, append, Piece.trim, Piece.skipAfter_prepend hx, hkeep]

end Trimmed

/-! ## Parsing at a seam -/

/-- A template that assembles ends without open tags. -/
theorem Assembly.exists_of_run {t : Trimmed} {es : List Element} (h : run t = .ok es) :
    ∃ a, t.pieces.foldlM step empty = .ok a ∧ a.stack = [] ∧
      (a.addText t.tail t.keptTail).siblings.reverse = es := by
  unfold run at h
  cases hfold : t.pieces.foldlM step empty with
  | error e =>
      rw [hfold] at h
      cases h
  | ok a =>
      rw [hfold] at h
      obtain ⟨stack, siblings, raw⟩ := a
      cases stack with
      | nil => exact ⟨_, rfl, rfl, Except.ok.inj h⟩
      | cons o os => cases h

/-- **Assembling across a seam.** -/
theorem Assembly.run_append {x y : Trimmed} {es : List Element} (h : run x = .ok es) :
    run (x.append y) = (run y).map (Element.glue es) := by
  obtain ⟨a, hfold, hstack, rfl⟩ := exists_of_run h
  have hbase : (a.addText x.tail x.keptTail).stack = [] := hstack
  rw [run_eq, runFrom_append hfold]
  exact runFrom_of_stack_nil hbase y

/-- **Parsing line by line.** When whole lines parse, whatever follows them is parsed on its own, under
    the delimiters that hold after them: its elements follow theirs, static text joined to static text,
    and its fault is that of the whole template, further down by the rows of the first part. -/
theorem parse_append {d : Delimiters} {a : Text} {ea : List Element} (hd : d.Usable)
    (ha : a.WholeLines) (hparse : Element.parse d a = .ok ea) (b : Text) :
    Element.parse d (a ++ b) =
      match Element.parse ((Scan.ofText d a).delimitersAfter d) b with
      | .ok eb => .ok (Element.glue ea eb)
      | .error e => .error { e with row := e.row + a.count '\n' } := by
  -- the scan of the whole is the scan of the first part and then that of the second, further down
  have hok := Element.scan_of_parse hparse
  rw [Element.parse_of_scan hok] at hparse
  have hscanA := Scan.scans_ofText d a
  have hscanB := Scan.scans_ofText ((Scan.ofText d a).delimitersAfter d) b
  have hd' := hscanA.usable_delimitersAfter hd
  have hlines := hscanB.afterLines ha
  rw [List.append_nil] at hlines
  have hscan := (hscanA.append hd hok ha hlines).ofText_eq
  generalize (Scan.ofText d a).delimitersAfter d = d₂ at *
  cases hB : (Scan.ofText d₂ b).failure with
  | some e =>
      have hfailure : (Scan.ofText d (a ++ b)).failure = some (e.below (a.count '\n')) := by
        rw [hscan, Scan.failure_append, Scan.below, hB]
        rfl
      rw [Element.parse_of_failure hfailure, Element.parse_of_failure hB]
      rfl
  | none =>
      -- both parts scan: no margin crosses the seam, and no open tag does
      have hfailure : (Scan.ofText d (a ++ b)).failure = none := by
        rw [hscan, Scan.failure_append, Scan.below, hB]
        rfl
      have hlaidA := hscanA.laid hd hok (Cut.start a)
      have hlaidB := hscanB.laid hd' hB (Cut.start b)
      have htrim : Trimmed.ofScan (Scan.ofText d (a ++ b))
          = (Trimmed.ofScan (Scan.ofText d a)).append
            ((Trimmed.ofScan (Scan.ofText d₂ b)).below a.length (a.count '\n')) := by
        rw [hscan, Trimmed.ofScan_append hlaidA.trim_snd_le ?_, Trimmed.ofScan_below]
        intro r hr m hm
        obtain ⟨r₀, hr₀, rfl⟩ := List.mem_map.mp hr
        exact hlaidB.length_leading_le r₀ hr₀ m hm
      rw [Element.parse_of_scan hfailure, Element.parse_of_scan hB, htrim,
        Assembly.run_append hparse, Assembly.run_below]
      cases Assembly.run (Trimmed.ofScan (Scan.ofText d₂ b)) with
      | ok eb => rfl
      | error e => rfl

/-- The first part declares delimiters and ends in static text, to which that of the second is joined. -/
theorem parse_append_declared :
    Delimiters.braces.Usable ∧
      Text.WholeLines "\x7b\x7b=| |=\x7d\x7d\n|#a|\nx\n|/a|\ny\n".toList ∧
      Element.parse .braces "\x7b\x7b=| |=\x7d\x7d\n|#a|\nx\n|/a|\ny\n".toList =
        .ok [.sectionTag ['a'] false [.text ['x', '\n']] ['\n', 'x', '\n'] ⟨['|'], ['|']⟩,
          .text ['y', '\n']] ∧
      Element.parse .braces ("\x7b\x7b=| |=\x7d\x7d\n|#a|\nx\n|/a|\ny\n".toList ++ "z |b|".toList) =
        .ok [.sectionTag ['a'] false [.text ['x', '\n']] ['\n', 'x', '\n'] ⟨['|'], ['|']⟩,
          .text "y\nz ".toList, .interpolation ['b'] true] := by
  refine ⟨by decide, by decide, by with_unfolding_all rfl, ?_⟩
  rw [parse_append (by decide) (by decide) (by with_unfolding_all rfl)]
  with_unfolding_all rfl

end Mustache

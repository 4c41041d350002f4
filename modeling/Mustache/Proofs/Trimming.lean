import Mustache.Piece
import Mustache.Proofs.Line
import Mustache.Proofs.Margins
import Mustache.Proofs.Scanning

/-!
# `Mustache.Proofs.Trimming` — trimming cuts the margins and nothing else

Trimming goes over the runs of a scan with a number of characters that are still to be cut and takes
lengths off the ends of static text. That these lengths are intervals of the source that never overlap a
tag or each other is what `Laid` says: the runs of a scan between usable delimiters lie one after the
other in the source, and of the static text between two tags the trailing margin of the first comes
first, then what is kept, then the leading margin of the second.

* `Scans.laid` — a scan that succeeds is laid out so. The invariant is `Cut`: what is still to be cut is
  white space, and what precedes the text to be kept is no blank, so the next leading margin ends there;
* `Laid.gaps` — trimming laid-out runs keeps exactly the intervals between the margins;
* `trim_exact` — both together, for every text and all usable delimiters.
-/

namespace Mustache

namespace Text

variable {s : Text} {a b n : Nat}

theorem length_slice (h : b ≤ s.length) : (s.slice a b).length = b - a := by
  rw [slice, List.length_drop, List.length_take, Nat.min_eq_left h]

theorem drop_slice : (s.slice a b).drop n = s.slice (a + n) b := by
  rw [slice, List.drop_drop, slice]

theorem take_slice (h : a + n ≤ b) : (s.slice a b).take n = s.slice a (a + n) := by
  rw [slice, List.take_drop, List.take_take, Nat.min_eq_left h, slice]

/-- The pieces before and after an offset make up one piece. -/
theorem slice_append_slice {c : Nat} (hab : a ≤ b) (hbc : b ≤ c) :
    s.slice a b ++ s.slice b c = s.slice a c := by
  have hsplit := List.take_append_drop (b - a) (s.slice a c)
  rwa [take_slice (by omega), drop_slice, Nat.add_sub_of_le hab] at hsplit

end Text

/-! ## Where the text around a tag is kept -/

namespace Tag

/-- Where the static text before a tag stops being kept: at the beginning of the line of a standalone
    tag. -/
def keepStop (s : Text) (t : Tag) : Nat := if t.standalone then s.lineStart t.start else t.start

/-- Where the static text after a tag starts being kept: after the line of a standalone tag. -/
def keepStart (s : Text) (t : Tag) : Nat := if t.standalone then s.lineEnd t.stop else t.stop

/-- The margins of a tag are the rest of its line in the source, and hold nothing but blanks and line
    endings, with one newline at most. -/
structure MarginsIn (s : Text) (t : Tag) (m : Margins) : Prop where
  leading : m.leading = s.slice (s.lineStart t.start) t.start
  trailing : m.trailing = s.slice t.stop (s.lineEnd t.stop)
  lineStart_le : s.lineStart t.start ≤ t.start
  le_lineEnd : t.stop ≤ s.lineEnd t.stop
  lineEnd_le : s.lineEnd t.stop ≤ s.length
  mem_leading : ∀ c ∈ m.leading, c = ' ' ∨ c = '\t'
  mem_trailing : ∀ c ∈ m.trailing, c ∈ Margins.alphabet
  count_trailing : m.trailing.count '\n' ≤ 1

end Tag

/-- A run lies in `s` from the offset `g` on, and the characters from `g` up to `k` are the margin of the
    tag before. -/
structure Run.LaidAt (s : Text) (g k : Nat) (r : Run) : Prop where
  le : g ≤ k
  le_keepStop : k ≤ r.tag.keepStop s
  keepStop_le : r.tag.keepStop s ≤ r.tag.start
  stop_le : r.tag.stop ≤ s.length
  lead : r.lead = s.slice g r.tag.start
  source : r.tag.source = s.slice r.tag.start r.tag.stop
  margins : ∀ m, r.tag.margins = some m → r.tag.MarginsIn s m

/-- `Laid s g k runs tail`: from the offset `g` on, `s` consists of the runs and the text `tail` after
    them, and the characters from `g` up to `k` are the margin of the tag before. -/
inductive Laid (s : Text) : Nat → Nat → List Run → Text → Prop where
  | last {g k : Nat} {tail : Text} (hle : g ≤ k) (hend : k ≤ s.length)
      (htail : tail = s.slice g s.length) : Laid s g k [] tail
  | run {g k : Nat} {r : Run} {rs : List Run} {tail : Text} (hrun : r.LaidAt s g k)
      (hrest : Laid s r.tag.stop (r.tag.keepStart s) rs tail) : Laid s g k (r :: rs) tail

/-! ## A scan is laid out -/

/-- The first `skip` characters of `s` are the margin of a tag at the end of `pre`: white space, after
    which the last line of the text has no blank unless the whole text is cut. -/
structure Cut (pre s : Text) (skip : Nat) : Prop where
  le : skip ≤ s.length
  white : ∀ c ∈ s.take skip, Text.isSpace c = true
  fence : skip < s.length → ∀ c, (pre ++ s.take skip).getLast? = some c → c ≠ ' ' ∧ c ≠ '\t'

namespace Cut

variable {pre s lead rest inner trailing : Text} {d : Delimiters} {skip : Nat}

/-- At the beginning of a text nothing is cut. -/
theorem start (s : Text) : Cut [] s 0 where
  le := Nat.zero_le _
  white := by intro c hc; exact absurd hc List.not_mem_nil
  fence := by intro _ c hc; cases hc

/-- After a visible character nothing is cut. -/
theorem of_endsSolid (h : Text.EndsSolid pre) (s : Text) : Cut pre s 0 where
  le := Nat.zero_le _
  white := by intro c hc; exact absurd hc List.not_mem_nil
  fence := by
    intro _ c hc
    obtain ⟨init, x, rfl, hx⟩ := h
    rw [List.take_zero, List.append_nil, List.getLast?_concat] at hc
    obtain rfl := Option.some.inj hc
    constructor <;> rintro rfl <;> exact absurd hx (by decide)

/-- After a standalone tag its trailing margin is cut. -/
theorem of_trailing? (h : Margins.trailing? s = some trailing) : Cut pre s trailing.length := by
  obtain ⟨later, hsplit, hline⟩ := Margins.split_of_trailing? h
  have htake : s.take trailing.length = trailing := by rw [hsplit, List.take_left]
  constructor
  case le => rw [hsplit, List.length_append]; exact Nat.le_add_right _ _
  case white =>
    intro c hc
    rw [htake] at hc
    exact Margins.isSpace_of_mem_alphabet (Margins.mem_of_trailing? h c hc)
  case fence =>
    intro hlt c hc
    -- something is kept, so the margin ends in a newline, which no leading margin crosses
    have hne : later ≠ [] := by
      rintro rfl
      rw [hsplit, List.append_nil] at hlt
      exact absurd hlt (Nat.lt_irrefl _)
    obtain ⟨line, hnewline⟩ := hline hne
    rw [htake, hnewline, ← List.append_assoc, List.getLast?_concat] at hc
    obtain rfl := Option.some.inj hc
    exact ⟨by decide, by decide⟩

/-- What is cut stands before the next tag, whose opening delimiter is visible. -/
theorem le_lead (hd : d.Usable) (h : Cut pre (lead ++ (d.opening ++ inner)) skip) :
    skip ≤ lead.length := by
  apply Nat.le_of_not_lt
  intro hlt
  -- else the first character of the delimiter would be cut, and so white space
  obtain ⟨x, xs, hx⟩ := List.exists_cons_of_ne_nil hd.opening_ne
  have hmem : x ∈ (lead ++ (d.opening ++ inner)).take skip := by
    obtain ⟨n, rfl⟩ := Nat.exists_eq_add_of_lt hlt
    rw [hx, Nat.add_assoc, List.take_length_add_append]
    simp
  have hsolid := hd.opening_solid x (hx ▸ List.mem_cons_self)
  rw [h.white x hmem] at hsolid
  cases hsolid

/-- The leading margin of the next tag stands after what is cut. -/
theorem length_lastLine_le (hd : d.Usable) (h : Cut pre (lead ++ (d.opening ++ inner)) skip)
    (hblank : ∀ c ∈ (pre ++ lead).reverse.takeWhile (· != '\n'), c = ' ' ∨ c = '\t') :
    skip + ((pre ++ lead).reverse.takeWhile (· != '\n')).length ≤ lead.length := by
  have hle := h.le_lead hd
  have hlt : skip < (lead ++ (d.opening ++ inner)).length := by
    have hpos := List.length_pos_iff.mpr hd.opening_ne
    simp only [List.length_append]
    omega
  have hfence := h.fence hlt
  rw [List.take_append_of_le_length hle] at hfence
  -- the last line, when it is blank, does not reach back into what is cut
  have hsplit : pre ++ lead = (pre ++ lead.take skip) ++ lead.drop skip := by
    rw [List.append_assoc, List.take_append_drop]
  rw [hsplit] at hblank ⊢
  have hlen := Margins.length_lastLine_le hfence hblank
  rw [List.length_drop] at hlen
  omega

end Cut

/-- The line of a tag ends where its trailing margin ends. -/
theorem Text.lineEnd_of_trailing? {pre rest trailing : Text}
    (h : Margins.trailing? rest = some trailing) :
    (pre ++ rest).lineEnd pre.length = pre.length + trailing.length := by
  rw [lineEnd_append, ← Margins.eq_of_trailing? h]

/-- The margins of a tag that was placed are where the text says. -/
theorem Tag.marginsIn_place {d : Delimiters} {pre rest : Text} {t : TagText} {m : Margins}
    (h : (place d (Cursor.start.advance pre) t rest).margins = some m) :
    (place d (Cursor.start.advance pre) t rest).MarginsIn (pre ++ ((d.opening ++ t.source) ++ rest)) m ∧
      Margins.trailing? rest = some m.trailing := by
  have hstart := start_place d pre t rest
  have hstop := stop_place d pre t rest
  obtain ⟨hleading, hblank, htrailing⟩ := Margins.of_around? (Option.ite_none_right_eq_some.mp h).2
  obtain ⟨later, hrest, -⟩ := Margins.split_of_trailing? htrailing
  refine ⟨?_, htrailing⟩
  constructor
  case leading =>
    rw [hleading, hstart]
    exact Cursor.linePrefix_start_advance
  case trailing =>
    rw [hstop, ← List.append_assoc, Text.lineEnd_of_trailing? htrailing]
    generalize pre ++ (d.opening ++ t.source) = before
    rw [hrest, Text.slice_append]
  case lineStart_le => exact Nat.sub_le _ _
  case le_lineEnd => exact Nat.le_add_right _ _
  case lineEnd_le =>
    rw [hstop, ← List.append_assoc, Text.lineEnd_of_trailing? htrailing, hrest]
    simp only [List.length_append]
    omega
  case mem_leading => rwa [hleading]
  case mem_trailing => exact Margins.mem_of_trailing? htrailing
  case count_trailing => exact Margins.count_of_trailing? htrailing

/-- The text to be kept before a tag ends after what is cut there. -/
theorem Cut.le_keepStop {d : Delimiters} {pre lead rest : Text} {t : TagText} {skip : Nat}
    (hd : d.Usable) (h : Cut pre (lead ++ (d.opening ++ (t.source ++ rest))) skip) :
    pre.length + skip ≤ (Tag.place d (Cursor.start.advance (pre ++ lead)) t rest).keepStop
      (pre ++ lead ++ ((d.opening ++ t.source) ++ rest)) := by
  rw [Tag.keepStop, Tag.start_place]
  split
  · rename_i hstandalone
    obtain ⟨m, hm⟩ := Option.isSome_iff_exists.mp hstandalone
    obtain ⟨hleading, hblank, -⟩ := Margins.of_around? (Option.ite_none_right_eq_some.mp hm).2
    have hline : ∀ c ∈ (pre ++ lead).reverse.takeWhile (· != '\n'), c = ' ' ∨ c = '\t' := by
      intro c hc
      rw [← Cursor.line_start_advance] at hc
      exact hblank c (List.mem_reverse.mpr hc)
    have hlen := h.length_lastLine_le hd hline
    rw [Text.lineStart_append, List.length_append]
    omega
  · have hlead := h.le_lead hd
    rw [List.length_append]
    omega

/-- **What is cut after a tag** is its trailing margin, or nothing. -/
theorem Cut.place {d : Delimiters} {rest : Text} {t : TagText} (pre : Text) (hd : d.Usable)
    (hread : TagText.read d (t.source ++ rest) = .ok (t, rest)) :
    ∃ skip, Cut (pre ++ (d.opening ++ t.source)) rest skip ∧
      (pre ++ (d.opening ++ t.source)).length + skip =
        (Tag.place d (Cursor.start.advance pre) t rest).keepStart
          (pre ++ ((d.opening ++ t.source) ++ rest)) := by
  have hsolid : Text.EndsSolid (pre ++ (d.opening ++ t.source)) :=
    ((TagText.endsSolid_of_read hd hread).append _).append _
  rw [Tag.keepStart, Tag.stop_place]
  split
  · rename_i hstandalone
    obtain ⟨m, hm⟩ := Option.isSome_iff_exists.mp hstandalone
    obtain ⟨-, -, htrailing⟩ := Margins.of_around? (Option.ite_none_right_eq_some.mp hm).2
    refine ⟨m.trailing.length, .of_trailing? htrailing, ?_⟩
    rw [← List.append_assoc pre _ rest, Text.lineEnd_of_trailing? htrailing]
  · exact ⟨0, .of_endsSolid hsolid rest, rfl⟩

/-- **A scan that succeeds is laid out in the source.** By induction on the derivation, whatever stands
    before the place at which the scan begins and whichever margin is cut there. -/
theorem Scans.laid {pre : Text} {d : Delimiters} {s : Text} {sc : Scan} {skip : Nat}
    (h : Scans pre d s sc) (hd : d.Usable) (hok : sc.failure = none) (hcut : Cut pre s skip) :
    Laid (pre ++ s) pre.length (pre.length + skip) sc.runs sc.tail := by
  induction h generalizing skip with
  | @finish pre d s hclear =>
      refine .last (Nat.le_add_right _ _) ?_ ?_
      · rw [List.length_append]
        exact Nat.add_le_add_left hcut.le _
      · have hslice : (pre ++ (s ++ [])).slice pre.length (pre.length + s.length) = s :=
          Text.slice_append
        rw [List.append_nil] at hslice
        rw [List.length_append, hslice]
  | fail => cases hok
  | @tag pre d lead rest t sc hclear hread hrest ih =>
      -- the invariant after the tag, under the delimiters that hold there
      obtain ⟨skip', hcut', hkeep⟩ := Cut.place (pre ++ lead) hd hread
      have hlaid := ih (TagText.usable_of_read hd hread) hok hcut'
      have hstart := Tag.start_place d (pre ++ lead) t rest
      have hstop := Tag.stop_place d (pre ++ lead) t rest
      have htext : pre ++ (lead ++ (d.opening ++ (t.source ++ rest)))
          = pre ++ lead ++ ((d.opening ++ t.source) ++ rest) := by simp
      have hafter : pre ++ lead ++ (d.opening ++ t.source) ++ rest
          = pre ++ lead ++ ((d.opening ++ t.source) ++ rest) := by simp
      rw [hkeep, hafter] at hlaid
      rw [htext]
      refine .run ?_ (hstop ▸ hlaid)
      constructor
      case le => exact Nat.le_add_right _ _
      case le_keepStop => exact hcut.le_keepStop hd
      case keepStop_le =>
        rw [Tag.keepStop]
        split
        · exact Nat.sub_le _ _
        · exact Nat.le_refl _
      case stop_le =>
        rw [hstop, ← hafter]
        exact (List.sublist_append_left _ _).length_le
      case lead => rw [hstart, List.append_assoc, List.length_append, Text.slice_append]
      case source =>
        rw [hstart, hstop, @List.length_append _ (pre ++ lead), Text.slice_append]
        rfl
      case margins => exact fun m hm => (Tag.marginsIn_place hm).1

/-! ## What trimming keeps -/

/-- The static text between two neighbouring tags after trimming; the tag is missing at the beginning
    and at the end of the template. -/
structure Gap where
  before : Option Tag
  kept : Text
  after : Option Tag

/-- The gaps of a template without margins, in the order of the source. -/
def Trimmed.gapsFrom (before : Option Tag) : List Piece → Text → List Gap
  | [], kept => [⟨before, kept, none⟩]
  | p :: ps, kept => ⟨before, p.kept, some p.tag⟩ :: gapsFrom (some p.tag) ps kept

/-- All gaps of a template without margins. -/
def Trimmed.gaps (t : Trimmed) : List Gap := gapsFrom none t.pieces t.keptTail

namespace Gap

/-- Where the source of a gap begins: after the tag before it. -/
def start (g : Gap) : Nat := g.before.elim 0 Tag.stop

/-- Where the source of a gap ends: at the tag after it. -/
def stop (s : Text) (g : Gap) : Nat := g.after.elim s.length Tag.start

/-- The end of what is cut from the beginning of a gap. -/
def keepStart (s : Text) (g : Gap) : Nat := g.before.elim 0 (Tag.keepStart s)

/-- The beginning of what is cut from the end of a gap. -/
def keepStop (s : Text) (g : Gap) : Nat := g.after.elim s.length (Tag.keepStop s)

/-- A gap keeps exactly the source between the margins of its tags, which lie inside it and do not
    overlap. -/
structure Exact (s : Text) (g : Gap) : Prop where
  start_le : g.start ≤ g.keepStart s
  keepStart_le : g.keepStart s ≤ g.keepStop s
  keepStop_le : g.keepStop s ≤ g.stop s
  kept : g.kept = s.slice (g.keepStart s) (g.keepStop s)

end Gap

namespace Tag

variable {s : Text} {t : Tag} {m : Margins}

theorem keepStop_of_margins (h : t.margins = some m) : t.keepStop s = s.lineStart t.start := by
  rw [keepStop, if_pos (by rw [standalone, h]; rfl)]

theorem keepStart_of_margins (h : t.margins = some m) : t.keepStart s = s.lineEnd t.stop := by
  rw [keepStart, if_pos (by rw [standalone, h]; rfl)]

theorem keepStop_of_none (h : t.margins = none) : t.keepStop s = t.start := by
  rw [keepStop, if_neg (by rw [standalone, h]; exact Bool.false_ne_true)]

theorem keepStart_of_none (h : t.margins = none) : t.keepStart s = t.stop := by
  rw [keepStart, if_neg (by rw [standalone, h]; exact Bool.false_ne_true)]

end Tag

namespace Piece

theorem cutEnd_append {n : Nat} {s t : Text} (h : n ≤ t.length) :
    cutEnd n (s ++ t) = s ++ cutEnd n t := by
  have hsub : s.length + t.length - n = s.length + (t.length - n) := by omega
  rw [cutEnd, cutEnd, List.length_append, if_pos (by omega), if_pos h, hsub,
    List.take_length_add_append]

theorem cutEnd_length (s : Text) : cutEnd s.length s = [] := by
  rw [cutEnd, if_pos (Nat.le_refl _), Nat.sub_self, List.take_zero]

end Piece

namespace Run.LaidAt

variable {s : Text} {g k : Nat} {r : Run}

theorem start_le (h : r.LaidAt s g k) : r.tag.start ≤ s.length :=
  Nat.le_trans (Nat.le_add_right _ _) h.stop_le

theorem length_lead (h : r.LaidAt s g k) : r.lead.length = r.tag.start - g := by
  rw [h.lead, Text.length_slice h.start_le]

/-- What a run keeps of its static text is the interval between the margins. -/
theorem keep_eq (h : r.LaidAt s g k) : Piece.keep (k - g) r = s.slice k (r.tag.keepStop s) := by
  have hdrop : r.lead.drop (k - g) = s.slice k r.tag.start := by
    rw [h.lead, Text.drop_slice, Nat.add_sub_of_le h.le]
  have hkeep := h.le_keepStop
  unfold Piece.keep
  cases hm : r.tag.margins with
  | none =>
      rw [Tag.keepStop_of_none hm]
      exact hdrop
  | some m =>
      have hin := h.margins m hm
      rw [Tag.keepStop_of_margins hm] at hkeep ⊢
      have hleading : m.leading.length = r.tag.start - s.lineStart r.tag.start := by
        rw [hin.leading, Text.length_slice h.start_le]
      have hlength : (s.slice k r.tag.start).length = r.tag.start - k := Text.length_slice h.start_le
      have hline := hin.lineStart_le
      -- the margin is no longer than what it is cut from
      have hcut : r.tag.start - k - (r.tag.start - s.lineStart r.tag.start)
          = s.lineStart r.tag.start - k := by omega
      show Piece.cutEnd m.leading.length (r.lead.drop (k - g)) = _
      rw [hdrop, Piece.cutEnd, hleading, hlength, if_pos (by omega), hcut,
        Text.take_slice (by omega), Nat.add_sub_of_le hkeep]

/-- What is still to be cut after a run is the interval up to where the next text is kept. -/
theorem skipAfter_eq (h : r.LaidAt s g k) :
    Piece.skipAfter (k - g) r = r.tag.keepStart s - r.tag.stop := by
  unfold Piece.skipAfter
  cases hm : r.tag.margins with
  | none =>
      have hlength := h.length_lead
      have hle := Nat.le_trans h.le_keepStop h.keepStop_le
      show k - g - r.source.length = _
      rw [Tag.keepStart_of_none hm, Nat.sub_self, Run.source, List.length_append]
      omega
  | some m =>
      have hin := h.margins m hm
      show m.trailing.length = _
      rw [Tag.keepStart_of_margins hm, hin.trailing, Text.length_slice hin.lineEnd_le]

/-- The static text before a tag is the margin of the tag before, what is kept, and the leading margin of the tag. -/
theorem lead_eq (h : r.LaidAt s g k) :
    r.lead = s.slice g k ++ (Piece.keep (k - g) r ++ r.tag.margins.elim [] Margins.leading) := by
  have hleading : s.slice (r.tag.keepStop s) r.tag.start = r.tag.margins.elim [] Margins.leading := by
    cases hm : r.tag.margins with
    | none =>
        rw [Tag.keepStop_of_none hm, Text.slice]
        exact List.drop_eq_nil_of_le (List.length_take_le _ _)
    | some m =>
        rw [Tag.keepStop_of_margins hm]
        exact (h.margins m hm).leading.symm
  rw [h.keep_eq, ← hleading, Text.slice_append_slice h.le_keepStop h.keepStop_le,
    Text.slice_append_slice h.le (Nat.le_trans h.le_keepStop h.keepStop_le)]
  exact h.lead

end Run.LaidAt

/-- Trimming keeps every tag once and in order. -/
theorem Piece.map_tag_trim (skip : Nat) (rs : List Run) :
    (trim skip rs).1.map Piece.tag = rs.map Run.tag := by
  induction rs generalizing skip with
  | nil => rfl
  | cons r rs ih => exact congrArg (List.cons r.tag) (ih _)

/-- **Trimming laid-out runs keeps exactly what lies between the margins.** -/
theorem Laid.gaps {s : Text} {g k : Nat} {rs : List Run} {tail : Text} (h : Laid s g k rs tail)
    (before : Option Tag) (hg : before.elim 0 Tag.stop = g) (hk : before.elim 0 (Tag.keepStart s) = k) :
    ∀ gap ∈ Trimmed.gapsFrom before (Piece.trim (k - g) rs).1
      (tail.drop (Piece.trim (k - g) rs).2), gap.Exact s := by
  induction h generalizing before with
  | @last g k tail hle hend htail =>
      have hkept : tail.drop (k - g) = s.slice k s.length := by
        rw [htail, Text.drop_slice, Nat.add_sub_of_le hle]
      intro gap hgap
      obtain rfl := List.mem_singleton.mp hgap
      subst hg hk
      exact ⟨hle, hend, Nat.le_refl _, hkept⟩
  | @run g k r rs tail hrun hrest ih =>
      have hkeep := hrun.keep_eq
      rw [Piece.trim, hrun.skipAfter_eq]
      intro gap hgap
      rcases List.mem_cons.mp hgap with rfl | hgap
      · subst hg hk
        exact ⟨hrun.le, hrun.le_keepStop, hrun.keepStop_le, hkeep⟩
      · exact ih (some r.tag) rfl rfl gap hgap

/-- Every tag of laid-out runs stands where it says, and so do its margins. -/
theorem Laid.tags {s : Text} {g k : Nat} {rs : List Run} {tail : Text} (h : Laid s g k rs tail) :
    ∀ t ∈ rs.map Run.tag,
      t.source = s.slice t.start t.stop ∧ ∀ m, t.margins = some m → t.MarginsIn s m := by
  induction h with
  | last => intro t ht; exact absurd ht List.not_mem_nil
  | @run g k r rs tail hrun hrest ih =>
      intro t ht
      rcases List.mem_cons.mp ht with rfl | ht
      · exact ⟨hrun.source, hrun.margins⟩
      · exact ih t ht

/-! ## The result -/

/-- The tag of a token that is one. -/
def Token.tag? : Token → Option Tag
  | .text _ _ => none
  | .tag t => some t

/-- The tag tokens of a scan, in the order of the source. -/
def Scan.tags (sc : Scan) : List Tag := sc.tokens.filterMap Token.tag?

theorem Scan.filterMap_tokensFrom (offset : Nat) (rs : List Run) (tail : Text) :
    (tokensFrom offset rs tail).filterMap Token.tag? = rs.map Run.tag := by
  have htext : ∀ (p : Nat) (s : Text), (textToken p s).filterMap Token.tag? = [] := by
    intro p s
    cases s <;> rfl
  induction rs generalizing offset with
  | nil => exact htext offset tail
  | cons r rs ih =>
      rw [tokensFrom, List.filterMap_append, htext, List.map_cons, ← ih (offset + r.source.length)]
      rfl

theorem Scan.tags_eq (sc : Scan) : sc.tags = sc.runs.map Run.tag :=
  filterMap_tokensFrom 0 sc.runs sc.tail

/-- The characters that a standalone tag takes with it: its line before it and after it. -/
def Tag.removed (s : Text) (t : Tag) : Text :=
  s.slice (s.lineStart t.start) t.start ++ s.slice t.stop (s.lineEnd t.stop)

/-- Only blanks and line endings are removed with a standalone tag, and one newline at most. -/
theorem Tag.MarginsIn.removed {s : Text} {t : Tag} {m : Margins} (h : t.MarginsIn s m) :
    (∀ c ∈ t.removed s, c ∈ Margins.alphabet) ∧ (t.removed s).count '\n' ≤ 1 := by
  rw [Tag.removed, ← h.leading, ← h.trailing]
  constructor
  · intro c hc
    rcases List.mem_append.mp hc with hc | hc
    · rcases h.mem_leading c hc with rfl | rfl <;> decide
    · exact h.mem_trailing c hc
  · have hleading : m.leading.count '\n' = 0 := by
      apply List.count_eq_zero.mpr
      intro hc
      rcases h.mem_leading _ hc with heq | heq <;> cases heq
    rw [List.count_append, hleading, Nat.zero_add]
    exact h.count_trailing

/-- The indentation of a tag is its leading margin in the source. -/
theorem Tag.indent_eq {s : Text} {t : Tag} (h : ∀ m, t.margins = some m → t.MarginsIn s m) :
    t.indent = if t.standalone ∧ t.kind ∈ [.partialUse, .parent, .block] then
      some (s.slice (s.lineStart t.start) t.start) else none := by
  have hkind : t.kind.indents = true ↔ t.kind ∈ [.partialUse, .parent, .block] := by
    cases t.kind <;> decide
  unfold indent
  cases hm : t.margins with
  | none =>
      have hstandalone : t.standalone = false := congrArg Option.isSome hm
      simp [hstandalone]
  | some m =>
      have hstandalone : t.standalone = true := congrArg Option.isSome hm
      simp only [hstandalone, true_and, ← hkind, Option.map_some, (h m hm).leading]

/-- **Trimming is exact.** For every text and all usable delimiters under which it scans, trimming keeps
    every tag token once and in the order of the source, and in each gap between two neighbouring tags,
    or between a tag and an end of the text, exactly the source outside the lines of standalone tags.
    What a standalone tag takes with it is blanks and line endings with at most one newline, and the
    tags that have an indentation are the standalone partials, parents and blocks, indented by the text
    between the beginning of their line and them. -/
theorem trim_exact {d : Delimiters} {s : Text} (hd : d.Usable)
    (hok : (Scan.ofText d s).failure = none) :
    (Trimmed.ofScan (Scan.ofText d s)).pieces.map Piece.tag = (Scan.ofText d s).tags ∧
    (∀ gap ∈ (Trimmed.ofScan (Scan.ofText d s)).gaps, gap.Exact s) ∧
    (∀ t ∈ (Scan.ofText d s).tags, t.source = s.slice t.start t.stop) ∧
    (∀ t ∈ (Scan.ofText d s).tags, t.standalone →
      (∀ c ∈ t.removed s, c ∈ Margins.alphabet) ∧ (t.removed s).count '\n' ≤ 1) ∧
    (∀ t ∈ (Scan.ofText d s).tags,
      t.indent = if t.standalone ∧ t.kind ∈ [.partialUse, .parent, .block] then
        some (s.slice (s.lineStart t.start) t.start) else none) := by
  have hlaid := (Scan.scans_ofText d s).laid hd hok (Cut.start s)
  have htags := hlaid.tags
  rw [Scan.tags_eq]
  refine ⟨Piece.map_tag_trim 0 _, ?_, fun t ht => (htags t ht).1, ?_, ?_⟩
  · exact hlaid.gaps none rfl rfl
  · intro t ht hstandalone
    obtain ⟨m, hm⟩ := Option.isSome_iff_exists.mp hstandalone
    exact ((htags t ht).2 m hm).removed
  · exact fun t ht => Tag.indent_eq (htags t ht).2

/-- A section whose three tags have a line each: every gap keeps what is outside these lines, the last of
    which has no newline. -/
theorem trim_exact_three_lines :
    Delimiters.Usable ⟨['|'], ['|']⟩ ∧
      (Scan.ofText ⟨['|'], ['|']⟩ "x\n|#a|\r\n |>p|\n|/a|".toList).failure = none ∧
      (∀ gap ∈ (Trimmed.ofScan (Scan.ofText ⟨['|'], ['|']⟩ "x\n|#a|\r\n |>p|\n|/a|".toList)).gaps,
        gap.Exact "x\n|#a|\r\n |>p|\n|/a|".toList) ∧
      (Trimmed.ofScan (Scan.ofText ⟨['|'], ['|']⟩ "x\n|#a|\r\n |>p|\n|/a|".toList)).gaps.map Gap.kept
        = [['x', '\n'], [], [], []] :=
  ⟨by decide, by decide +kernel, (trim_exact (by decide) (by decide +kernel)).2.1, by decide +kernel⟩

end Mustache

import Mathlib.Data.List.TakeWhile
import Mustache.Proofs.Nesting
import Mustache.Proofs.Tokenization
import Mustache.Proofs.Trimming

/-!
# `Mustache.Proofs.Positions` — rows and columns identify offsets

The index of a text finds the position of an offset by binary search among the newlines. That is the position which one
gets by counting: the row counts the newlines before the offset, and the column the characters since its line began.
Positions grow with offsets, so each belongs to one offset only; and whatever is reported of a template, be it of a tag
or of an error, is reported at the position of an opening delimiter.

* `LineIndex.search_append` — **the search finds where a list is divided** into entries below the target and others;
* `Text.BeginsLine` — where the line of an offset begins, and `Text.beginsLine_lineStart`;
* `LineIndex.position_ofText` — **the index counts**: what the search finds is `Text.position`;
* `Text.position_lt`, `Text.position_inj` — **positions grow with offsets**, in the order of rows and then of columns;
* `Scan.OpensAt` — an offset up to which the first tokens of a text reach, with the opening delimiter in effect after
  them, and `Scan.opensAt_of_mem`, `Scan.opensAt_of_failure`, `Element.opensAt_of_parse` — tags and errors are there;
* `positions_identify` — **the positions of a text**, all of this together.
-/

namespace Mustache

/-! ## The search -/

namespace LineIndex

variable {s : Text} {o n : Nat}

theorem newlineOffsets_append (o : Nat) (s t : Text) :
    newlineOffsets o (s ++ t) = newlineOffsets o s ++ newlineOffsets (o + s.length) t := by
  induction s generalizing o with
  | nil => rfl
  | cons c cs ih =>
      have hlength : o + (c :: cs).length = o + 1 + cs.length := by
        rw [List.length_cons]
        omega
      rw [List.cons_append, newlineOffsets, newlineOffsets, ih, hlength]
      split <;> rfl

theorem length_newlineOffsets (o : Nat) (s : Text) : (newlineOffsets o s).length = s.count '\n' := by
  induction s generalizing o with
  | nil => rfl
  | cons c cs ih =>
      rw [newlineOffsets, List.count_cons]
      by_cases hc : c = '\n'
      · rw [if_pos hc, List.length_cons, ih, if_pos (beq_iff_eq.mpr hc)]
      · rw [if_neg hc, ih, if_neg (fun h => hc (beq_iff_eq.mp h))]
        rfl

theorem bounds_of_mem_newlineOffsets (h : n ∈ newlineOffsets o s) : o ≤ n ∧ n < o + s.length := by
  induction s generalizing o with
  | nil => cases h
  | cons c cs ih =>
      have hrest : n ∈ newlineOffsets (o + 1) cs → o ≤ n ∧ n < o + (c :: cs).length := by
        intro hmem
        have hbounds := ih hmem
        rw [List.length_cons]
        omega
      rw [newlineOffsets] at h
      split at h
      · rcases List.mem_cons.mp h with rfl | hmem
        · exact ⟨Nat.le_refl n, Nat.lt_add_of_pos_right (Nat.succ_pos _)⟩
        · exact hrest hmem
      · exact hrest h

theorem getD_toArray (ns : List Nat) (i : Nat) : ns.toArray.getD i 0 = ns[i]?.getD 0 := by
  rw [Array.getD_eq_getD_getElem?, List.getElem?_toArray]

/-- **The search finds the division.** Where all entries below the target come before all others, it gives their
    number. -/
theorem search_append {below above : List Nat} {target : Int} {lo hi : Nat} (hbelow : ∀ n ∈ below, (n : Int) < target)
    (habove : ∀ n ∈ above, target ≤ (n : Int)) (hlo : lo ≤ below.length) (hhi : below.length ≤ hi)
    (hsize : hi ≤ (below ++ above).length) : search (below ++ above).toArray target lo hi = below.length := by
  -- the bounds move towards each other, and the division stays between them
  fun_induction search (below ++ above).toArray target lo hi with
  | case1 lo hi hlt mid hmid ih =>
      refine ih ?_ hhi hsize
      apply Nat.lt_of_not_le
      intro hle
      have hin : mid - below.length < above.length := by
        rw [List.length_append] at hsize
        omega
      rw [getD_toArray, List.getElem?_append_right hle, List.getElem?_eq_getElem hin, Option.getD_some] at hmid
      have hge := habove _ (List.getElem_mem hin)
      omega
  | case2 lo hi hlt mid hmid ih =>
      refine ih hlo ?_ (by omega)
      apply Nat.le_of_not_lt
      intro hin
      rw [getD_toArray, List.getElem?_append_left hin, List.getElem?_eq_getElem hin, Option.getD_some] at hmid
      exact hmid (hbelow _ (List.getElem_mem hin))
  | case3 lo hi hlt => omega

end LineIndex

/-! ## Counting -/

namespace Text

variable {s pre rest before line : Text} {o start : Nat}

/-- The line of an offset begins at `start`: there is no newline in between, and one before it unless the text begins
    there. -/
structure BeginsLine (s : Text) (o start : Nat) : Prop where
  le : start ≤ o
  inside : '\n' ∉ s.slice start o
  before : start = 0 ∨ s[start - 1]? = some '\n'

/-- A text is on one line, or it ends with what follows its last newline. -/
theorem lastLine_cases (s : Text) : '\n' ∉ s ∨ ∃ before line, s = before ++ '\n' :: line ∧ '\n' ∉ line := by
  induction s with
  | nil => exact Or.inl List.not_mem_nil
  | cons c cs ih =>
      rcases ih with hclear | ⟨before, line, rfl, hline⟩
      · by_cases hc : c = '\n'
        · exact Or.inr ⟨[], cs, by rw [hc]; rfl, hclear⟩
        · exact Or.inl fun hmem => (List.mem_cons.mp hmem).elim (fun h => hc h.symm) hclear
      · exact Or.inr ⟨c :: before, line, rfl, hline⟩

theorem takeWhile_reverse_of_not_mem (h : '\n' ∉ line) : line.reverse.takeWhile (· != '\n') = line.reverse := by
  rw [List.takeWhile_eq_self_iff]
  intro c hc
  rw [bne_iff_ne]
  rintro rfl
  exact h (List.mem_reverse.mp hc)

theorem lineStart_of_not_mem (h : '\n' ∉ pre) : (pre ++ rest).lineStart pre.length = 0 := by
  rw [lineStart_append, takeWhile_reverse_of_not_mem h, List.length_reverse, Nat.sub_self]

theorem lineStart_of_newline (h : '\n' ∉ line) :
    (before ++ '\n' :: line ++ rest).lineStart (before ++ '\n' :: line).length = before.length + 1 := by
  rw [lineStart_append, List.reverse_append, List.reverse_cons, List.append_assoc, List.singleton_append,
    takeWhile_newline_cons, takeWhile_reverse_of_not_mem h, List.length_reverse, List.length_append, List.length_cons]
  omega

/-- Where the line of an offset begins. -/
theorem beginsLine_append (pre rest : Text) :
    (pre ++ rest).BeginsLine pre.length ((pre ++ rest).lineStart pre.length) := by
  rcases lastLine_cases pre with hclear | ⟨before, line, rfl, hline⟩
  · rw [lineStart_of_not_mem hclear]
    exact ⟨Nat.zero_le _, by rwa [slice, List.take_left, List.drop_zero], Or.inl rfl⟩
  · rw [lineStart_of_newline hline]
    constructor
    · rw [List.length_append, List.length_cons]
      omega
    · have hsplit : before ++ '\n' :: line = (before ++ ['\n']) ++ line := by simp
      have hlength : before.length + 1 = (before ++ ['\n']).length := by simp
      rwa [slice, List.take_left, hsplit, hlength, List.drop_left]
    · apply Or.inr
      rw [Nat.add_sub_cancel, List.append_assoc, List.getElem?_append_right (Nat.le_refl _), Nat.sub_self]
      rfl

theorem beginsLine_lineStart (h : o ≤ s.length) : s.BeginsLine o (s.lineStart o) := by
  have hbegins := beginsLine_append (s.take o) (s.drop o)
  rwa [List.take_append_drop, List.length_take_of_le h] at hbegins

end Text

namespace LineIndex

variable {s : Text} {o : Nat}

/-- The newlines before an offset, and those from it on. -/
theorem newlines_append (pre rest : Text) :
    (ofText (pre ++ rest)).newlines = (newlineOffsets 0 pre ++ newlineOffsets pre.length rest).toArray := by
  rw [ofText, newlineOffsets_append, Nat.zero_add]

/-- The search counts the newlines before an offset. -/
theorem search_newlines (pre rest : Text) :
    search (ofText (pre ++ rest)).newlines pre.length 0 (ofText (pre ++ rest)).newlines.size = pre.count '\n' := by
  rw [newlines_append, ← length_newlineOffsets 0 pre]
  apply search_append
  · intro n hn
    have hbounds := bounds_of_mem_newlineOffsets hn
    omega
  · intro n hn
    have hbounds := bounds_of_mem_newlineOffsets hn
    omega
  · exact Nat.zero_le _
  · rw [List.size_toArray, List.length_append]
    exact Nat.le_add_right _ _
  · exact Nat.le_of_eq List.size_toArray

/-- The entry of the newline before the line of an offset. -/
theorem getD_newlines (before line rest : Text) :
    (ofText (before ++ '\n' :: line ++ rest)).newlines.getD (before.count '\n') 0 = before.length := by
  have hentry : newlineOffsets 0 (before ++ '\n' :: line)
      = newlineOffsets 0 before ++ before.length :: newlineOffsets (before.length + 1) line := by
    rw [newlineOffsets_append, Nat.zero_add, newlineOffsets, if_pos rfl]
  rw [newlines_append, getD_toArray, hentry, List.append_assoc, ← length_newlineOffsets 0 before,
    List.getElem?_append_right (Nat.le_refl _), Nat.sub_self]
  rfl

theorem position_append (pre rest : Text) :
    (ofText (pre ++ rest)).position pre.length
      = (((pre ++ rest).position pre.length).1, (((pre ++ rest).position pre.length).2 : Int)) := by
  unfold position Text.position
  rw [search_newlines, List.take_left]
  dsimp only
  rcases Text.lastLine_cases pre with hclear | ⟨before, line, rfl, hline⟩
  · rw [List.count_eq_zero.mpr hclear, if_pos rfl, Text.lineStart_of_not_mem hclear]
    simp
  · have hcount : (before ++ '\n' :: line).count '\n' = before.count '\n' + 1 := by
      rw [List.count_append, List.count_cons_self, List.count_eq_zero.mpr hline]
    have hle := (Text.beginsLine_append (before ++ '\n' :: line) rest).le
    rw [Text.lineStart_of_newline hline] at hle ⊢
    rw [hcount, if_neg (Nat.succ_ne_zero _), Nat.add_sub_cancel, getD_newlines]
    exact Prod.ext rfl (by dsimp only; omega)

/-- **The index counts.** Up to the end of a text, the position that the search finds is the one that is counted. -/
theorem position_ofText (h : o ≤ s.length) :
    (ofText s).position o = ((s.position o).1, ((s.position o).2 : Int)) := by
  have hposition := position_append (s.take o) (s.drop o)
  rwa [List.take_append_drop, List.length_take_of_le h] at hposition

end LineIndex

/-! ## Order -/

namespace Text

variable {s : Text} {a b i o₁ o₂ : Nat}

theorem mem_slice {c : Char} (hc : s[i]? = some c) (ha : a ≤ i) (hb : i < b) : c ∈ s.slice a b := by
  have hget : (s.slice a b)[i - a]? = some c := by
    rw [slice, List.getElem?_drop, Nat.add_sub_cancel' ha, List.getElem?_take_of_lt hb, hc]
  exact List.mem_of_getElem? hget

/-- Without a newline in between, the line of a later offset does not begin later. -/
theorem BeginsLine.start_le {start₁ start₂ : Nat} (h₁ : s.BeginsLine o₁ start₁) (h₂ : s.BeginsLine o₂ start₂)
    (hbetween : '\n' ∉ s.slice o₁ o₂) : start₂ ≤ start₁ := by
  apply Nat.le_of_not_lt
  intro hlt
  have hnewline : s[start₂ - 1]? = some '\n' := h₂.before.resolve_left (by omega)
  -- the newline before the later line stands on the line of the earlier offset, or between the offsets
  have hle := h₂.le
  by_cases hbefore : start₂ - 1 < o₁
  · exact h₁.inside (mem_slice hnewline (by omega) hbefore)
  · exact hbetween (mem_slice hnewline (by omega) (by omega))

/-- **Positions grow with offsets.** -/
theorem position_lt (hlt : o₁ < o₂) (hle : o₂ ≤ s.length) :
    (s.position o₁).1 < (s.position o₂).1 ∨
      (s.position o₁).1 = (s.position o₂).1 ∧ (s.position o₁).2 < (s.position o₂).2 := by
  have hcount : (s.take o₂).count '\n' = (s.take o₁).count '\n' + (s.slice o₁ o₂).count '\n' := by
    rw [← List.count_append]
    exact congrArg (List.count '\n') (slice_append_slice (Nat.zero_le o₁) (Nat.le_of_lt hlt)).symm
  unfold position
  dsimp only
  by_cases hmem : '\n' ∈ s.slice o₁ o₂
  · have hpos := List.count_pos_iff.mpr hmem
    exact Or.inl (by omega)
  · rw [List.count_eq_zero.mpr hmem] at hcount
    have hline₁ := beginsLine_lineStart (Nat.le_trans (Nat.le_of_lt hlt) hle)
    have hstarts := hline₁.start_le (beginsLine_lineStart hle) hmem
    have hle₁ := hline₁.le
    exact Or.inr ⟨by omega, by omega⟩

/-- **A position belongs to one offset.** -/
theorem position_inj (h₁ : o₁ ≤ s.length) (h₂ : o₂ ≤ s.length) (h : s.position o₁ = s.position o₂) : o₁ = o₂ := by
  rcases Nat.lt_trichotomy o₁ o₂ with hlt | heq | hlt
  · have hgrows := position_lt hlt h₂
    rw [h] at hgrows
    omega
  · exact heq
  · have hgrows := position_lt hlt h₁
    rw [h] at hgrows
    omega

end Text

/-! ## Tags and errors -/

/-- The tokens before a token reach up to it. -/
theorem Tiles.of_append {p stop : Nat} {l : Lexeme} {ls ms : List Lexeme} (h : Tiles p stop (ls ++ l :: ms)) :
    Tiles p l.start ls := by
  induction ls generalizing p with
  | nil =>
      cases h with
      | cons hstart hlt hrest => exact hstart ▸ .nil
  | cons k ks ih =>
      cases h with
      | cons hstart hlt hrest => exact .cons hstart hlt (ih hrest)

namespace Scan

/-- The first tokens of a text reach up to an offset, and the opening delimiter in effect after them stands there. -/
def OpensAt (d : Delimiters) (s : Text) (o : Nat) : Prop :=
  ∃ before, before <+: (ofText d s).tokens ∧ Tiles 0 o (before.map Token.lexeme) ∧
    s.OccursAt (Lexeme.inEffect d (before.map Token.lexeme)).opening o

variable {d : Delimiters} {s : Text} {t : Tag} {e : SyntaxError}

/-- **A tag stands where its row and column say**, at an opening delimiter in effect. -/
theorem opensAt_of_mem (h : t ∈ (ofText d s).tags) :
    t.start ≤ s.length ∧ OpensAt d s t.start ∧ (t.row, t.col) = s.position t.start := by
  obtain ⟨stop, htokens, -⟩ := (scans_ofText d s).tokenizes
  rw [List.nil_append] at htokens
  have htoken : Token.tag t ∈ (ofText d s).tokens := by
    obtain ⟨token, htoken, htag⟩ := List.mem_filterMap.mp h
    cases token with
    | text a b => cases htag
    | tag t' => exact Option.some.inj htag ▸ htoken
  -- the tokens before the tag cover the text up to it
  obtain ⟨before, after, hsplit⟩ := List.append_of_mem htoken
  have hlexemes : (tokensFrom 0 (ofText d s).runs (ofText d s).tail).map Token.lexeme
      = before.map Token.lexeme ++ .tag t.span :: after.map Token.lexeme := by
    show (ofText d s).tokens.map Token.lexeme = _
    rw [hsplit, List.map_append, List.map_cons]
    rfl
  obtain ⟨bodyStop, hat⟩ := htokens.tags _ _ _ hlexemes
  have hreach := htokens.tiles
  rw [List.length_nil, hlexemes] at hreach
  rw [tags_eq] at h
  obtain ⟨r, hr, rfl⟩ := List.mem_map.mp h
  obtain ⟨pre, d', text, rest, hs, -, htag⟩ := (scans_ofText d s).placed r hr
  rw [List.nil_append, List.append_assoc] at hs
  have hstart : r.tag.start = pre.length := by rw [htag, Tag.start_place]
  refine ⟨?_, ⟨before, hsplit ▸ List.prefix_append before _, hreach.of_append, hat.opening⟩, ?_⟩
  · rw [hstart, hs, List.length_append]
    exact Nat.le_add_right _ _
  · rw [hstart, htag, hs]
    exact Cursor.position_start_advance

/-- **A scan fails where the row and the column say**, at an opening delimiter in effect. -/
theorem opensAt_of_failure (h : (ofText d s).failure = some e) :
    ∃ o, o ≤ s.length ∧ OpensAt d s o ∧ (e.row, e.col) = s.position o := by
  obtain ⟨stop, htokens, hend⟩ := (scans_ofText d s).tokenizes
  rw [List.nil_append, h] at hend
  obtain ⟨hlt, hopening, hposition⟩ := hend
  exact ⟨stop, Nat.le_of_lt hlt, ⟨(ofText d s).tokens, List.prefix_refl _, htokens.tiles, hopening⟩, hposition⟩

end Scan

/-- The first fault of some tags is reported at one of them. -/
theorem FirstFault.exists_mem {ts : List Tag} {e : SyntaxError} (h : FirstFault ts e) :
    ∃ t ∈ ts, e.row = t.row ∧ e.col = t.col := by
  cases h with
  | @unexpected pre post c hts hpre hclose => exact ⟨c, hts ▸ List.mem_append_right pre List.mem_cons_self, rfl, rfl⟩
  | @mismatched pre post os c o hts hpre hclose hkey =>
      exact ⟨c, hts ▸ List.mem_append_right pre List.mem_cons_self, rfl, rfl⟩
  | @unclosed os o hts =>
      cases hts with
      | @opened pre us os t hpre hopens hus => exact ⟨o, List.mem_append_right pre List.mem_cons_self, rfl, rfl⟩

/-- **An error of a template is reported at an opening delimiter**: where the scan fails, or at a tag. -/
theorem Element.opensAt_of_parse {d : Delimiters} {s : Text} {e : SyntaxError} (h : Element.parse d s = .error e) :
    ∃ o, o ≤ s.length ∧ Scan.OpensAt d s o ∧ (e.row, e.col) = s.position o := by
  unfold Element.parse at h
  dsimp only at h
  split at h
  · rename_i e' hfailure
    cases h
    exact Scan.opensAt_of_failure hfailure
  · -- a fault of nesting is reported at a tag, and to trim the text between tags leaves the tags
    obtain ⟨t, ht, hrow, hcol⟩ := (Assembly.run_eq_error_iff.mp h).exists_mem
    have htags : (Trimmed.ofScan (Scan.ofText d s)).pieces.map Piece.tag = (Scan.ofText d s).tags :=
      (Piece.map_tag_trim 0 _).trans (Scan.tags_eq _).symm
    rw [htags] at ht
    obtain ⟨hle, hopens, hposition⟩ := Scan.opensAt_of_mem ht
    exact ⟨t.start, hle, hopens, by rw [hrow, hcol, hposition]⟩

/-- **The positions of a text.** Whatever the delimiters: up to the end of the text, the position of an offset that the
    index finds by search is the number of newlines before it, and the distance to the beginning of its line, both from
    one on; a later offset has a greater position, in the order of rows and then of columns, so that equal positions
    mean equal offsets; and the row and the column of every tag, and of every error of a scan or of a parse, are the
    position of an offset at which the opening delimiter in effect stands. -/
theorem positions_identify (d : Delimiters) (s : Text) :
    let index := LineIndex.ofText s
    (∀ o ≤ s.length, s.BeginsLine o (s.lineStart o) ∧
      index.position o = (1 + (s.take o).count '\n', (1 + (o - s.lineStart o) : Int))) ∧
    (∀ o₁ o₂, o₁ < o₂ → o₂ ≤ s.length → Prod.Lex (· < ·) (· < ·) (index.position o₁) (index.position o₂)) ∧
    (∀ o₁ ≤ s.length, ∀ o₂ ≤ s.length, index.position o₁ = index.position o₂ → o₁ = o₂) ∧
    (∀ t ∈ (Scan.ofText d s).tags, Scan.OpensAt d s t.start ∧ index.position t.start = (t.row, (t.col : Int))) ∧
    (∀ e, (Scan.ofText d s).failure = some e ∨ Element.parse d s = .error e →
      ∃ o ≤ s.length, Scan.OpensAt d s o ∧ index.position o = (e.row, (e.col : Int))) := by
  intro index
  have hcounts : ∀ o ≤ s.length, index.position o = ((s.position o).1, ((s.position o).2 : Int)) :=
    fun o ho => LineIndex.position_ofText ho
  have hgrows : ∀ o₁ o₂, o₁ < o₂ → o₂ ≤ s.length →
      Prod.Lex (· < ·) (· < ·) (index.position o₁) (index.position o₂) := by
    intro o₁ o₂ hlt hle
    rw [hcounts o₁ (Nat.le_trans (Nat.le_of_lt hlt) hle), hcounts o₂ hle, Prod.lex_def]
    exact (Text.position_lt hlt hle).imp id fun h => ⟨h.1, Int.ofNat_lt.mpr h.2⟩
  refine ⟨fun o ho => ?_, hgrows, fun o₁ ho₁ o₂ ho₂ heq => ?_, fun t ht => ?_, fun e he => ?_⟩
  · have hline := Text.beginsLine_lineStart ho
    refine ⟨hline, ?_⟩
    have hle := hline.le
    rw [hcounts o ho, Text.position]
    exact Prod.ext (Nat.add_comm _ 1) (by dsimp only; omega)
  · rw [hcounts o₁ ho₁, hcounts o₂ ho₂] at heq
    obtain ⟨hrow, hcol⟩ := Prod.mk.inj heq
    exact Text.position_inj ho₁ ho₂ (Prod.ext hrow (Int.ofNat_inj.mp hcol))
  · obtain ⟨hle, hopens, hposition⟩ := Scan.opensAt_of_mem ht
    exact ⟨hopens, by rw [hcounts _ hle, ← hposition]⟩
  · have hopens : ∃ o, o ≤ s.length ∧ Scan.OpensAt d s o ∧ (e.row, e.col) = s.position o :=
      he.elim Scan.opensAt_of_failure Element.opensAt_of_parse
    obtain ⟨o, hle, hopens, hposition⟩ := hopens
    exact ⟨o, hle, hopens, by rw [hcounts o hle, ← hposition]⟩

end Mustache

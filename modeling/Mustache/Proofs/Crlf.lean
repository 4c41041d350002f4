import Mustache.Proofs.Margins
import Mustache.Proofs.Reading

/-!
# `Mustache.Proofs.Crlf` — carriage returns in texts and tags

A template may end its lines with a newline or with a carriage return and a newline. `Text.crlf` changes the first
into the second. Delimiters and keys have no white space, the white space around them may be any, and a trailing
margin includes either line ending; so a tag is found, read and placed as before.

* `Text.breakOn_crlf`, `Text.strip_crlf`, `Text.words_crlf` — searching, stripping and taking words commute with the
  change, each by the character: a newline and what stands for it are white space, all else stays;
* `TagText.read_crlf` — **a tag is read as before**, with its content and source changed;
* `Margins.trailing?_crlf`, `Tag.place_crlf` — **and it is placed as before**: in the same row and column, with the
  same leading margin.
-/

namespace Mustache

/-! ## Texts -/

namespace Text

/-- What stands for a character: carriage return and newline for a newline, and the character itself else. -/
def crlfChar (c : Char) : Text := if c = '\n' then ['\r', '\n'] else [c]

/-- The text with a carriage return before each newline. -/
def crlf (s : Text) : Text := s.flatMap crlfChar

variable {s t pat : Text} {c : Char}

theorem crlf_newline (s : Text) : crlf ('\n' :: s) = '\r' :: '\n' :: crlf s := rfl

theorem crlf_cons (hc : c ≠ '\n') (s : Text) : crlf (c :: s) = c :: crlf s := by
  rw [crlf, List.flatMap_cons, crlfChar, if_neg hc]
  rfl

theorem crlf_append (s t : Text) : crlf (s ++ t) = crlf s ++ crlf t := List.flatMap_append

/-- Text within a line stays as it is. -/
theorem crlf_of_not_mem (h : '\n' ∉ s) : crlf s = s := by
  induction s with
  | nil => rfl
  | cons c s ih =>
      have hc : c ≠ '\n' := fun heq => h (heq ▸ List.mem_cons_self)
      rw [crlf_cons hc, ih fun hmem => h (List.mem_cons_of_mem _ hmem)]

theorem Solid.crlf_eq (h : Solid s) : crlf s = s := by
  apply crlf_of_not_mem
  intro hmem
  have hspace := h _ hmem
  cases hspace

theorem length_crlf (s : Text) : (crlf s).length = s.length + s.count '\n' := by
  induction s with
  | nil => rfl
  | cons c s ih =>
      by_cases hc : c = '\n'
      · subst hc
        simp only [crlf_newline, List.length_cons, List.count_cons_self, ih]
        omega
      · simp only [crlf_cons hc, List.length_cons, List.count_cons_of_ne hc, ih]
        omega

theorem count_crlf (s : Text) : (crlf s).count '\n' = s.count '\n' := by
  induction s with
  | nil => rfl
  | cons c s ih =>
      by_cases hc : c = '\n'
      · subst hc
        rw [crlf_newline, List.count_cons_of_ne (by decide), List.count_cons_self, List.count_cons_self, ih]
      · rw [crlf_cons hc, List.count_cons_of_ne hc, List.count_cons_of_ne hc, ih]

theorem isEmpty_crlf (s : Text) : (crlf s).isEmpty = s.isEmpty := by
  cases s with
  | nil => rfl
  | cons c s =>
      by_cases hc : c = '\n'
      · rw [hc]
        rfl
      · rw [crlf_cons hc]
        rfl

/-! ### White space -/

/-- Characters that are dropped may be replaced by any that are. -/
theorem dropWhile_flatMap {p : Char → Bool} {f : Char → Text} (hdrop : ∀ c, p c = true → ∀ x ∈ f c, p x = true)
    (hkeep : ∀ c, p c = false → f c = [c]) (s : Text) : (s.flatMap f).dropWhile p = (s.dropWhile p).flatMap f := by
  induction s with
  | nil => rfl
  | cons c s ih =>
      rw [List.flatMap_cons]
      cases hc : p c with
      | true => rw [List.dropWhile_append_of_pos (hdrop c hc), ih, List.dropWhile_cons_of_pos hc]
      | false =>
          have hpc : ¬ p c = true := Bool.eq_false_iff.mp hc
          rw [hkeep c hc, List.singleton_append, List.dropWhile_cons_of_neg hpc, List.dropWhile_cons_of_neg hpc,
            List.flatMap_cons, hkeep c hc]
          rfl

/-- Characters that end what is taken may be followed by any. -/
theorem takeWhile_flatMap {p : Char → Bool} {f : Char → Text} (htake : ∀ c, p c = true → f c = [c])
    (hend : ∀ c, p c = false → ∃ t, f c = c :: t) (s : Text) : (s.flatMap f).takeWhile p = s.takeWhile p := by
  induction s with
  | nil => rfl
  | cons c s ih =>
      rw [List.flatMap_cons]
      cases hc : p c with
      | true =>
          rw [htake c hc, List.singleton_append, List.takeWhile_cons_of_pos hc, List.takeWhile_cons_of_pos hc, ih]
      | false =>
          obtain ⟨t, ht⟩ := hend c hc
          have hpc : ¬ p c = true := Bool.eq_false_iff.mp hc
          rw [ht, List.cons_append, List.takeWhile_cons_of_neg hpc, List.takeWhile_cons_of_neg hpc]

theorem isSpace_of_mem_crlfChar (hc : isSpace c = true) : ∀ x ∈ crlfChar c, isSpace x = true := by
  intro x hx
  unfold crlfChar at hx
  split at hx
  · simp only [List.mem_cons, List.not_mem_nil, or_false] at hx
    rcases hx with rfl | rfl <;> rfl
  · rw [List.mem_singleton.mp hx]
    exact hc

theorem crlfChar_of_not_isSpace (hc : isSpace c = false) : crlfChar c = [c] := by
  apply if_neg
  rintro rfl
  cases hc

theorem reverse_crlf (s : Text) : (crlf s).reverse = s.reverse.flatMap fun c => (crlfChar c).reverse :=
  List.reverse_flatMap ..

theorem strip_crlf (s : Text) : strip (crlf s) = crlf (strip s) := by
  have hleft : ∀ s, stripLeft (crlf s) = crlf (stripLeft s) :=
    dropWhile_flatMap (fun _ => isSpace_of_mem_crlfChar) fun _ => crlfChar_of_not_isSpace
  have hright : ∀ s, stripRight (crlf s) = crlf (stripRight s) := by
    intro s
    have hdrop : ((crlf s).reverse).dropWhile isSpace
        = (s.reverse.dropWhile isSpace).flatMap fun c => (crlfChar c).reverse := by
      rw [reverse_crlf]
      apply dropWhile_flatMap
      · exact fun c hc x hx => isSpace_of_mem_crlfChar hc x (List.mem_reverse.mp hx)
      · exact fun c hc => congrArg List.reverse (crlfChar_of_not_isSpace hc)
    have hback := reverse_crlf (s.reverse.dropWhile isSpace).reverse
    rw [List.reverse_reverse] at hback
    rw [stripRight, hdrop, ← hback, List.reverse_reverse]
    rfl
  rw [strip, hleft, hright]
  rfl

theorem any_isSpace_crlf (s : Text) : (crlf s).any isSpace = s.any isSpace := by
  have hchar : ∀ c, (crlfChar c).any isSpace = isSpace c := by
    intro c
    unfold crlfChar
    split
    · rename_i hc
      rw [hc]
      rfl
    · simp
  rw [crlf, List.any_flatMap]
  exact congrArg s.any (funext hchar)

/-- What the words of a text are shows in the words of the rest and in what the rest begins with. -/
theorem words_cons_congr (hwords : words s = words t) (hhead : s.head?.map isSpace = t.head?.map isSpace) :
    words (c :: s) = words (c :: t) := by
  cases s with
  | nil =>
      cases t with
      | nil => rfl
      | cons d t => cases hhead
  | cons d s =>
      cases t with
      | nil => cases hhead
      | cons e t =>
          have hspace : isSpace d = isSpace e := Option.some.inj hhead
          unfold words
          simp only [hspace, hwords]

theorem words_crlf (s : Text) : words (crlf s) = words s := by
  induction s with
  | nil => rfl
  | cons c s ih =>
      by_cases hc : c = '\n'
      · have hcr : ∀ t, words ('\r' :: '\n' :: t) = words t := fun _ => rfl
        have hnewline : ∀ t, words ('\n' :: t) = words t := fun _ => rfl
        rw [hc, crlf_newline]
        exact (hcr _).trans (ih.trans (hnewline s).symm)
      · rw [crlf_cons hc]
        refine words_cons_congr ih ?_
        cases s with
        | nil => rfl
        | cons d s =>
            by_cases hd : d = '\n'
            · rw [hd]
              rfl
            · rw [crlf_cons hd]
              rfl

/-! ### Searching -/

theorem Solid.prefix_crlf_iff (h : Solid pat) : pat <+: crlf s ↔ pat <+: s := by
  induction pat generalizing s with
  | nil => exact iff_of_true List.nil_prefix List.nil_prefix
  | cons p pat ih =>
      have hp : isSpace p = false := h p List.mem_cons_self
      cases s with
      | nil => exact Iff.rfl
      | cons c s =>
          by_cases hc : c = '\n'
          · rw [hc, crlf_newline, List.cons_prefix_cons, List.cons_prefix_cons]
            constructor
            · rintro ⟨rfl, -⟩
              cases hp
            · rintro ⟨rfl, -⟩
              cases hp
          · rw [crlf_cons hc, List.cons_prefix_cons, List.cons_prefix_cons,
              ih fun x hx => h x (List.mem_cons_of_mem _ hx)]

/-- A pattern without white space is found in the same place. -/
theorem breakOn_crlf (hpat : Solid pat) (s : Text) :
    breakOn pat (crlf s) = (breakOn pat s).map fun cut => (crlf cut.1, crlf cut.2) := by
  induction s with
  | nil =>
      show (if pat.isEmpty then _ else _) = Option.map _ (if pat.isEmpty then _ else _)
      split <;> rfl
  | cons c s ih =>
      by_cases hp : pat <+: c :: s
      · obtain ⟨after, hafter⟩ := hp
        have hcrlf : crlf (c :: s) = pat ++ crlf after := by rw [← hafter, crlf_append, hpat.crlf_eq]
        rw [hcrlf, ← hafter, breakOn_here (List.prefix_append _ _), breakOn_here (List.prefix_append _ _),
          List.drop_left, List.drop_left]
        rfl
      · rw [breakOn_later hp, Option.map_map]
        -- no occurrence begins at a carriage return or a newline
        have hlater : ∀ {x : Char} {u : Text}, isSpace x = true → ¬ pat <+: x :: u := by
          rintro x u hx hprefix
          cases pat with
          | nil => exact hp List.nil_prefix
          | cons p pat =>
              obtain rfl := (List.cons_prefix_cons.mp hprefix).1
              have hsolid := hpat p List.mem_cons_self
              rw [hx] at hsolid
              cases hsolid
        by_cases hc : c = '\n'
        · rw [hc, crlf_newline, breakOn_later (hlater rfl), breakOn_later (hlater rfl), ih, Option.map_map,
            Option.map_map]
          rfl
        · have hp' : ¬ pat <+: c :: crlf s := by
            rw [← crlf_cons hc, hpat.prefix_crlf_iff]
            exact hp
          rw [crlf_cons hc, breakOn_later hp', ih, Option.map_map]
          refine congrArg (Option.map · _) (funext fun cut => ?_)
          exact congrArg (·, _) (crlf_cons hc _).symm

/-- The leftmost occurrence of a pattern stays the leftmost one. -/
theorem Clear.crlf {lead rest : Text} (hpat : Solid pat) (h : Clear pat lead (pat ++ rest)) :
    Text.crlf (lead ++ (pat ++ rest)) = Text.crlf lead ++ (pat ++ Text.crlf rest) ∧
      Clear pat (Text.crlf lead) (pat ++ Text.crlf rest) := by
  have hcut := breakOn_crlf hpat (lead ++ (pat ++ rest))
  rw [breakOn_eq_some_iff.mpr ⟨rfl, h⟩] at hcut
  exact breakOn_eq_some_iff.mp hcut

end Text

/-! ## Tags -/

/-- Whether what a tag of this kind holds is a key. -/
def TagKind.keyed : TagKind → Bool
  | .comment | .delimiters => false
  | _ => true

/-- The same fault in a template with carriage returns. -/
def SyntaxFault.crlf : SyntaxFault → SyntaxFault
  | .invalidKey content => .invalidKey content.crlf
  | .invalidDeclaration content => .invalidDeclaration content.crlf
  | f => f

theorem SyntaxFault.kind_crlf (f : SyntaxFault) : f.crlf.kind = f.kind := by
  cases f <;> rfl

namespace TagText

/-- The same tag in a template with carriage returns. A key stays what it is. -/
def crlf (t : TagText) : TagText :=
  { t with key := if t.kind.keyed then t.key else t.key.crlf, source := t.source.crlf }

/-- What the first character of a tag decides stays as it is. -/
theorem first_crlf (d : Delimiters) (inner : Text) :
    TagKind.ofText inner.crlf = TagKind.ofText inner ∧ sigilOf inner.crlf = sigilOf inner ∧
      closingFor d inner.crlf = closingFor d inner := by
  cases inner with
  | nil => exact ⟨rfl, rfl, rfl⟩
  | cons c s =>
      by_cases hc : c = '\n'
      · rw [hc]
        exact ⟨rfl, rfl, rfl⟩
      · have hne : [c] ≠ [] := List.cons_ne_nil _ _
        have hsplit : ∀ u : Text, c :: u = [c] ++ u := fun _ => rfl
        rw [Text.crlf_cons hc, hsplit s, hsplit (Text.crlf s), ofText_append hne, ofText_append hne, sigilOf_append hne,
          sigilOf_append hne, closingFor_append hne, closingFor_append hne]
        exact ⟨rfl, rfl, rfl⟩

/-- A sigil is no newline. -/
theorem crlf_sigilOf (inner : Text) : (sigilOf inner).crlf = sigilOf inner := by
  apply Text.crlf_of_not_mem
  intro hmem
  unfold sigilOf at hmem
  split at hmem
  · cases hmem
  · rename_i hkind
    cases inner with
    | nil => cases hmem
    | cons c s =>
        obtain rfl := List.mem_singleton.mp hmem
        exact hkind rfl

theorem declared?_crlf (content : Text) : declared? content.crlf = declared? content := by
  rw [declared?, declared?, Text.words_crlf]

theorem ofContent_crlf (kind : TagKind) (source content : Text) :
    ofContent kind source.crlf content.crlf
      = ((ofContent kind source content).map crlf).mapError SyntaxFault.crlf := by
  unfold ofContent
  dsimp only
  rw [Text.strip_crlf, declared?_crlf]
  split
  · rfl
  · split <;> rfl
  · rw [Text.isEmpty_crlf, Text.any_isSpace_crlf]
    split
    · rfl
    · split
      · rfl
      · rename_i hspace
        -- a key has no white space, so no newline either
        have hkey : (Text.strip content).crlf = Text.strip content := by
          apply Text.crlf_of_not_mem
          intro hmem
          exact hspace (List.any_eq_true.mpr ⟨_, hmem, rfl⟩)
        have htag : crlf ⟨kind, Text.strip content, source, none⟩
            = ⟨kind, Text.strip content, source.crlf, none⟩ := by
          simp only [crlf, hkey, ite_self]
        rw [hkey]
        exact congrArg Except.ok htag.symm

/-- **A tag is read as before.** -/
theorem read_crlf {d : Delimiters} (hd : d.Usable) (inner : Text) :
    read d inner.crlf
      = ((read d inner).map fun out => (out.1.crlf, out.2.crlf)).mapError SyntaxFault.crlf := by
  obtain ⟨hkind, hsigil, hclosing⟩ := first_crlf d inner
  have hdrop : inner.crlf.drop (sigilOf inner).length = Text.crlf (inner.drop (sigilOf inner).length) := by
    have hsplit := congrArg Text.crlf (sigilOf_append_drop inner)
    rw [Text.crlf_append, crlf_sigilOf] at hsplit
    rw [← hsplit, List.drop_left]
  rw [read_eq, read_eq, hkind, hsigil, hclosing, hdrop, Text.breakOn_crlf (solid_closingFor hd inner)]
  cases Text.breakOn (closingFor d inner) (inner.drop (sigilOf inner).length) with
  | none => rfl
  | some cut =>
      obtain ⟨content, rest⟩ := cut
      have hsource : sigilOf inner ++ content.crlf ++ closingFor d inner
          = (sigilOf inner ++ content ++ closingFor d inner).crlf := by
        rw [Text.crlf_append, Text.crlf_append, crlf_sigilOf, (solid_closingFor hd inner).crlf_eq]
      dsimp only [Option.map]
      rw [hsource, ofContent_crlf]
      cases ofContent (TagKind.ofText inner) (sigilOf inner ++ content ++ closingFor d inner) content <;> rfl

end TagText

/-! ## Places and margins -/

/-- A place is as many characters further on as newlines have been passed, in the same row and column. -/
theorem Cursor.start_advance_crlf (pre : Text) :
    start.advance pre.crlf
      = { start.advance pre with offset := (start.advance pre).offset + ((start.advance pre).row - 1) } := by
  have hline : (pre.crlf.reverse ++ []).takeWhile (· != '\n') = (pre.reverse ++ []).takeWhile (· != '\n') := by
    rw [List.append_nil, List.append_nil, Text.reverse_crlf]
    apply Text.takeWhile_flatMap
    · intro c hc
      have hne : c ≠ '\n' := by simpa using hc
      rw [Text.crlfChar, if_neg hne]
      rfl
    · intro c hc
      obtain rfl : c = '\n' := by simpa using hc
      exact ⟨['\r'], rfl⟩
  simp only [advance, start, Text.length_crlf, Text.count_crlf, hline, Cursor.mk.injEq, and_true]
  omega

namespace Margins

/-- The same margins in a template with carriage returns. The leading margin is within a line. -/
def crlf (m : Margins) : Margins := ⟨m.leading, m.trailing.crlf⟩

/-- **A carriage return before the newline belongs to the margin.** -/
theorem trailing?_crlf {after : Text} (hcr : '\r' ∉ after) : trailing? after.crlf = (trailing? after).map Text.crlf := by
  have hsplit := Text.takeWhile_append_newline after
  have hline : '\n' ∉ after.takeWhile (· != '\n') := fun hmem => Text.mem_takeWhile_newline hmem rfl
  generalize after.takeWhile (· != '\n') = line at hsplit hline
  rcases Text.dropWhile_newline after with hlast | ⟨later, hlater⟩
  · -- the text ends within its first line
    rw [hlast, List.append_nil] at hsplit
    subst hsplit
    rw [Text.crlf_of_not_mem hline]
    cases htrailing : trailing? line with
    | none => rfl
    | some trailing =>
        obtain ⟨later, rfl, -⟩ := split_of_trailing? htrailing
        exact congrArg some (Text.crlf_of_not_mem fun hmem => hline (List.mem_append_left _ hmem)).symm
  · rw [hlater] at hsplit
    subst hsplit
    have hcr' : '\n' ∉ line ++ ['\r'] := by
      intro hmem
      rcases List.mem_append.mp hmem with hmem | hmem
      · exact hline hmem
      · cases List.mem_singleton.mp hmem
    have hno : ¬ line.getLast? = some '\r' := by
      intro hlast
      exact hcr (List.mem_append_left _ (List.mem_of_getLast? hlast))
    have hcrlf : Text.crlf (line ++ '\n' :: later) = (line ++ ['\r']) ++ '\n' :: Text.crlf later := by
      rw [Text.crlf_append, Text.crlf_of_not_mem hline, Text.crlf_newline, List.append_assoc]
      rfl
    -- the carriage return ends the line, so it is left out where the line has to be blank
    rw [hcrlf, trailing?_line hcr', trailing?_line hline, if_neg hno, List.getLast?_concat, if_pos rfl,
      List.dropLast_concat]
    split
    · have hend : Text.crlf (line ++ ['\n']) = line ++ ['\r'] ++ ['\n'] := by
        rw [Text.crlf_append, Text.crlf_of_not_mem hline, List.append_assoc]
        rfl
      exact congrArg some hend.symm
    · rfl

theorem around?_crlf {after : Text} (hcr : '\r' ∉ after) (before : Text) :
    around? before after.crlf = (around? before after).map crlf := by
  unfold around?
  rw [trailing?_crlf hcr]
  split
  · rw [Option.map_map, Option.map_map]
    rfl
  · rfl

end Margins

namespace Tag

/-- The same tag in a template with carriage returns. -/
def crlf (t : Tag) : Tag :=
  { t with
    key := if t.kind.keyed then t.key else t.key.crlf
    source := t.source.crlf
    start := t.start + (t.row - 1)
    margins := t.margins.map Margins.crlf }

theorem key_crlf {t : Tag} (h : t.kind.keyed = true) : t.crlf.key = t.key := if_pos h

theorem indent_crlf (t : Tag) : t.crlf.indent = t.indent := by
  unfold indent
  show (if t.kind.indents then (t.margins.map Margins.crlf).map Margins.leading else none) = _
  rw [Option.map_map]
  rfl

/-- **A tag is placed as before.** -/
theorem place_crlf {d : Delimiters} (hd : d.Usable) (pre : Text) (t : TagText) {rest : Text} (hcr : '\r' ∉ rest) :
    place d (Cursor.start.advance pre.crlf) t.crlf rest.crlf = (place d (Cursor.start.advance pre) t rest).crlf := by
  have hsource : d.opening ++ t.source.crlf = (d.opening ++ t.source).crlf := by
    rw [Text.crlf_append, hd.opening_solid.crlf_eq]
  have hmargins : ∀ before : Text,
      (if t.kind.standsAlone then Margins.around? before rest.crlf else none)
        = (if t.kind.standsAlone then Margins.around? before rest else none).map Margins.crlf := by
    intro before
    split
    · exact Margins.around?_crlf hcr before
    · rfl
  rw [Cursor.start_advance_crlf]
  unfold place crlf TagText.crlf
  simp only [hsource, Cursor.linePrefix, hmargins, Cursor.col]

end Tag

end Mustache

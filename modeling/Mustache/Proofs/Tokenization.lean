import Mustache.Proofs.Line
import Mustache.Proofs.Scanning

/-!
# `Mustache.Proofs.Tokenization` — the leftmost tokenization is the only one

What a tokenization of a text *is* can be said without the scanner: spans that tile the text, no tag
inside static text, and every tag as long as its closing text allows. `Tokenizes` says it of a list of
`Lexeme`s, the spans that are left of tokens when everything is dropped that can be read off the text.

* `Tokenizes.unique` — a text up to an offset has at most one tokenization, whatever the delimiters;
* `Scans.tokenizes` — the tokens of a scan are one, up to the end of the text or to the opening
  delimiter of the tag that cannot be read;
* `tokens_leftmost` — hence the tokens of the scanner are *the* tokenization.

Nothing is assumed of the delimiters. With an empty opening delimiter a tag begins at every offset, and
with two empty ones a tag still has a sigil or a key, so the spans are never empty.
-/

namespace Mustache

/-! ## Spans -/

/-- A tag as a span: its kind, its extent, and the delimiters before and after it. -/
structure TagSpan where
  kind : TagKind
  start : Nat
  stop : Nat
  /-- The delimiters between which the tag stands. -/
  delimiters : Delimiters
  /-- The delimiters that the tag declares. -/
  replacement : Option Delimiters

/-- A token as a span. -/
inductive Lexeme where
  /-- Static text between two offsets. -/
  | text (start stop : Nat)
  | tag (t : TagSpan)

namespace Lexeme

/-- The offset of the first character. -/
def start : Lexeme → Nat
  | .text start _ => start
  | .tag t => t.start

/-- The offset after the last character. -/
def stop : Lexeme → Nat
  | .text _ stop => stop
  | .tag t => t.stop

/-- The delimiters that a token declares. -/
def replacement : Lexeme → Option Delimiters
  | .text _ _ => none
  | .tag t => t.replacement

end Lexeme

/-- The span of a tag. -/
def Tag.span (t : Tag) : TagSpan where
  kind := t.kind
  start := t.start
  stop := t.stop
  delimiters := t.delimiters
  replacement := t.replacement

/-- The span of a token. -/
def Token.lexeme : Token → Lexeme
  | .text start stop => .text start stop
  | .tag t => .tag t.span

/-! ## Tokenizations -/

/-- A pattern stands at an offset of a text. -/
def Text.OccursAt (s pat : Text) (i : Nat) : Prop := pat <+: s.drop i

/-- The first place, searching from an offset, at which a pattern stands. -/
structure Text.FirstFrom (s pat : Text) (origin i : Nat) : Prop where
  origin_le : origin ≤ i
  occurs : s.OccursAt pat i
  first : ∀ j, origin ≤ j → j < i → ¬ s.OccursAt pat j

namespace TagSpan

/-- The character after the opening delimiter of a tag that starts at an offset. -/
def sigil? (d : Delimiters) (s : Text) (start : Nat) : Option Char := s[start + d.opening.length]?

/-- The kind that the character after the opening delimiter selects. -/
def kindOf (sigil : Option Char) : TagKind := (sigil.bind TagKind.ofSigil?).getD .escaped

/-- The text that ends a tag with this character after the opening delimiter. -/
def closingOf (d : Delimiters) : Option Char → Text
  | some '{' => '\x7d' :: d.closing
  | some '=' => '=' :: d.closing
  | _ => d.closing

/-- The number of characters between the opening delimiter and the body of a tag. -/
def sigilLength (kind : TagKind) : Nat := if kind = .escaped then 0 else 1

/-- `t` is the tag of `s` that begins at its start under the delimiters `d`; its body ends at
    `bodyStop`. -/
structure At (d : Delimiters) (s : Text) (t : TagSpan) (bodyStop : Nat) : Prop where
  delimiters : t.delimiters = d
  nonempty : t.start < t.stop
  opening : s.OccursAt d.opening t.start
  kind : t.kind = kindOf (sigil? d s t.start)
  closing : s.FirstFrom (closingOf d (sigil? d s t.start))
    (t.start + d.opening.length + sigilLength t.kind) bodyStop
  stop : t.stop = bodyStop + (closingOf d (sigil? d s t.start)).length
  replacement : t.replacement =
    if t.kind = .delimiters then
      TagText.declared? (s.slice (t.start + d.opening.length + sigilLength t.kind) bodyStop)
    else none

end TagSpan

/-- Non-empty spans that follow each other from one offset to another. -/
inductive Tiles : Nat → Nat → List Lexeme → Prop where
  | nil {p : Nat} : Tiles p p []
  | cons {p stop : Nat} {l : Lexeme} {ls : List Lexeme} (hstart : l.start = p) (hlt : p < l.stop)
      (hrest : Tiles l.stop stop ls) : Tiles p stop (l :: ls)

/-- The delimiters in effect after some tokens: those of the last declaration among them, or the initial
    ones. -/
def Lexeme.inEffect (d : Delimiters) (ls : List Lexeme) : Delimiters :=
  d.inEffect (ls.map Lexeme.replacement)

theorem Lexeme.inEffect_cons (d : Delimiters) (l : Lexeme) (ls : List Lexeme) :
    inEffect d (l :: ls) = inEffect (l.replacement.getD d) ls := Delimiters.inEffect_cons _ _ _

/-- **A tokenization** of the text `s` from the offset `p` to the offset `stop`, under the initial
    delimiters `d`. -/
structure Tokenizes (d : Delimiters) (s : Text) (p stop : Nat) (ls : List Lexeme) : Prop where
  /-- The spans are not empty and leave no gap. -/
  tiles : Tiles p stop ls
  /-- No two static texts are neighbours. -/
  separated : ∀ pre a b a' b' post, ls ≠ pre ++ .text a b :: .text a' b' :: post
  /-- No occurrence of the opening delimiter in effect begins inside static text. -/
  clear : ∀ pre a b post, ls = pre ++ .text a b :: post →
    ∀ i, a ≤ i → i < b → ¬ s.OccursAt (Lexeme.inEffect d pre).opening i
  /-- Every tag begins with the opening delimiter in effect and ends at the first closing text. -/
  tags : ∀ pre t post, ls = pre ++ .tag t :: post →
    ∃ bodyStop, t.At (Lexeme.inEffect d pre) s bodyStop

namespace Tokenizes

variable {d : Delimiters} {s : Text} {p stop a b : Nat} {t : TagSpan} {l : Lexeme} {ls : List Lexeme}

/-! ### Building a tokenization token by token -/

theorem nil : Tokenizes d s p p [] where
  tiles := .nil
  separated := by intro pre _ _ _ _ _ h; simp at h
  clear := by intro pre _ _ _ h; simp at h
  tags := by intro pre _ _ h; simp at h

/-- Static text before a tokenization that does not begin with static text. -/
theorem text (hlt : p < b) (hclear : ∀ i, p ≤ i → i < b → ¬ s.OccursAt d.opening i)
    (hnext : ∀ a' b' post, ls ≠ .text a' b' :: post) (h : Tokenizes d s b stop ls) :
    Tokenizes d s p stop (.text p b :: ls) where
  tiles := .cons rfl hlt h.tiles
  separated := by
    intro pre x y x' y' post heq
    cases pre with
    | nil => exact hnext x' y' post (List.cons.inj heq).2
    | cons l pre => exact h.separated pre x y x' y' post (List.cons.inj heq).2
  clear := by
    intro pre x y post heq
    cases pre with
    | nil =>
        obtain ⟨rfl, rfl⟩ := Lexeme.text.inj (List.cons.inj heq).1
        exact hclear
    | cons l pre =>
        obtain ⟨rfl, htail⟩ := List.cons.inj heq
        exact h.clear pre x y post htail
  tags := by
    intro pre t post heq
    cases pre with
    | nil => cases (List.cons.inj heq).1
    | cons l pre =>
        obtain ⟨rfl, htail⟩ := List.cons.inj heq
        exact h.tags pre t post htail

/-- A tag before a tokenization under the delimiters that hold after it. -/
theorem tag {bodyStop : Nat} (hat : t.At d s bodyStop)
    (h : Tokenizes (t.replacement.getD d) s t.stop stop ls) :
    Tokenizes d s t.start stop (.tag t :: ls) where
  tiles := .cons rfl hat.nonempty h.tiles
  separated := by
    intro pre x y x' y' post heq
    cases pre with
    | nil => cases (List.cons.inj heq).1
    | cons l pre => exact h.separated pre x y x' y' post (List.cons.inj heq).2
  clear := by
    intro pre x y post heq
    cases pre with
    | nil => cases (List.cons.inj heq).1
    | cons l pre =>
        obtain ⟨rfl, htail⟩ := List.cons.inj heq
        rw [Lexeme.inEffect_cons]
        exact h.clear pre x y post htail
  tags := by
    intro pre t' post heq
    cases pre with
    | nil =>
        obtain rfl := Lexeme.tag.inj (List.cons.inj heq).1
        exact ⟨bodyStop, hat⟩
    | cons l pre =>
        obtain ⟨rfl, htail⟩ := List.cons.inj heq
        rw [Lexeme.inEffect_cons]
        exact h.tags pre t' post htail

/-! ### Taking it apart -/

/-- What follows the first token is a tokenization under the delimiters that hold after it. -/
theorem tail (h : Tokenizes d s p stop (l :: ls)) :
    Tokenizes (l.replacement.getD d) s l.stop stop ls where
  tiles := by cases h.tiles; assumption
  separated := by
    intro pre x y x' y' post heq
    exact h.separated (l :: pre) x y x' y' post (congrArg (List.cons l) heq)
  clear := by
    intro pre x y post heq
    have hclear := h.clear (l :: pre) x y post (congrArg (List.cons l) heq)
    rwa [Lexeme.inEffect_cons] at hclear
  tags := by
    intro pre t post heq
    have htags := h.tags (l :: pre) t post (congrArg (List.cons l) heq)
    rwa [Lexeme.inEffect_cons] at htags

theorem start_eq (h : Tokenizes d s p stop (l :: ls)) : l.start = p := by
  cases h.tiles; assumption

theorem lt_stop (h : Tokenizes d s p stop (l :: ls)) : p < l.stop := by
  cases h.tiles; assumption

theorem le_stop (h : Tokenizes d s p stop ls) : p ≤ stop := by
  have htiles := h.tiles
  clear h
  induction htiles with
  | nil => exact Nat.le_refl _
  | cons _ hlt _ ih => exact Nat.le_trans (Nat.le_of_lt hlt) ih

/-- The tag at the beginning of a tokenization. -/
theorem head_tag (h : Tokenizes d s p stop (.tag t :: ls)) : ∃ bodyStop, t.At d s bodyStop :=
  h.tags [] t ls rfl

/-- No opening delimiter begins in the static text at the beginning of a tokenization. -/
theorem head_clear (h : Tokenizes d s p stop (.text a b :: ls)) :
    ∀ i, p ≤ i → i < b → ¬ s.OccursAt d.opening i := by
  obtain rfl : a = p := h.start_eq
  exact h.clear [] a b ls rfl

end Tokenizes

/-! ## Uniqueness -/

theorem Text.FirstFrom.unique {s pat : Text} {origin i j : Nat} (hi : s.FirstFrom pat origin i)
    (hj : s.FirstFrom pat origin j) : i = j := by
  apply Nat.le_antisymm
  · exact Nat.le_of_not_lt fun hlt => hi.first j hj.origin_le hlt hj.occurs
  · exact Nat.le_of_not_lt fun hlt => hj.first i hi.origin_le hlt hi.occurs

/-- A tag is determined by where it begins and by the delimiters in effect there. -/
theorem TagSpan.At.unique {d : Delimiters} {s : Text} {t t' : TagSpan} {k k' : Nat} (h : t.At d s k)
    (h' : t'.At d s k') (hstart : t.start = t'.start) : t = t' := by
  obtain ⟨kind, start, stop, delimiters, replacement⟩ := t
  obtain ⟨kind', start', stop', delimiters', replacement'⟩ := t'
  obtain rfl : start = start' := hstart
  obtain rfl : kind = kind' := h.kind.trans h'.kind.symm
  obtain rfl : k = k' := h.closing.unique h'.closing
  obtain rfl : stop = stop' := h.stop.trans h'.stop.symm
  obtain rfl : delimiters = delimiters' := h.delimiters.trans h'.delimiters.symm
  obtain rfl : replacement = replacement' := h.replacement.trans h'.replacement.symm
  rfl

namespace Tokenizes

variable {d : Delimiters} {s : Text} {p stop b b' : Nat} {l l' : Lexeme} {ls ls' : List Lexeme}

/-- Static text cannot end earlier than in another tokenization: a tag would have to begin inside the
    static text of the other. -/
theorem text_stop_le (h : Tokenizes d s p stop (.text p b :: ls))
    (h' : Tokenizes d s p stop (.text p b' :: ls')) : b' ≤ b := by
  apply Nat.le_of_not_lt
  intro hlt
  cases ls with
  | nil =>
      have hstop : b = stop := by
        have htiles := h.tail.tiles
        cases htiles
        rfl
      exact absurd h'.tail.le_stop (Nat.not_le_of_lt (hstop ▸ hlt))
  | cons l ls =>
      cases l with
      | text a c => exact h.separated [] p b a c ls rfl
      | tag t =>
          -- the tag after the shorter text begins inside the longer one
          have hstart : t.start = b := h.tail.start_eq
          obtain ⟨_, hat⟩ := h.tail.head_tag
          have hopening := hat.opening
          rw [hstart] at hopening
          exact h'.head_clear b (Nat.le_of_lt h.lt_stop) hlt hopening

/-- Static text cannot begin where a tag begins. -/
theorem not_text_of_tag {t : TagSpan} {a : Nat} (h : Tokenizes d s p stop (.tag t :: ls))
    (h' : Tokenizes d s p stop (.text a b :: ls')) : False := by
  obtain ⟨_, hat⟩ := h.head_tag
  have hopening := hat.opening
  have hstart : t.start = p := h.start_eq
  rw [hstart] at hopening
  exact h'.head_clear p (Nat.le_refl _) h'.lt_stop hopening

/-- Two tokenizations begin with the same token. -/
theorem head_eq (h : Tokenizes d s p stop (l :: ls)) (h' : Tokenizes d s p stop (l' :: ls')) :
    l = l' := by
  cases l with
  | text a b =>
      cases l' with
      | text a' b' =>
          obtain rfl : a = p := h.start_eq
          obtain rfl : a' = a := h'.start_eq
          rw [Nat.le_antisymm (text_stop_le h' h) (text_stop_le h h')]
      | tag t' => exact (not_text_of_tag h' h).elim
  | tag t =>
      cases l' with
      | text a' b' => exact (not_text_of_tag h h').elim
      | tag t' =>
          obtain ⟨_, hat⟩ := h.head_tag
          obtain ⟨_, hat'⟩ := h'.head_tag
          have hstart : t.start = t'.start :=
            (show t.start = p from h.start_eq).trans (show t'.start = p from h'.start_eq).symm
          rw [hat.unique hat' hstart]

/-- Nothing follows where the tokenization ends. -/
theorem eq_nil (h : Tokenizes d s p p ls) : ls = [] := by
  cases ls with
  | nil => rfl
  | cons l ls => exact absurd h.tail.le_stop (Nat.not_le_of_lt h.lt_stop)

/-- **At most one tokenization.** Token by token: the first tokens agree, so the delimiters after them
    agree, and what follows is again a tokenization. -/
theorem unique (h : Tokenizes d s p stop ls) (h' : Tokenizes d s p stop ls') : ls = ls' := by
  induction ls generalizing d p ls' with
  | nil =>
      have htiles := h.tiles
      cases htiles
      exact h'.eq_nil.symm
  | cons l ls ih =>
      cases ls' with
      | nil =>
          have htiles := h'.tiles
          cases htiles
          exact h.eq_nil
      | cons l' ls' =>
          obtain rfl := head_eq h h'
          rw [ih h.tail h'.tail]

end Tokenizes

/-! ## The tokens of a scan -/

namespace Text

variable {pre pat lead content rest s : Text}

theorem occursAt_append {i : Nat} : (pre ++ s).OccursAt pat (pre.length + i) ↔ s.OccursAt pat i := by
  rw [OccursAt, OccursAt, List.drop_length_add_append]

/-- A clear text has no occurrence at any of its offsets. -/
theorem Clear.not_occursAt (h : Clear pat lead rest) {i : Nat} (hle : pre.length ≤ i)
    (hlt : i < pre.length + lead.length) : ¬ (pre ++ (lead ++ rest)).OccursAt pat i := by
  obtain ⟨j, rfl⟩ := Nat.exists_eq_add_of_le hle
  rw [occursAt_append]
  exact h j (Nat.lt_of_add_lt_add_left hlt)

theorem Clear.firstFrom (h : Clear pat content (pat ++ rest)) :
    (pre ++ (content ++ (pat ++ rest))).FirstFrom pat pre.length (pre.length + content.length) where
  origin_le := Nat.le_add_right _ _
  occurs := by
    rw [occursAt_append, OccursAt, List.drop_left]
    exact List.prefix_append _ _
  first := fun _ hle hlt => h.not_occursAt hle hlt

end Text

namespace TagSpan

variable {d : Delimiters} {inner : Text}

theorem kindOf_head? : kindOf inner.head? = TagKind.ofText inner := by
  cases inner <;> rfl

theorem closingOf_head? : closingOf d inner.head? = TagText.closingFor d inner := by
  unfold closingOf TagText.closingFor
  cases inner with
  | nil => rfl
  | cons c cs =>
      rw [List.head?_cons]
      split <;> split <;> simp_all

theorem sigilLength_ofText : sigilLength (TagKind.ofText inner) = (TagText.sigilOf inner).length := by
  unfold sigilLength TagText.sigilOf
  split
  · rfl
  · rename_i hkind
    cases inner with
    | nil => exact absurd rfl hkind
    | cons c cs => rfl

end TagSpan

/-- **A tag that was read is the tag at its place.** -/
theorem Tag.span_at {d : Delimiters} {t : TagText} {rest : Text} (pre : Text)
    (hread : TagText.read d (t.source ++ rest) = .ok (t, rest)) :
    ∃ bodyStop, (Tag.place d (Cursor.start.advance pre) t rest).span.At d
      (pre ++ (d.opening ++ (t.source ++ rest))) bodyStop := by
  have hlength := TagText.length_lt_of_read hread
  rw [List.length_append] at hlength
  have hstart : (place d (Cursor.start.advance pre) t rest).span.start = pre.length :=
    start_place d pre t rest
  have hstop : (place d (Cursor.start.advance pre) t rest).span.stop
      = (pre ++ (d.opening ++ t.source)).length := stop_place d pre t rest
  obtain ⟨content, hinner, hclear, hok⟩ := TagText.read_eq_ok_iff.mp hread
  have hsource := TagText.source_of_ofContent hok
  have ht := TagText.eq_of_ofContent hok
  have hkind : (place d (Cursor.start.advance pre) t rest).span.kind
      = TagKind.ofText (t.source ++ rest) := congrArg TagText.kind ht
  generalize t.source ++ rest = inner at *
  -- the text up to the body of the tag
  obtain ⟨head, hhead⟩ : ∃ head, pre ++ (d.opening ++ TagText.sigilOf inner) = head := ⟨_, rfl⟩
  have htext : pre ++ (d.opening ++ inner)
      = head ++ (content ++ (TagText.closingFor d inner ++ rest)) := by
    rw [← hhead, List.append_assoc, List.append_assoc, ← hinner]
  have hsigil : TagSpan.sigil? d (pre ++ (d.opening ++ inner)) pre.length = inner.head? := by
    rw [TagSpan.sigil?, ← List.head?_drop, List.drop_length_add_append, List.drop_left]
  have hbody : pre.length + d.opening.length + TagSpan.sigilLength (TagKind.ofText inner)
      = head.length := by
    rw [TagSpan.sigilLength_ofText, ← hhead]
    simp [Nat.add_assoc]
  refine ⟨head.length + content.length, ?_⟩
  constructor
  case delimiters => rfl
  case nonempty =>
    rw [hstart, hstop, List.length_append, List.length_append]
    omega
  case opening =>
    rw [hstart, Text.OccursAt, List.drop_left]
    exact List.prefix_append _ _
  case kind => rw [hstart, hkind, hsigil, TagSpan.kindOf_head?]
  case closing =>
    rw [hstart, hkind, hsigil, TagSpan.closingOf_head?, hbody, htext]
    exact hclear.firstFrom
  case stop =>
    rw [hstart, hsigil, TagSpan.closingOf_head?, hstop, hsource, ← hhead]
    simp only [List.length_append]
    omega
  case replacement =>
    rw [hstart, hkind, hbody, htext, Text.slice_append]
    exact congrArg TagText.replacement ht

/-- Static text before a tokenization that does not begin with static text, if there is any. -/
theorem Tokenizes.lead {d : Delimiters} {pre lead rest : Text} {stop : Nat} {ls : List Lexeme}
    (hclear : Text.Clear d.opening lead rest) (hnext : ∀ a b post, ls ≠ .text a b :: post)
    (h : Tokenizes d (pre ++ (lead ++ rest)) (pre.length + lead.length) stop ls) :
    Tokenizes d (pre ++ (lead ++ rest)) pre.length stop
      ((Scan.textToken pre.length lead).map Token.lexeme ++ ls) := by
  cases lead with
  | nil => exact h
  | cons c cs => exact .text (by simp) (fun i => hclear.not_occursAt) hnext h

/-- A run before a tokenization under the delimiters that hold after its tag. -/
theorem Tokenizes.run {d : Delimiters} {pre lead rest : Text} {t : TagText} {stop : Nat}
    {ls : List Lexeme} (hclear : Text.Clear d.opening lead (d.opening ++ (t.source ++ rest)))
    (hread : TagText.read d (t.source ++ rest) = .ok (t, rest))
    (h : Tokenizes (t.replacement.getD d) (pre ++ (lead ++ (d.opening ++ (t.source ++ rest))))
      (pre ++ lead ++ (d.opening ++ t.source)).length stop ls) :
    Tokenizes d (pre ++ (lead ++ (d.opening ++ (t.source ++ rest)))) pre.length stop
      ((Scan.textToken pre.length lead).map Token.lexeme ++
        .tag (Tag.place d (Cursor.start.advance (pre ++ lead)) t rest).span :: ls) := by
  apply Tokenizes.lead hclear (by simp)
  obtain ⟨bodyStop, hat⟩ := Tag.span_at (pre ++ lead) hread
  rw [List.append_assoc] at hat
  have hstart : (Tag.place d (Cursor.start.advance (pre ++ lead)) t rest).span.start
      = pre.length + lead.length := (Tag.start_place d (pre ++ lead) t rest).trans List.length_append
  have hstop : (Tag.place d (Cursor.start.advance (pre ++ lead)) t rest).span.stop
      = (pre ++ lead ++ (d.opening ++ t.source)).length := Tag.stop_place d (pre ++ lead) t rest
  have htag := Tokenizes.tag hat (by rw [hstop]; exact h)
  rwa [hstart] at htag

/-- Static text declares no delimiters. -/
theorem Lexeme.inEffect_textToken (d : Delimiters) (p : Nat) (s : Text) (ls : List Lexeme) :
    inEffect d ((Scan.textToken p s).map Token.lexeme ++ ls) = inEffect d ls := by
  cases s <;> rfl

/-- Where a scan ends: at the end of the text, or before the end at an opening delimiter in effect,
    whose position is reported. -/
def Scan.EndsAt (d : Delimiters) (s : Text) (stop : Nat) : Option SyntaxError → Prop
  | none => stop = s.length
  | some e => stop < s.length ∧ s.OccursAt d.opening stop ∧ (e.row, e.col) = s.position stop

/-- **The tokens of a scan are a tokenization.** By induction on the derivation, whatever stands before
    the place at which the scan begins. -/
theorem Scans.tokenizes {pre : Text} {d : Delimiters} {s : Text} {sc : Scan} (h : Scans pre d s sc) :
    ∃ stop,
      Tokenizes d (pre ++ s) pre.length stop
        ((Scan.tokensFrom pre.length sc.runs sc.tail).map Token.lexeme) ∧
      Scan.EndsAt (Lexeme.inEffect d ((Scan.tokensFrom pre.length sc.runs sc.tail).map Token.lexeme))
        (pre ++ s) stop sc.failure := by
  induction h with
  | @finish pre d s hclear =>
      refine ⟨pre.length + s.length, ?_, by simp [Scan.EndsAt]⟩
      have h : Tokenizes d (pre ++ (s ++ [])) pre.length (pre.length + s.length) _ :=
        .lead hclear (by simp) .nil
      rwa [List.append_nil, List.append_nil] at h
  | @fail pre d lead inner fault hclear hne hread =>
      have hin := Lexeme.inEffect_textToken d pre.length lead []
      rw [List.append_nil] at hin
      -- no tag was read, so the delimiters at the failure are those at the beginning
      refine ⟨pre.length + lead.length, ?_, ?_, ?_, ?_⟩
      · have h : Tokenizes d (pre ++ (lead ++ (d.opening ++ inner))) pre.length
            (pre.length + lead.length) _ := .lead hclear (by simp) .nil
        rwa [List.append_nil] at h
      · have hpos : d.opening ++ inner ≠ [] := by
          intro hnil
          have hlead := Text.Clear.eq_nil ((List.append_eq_nil_iff.mp hnil).1 ▸ hclear)
          exact hne (by rw [hlead, hnil]; rfl)
        have hlt := List.length_pos_iff.mpr hpos
        rw [List.length_append, List.length_append]
        omega
      · show Text.OccursAt _ (Lexeme.inEffect d _).opening _
        rw [Scan.tokensFrom, hin, Text.occursAt_append, Text.OccursAt, List.drop_left]
        exact List.prefix_append _ _
      · rw [← List.append_assoc, ← List.length_append]
        exact Cursor.position_start_advance
  | @tag pre d lead rest t sc hclear hread hrest ih =>
      have htext : (pre ++ lead ++ (d.opening ++ t.source)) ++ rest
          = pre ++ (lead ++ (d.opening ++ (t.source ++ rest))) := by simp
      have hoffset : pre.length
            + (Run.mk lead (Tag.place d (Cursor.start.advance (pre ++ lead)) t rest)).source.length
          = (pre ++ lead ++ (d.opening ++ t.source)).length := by
        rw [List.append_assoc, List.length_append]
        rfl
      obtain ⟨stop, htail, hend⟩ := ih
      rw [htext] at htail hend
      refine ⟨stop, ?_, ?_⟩
      · show Tokenizes _ _ _ _ ((Scan.tokensFrom pre.length (_ :: sc.runs) sc.tail).map _)
        rw [Scan.tokensFrom, List.map_append, hoffset]
        exact Tokenizes.run hclear hread htail
      · show Scan.EndsAt (Lexeme.inEffect d
          ((Scan.tokensFrom pre.length (_ :: sc.runs) sc.tail).map Token.lexeme)) _ _ sc.failure
        rw [Scan.tokensFrom, List.map_append, Lexeme.inEffect_textToken, List.map_cons,
          Lexeme.inEffect_cons, hoffset]
        exact hend

/-- **The leftmost tokenization.** For every text and every pair of delimiters the tokens of the scan
    tile the text up to an offset: its end when the scan succeeds, and else the offset before the end at
    which the opening delimiter of the reported position stands. They are the only tokenization up to
    there. -/
theorem tokens_leftmost (d : Delimiters) (s : Text) :
    ∃ stop,
      Tokenizes d s 0 stop ((Scan.ofText d s).tokens.map Token.lexeme) ∧
      (∀ ls, Tokenizes d s 0 stop ls → ls = (Scan.ofText d s).tokens.map Token.lexeme) ∧
      Scan.EndsAt (Lexeme.inEffect d ((Scan.ofText d s).tokens.map Token.lexeme)) s stop
        (Scan.ofText d s).failure := by
  obtain ⟨stop, htokens, hend⟩ := (Scan.scans_ofText d s).tokenizes
  exact ⟨stop, htokens, fun ls h => h.unique htokens, hend⟩

end Mustache

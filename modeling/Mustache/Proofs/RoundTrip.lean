import Mustache.Proofs.Seam

/-!
# `Mustache.Proofs.RoundTrip` — parsing what was printed

`Element.print` writes an element tree as template source under fixed delimiters. `Element.Canonical` says
which trees parsing can yield from such a source: static text is there and is not cut in two, keys are
words, a section carries its own source, and no key and no static text has a character of a delimiter.

The main statement is `parse_printAll`: a canonical forest, printed so that no tag stands alone on its
line, parses back to itself. The proof reads the printed text from left to right. `Assembly.Reads d pre s
a a'` says that after the text `pre`, reading `s` takes assembly from the state `a` to the state `a'`,
whatever is read after it; it holds of a tag and of static text (`reads_tag`, `reads_text`), composes
(`Reads.trans`), and so holds of a printed element, which takes any state to the one with the element added.
-/

namespace Mustache

/-! ## Printing -/

/-- The sigil with which a tag of a kind is written. -/
def TagKind.written : TagKind → Text
  | .escaped => []
  | .raw => ['&']
  | .normalSection => ['#']
  | .invertedSection => ['^']
  | .close => ['/']
  | .partialUse => ['>']
  | .parent => ['<']
  | .block => ['$']
  | .comment => ['!']
  | .delimiters => ['=']

/-- A tag that holds a key, as it is written after the opening delimiter. -/
def TagText.ofKey (d : Delimiters) (kind : TagKind) (key : Text) : TagText where
  kind := kind
  key := key
  source := kind.written ++ key ++ d.closing
  replacement := none

namespace Element

/-- The source of a tag that holds a key. -/
def printTag (d : Delimiters) (kind : TagKind) (key : Text) : Text :=
  d.opening ++ (TagText.ofKey d kind key).source

mutual

/-- The source of an element. -/
def print (d : Delimiters) : Element → Text
  | .text t => t
  | .interpolation key escaped => printTag d (if escaped then .escaped else .raw) key
  | .sectionTag key inverted children _ _ =>
      printTag d (if inverted then .invertedSection else .normalSection) key
        ++ (printAll d children ++ printTag d .close key)
  | .partialTag key _ => printTag d .partialUse key
  | .parentTag key children _ =>
      printTag d .parent key ++ (printAll d children ++ printTag d .close key)
  | .blockTag key children _ =>
      printTag d .block key ++ (printAll d children ++ printTag d .close key)
  | .foreign _ => []

/-- The source of a forest. -/
def printAll (d : Delimiters) : List Element → Text
  | [] => []
  | e :: es => e.print d ++ printAll d es

end

/-! ## Canonical trees -/

/-- No character of a text is one of a delimiter. -/
def Clean (d : Delimiters) (s : Text) : Prop := ∀ c ∈ s, c ∉ d.opening ∧ c ∉ d.closing

instance (d : Delimiters) (s : Text) : Decidable (Clean d s) :=
  decidable_of_iff (s.all fun c => !d.opening.contains c && !d.closing.contains c) (by simp [Clean])

/-- A key that a tag can hold. -/
structure ProperKey (d : Delimiters) (key : Text) : Prop where
  ne_nil : key ≠ []
  solid : Text.Solid key
  clean : Clean d key

instance (d : Delimiters) (key : Text) : Decidable (ProperKey d key) :=
  decidable_of_iff (key ≠ [] ∧ Text.Solid key ∧ Clean d key)
    ⟨fun ⟨hne, hsolid, hclean⟩ => ⟨hne, hsolid, hclean⟩, fun h => ⟨h.ne_nil, h.solid, h.clean⟩⟩

/-- Whether an element is static text. -/
def isText : Element → Bool
  | .text _ => true
  | _ => false

mutual

/-- A tree that can come of a source written with the delimiters. -/
def Canonical (d : Delimiters) : Element → Prop
  | .text t => t ≠ [] ∧ Clean d t
  | .interpolation key escaped =>
      ProperKey d key ∧ (escaped = true → TagKind.ofText key = .escaped)
  | .sectionTag key _ children raw written =>
      ProperKey d key ∧ CanonicalAll d children ∧ raw = printAll d children ∧ written = d
  | .partialTag key indent => ProperKey d key ∧ indent = none
  | .parentTag key children indent =>
      ProperKey d key ∧ CanonicalAll d children ∧ (∀ e ∈ children, e.isBlock = true) ∧ indent = none
  | .blockTag key children indent => ProperKey d key ∧ CanonicalAll d children ∧ indent = none
  | .foreign _ => False

/-- A forest of such trees in which no two static texts are neighbours. -/
def CanonicalAll (d : Delimiters) : List Element → Prop
  | [] => True
  | e :: es =>
      Canonical d e ∧ CanonicalAll d es ∧
        (e.isText = true → ∀ f ∈ es.head?, f.isText = false)

end

mutual

/-- Whether a tree is canonical. -/
def decidableCanonical (d : Delimiters) : (e : Element) → Decidable (Canonical d e)
  | .text t => inferInstanceAs (Decidable (t ≠ [] ∧ Clean d t))
  | .interpolation key escaped =>
      inferInstanceAs (Decidable (ProperKey d key ∧ (escaped = true → TagKind.ofText key = .escaped)))
  | .sectionTag key _ children raw written =>
      have := decidableCanonicalAll d children
      inferInstanceAs (Decidable
        (ProperKey d key ∧ CanonicalAll d children ∧ raw = printAll d children ∧ written = d))
  | .partialTag key indent => inferInstanceAs (Decidable (ProperKey d key ∧ indent = none))
  | .parentTag key children indent =>
      have := decidableCanonicalAll d children
      inferInstanceAs (Decidable
        (ProperKey d key ∧ CanonicalAll d children ∧ (∀ e ∈ children, e.isBlock = true) ∧ indent = none))
  | .blockTag key children indent =>
      have := decidableCanonicalAll d children
      inferInstanceAs (Decidable (ProperKey d key ∧ CanonicalAll d children ∧ indent = none))
  | .foreign _ => inferInstanceAs (Decidable False)

/-- Whether a forest is canonical. -/
def decidableCanonicalAll (d : Delimiters) : (es : List Element) → Decidable (CanonicalAll d es)
  | [] => inferInstanceAs (Decidable True)
  | e :: es =>
      have := decidableCanonical d e
      have := decidableCanonicalAll d es
      inferInstanceAs (Decidable
        (Canonical d e ∧ CanonicalAll d es ∧ (e.isText = true → ∀ f ∈ es.head?, f.isText = false)))

end

instance (d : Delimiters) (es : List Element) : Decidable (CanonicalAll d es) :=
  decidableCanonicalAll d es

end Element

/-! ## Reading a written tag -/

namespace TagText

variable {d : Delimiters} {kind : TagKind} {key rest : Text}

theorem closingFor_cons {c : Char} {cs : Text} (hbrace : c ≠ '\x7b') (heq : c ≠ '=') :
    closingFor d (c :: cs) = d.closing := by
  unfold closingFor
  split
  · rename_i h
    exact absurd (List.cons.inj h).1 hbrace
  · rename_i h
    exact absurd (List.cons.inj h).1 heq
  · rfl

/-- What selects the kind and the closing text of a written tag: its sigil, or, when it has none, a key
    that does not begin with one. -/
theorem sigilOf_written (d : Delimiters) (more : Text) (hne : key ≠ []) (hd : kind ≠ .delimiters)
    (hesc : kind = .escaped → TagKind.ofText key = .escaped) :
    TagKind.ofText (kind.written ++ (key ++ more)) = kind ∧
      sigilOf (kind.written ++ (key ++ more)) = kind.written ∧
      closingFor d (kind.written ++ (key ++ more)) = d.closing := by
  obtain ⟨k, ks, rfl⟩ := List.exists_cons_of_ne_nil hne
  cases kind with
  | escaped =>
      have hkind : TagKind.ofText (k :: ks) = .escaped := hesc rfl
      refine ⟨hkind, if_pos hkind, closingFor_cons ?_ ?_⟩
      · rintro rfl; cases hkind
      · rintro rfl; cases hkind
  | delimiters => exact absurd rfl hd
  | _ => exact ⟨rfl, rfl, closingFor_cons (by decide) (by decide)⟩

/-- **A written tag is read back**, whatever follows it. -/
theorem read_ofKey (hkey : Element.ProperKey d key) (hclosing : d.closing ≠ [])
    (hc : kind ≠ .comment) (hd : kind ≠ .delimiters)
    (hesc : kind = .escaped → TagKind.ofText key = .escaped) :
    read d ((ofKey d kind key).source ++ rest) = .ok (ofKey d kind key, rest) := by
  have hinner : (ofKey d kind key).source ++ rest
      = kind.written ++ (key ++ (d.closing ++ rest)) := by simp [ofKey]
  obtain ⟨hkind, hsigil, hends⟩ := sigilOf_written d (d.closing ++ rest) hkey.ne_nil hd hesc
  rw [hinner]
  refine read_eq_ok_iff.mpr ⟨key, ?_, ?_, ?_⟩
  · rw [hsigil, hends]
  · rw [hends]
    exact Text.clear_of_disjoint hclosing fun c hmem => (hkey.clean c hmem).2
  · rw [hkind, hsigil, hends]
    exact ofContent_key hc hd hkey.ne_nil hkey.solid

end TagText

/-! ## Templates of which nothing is cut -/

/-- No tag of a scan stands alone on its line. -/
def Scan.Plain (sc : Scan) : Prop := ∀ r ∈ sc.runs, r.tag.margins = none

theorem Scan.Plain.of_prepend {t : Text} {sc : Scan} (h : (sc.prepend t).Plain) : sc.Plain := by
  obtain ⟨runs, tail, failure⟩ := sc
  cases runs with
  | nil => exact h
  | cons r rs =>
      intro r' hr'
      rcases List.mem_cons.mp hr' with rfl | hr'
      · exact h { r' with lead := t ++ r'.lead } List.mem_cons_self
      · exact h r' (List.mem_cons_of_mem _ hr')

/-- A scan as a template that keeps all of its static text. -/
def Scan.uncut (sc : Scan) : Trimmed where
  pieces := sc.runs.map fun r => ⟨r.lead, r.lead, r.tag⟩
  tail := sc.tail
  keptTail := sc.tail

theorem Piece.trim_of_plain {rs : List Run} (h : ∀ r ∈ rs, r.tag.margins = none) :
    trim 0 rs = (rs.map fun r => ⟨r.lead, r.lead, r.tag⟩, 0) := by
  induction rs with
  | nil => rfl
  | cons r rs ih =>
      have hnone := h r List.mem_cons_self
      have hskip : skipAfter 0 r = 0 := by rw [skipAfter, hnone]; exact Nat.zero_sub _
      have hkeep : keep 0 r = r.lead := by rw [keep, hnone]; rfl
      rw [trim, hskip, hkeep, ih fun r' hr' => h r' (List.mem_cons_of_mem _ hr')]
      rfl

theorem Trimmed.ofScan_of_plain {sc : Scan} (h : sc.Plain) : ofScan sc = sc.uncut := by
  rw [ofScan, Piece.trim_of_plain h]
  rfl

namespace Assembly

/-- The elements read, from a state on, when nothing of a scan is cut. -/
def absorb (a : Assembly) (sc : Scan) : Except SyntaxError (List Element) :=
  match sc.failure with
  | some e => .error e
  | none => runFrom a sc.uncut

variable {a a' : Assembly} {sc : Scan}

theorem absorb_prepend (t : Text) : a.absorb (sc.prepend t) = (a.addText t t).absorb sc := by
  obtain ⟨runs, tail, failure⟩ := sc
  cases runs with
  | nil =>
      cases failure with
      | some e => rfl
      | none =>
          show ((a.addText (t ++ tail) (t ++ tail)).finish = ((a.addText t t).addText tail tail).finish)
          rw [addText_addText]
  | cons r rs =>
      cases failure with
      | some e => rfl
      | none =>
          simp only [absorb, Scan.prepend, Scan.uncut, runFrom, List.map_cons, List.foldlM_cons]
          rw [← step_append]

theorem absorb_cons {t : Tag} (h : a.addTag t = .ok a') :
    a.absorb (sc.cons ⟨[], t⟩) = a'.absorb sc := by
  obtain ⟨runs, tail, failure⟩ := sc
  cases failure with
  | some e => rfl
  | none =>
      have hstep : a.step ⟨[], [], t⟩ = .ok a' := h
      simp only [absorb, Scan.cons, Scan.uncut, runFrom, List.map_cons, List.foldlM_cons, hstep]
      rfl

end Assembly

/-- A template of which nothing is cut is assembled from its scan. -/
theorem Element.parse_of_plain {d : Delimiters} {s : Text} (h : (Scan.ofText d s).Plain) :
    parse d s = Assembly.empty.absorb (Scan.ofText d s) := by
  cases hf : (Scan.ofText d s).failure with
  | some e => rw [parse_of_failure hf, Assembly.absorb, hf]
  | none =>
      rw [parse_of_scan hf, Trimmed.ofScan_of_plain h, Assembly.absorb, hf]
      rfl

/-! ## Reading from left to right -/

/-- A written tag at a place, without margins. -/
def Tag.bare (d : Delimiters) (here : Cursor) (t : TagText) : Tag := { place d here t [] with margins := none }

theorem Tag.place_eq_bare {d : Delimiters} {here : Cursor} {t : TagText} {rest : Text}
    (h : (place d here t rest).margins = none) : place d here t rest = bare d here t := by
  rw [bare, ← h]
  rfl

namespace Assembly

/-- After the text `pre`, reading `s` takes assembly from one state to another, whatever follows. -/
def Reads (d : Delimiters) (pre s : Text) (a a' : Assembly) : Prop :=
  ∀ rest sc, Scans (pre ++ s) d rest sc → ∃ sc', Scans pre d (s ++ rest) sc' ∧
    (sc'.Plain → sc.Plain ∧ a.absorb sc' = a'.absorb sc)

variable {d : Delimiters} {pre s s' : Text} {a a' a'' : Assembly}

theorem Reads.refl : Reads d pre [] a a := by
  intro rest sc h
  rw [List.append_nil] at h
  exact ⟨sc, h, fun hplain => ⟨hplain, rfl⟩⟩

theorem Reads.trans (h : Reads d pre s a a') (h' : Reads d (pre ++ s) s' a' a'') :
    Reads d pre (s ++ s') a a'' := by
  intro rest sc hscan
  rw [← List.append_assoc] at hscan
  obtain ⟨sc₁, hscan₁, hplain₁⟩ := h' rest sc hscan
  obtain ⟨sc₂, hscan₂, hplain₂⟩ := h (s' ++ rest) sc₁ hscan₁
  rw [← List.append_assoc] at hscan₂
  refine ⟨sc₂, hscan₂, fun hplain => ?_⟩
  obtain ⟨hp₁, heq₁⟩ := hplain₂ hplain
  obtain ⟨hp, heq⟩ := hplain₁ hp₁
  exact ⟨hp, heq₁.trans heq⟩

/-- Static text without a character of a delimiter is read as it is. -/
theorem reads_text (hopening : d.opening ≠ []) (hclean : Element.Clean d s) :
    Reads d pre s a (a.addText s s) := by
  intro rest sc hscan
  have hclear : Text.Clear d.opening s rest :=
    Text.clear_of_disjoint hopening fun c hc => (hclean c hc).1
  exact ⟨sc.prepend s, hscan.prepend hclear, fun hplain => ⟨hplain.of_prepend, absorb_prepend s⟩⟩

/-- A tag that is read back takes assembly to the state after it. -/
theorem reads_tag {t : TagText} (hread : ∀ rest, TagText.read d (t.source ++ rest) = .ok (t, rest))
    (hreplacement : t.replacement = none)
    (htag : a.addTag (Tag.bare d (Cursor.start.advance pre) t) = .ok a') :
    Reads d pre (d.opening ++ t.source) a a' := by
  intro rest sc hscan
  have hcons : Scans pre d ([] ++ (d.opening ++ (t.source ++ rest)))
      (sc.cons ⟨[], Tag.place d (Cursor.start.advance (pre ++ [])) t rest⟩) :=
    .tag Text.clear_nil (hread rest) (by rw [hreplacement, List.append_nil]; exact hscan)
  rw [List.nil_append, List.append_nil, ← List.append_assoc] at hcons
  -- the margins, which depend on what follows, are all that the placed tag and `bare` can differ in
  refine ⟨_, hcons, fun hplain => ?_⟩
  have hbare := Tag.place_eq_bare (hplain _ List.mem_cons_self)
  rw [hbare]
  exact ⟨fun r hr => hplain r (List.mem_cons_of_mem _ hr), absorb_cons htag⟩

/-- A tag that holds a key is read back. -/
theorem reads_printTag {kind : TagKind} {key : Text} (hclosing : d.closing ≠ [])
    (hkey : Element.ProperKey d key) (hc : kind ≠ .comment) (hd : kind ≠ .delimiters)
    (hesc : kind = .escaped → TagKind.ofText key = .escaped)
    (htag : a.addTag (Tag.bare d (Cursor.start.advance pre) (TagText.ofKey d kind key)) = .ok a') :
    Reads d pre (Element.printTag d kind key) a a' :=
  reads_tag (fun _ => TagText.read_ofKey hkey hclosing hc hd hesc) rfl htag

end Assembly

/-! ## Reading a printed tree -/

theorem Element.push_of_apart {e : Element} {siblings : List Element}
    (h : e.isText = true → ∀ f ∈ siblings.head?, f.isText = false) :
    push e siblings = e :: siblings := by
  cases siblings with
  | nil => exact push_nil e
  | cons f siblings =>
      cases e with
      | text t =>
          have hf := h rfl f rfl
          cases f with
          | text s => cases hf
          | _ => rfl
      | _ => rfl

namespace Assembly

open Element

variable {d : Delimiters} {pre : Text} {a : Assembly} {key : Text} {es : List Element}

/-- After a forest, with its source. -/
def addAll (d : Delimiters) (a : Assembly) (es : List Element) : Assembly :=
  es.foldl (fun a e => a.add (e.print d) e) a

/-- A canonical forest is added as it is: none of its static texts is joined to another. -/
theorem addAll_eq (hes : CanonicalAll d es)
    (hfirst : ∀ e ∈ es.head?, e.isText = true → ∀ f ∈ a.siblings.head?, f.isText = false) :
    a.addAll d es = ⟨a.stack, es.reverse ++ a.siblings, (printAll d es).reverse ++ a.raw⟩ := by
  induction es generalizing a with
  | nil => rfl
  | cons e es ih =>
      obtain ⟨-, hes, hapart⟩ := hes
      have hadd : a.add (e.print d) e
          = ⟨a.stack, e :: a.siblings, (e.print d).reverse ++ a.raw⟩ := by
        rw [add, push_of_apart (hfirst e rfl), addSource, List.reverseAux_eq]
      have hnext : ∀ f ∈ es.head?, f.isText = true →
          ∀ g ∈ (e :: a.siblings).head?, g.isText = false := by
        rintro f hf hft g hg
        obtain rfl := Option.some.inj hg
        apply Bool.eq_false_iff.mpr
        intro he
        rw [hapart he f hf] at hft
        cases hft
      -- now `e` is the last sibling, and what follows it is not joined to it
      show (a.add (e.print d) e).addAll d es = _
      rw [hadd, ih hes hnext]
      simp [printAll]

/-- After a tag that opens, its children and its close tag comes the element that they make up. -/
theorem leave_addAll {t close : Tag} (hes : CanonicalAll d es) (hkey : t.key = close.key) :
    ((a.enter t).addAll d es).leave close
      = .ok (a.add (t.source ++ (printAll d es ++ close.source)) (enclose t es (printAll d es))) := by
  rw [addAll_eq hes (by intro _ _ _ f hf; cases hf)]
  simp [leave, enter, rawBody, hkey]

/-- A tag that opens is read back with what it encloses, when its children are. -/
theorem reads_enclosed (kind : TagKind) (hclosing : d.closing ≠ []) (hkind : kind.opens = true)
    (hkey : ProperKey d key) (hes : CanonicalAll d es)
    (hreads : ∀ pre a, Reads d pre (printAll d es) a (a.addAll d es)) (pre : Text) (a : Assembly) :
    Reads d pre (printTag d kind key ++ (printAll d es ++ printTag d .close key)) a
      (a.add (printTag d kind key ++ (printAll d es ++ printTag d .close key))
        (enclose (Tag.bare d (Cursor.start.advance pre) (TagText.ofKey d kind key)) es
          (printAll d es))) := by
  have henter : a.addTag (Tag.bare d (Cursor.start.advance pre) (TagText.ofKey d kind key))
      = .ok (a.enter (Tag.bare d (Cursor.start.advance pre) (TagText.ofKey d kind key))) := by
    cases kind with
    | normalSection | invertedSection | parent | block => rfl
    | _ => cases hkind
  have hopen := reads_printTag hclosing hkey
    (by rintro rfl; cases hkind) (by rintro rfl; cases hkind) (by rintro rfl; cases hkind) henter
  -- the state at the close tag is the one that the children have left
  refine hopen.trans ((hreads _ _).trans ?_)
  refine reads_printTag hclosing hkey (by decide) (by decide) (by intro h; cases h) ?_
  exact leave_addAll hes rfl

mutual

/-- **A printed element is read back**, wherever it stands. -/
theorem reads_print (hopening : d.opening ≠ []) (hclosing : d.closing ≠ []) :
    (e : Element) → Canonical d e → ∀ pre a, Reads d pre (e.print d) a (a.add (e.print d) e)
  | .text t, h, pre, a => by
      have htext : a.addText t t = a.add t (.text t) := by
        obtain ⟨c, cs, rfl⟩ := List.exists_cons_of_ne_nil h.1
        rfl
      rw [print, ← htext]
      exact reads_text hopening h.2
  | .interpolation key true, h, pre, a =>
      reads_printTag hclosing h.1 (by decide) (by decide) (fun _ => h.2 rfl) rfl
  | .interpolation key false, h, pre, a =>
      reads_printTag hclosing h.1 (by decide) (by decide) (by intro h; cases h) rfl
  | .partialTag key indent, h, pre, a => by
      obtain ⟨hkey, rfl⟩ := h
      exact reads_printTag hclosing hkey (by decide) (by decide) (by intro h; cases h) rfl
  | .sectionTag key inverted children raw written, h, pre, a => by
      obtain ⟨hkey, hes, hraw, hwritten⟩ := h
      rw [hraw, hwritten]
      have hreads := reads_printAll hopening hclosing children hes
      cases inverted with
      | true => exact reads_enclosed .invertedSection hclosing rfl hkey hes hreads pre a
      | false => exact reads_enclosed .normalSection hclosing rfl hkey hes hreads pre a
  | .parentTag key children indent, h, pre, a => by
      obtain ⟨hkey, hes, hblocks, rfl⟩ := h
      have hreads := reads_printAll hopening hclosing children hes
      have hparent := reads_enclosed .parent hclosing rfl hkey hes hreads pre a
      have helement : enclose (Tag.bare d (Cursor.start.advance pre) (TagText.ofKey d .parent key))
          children (printAll d children) = .parentTag key children none := by
        -- all children are blocks, so none is dropped
        show Element.parentTag key (children.filter isBlock) none = _
        rw [List.filter_eq_self.mpr hblocks]
      rw [helement] at hparent
      exact hparent
  | .blockTag key children indent, h, pre, a => by
      obtain ⟨hkey, hes, rfl⟩ := h
      have hreads := reads_printAll hopening hclosing children hes
      exact reads_enclosed .block hclosing rfl hkey hes hreads pre a

/-- A printed forest is read back, wherever it stands. -/
theorem reads_printAll (hopening : d.opening ≠ []) (hclosing : d.closing ≠ []) :
    (es : List Element) → CanonicalAll d es → ∀ pre a, Reads d pre (printAll d es) a (a.addAll d es)
  | [], _, _, _ => Reads.refl
  | e :: es, h, pre, a =>
      (reads_print hopening hclosing e h.1 pre a).trans
        (reads_printAll hopening hclosing es h.2.1 (pre ++ e.print d) (a.add (e.print d) e))

end

end Assembly

open Element in
/-- **Printing and parsing back.** A canonical forest, printed so that no tag stands alone on its line,
    parses to itself. -/
theorem parse_printAll {d : Delimiters} {es : List Element} (hopening : d.opening ≠ [])
    (hclosing : d.closing ≠ []) (hes : CanonicalAll d es)
    (hplain : ∀ t ∈ (Scan.ofText d (printAll d es)).tags, t.standalone = false) :
    parse d (printAll d es) = .ok es := by
  -- nothing follows the printed forest
  have hend : Scans ([] ++ printAll d es) d [] ⟨[], [], none⟩ := .finish Text.clear_nil
  obtain ⟨sc, hscan, hread⟩ := Assembly.reads_printAll hopening hclosing es hes [] .empty [] _ hend
  rw [List.append_nil] at hscan
  obtain rfl := hscan.ofText_eq
  have hbare : (Scan.ofText d (printAll d es)).Plain := by
    intro r hr
    have hmem : r.tag ∈ (Scan.ofText d (printAll d es)).tags := by
      rw [Scan.tags_eq]
      exact List.mem_map_of_mem hr
    have hnone : r.tag.margins.isSome = false := hplain r.tag hmem
    simpa using hnone
  rw [parse_of_plain hbare, (hread hbare).2,
    Assembly.addAll_eq hes (by intro _ _ _ f hf; cases hf)]
  show Except.ok (es.reverse ++ []).reverse = _
  rw [List.append_nil, List.reverse_reverse]

/-- A section and a parent, between delimiters that are the sigil of a section. -/
theorem parse_printAll_hash :
    ∃ es, Element.CanonicalAll ⟨['#'], ['#']⟩ es ∧
      Element.printAll ⟨['#'], ['#']⟩ es = "a##k##&&##/k##<p##$b#\nx#y##/b##/p#".toList ∧
      (∀ t ∈ (Scan.ofText ⟨['#'], ['#']⟩ (Element.printAll ⟨['#'], ['#']⟩ es)).tags,
        t.standalone = false) ∧
      Element.parse ⟨['#'], ['#']⟩ (Element.printAll ⟨['#'], ['#']⟩ es) = .ok es :=
  ⟨[.text ['a'],
      .sectionTag ['k'] false [.interpolation ['&'] false] "#&&#".toList ⟨['#'], ['#']⟩,
      .parentTag ['p'] [.blockTag ['b'] [.text ['\n', 'x'], .interpolation ['y'] true] none] none],
    by decide, by decide +kernel, by decide +kernel,
    parse_printAll (by decide) (by decide) (by decide) (by decide +kernel)⟩

end Mustache

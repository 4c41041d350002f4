import Mustache.Proofs.Assembling
import Mustache.Proofs.Crlf
import Mustache.Proofs.Trimming

/-!
# `Mustache.Proofs.LineEndings` — templates with other line endings

Tags do not notice whether the lines of a template end with a newline or with a carriage return and a newline
(`Mustache.Proofs.Crlf`). What is left is to carry that through the stages of the reader, of which each maps what it
is given to what it was given before, with `Text.crlf` applied to the texts in it:

* `Scans.crlf` — the scan has the same tags with the same static texts between them, or the same fault;
* `Laid.trim_crlf` — trimming cuts it in the same places, although the lengths that are cut change;
* `Assembly.run_crlf` — and what is assembled from it is the same tree but for static texts and raw bodies;
* `parse_crlf` — **hence templates that differ in their line endings have the same tree, or the same fault in the
  same place**.
-/

namespace Mustache

/-! ## Scans -/

/-- Two errors of the same kind in the same row and column. -/
def SyntaxError.Alike (e e' : SyntaxError) : Prop := e'.kind = e.kind ∧ e'.row = e.row ∧ e'.col = e.col

/-- The same run in a template with carriage returns. -/
def Run.crlf (r : Run) : Run := ⟨r.lead.crlf, r.tag.crlf⟩

/-- The same scan of a template with carriage returns, where it ends with a fault or not. -/
def Scan.crlf (sc : Scan) (failure : Option SyntaxError) : Scan := ⟨sc.runs.map Run.crlf, sc.tail.crlf, failure⟩

/-- **A template with carriage returns is scanned as before**, at the place after any text. By induction on the
    derivation: each rule applies to the changed text as it does to the text. -/
theorem Scans.crlf {pre : Text} {d : Delimiters} {s : Text} {sc : Scan} (h : Scans pre d s sc) (hd : d.Usable)
    (hcr : '\r' ∉ s) :
    ∃ failure, Option.Rel SyntaxError.Alike sc.failure failure ∧ Scans pre.crlf d s.crlf (sc.crlf failure) := by
  induction h with
  | @finish pre d s hclear =>
      have hnone := Text.breakOn_eq_none_iff.mpr ⟨hd.opening_ne, hclear⟩
      have hcut := Text.breakOn_crlf hd.opening_solid s
      rw [hnone] at hcut
      exact ⟨none, .none, .finish (Text.breakOn_eq_none_iff.mp hcut).2⟩
  | @fail pre d lead inner fault hclear hne hread =>
      obtain ⟨htext, hclear'⟩ := hclear.crlf hd.opening_solid
      have hread' := TagText.read_crlf hd inner
      rw [hread] at hread'
      have hplace := Cursor.start_advance_crlf (pre ++ lead)
      have hne' : lead.crlf ++ (d.opening ++ inner.crlf) ≠ [] := by
        intro hnil
        exact hd.opening_ne (List.append_eq_nil_iff.mp (List.append_eq_nil_iff.mp hnil).2).1
      have hfail : Scans pre.crlf d _ _ := .fail hclear' hne' hread'
      rw [← Text.crlf_append, hplace, ← htext] at hfail
      -- the report may quote the content of the tag, so of the fault only the kind stays
      refine ⟨_, ?_, hfail⟩
      exact .some ⟨fault.kind_crlf, rfl, rfl⟩
  | @tag pre d lead rest t sc hclear hread hrest ih =>
      have hrestcr : '\r' ∉ rest := by
        intro hmem
        apply hcr
        simp [hmem]
      obtain ⟨failure, halike, hscans⟩ := ih (TagText.usable_of_read hd hread) hrestcr
      obtain ⟨htext, hclear'⟩ := hclear.crlf hd.opening_solid
      rw [Text.crlf_append t.source] at htext hclear'
      have hread' := TagText.read_crlf hd (t.source ++ rest)
      rw [hread, Text.crlf_append] at hread'
      have hpre : (pre ++ lead ++ (d.opening ++ t.source)).crlf
          = pre.crlf ++ lead.crlf ++ (d.opening ++ t.source.crlf) := by
        rw [Text.crlf_append, Text.crlf_append, Text.crlf_append d.opening, hd.opening_solid.crlf_eq]
      rw [hpre] at hscans
      have htag := Scans.tag (t := t.crlf) hclear' hread' hscans
      rw [← Text.crlf_append pre, Tag.place_crlf hd (pre ++ lead) t hrestcr] at htag
      rw [htext]
      exact ⟨failure, halike, htag⟩

/-! ## Trimming -/

/-- The same piece in a template with carriage returns. -/
def Piece.crlf (p : Piece) : Piece := ⟨p.lead.crlf, p.kept.crlf, p.tag.crlf⟩

/-- The same trimmed template with carriage returns. -/
def Trimmed.crlf (t : Trimmed) : Trimmed := ⟨t.pieces.map Piece.crlf, t.tail.crlf, t.keptTail.crlf⟩

namespace Run.LaidAt

variable {s : Text} {g k : Nat} {r : Run}

/-- What a run keeps of its static text is changed like the text. -/
theorem keep_crlf (h : r.LaidAt s g k) :
    Piece.keep (s.slice g k).crlf.length r.crlf = (Piece.keep (k - g) r).crlf := by
  have hlead := congrArg Text.crlf h.lead_eq
  rw [Text.crlf_append, Text.crlf_append] at hlead
  have hdrop : r.crlf.lead.drop (s.slice g k).crlf.length
      = (Piece.keep (k - g) r).crlf ++ Text.crlf (r.tag.margins.elim [] Margins.leading) := by
    show r.lead.crlf.drop _ = _
    rw [hlead, List.drop_left]
  generalize Piece.keep (k - g) r = kept at hdrop ⊢
  have hmargins : r.crlf.tag.margins = r.tag.margins.map Margins.crlf := rfl
  unfold Piece.keep
  rw [hdrop, hmargins]
  cases hm : r.tag.margins with
  | none => exact List.append_nil _
  | some m =>
      -- the leading margin is within a line, so as much is cut from the end as before
      have hleading : m.leading.crlf = m.leading := by
        apply Text.crlf_of_not_mem
        intro hmem
        rcases (h.margins m hm).mem_leading _ hmem with heq | heq <;> cases heq
      show Piece.cutEnd m.leading.length (kept.crlf ++ m.leading.crlf) = kept.crlf
      rw [hleading, Piece.cutEnd_append (Nat.le_refl _), Piece.cutEnd_length, List.append_nil]

/-- What is still to be cut after a run is changed like the text. -/
theorem skipAfter_crlf (h : r.LaidAt s g k) :
    Piece.skipAfter (s.slice g k).crlf.length r.crlf
      = (s.slice r.tag.stop (r.tag.keepStart s)).crlf.length := by
  have hmargins : r.crlf.tag.margins = r.tag.margins.map Margins.crlf := rfl
  unfold Piece.skipAfter
  rw [hmargins]
  cases hm : r.tag.margins with
  | none =>
      -- what was still to be cut ends before the tag, so nothing of it is left
      have hle : (s.slice g k).crlf.length ≤ r.crlf.source.length := by
        show _ ≤ (r.lead.crlf ++ r.tag.source.crlf).length
        rw [h.lead_eq, Text.crlf_append, List.append_assoc, List.length_append]
        exact Nat.le_add_right _ _
      have hnil : s.slice r.tag.stop r.tag.stop = [] := List.drop_eq_nil_of_le (List.length_take_le _ _)
      rw [Tag.keepStart_of_none hm, hnil]
      exact Nat.sub_eq_zero_of_le hle
  | some m =>
      rw [Tag.keepStart_of_margins hm, ← (h.margins m hm).trailing]
      rfl

end Run.LaidAt

/-- **Laid-out runs are trimmed in the same places.** -/
theorem Laid.trim_crlf {s : Text} {g k : Nat} {rs : List Run} {tail : Text} (h : Laid s g k rs tail) :
    (Piece.trim (s.slice g k).crlf.length (rs.map Run.crlf)).1 = (Piece.trim (k - g) rs).1.map Piece.crlf ∧
      tail.crlf.drop (Piece.trim (s.slice g k).crlf.length (rs.map Run.crlf)).2
        = Text.crlf (tail.drop (Piece.trim (k - g) rs).2) := by
  induction h with
  | @last g k tail hle hend htail =>
      refine ⟨rfl, ?_⟩
      have hkept : tail.drop (k - g) = s.slice k s.length := by
        rw [htail, Text.drop_slice, Nat.add_sub_of_le hle]
      show tail.crlf.drop (s.slice g k).crlf.length = Text.crlf (tail.drop (k - g))
      rw [hkept, htail, ← Text.slice_append_slice hle hend, Text.crlf_append, List.drop_left]
  | @run g k r rs tail hrun hrest ih =>
      obtain ⟨hpieces, htail⟩ := ih
      rw [List.map_cons, Piece.trim, Piece.trim, hrun.skipAfter_crlf, hrun.skipAfter_eq, hrun.keep_crlf]
      exact ⟨congrArg (List.cons _) hpieces, htail⟩

/-- Trimming a scan of a template with carriage returns. -/
theorem Trimmed.ofScan_crlf {d : Delimiters} {s : Text} (hd : d.Usable) (hok : (Scan.ofText d s).failure = none) :
    ofScan ((Scan.ofText d s).crlf none) = (ofScan (Scan.ofText d s)).crlf := by
  obtain ⟨hpieces, htail⟩ := ((Scan.scans_ofText d s).laid hd hok (Cut.start s)).trim_crlf
  exact Trimmed.mk.injEq .. |>.mpr ⟨hpieces, rfl, htail⟩

/-! ## Trees -/

namespace Element

mutual

/-- The same element of a template with carriage returns: its static texts and raw bodies have them too. -/
def crlf : Element → Element
  | .text s => .text s.crlf
  | .interpolation key escaped => .interpolation key escaped
  | .sectionTag key inverted children rawBody d => .sectionTag key inverted (crlfAll children) rawBody.crlf d
  | .partialTag key indent => .partialTag key indent
  | .parentTag key children indent => .parentTag key (crlfAll children) indent
  | .blockTag key children indent => .blockTag key (crlfAll children) indent
  | .foreign typeName => .foreign typeName

/-- The same forest in a template with carriage returns. -/
def crlfAll : List Element → List Element
  | [] => []
  | e :: es => crlf e :: crlfAll es

end

theorem crlfAll_eq_map (es : List Element) : crlfAll es = es.map crlf := by
  induction es with
  | nil => rfl
  | cons e es ih => rw [crlfAll, ih, List.map_cons]

theorem crlfAll_reverse (es : List Element) : crlfAll es.reverse = (crlfAll es).reverse := by
  rw [crlfAll_eq_map, crlfAll_eq_map, List.map_reverse]

theorem crlfAll_filter_isBlock (es : List Element) : crlfAll (es.filter isBlock) = (crlfAll es).filter isBlock := by
  have hblock : isBlock ∘ crlf = isBlock := by
    funext e
    cases e <;> rfl
  rw [crlfAll_eq_map, crlfAll_eq_map, List.filter_map, hblock]

theorem crlfAll_push (e : Element) (es : List Element) : crlfAll (push e es) = push e.crlf (crlfAll es) := by
  cases e with
  | text t =>
      rcases es with _ | ⟨f, es⟩
      · rfl
      · cases f with
        | text s =>
            show Element.text (Text.crlf (s ++ t)) :: crlfAll es = .text (s.crlf ++ t.crlf) :: crlfAll es
            rw [Text.crlf_append]
        | _ => rfl
  | _ => rfl

end Element

/-! ## Assembly -/

/-- The text with a carriage return before each newline, for a text whose last character comes first. -/
def Text.crlfReversed (s : Text) : Text := (crlf s.reverse).reverse

/-- The same open tag in a template with carriage returns. An open tag has a key. -/
def OpenTag.crlf (o : OpenTag) : OpenTag where
  tag := { o.tag.crlf with key := o.tag.key }
  siblings := Element.crlfAll o.siblings
  raw := o.raw.crlfReversed

namespace Assembly

/-- The same state in a template with carriage returns. -/
def crlf (a : Assembly) : Assembly :=
  ⟨a.stack.map OpenTag.crlf, Element.crlfAll a.siblings, a.raw.crlfReversed⟩

variable (a : Assembly)

theorem rawBody_crlf : a.crlf.rawBody = a.rawBody.crlf := List.reverse_reverse _

theorem addSource_crlf (source : Text) : a.crlf.addSource source.crlf = (a.addSource source).crlf := by
  have hraw : source.crlf.reverseAux a.raw.crlfReversed = Text.crlfReversed (source.reverseAux a.raw) := by
    rw [List.reverseAux_eq, List.reverseAux_eq, Text.crlfReversed, Text.crlfReversed, List.reverse_append,
      List.reverse_reverse, Text.crlf_append, List.reverse_append]
  exact congrArg (Assembly.mk (a.stack.map OpenTag.crlf) (Element.crlfAll a.siblings)) hraw

theorem add_crlf (source : Text) (e : Element) : a.crlf.add source.crlf e.crlf = (a.add source e).crlf := by
  rw [add, addSource_crlf]
  exact congrArg (fun siblings => { (a.addSource source).crlf with siblings := siblings })
    (Element.crlfAll_push e a.siblings).symm

theorem addText_crlf (lead kept : Text) : a.crlf.addText lead.crlf kept.crlf = (a.addText lead kept).crlf := by
  unfold addText
  rw [addSource_crlf, Text.isEmpty_crlf]
  split
  · rfl
  · exact congrArg (fun siblings => { (a.addSource lead).crlf with siblings := siblings })
      (Element.crlfAll_push (.text kept) a.siblings).symm

theorem enter_crlf {t : Tag} (h : t.kind.keyed = true) : a.crlf.enter t.crlf = (a.enter t).crlf := by
  have hopen : t.crlf = { t.crlf with key := t.key } := by
    rw [← Tag.key_crlf h]
  unfold enter
  rw [hopen]
  rfl

theorem enclose_crlf (t : Tag) (children : List Element) (raw : Text) :
    enclose { t.crlf with key := t.key } (Element.crlfAll children) raw.crlf = (enclose t children raw).crlf := by
  have hkind : Tag.kind { t.crlf with key := t.key } = t.kind := rfl
  have hindent : Tag.indent { t.crlf with key := t.key } = t.indent := t.indent_crlf
  unfold enclose
  rw [hkind, hindent, ← Element.crlfAll_filter_isBlock]
  cases t.kind <;> rfl

theorem leave_crlf {t : Tag} (h : t.kind.keyed = true) : a.crlf.leave t.crlf = (a.leave t).map crlf := by
  obtain ⟨stack, siblings, raw⟩ := a
  cases stack with
  | nil =>
      show Except.error (t.crlf.report (.unexpectedClose t.crlf.key)) = _
      rw [Tag.key_crlf h]
      rfl
  | cons o os =>
      unfold leave
      show (if o.tag.key = t.crlf.key then _ else Except.error (t.crlf.report (.mismatched o.tag.key t.crlf.key)))
        = (if o.tag.key = t.key then _ else _ : Except SyntaxError Assembly).map _
      rw [Tag.key_crlf h]
      split
      · have hsource : o.tag.source.crlf ++ Text.crlf raw.reverse ++ t.source.crlf
            = Text.crlf (o.tag.source ++ raw.reverse ++ t.source) := by
          rw [Text.crlf_append, Text.crlf_append]
        have hadd := add_crlf ⟨os, o.siblings, o.raw⟩ (o.tag.source ++ raw.reverse ++ t.source)
          (enclose o.tag siblings.reverse raw.reverse)
        rw [← enclose_crlf, ← hsource, Element.crlfAll_reverse] at hadd
        have hraw := rawBody_crlf ⟨o :: os, siblings, raw⟩
        show Except.ok _ = Except.ok _
        rw [hraw]
        exact congrArg Except.ok hadd
      · rfl

/-- **A step commutes with the change of line endings.** -/
theorem step_crlf (p : Piece) : a.crlf.step p.crlf = (a.step p).map crlf := by
  have htext : a.crlf.addText p.crlf.lead p.crlf.kept = (a.addText p.lead p.kept).crlf := addText_crlf a p.lead p.kept
  rw [step, htext, step]
  generalize a.addText p.lead p.kept = a
  have hkind : p.crlf.tag.kind = p.tag.kind := rfl
  have hindent : p.crlf.tag.indent = p.tag.indent := p.tag.indent_crlf
  have hkey : ∀ kind, p.tag.kind = kind → kind.keyed = true → p.crlf.tag.key = p.tag.key := by
    rintro kind rfl h
    exact Tag.key_crlf h
  unfold addTag
  rw [hkind, hindent]
  cases h : p.tag.kind with
  | escaped =>
      rw [hkey _ h rfl]
      exact congrArg Except.ok (add_crlf a p.tag.source (.interpolation p.tag.key true))
  | raw =>
      rw [hkey _ h rfl]
      exact congrArg Except.ok (add_crlf a p.tag.source (.interpolation p.tag.key false))
  | partialUse =>
      rw [hkey _ h rfl]
      exact congrArg Except.ok (add_crlf a p.tag.source (.partialTag p.tag.key p.tag.indent))
  | normalSection | invertedSection | parent | block =>
      exact congrArg Except.ok (enter_crlf a (t := p.tag) (by rw [h]; rfl))
  | close => exact leave_crlf a (t := p.tag) (by rw [h]; rfl)
  | comment | delimiters => exact congrArg Except.ok (addSource_crlf a _)

theorem finish_crlf : a.crlf.finish = a.finish.map Element.crlfAll := by
  obtain ⟨stack, siblings, raw⟩ := a
  cases stack with
  | nil => exact congrArg Except.ok (Element.crlfAll_reverse siblings).symm
  | cons o os => rfl

/-- **What is assembled** from a template with carriage returns is the same tree with them, or the same fault. -/
theorem run_crlf (t : Trimmed) : run t.crlf = (run t).map Element.crlfAll := by
  have hfold := foldlM_hom (f := crlf) (g := Piece.crlf) (e := id)
    (fun a p => by rw [step_crlf]; cases step a p <;> rfl) t.pieces empty
  have hempty : empty.crlf = empty := rfl
  rw [hempty] at hfold
  unfold run Trimmed.crlf
  rw [hfold]
  cases t.pieces.foldlM step empty with
  | error e => rfl
  | ok a =>
      show (a.crlf.addText t.tail.crlf t.keptTail.crlf).finish = (a.addText t.tail t.keptTail).finish.map _
      rw [addText_crlf, finish_crlf]

end Assembly

/-! ## The result -/

/-- **Line endings do not matter to the reader.** For every text without carriage returns and all usable delimiters,
    the text with a carriage return before each newline parses if and only if the text does. Its tree is then that of
    the text with carriage returns in the static texts and the raw bodies, and with the same keys, indentations,
    delimiters and nesting; and if there is an error, it is of the same kind, in the same row and column. -/
theorem parse_crlf {d : Delimiters} {s : Text} (hd : d.Usable) (hcr : '\r' ∉ s) :
    (Element.parse d s.crlf).isOk = (Element.parse d s).isOk ∧
    (∀ es, Element.parse d s = .ok es → Element.parse d s.crlf = .ok (Element.crlfAll es)) ∧
    ∀ e e', Element.parse d s = .error e → Element.parse d s.crlf = .error e' →
      e'.kind = e.kind ∧ e'.row = e.row ∧ e'.col = e.col := by
  obtain ⟨failure, halike, hscans⟩ := (Scan.scans_ofText d s).crlf hd hcr
  have hscan : Scan.ofText d s.crlf = (Scan.ofText d s).crlf failure := hscans.ofText_eq
  cases hfailure : (Scan.ofText d s).failure with
  | some e =>
      rw [hfailure] at halike
      cases halike with
      | @some _ e' halike =>
          have hparse := Element.parse_of_failure hfailure
          have hparse' : Element.parse d s.crlf = .error e' := Element.parse_of_failure (congrArg Scan.failure hscan)
          rw [hparse, hparse']
          refine ⟨rfl, fun es h => ?_, fun f f' h h' => ?_⟩
          · cases h
          · cases h
            cases h'
            exact halike
  | none =>
      rw [hfailure] at halike
      cases halike
      have hparse := Element.parse_of_scan hfailure
      have hparse' : Element.parse d s.crlf
          = (Assembly.run (Trimmed.ofScan (Scan.ofText d s))).map Element.crlfAll := by
        rw [Element.parse_of_scan (congrArg Scan.failure hscan), hscan, Trimmed.ofScan_crlf hd hfailure,
          Assembly.run_crlf]
      rw [hparse, hparse']
      cases Assembly.run (Trimmed.ofScan (Scan.ofText d s)) with
      | ok es =>
          refine ⟨rfl, fun fs h => ?_, fun e e' h => ?_⟩
          · cases h
            rfl
          · cases h
      | error e =>
          refine ⟨rfl, fun es h => ?_, fun f f' h h' => ?_⟩
          · cases h
          · cases h
            cases h'
            exact ⟨rfl, rfl, rfl⟩

/-- A section on lines of its own, with an indented partial and a tag over two lines. -/
theorem parse_crlf_section :
    Delimiters.Usable ⟨['|'], ['|']⟩ ∧ '\r' ∉ "x\n|#a|\n |>p|\nb|v\n|\n|/a|".toList ∧
    Text.crlf "x\n|#a|\n |>p|\nb|v\n|\n|/a|".toList = "x\r\n|#a|\r\n |>p|\r\nb|v\r\n|\r\n|/a|".toList ∧
    Element.parse ⟨['|'], ['|']⟩ "x\r\n|#a|\r\n |>p|\r\nb|v\r\n|\r\n|/a|".toList
      = .ok [.text ['x', '\r', '\n'],
          .sectionTag ['a'] false
            [.partialTag ['p'] (some [' ']), .text ['b'], .interpolation ['v'] true, .text ['\r', '\n']]
            "\r\n |>p|\r\nb|v\r\n|\r\n".toList ⟨['|'], ['|']⟩] := by
  have hparse : Element.parse ⟨['|'], ['|']⟩ "x\n|#a|\n |>p|\nb|v\n|\n|/a|".toList
      = .ok [.text ['x', '\n'],
          .sectionTag ['a'] false
            [.partialTag ['p'] (some [' ']), .text ['b'], .interpolation ['v'] true, .text ['\n']]
            "\n |>p|\nb|v\n|\n".toList ⟨['|'], ['|']⟩] := by
    with_unfolding_all rfl
  have husable : Delimiters.Usable ⟨['|'], ['|']⟩ := by decide
  have hcr : '\r' ∉ "x\n|#a|\n |>p|\nb|v\n|\n|/a|".toList := by decide
  exact ⟨husable, hcr, rfl, (parse_crlf husable hcr).2.1 _ hparse⟩

end Mustache

import Mathlib.Data.List.Chain
import Mustache.Proofs.Indentation
import Mustache.Proofs.Trimming

/-!
# `Mustache.Proofs.Form` — the form of parsed trees

A tree that has been parsed is in form: static text is there only where it is something and never next to static text,
keys are names, indentation is blank, a parent holds blocks only, and each section belongs to two tags of the text,
between which its raw body stands.

The scanner vouches for what is said of a single tag. The rest is kept up by the assembly, for the siblings at each of
its open tags: `Assembly.Formed` holds at an offset if all siblings collected so far are in form, and what has been
collected of the source at each level reaches from the open tag of the level to the next one, or to the offset
(`Assembly.Collects`).

* `Element.Formed.push` — a new sibling, joined to the last one or not, leaves the siblings in form;
* `Scans.declared` — a tag stands between the initial delimiters or ones that were declared before it;
* `Assembly.Formed.step` — **a step of the assembly keeps the form**;
* `Element.parse_formed` — **hence all parsed trees are in form**.
-/

namespace Mustache

/-! ## Separated siblings -/

namespace Element

variable {e f : Element} {es : List Element}

/-- Not both elements are static text. -/
def Apart (e f : Element) : Prop := ∀ s t, e = .text s → f ≠ .text t

/-- No static text among the siblings is empty, and no two of them are neighbours. -/
structure Separated (es : List Element) : Prop where
  nonempty : ∀ t, .text t ∈ es → t ≠ []
  apart : es.IsChain Apart

theorem Apart.symm (h : Apart e f) : Apart f e := fun s t hf he => h t s he hf

theorem separated_nil : Separated [] := ⟨fun _ h => absurd h List.not_mem_nil, .nil⟩

theorem Separated.reverse (h : Separated es) : Separated es.reverse :=
  ⟨fun t ht => h.nonempty t (List.mem_reverse.mp ht), List.isChain_reverse.mpr (h.apart.imp fun _ _ => Apart.symm)⟩

/-- Siblings without static text. -/
theorem separated_of_forall (h : ∀ e ∈ es, ∀ t, e ≠ .text t) : Separated es := by
  constructor
  · exact fun t ht => absurd rfl (h _ ht t)
  · refine List.Pairwise.isChain (List.pairwise_of_forall_mem_list ?_)
    intro e he f _ s t heq
    exact absurd heq (h e he s)

theorem Separated.cons (h : Separated es) (he : e ≠ .text []) (hapart : ∀ f ∈ es.head?, Apart e f) :
    Separated (e :: es) := by
  constructor
  · intro t ht
    rcases List.mem_cons.mp ht with rfl | ht
    · rintro rfl
      exact he rfl
    · exact h.nonempty t ht
  · exact List.isChain_cons.mpr ⟨hapart, h.apart⟩

/-- Joining static text to static text keeps siblings separated. -/
theorem Separated.push (h : Separated es) (he : e ≠ .text []) : Separated (push e es) := by
  unfold Element.push
  split
  · -- what stands before the last static text is apart from the joined one as well
    rename_i t s rest
    constructor
    · intro u hu
      rcases List.mem_cons.mp hu with heq | hu
      · cases heq
        intro hnil
        exact he (congrArg Element.text (List.append_eq_nil_iff.mp hnil).2)
      · exact h.nonempty u (List.mem_cons_of_mem _ hu)
    · exact h.apart.imp_head fun hs _ u _ => hs s u rfl
  · rename_i hjoin
    refine h.cons he ?_
    rintro f hf s t rfl rfl
    obtain ⟨rest, rfl⟩ := List.head?_eq_some_iff.mp hf
    exact hjoin s t rest rfl rfl

end Element

/-! ## Form -/

namespace Tag

/-- The delimiters of a tag are the initial ones, or one of the tags that end before it declares them. -/
def Declared (d : Delimiters) (ts : List Tag) (t : Tag) : Prop :=
  t.delimiters = d ∨ ∃ c ∈ ts, c.kind = .delimiters ∧ c.replacement = some t.delimiters ∧ c.stop ≤ t.start

/-- Two tags of a text, an open one and, behind it, a close tag with the same key. -/
structure Encloses (d : Delimiters) (s : Text) (opener closer : Tag) : Prop where
  opener_mem : opener ∈ (Scan.ofText d s).tags
  closer_mem : closer ∈ (Scan.ofText d s).tags
  opens : opener.kind.opens = true
  closes : closer.kind = .close
  key : opener.key = closer.key
  le : opener.stop ≤ closer.start

end Tag

namespace Element

/-- A section that two tags enclose: it has the key and the delimiters of the first, and the source between them for its
    raw body. -/
structure Delimits (d : Delimiters) (s : Text) (opener closer : Tag) (key : Text) (inverted : Bool) (raw : Text)
    (e : Delimiters) : Prop where
  encloses : opener.Encloses d s closer
  kind : opener.kind = if inverted then .invertedSection else .normalSection
  key : key = opener.key
  raw : raw = s.slice opener.stop closer.start
  delimiters : e = opener.delimiters
  declared : opener.Declared d (Scan.ofText d s).tags

/-- An element in form. -/
structure InForm (d : Delimiters) (s : Text) (e : Element) : Prop where
  children : Separated e.children
  key : ∀ k, e.key? = some k → k ≠ [] ∧ Text.Solid k
  indent : e.BlankIndent
  blocks : ∀ k children indent, e = .parentTag k children indent → ∀ f ∈ children, f.isBlock = true
  body : ∀ k inverted children raw d', e = .sectionTag k inverted children raw d' →
    ∃ opener closer, Delimits d s opener closer k inverted raw d'

/-- Siblings in form, at any depth. -/
structure Formed (d : Delimiters) (s : Text) (es : List Element) : Prop where
  separated : Separated es
  everywhere : Everywhere (InForm d s) es

variable {d : Delimiters} {s : Text} {e : Element} {es : List Element}

/-- An element without children is in form if its key and its indentation are. -/
theorem inForm_of_leaf (hchildren : e.children? = none) (hkey : ∀ k, e.key? = some k → k ≠ [] ∧ Text.Solid k)
    (hindent : e.BlankIndent) : InForm d s e where
  children := by
    rw [children, hchildren]
    exact separated_nil
  key := hkey
  indent := hindent
  blocks := by
    rintro k children indent rfl
    cases hchildren
  body := by
    rintro k inverted children raw d' rfl
    cases hchildren

theorem inForm_text (t : Text) : InForm d s (.text t) := inForm_of_leaf rfl nofun nofun

theorem formed_nil : Formed d s [] := ⟨separated_nil, everywhere_nil⟩

theorem Formed.reverse (h : Formed d s es) : Formed d s es.reverse :=
  ⟨h.separated.reverse, h.everywhere.mono fun _ => List.mem_reverse.mp⟩

/-- A new sibling leaves the siblings in form. -/
theorem Formed.push (h : Formed d s es) (he : e ≠ .text []) (hform : Everywhere (InForm d s) [e]) :
    Formed d s (push e es) :=
  ⟨h.separated.push he, everywhere_push inForm_text hform h.everywhere⟩

end Element

/-! ## Tags of a scan -/

/-- What is declared behind a tag is declared before it, or by the tag. -/
theorem Tag.Declared.cons {d : Delimiters} {ts : List Tag} {c t : Tag} (h : t.Declared (c.replacement.getD d) ts)
    (hkind : c.kind ≠ .delimiters → c.replacement = none) (hle : c.stop ≤ t.start) : t.Declared d (c :: ts) := by
  rcases h with heq | ⟨u, hu, hdeclares⟩
  · cases hreplacement : c.replacement with
    | none =>
        rw [hreplacement] at heq
        exact Or.inl heq
    | some e =>
        rw [hreplacement] at heq
        refine Or.inr ⟨c, List.mem_cons_self, ?_, ?_, hle⟩
        · by_contra hne
          rw [hkind hne] at hreplacement
          cases hreplacement
        · exact hreplacement.trans (congrArg some heq.symm)
  · exact Or.inr ⟨u, List.mem_cons_of_mem _ hu, hdeclares⟩

/-- **A tag stands between the initial delimiters or ones that were declared before it.** By induction on the
    derivation, with where the tags begin. -/
theorem Scans.declared {pre s : Text} {d : Delimiters} {sc : Scan} (h : Scans pre d s sc) :
    ∀ r ∈ sc.runs, pre.length ≤ r.tag.start ∧ r.tag.Declared d (sc.runs.map Run.tag) := by
  induction h with
  | finish | fail => exact fun _ hr => absurd hr List.not_mem_nil
  | @tag pre d lead rest t sc _ hread _ ih =>
      have hstart := Tag.start_place d (pre ++ lead) t rest
      have hstop := Tag.stop_place d (pre ++ lead) t rest
      intro r hr
      rcases List.mem_cons.mp hr with rfl | hr
      · refine ⟨?_, Or.inl rfl⟩
        rw [hstart, List.length_append]
        exact Nat.le_add_right _ _
      · obtain ⟨hle, hdeclared⟩ := ih r hr
        constructor
        · rw [List.length_append, List.length_append] at hle
          omega
        · exact hdeclared.cons (TagText.replacement_of_read hread) (hstop ▸ hle)

namespace Scan

variable {d : Delimiters} {s : Text} {t : Tag}

theorem key_of_mem_tags (ht : t ∈ (ofText d s).tags) (hkind : t.kind ≠ .comment ∧ t.kind ≠ .delimiters) :
    t.key ≠ [] ∧ Text.Solid t.key := by
  rw [tags_eq] at ht
  obtain ⟨r, hr, rfl⟩ := List.mem_map.mp ht
  obtain ⟨before, e, u, rest, -, hread, hplace⟩ := (scans_ofText d s).placed r hr
  rw [hplace] at hkind ⊢
  exact TagText.key_of_read hread hkind

theorem blankIndent_of_mem_tags (ht : t ∈ (ofText d s).tags) : t.BlankIndent := by
  rw [tags_eq] at ht
  obtain ⟨r, hr, rfl⟩ := List.mem_map.mp ht
  exact (scans_ofText d s).blankIndent r hr

theorem declared_of_mem_tags (ht : t ∈ (ofText d s).tags) : t.Declared d (ofText d s).tags := by
  rw [tags_eq] at ht ⊢
  obtain ⟨r, hr, rfl⟩ := List.mem_map.mp ht
  exact ((scans_ofText d s).declared r hr).2

end Scan

namespace Element

variable {d : Delimiters} {s : Text} {es : List Element} {t c : Tag}

theorem inForm_interpolation (ht : t ∈ (Scan.ofText d s).tags)
    (hkind : t.kind ≠ .comment ∧ t.kind ≠ .delimiters) (escaped : Bool) :
    InForm d s (.interpolation t.key escaped) := by
  refine inForm_of_leaf rfl ?_ nofun
  rintro _ ⟨⟩
  exact Scan.key_of_mem_tags ht hkind

theorem inForm_partialTag (ht : t ∈ (Scan.ofText d s).tags)
    (hkind : t.kind ≠ .comment ∧ t.kind ≠ .delimiters) : InForm d s (.partialTag t.key t.indent) := by
  refine inForm_of_leaf rfl ?_ (blankIndent_arises.partialUse t (Scan.blankIndent_of_mem_tags ht))
  rintro _ ⟨⟩
  exact Scan.key_of_mem_tags ht hkind

theorem key?_enclose (t : Tag) (es : List Element) (raw : Text) : (Assembly.enclose t es raw).key? = some t.key := by
  unfold Assembly.enclose
  split <;> rfl

/-- What remains of separated siblings inside a tag is separated, since of a parent only blocks do. -/
theorem separated_enclose (hes : Separated es) (raw : Text) : Separated (Assembly.enclose t es raw).children := by
  unfold Assembly.enclose
  split
  · refine separated_of_forall ?_
    rintro e he u rfl
    exact absurd (List.mem_filter.mp he).2 Bool.false_ne_true
  · exact hes
  · exact hes

/-- What two tags enclose is in form if its children are separated. -/
theorem inForm_enclose (h : t.Encloses d s c) (hes : Separated es) :
    InForm d s (Assembly.enclose t es (s.slice t.stop c.start)) where
  children := separated_enclose hes _
  key := by
    have hkind : t.kind ≠ .comment ∧ t.kind ≠ .delimiters := by
      constructor <;> intro hkind <;> exact absurd h.opens (by rw [hkind]; decide)
    rw [key?_enclose]
    rintro _ ⟨⟩
    exact Scan.key_of_mem_tags h.opener_mem hkind
  indent := blankIndent_arises.enclosed t es _ (Scan.blankIndent_of_mem_tags h.opener_mem)
  blocks := by
    intro k children indent heq f hf
    unfold Assembly.enclose at heq
    split at heq
    · cases heq
      exact (List.mem_filter.mp hf).2
    · cases heq
    · cases heq
  body := by
    intro k inverted children raw d' heq
    unfold Assembly.enclose at heq
    split at heq
    · cases heq
    · cases heq
    · rename_i hparent hblock
      cases heq
      refine ⟨t, c, h, ?_, rfl, rfl, rfl, Scan.declared_of_mem_tags h.opener_mem⟩
      have hopens := h.opens
      cases hkind : t.kind with
      | normalSection | invertedSection => rfl
      | parent => exact absurd hkind hparent
      | block => exact absurd hkind hblock
      | _ =>
          rw [hkind] at hopens
          cases hopens

theorem everywhere_enclose (h : t.Encloses d s c) (hes : Formed d s es) :
    Everywhere (InForm d s) [Assembly.enclose t es (s.slice t.stop c.start)] :=
  everywhere_singleton.mpr ⟨inForm_enclose h hes.separated, hes.everywhere.mono fun _ he => mem_of_mem_enclose he⟩

theorem enclose_ne_text {raw u : Text} : Assembly.enclose t es raw ≠ .text u := by
  unfold Assembly.enclose
  split <;> nofun

end Element

/-! ## The source at each level -/

namespace Assembly

/-- `Collects s n stack raw`: of the text `s` up to the offset `n`, `raw` is what has been read since the innermost open
    tag, and each tag of the stack has what has been read between the open tag around it and the tag. -/
inductive Collects (s : Text) : Nat → List OpenTag → Text → Prop where
  | root {n : Nat} : Collects s n [] (s.slice 0 n).reverse
  | inside {n : Nat} {o : OpenTag} {stack : List OpenTag} (hstop : o.tag.stop ≤ n)
      (hsource : o.tag.source = s.slice o.tag.start o.tag.stop) (houter : Collects s o.tag.start stack o.raw) :
      Collects s n (o :: stack) (s.slice o.tag.stop n).reverse

/-- Reading on adds to what the innermost level has read. -/
theorem Collects.forward {s raw : Text} {n m : Nat} {stack : List OpenTag} (h : Collects s n stack raw) (hnm : n ≤ m) :
    Collects s m stack ((s.slice n m).reverseAux raw) := by
  rw [List.reverseAux_eq]
  cases h with
  | root =>
      rw [← List.reverse_append, Text.slice_append_slice (Nat.zero_le n) hnm]
      exact .root
  | inside hstop hsource houter =>
      rw [← List.reverse_append, Text.slice_append_slice hstop hnm]
      exact .inside (Nat.le_trans hstop hnm) hsource houter

/-- What has been collected inside an open tag, and what before it. -/
theorem Collects.of_cons {s raw : Text} {n : Nat} {o : OpenTag} {stack : List OpenTag}
    (h : Collects s n (o :: stack) raw) :
    raw = (s.slice o.tag.stop n).reverse ∧ o.tag.stop ≤ n ∧ o.tag.source = s.slice o.tag.start o.tag.stop ∧
      Collects s o.tag.start stack o.raw := by
  cases h with
  | inside hstop hsource houter => exact ⟨rfl, hstop, hsource, houter⟩

/-! ## Steps -/

/-- At an offset of a text, the assembly has collected siblings in form at each level, and the source of the level. -/
structure Formed (d : Delimiters) (s : Text) (n : Nat) (a : Assembly) : Prop where
  siblings : Element.Formed d s a.siblings
  stack : ∀ o ∈ a.stack, o.tag ∈ (Scan.ofText d s).tags ∧ o.tag.kind.opens = true ∧ Element.Formed d s o.siblings
  source : Collects s n a.stack a.raw

namespace Formed

variable {d : Delimiters} {s : Text} {n m : Nat} {a a' : Assembly} {t : Tag}

theorem empty (d : Delimiters) (s : Text) : Formed d s 0 Assembly.empty where
  siblings := Element.formed_nil
  stack := fun _ ho => absurd ho List.not_mem_nil
  source := .root

theorem addSource (h : a.Formed d s n) (hnm : n ≤ m) : (a.addSource (s.slice n m)).Formed d s m :=
  ⟨h.siblings, h.stack, h.source.forward hnm⟩

theorem add {e : Element} (h : a.Formed d s n) (hnm : n ≤ m) (he : e ≠ .text [])
    (hform : Element.Everywhere (Element.InForm d s) [e]) : (a.add (s.slice n m) e).Formed d s m :=
  ⟨h.siblings.push he hform, h.stack, h.source.forward hnm⟩

theorem addText (h : a.Formed d s n) (hnm : n ≤ m) (kept : Text) : (a.addText (s.slice n m) kept).Formed d s m := by
  refine ⟨?_, h.stack, h.source.forward hnm⟩
  unfold Assembly.addText
  dsimp only
  split
  · exact h.siblings
  · rename_i hne
    refine h.siblings.push ?_ (Element.everywhere_singleton.mpr ⟨Element.inForm_text kept, Element.everywhere_nil⟩)
    rintro ⟨⟩
    exact hne rfl

theorem enter (h : a.Formed d s t.start) (ht : t ∈ (Scan.ofText d s).tags) (hopens : t.kind.opens = true)
    (hsource : t.source = s.slice t.start t.stop) : (a.enter t).Formed d s t.stop := by
  refine ⟨Element.formed_nil, List.forall_mem_cons.mpr ⟨⟨ht, hopens, h.siblings⟩, h.stack⟩, ?_⟩
  have hcollects : Collects s t.stop (⟨t, a.siblings, a.raw⟩ :: a.stack) (s.slice t.stop t.stop).reverse :=
    .inside (Nat.le_refl _) hsource h.source
  have hnil : s.slice t.stop t.stop = [] := List.drop_eq_nil_of_le (List.length_take_le _ _)
  rwa [hnil] at hcollects

theorem leave (h : a.Formed d s t.start) (ht : t ∈ (Scan.ofText d s).tags) (hclose : t.kind = .close)
    (hsource : t.source = s.slice t.start t.stop) (hleave : a.leave t = .ok a') : a'.Formed d s t.stop := by
  unfold Assembly.leave at hleave
  split at hleave
  · cases hleave
  · rename_i o stack hstack
    obtain ⟨⟨ho, hopens, hbefore⟩, hrest⟩ := List.forall_mem_cons.mp (hstack ▸ h.stack)
    obtain ⟨hraw, hstop, hopen, houter⟩ := (hstack ▸ h.source).of_cons
    split at hleave
    · rename_i hkey
      cases hleave
      have hbody : a.rawBody = s.slice o.tag.stop t.start := by rw [rawBody, hraw, List.reverse_reverse]
      have hstart : o.tag.start ≤ o.tag.stop := Nat.le_add_right _ _
      have hclosed : t.start ≤ t.stop := Nat.le_add_right _ _
      -- from the open tag to the end of the close tag nothing is lost
      have hall : o.tag.source ++ a.rawBody ++ t.source = s.slice o.tag.start t.stop := by
        rw [hopen, hbody, hsource, Text.slice_append_slice hstart hstop,
          Text.slice_append_slice (Nat.le_trans hstart hstop) hclosed]
      rw [hall, hbody]
      have houtside : Formed d s o.tag.start ⟨stack, o.siblings, o.raw⟩ := ⟨hbefore, hrest, houter⟩
      exact houtside.add (by omega) Element.enclose_ne_text
        (Element.everywhere_enclose ⟨ho, ht, hopens, hclose, hkey, hstop⟩ h.siblings.reverse)
    · cases hleave

theorem addTag (h : a.Formed d s t.start) (ht : t ∈ (Scan.ofText d s).tags)
    (hsource : t.source = s.slice t.start t.stop) (hadd : a.addTag t = .ok a') : a'.Formed d s t.stop := by
  have hle : t.start ≤ t.stop := Nat.le_add_right _ _
  have hleaf : ∀ {e : Element}, e.children = [] → e ≠ .text [] → e.InForm d s →
      (a.add t.source e).Formed d s t.stop := by
    intro e hchildren hne he
    rw [hsource]
    exact h.add hle hne (Element.everywhere_singleton.mpr ⟨he, hchildren ▸ Element.everywhere_nil⟩)
  unfold Assembly.addTag at hadd
  cases hkind : t.kind with
  | escaped | raw =>
      rw [hkind] at hadd
      cases hadd
      exact hleaf rfl nofun (Element.inForm_interpolation ht (by simp [hkind]) _)
  | partialUse =>
      rw [hkind] at hadd
      cases hadd
      exact hleaf rfl nofun (Element.inForm_partialTag ht (by simp [hkind]))
  | normalSection | invertedSection | parent | block =>
      rw [hkind] at hadd
      cases hadd
      exact h.enter ht (by rw [hkind]; rfl) hsource
  | close =>
      rw [hkind] at hadd
      exact h.leave ht hkind hsource hadd
  | comment | delimiters =>
      rw [hkind] at hadd
      cases hadd
      rw [hsource]
      exact h.addSource hle

/-- **A step of the assembly keeps the form**: from where a run begins to the end of its tag. -/
theorem step {r : Run} {k : Nat} {kept : Text} (h : a.Formed d s n) (hr : r.LaidAt s n k)
    (ht : r.tag ∈ (Scan.ofText d s).tags) (hstep : a.step ⟨r.lead, kept, r.tag⟩ = .ok a') :
    a'.Formed d s r.tag.stop := by
  have hle : n ≤ r.tag.start := Nat.le_trans hr.le (Nat.le_trans hr.le_keepStop hr.keepStop_le)
  have htext := h.addText hle kept
  rw [← hr.lead] at htext
  exact htext.addTag ht hr.source hstep

/-- The elements at the end of a text are in form. -/
theorem finish {es : List Element} (h : a.Formed d s n) (hfinish : a.finish = .ok es) : Element.Formed d s es := by
  unfold Assembly.finish at hfinish
  split at hfinish
  · cases hfinish
    exact h.siblings.reverse
  · cases hfinish

end Formed

/-- What is assembled from runs that are laid out in a text is in form. By induction on the runs, whatever is cut of
    their static text. -/
theorem formed_of_laid {d : Delimiters} {s : Text} {g k skip : Nat} {rs : List Run} {tail kept : Text} {a : Assembly}
    {es : List Element} (h : Laid s g k rs tail) (hrs : ∀ r ∈ rs, r.tag ∈ (Scan.ofText d s).tags) (ha : a.Formed d s g)
    (hrun : a.runFrom ⟨(Piece.trim skip rs).1, tail, kept⟩ = .ok es) : Element.Formed d s es := by
  induction h generalizing skip a with
  | @last g k tail hle hend htail =>
      have hlast := ha.addText (Nat.le_trans hle hend) kept
      rw [← htail] at hlast
      exact hlast.finish hrun
  | @run g k r rs tail hr hrest ih =>
      obtain ⟨ht, hrs⟩ := List.forall_mem_cons.mp hrs
      unfold runFrom at hrun
      rw [Piece.trim, List.foldlM_cons] at hrun
      cases hstep : a.step ⟨r.lead, Piece.keep skip r, r.tag⟩ with
      | error e =>
          rw [hstep] at hrun
          cases hrun
      | ok a' =>
          rw [hstep] at hrun
          exact ih hrs (ha.step hr ht hstep) hrun

end Assembly

/-! ## Parsed texts -/

/-- **All parsed trees are in form.** For every text and all usable delimiters that parse: neither at the root nor at
    any depth is a static text empty or next to a static text; every key is there and without white space; all
    indentation is spaces and tabs; the children of a parent are blocks; and every section has two tags in the text, with
    its key and with its raw body between them, and has the delimiters of the first, which are the initial pair or
    declared by a tag that ends before it. -/
theorem Element.parse_formed {d : Delimiters} {s : Text} {es : List Element} (hd : d.Usable) (h : parse d s = .ok es) :
    Formed d s es := by
  have hscan := scan_of_parse h
  rw [parse_of_scan hscan] at h
  have hlaid := (Scan.scans_ofText d s).laid hd hscan (Cut.start s)
  have htags : ∀ r ∈ (Scan.ofText d s).runs, r.tag ∈ (Scan.ofText d s).tags := by
    intro r hr
    rw [Scan.tags_eq]
    exact List.mem_map_of_mem hr
  exact Assembly.formed_of_laid hlaid htags (Assembly.Formed.empty d s) h

/-- A parent with more than a block inside it, and a section between declared delimiters with static text and a partial
    that is alone on its line inside it. -/
theorem Element.parse_formed_declared :
    Delimiters.Usable ⟨['|'], ['|']⟩ ∧
      Formed ⟨['|'], ['|']⟩ "|<p|b|$q|c|/q||/p||=% ;=|%#s;f\n %>g;\n%/s;".toList
        [.parentTag ['p'] [.blockTag ['q'] [.text ['c']] none] none,
          .sectionTag ['s'] false [.text ['f', '\n'], .partialTag ['g'] (some [' '])] "f\n %>g;\n".toList
            ⟨['%'], [';']⟩] := by
  have hd : Delimiters.Usable ⟨['|'], ['|']⟩ := by decide
  exact ⟨hd, parse_formed hd (by with_unfolding_all rfl)⟩

end Mustache

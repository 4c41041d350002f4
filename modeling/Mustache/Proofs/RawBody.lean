import Mustache.Proofs.Nesting
import Mustache.Proofs.Running
import Mustache.Proofs.Scanning
import Mustache.Proofs.Skeleton

/-!
# `Mustache.Proofs.RawBody` — parsing a raw body again

A section keeps its raw body, the source between its tags, and a function may have it parsed once more. The
second parse cuts its text out of the middle of a template: other tags may be alone on their line in it, but
each tag is found and read as before, since neither depends on what lies before the tag or far behind it.

* `Tagged` — text that consists of tags and the static texts before them, whatever stands around it;
  `Scans.tagged` and `Tagged.scans` lead from a scan to it and back;
* `Tagged.adds` — when the tags are balanced, the text is assembled on its own, and so is what lies between
  the tags of each section in it;
* `Element.coherent_skeletonAll` — hence the raw bodies in a parsed text give the children of their sections,
  but for static text and indentation (`Element.Coherent`).
-/

namespace Mustache

/-! ## Tags without a place -/

namespace TagText

/-- A tag between delimiters, without a place and margins. -/
def unplaced (d : Delimiters) (t : TagText) : Tag where
  kind := t.kind
  key := t.key
  source := d.opening ++ t.source
  start := 0
  row := 0
  col := 0
  delimiters := d
  replacement := t.replacement
  margins := none

theorem source_unplaced (d : Delimiters) (t : TagText) (s : Text) :
    (t.unplaced d).source ++ s = d.opening ++ (t.source ++ s) :=
  List.append_assoc _ _ _

end TagText

/-! ## Tagged text -/

/-- `Tagged d s ps e`: under the delimiters `d`, the text `s` is the tags of `ps` with the static texts
    before them, and after it the delimiters `e` hold. -/
inductive Tagged : Delimiters → Text → List Piece → Delimiters → Prop where
  | nil {d : Delimiters} : Tagged d [] [] d
  | tag {d e : Delimiters} {lead s : Text} {t : TagText} {ps : List Piece}
      (hclear : Text.Clear d.opening lead (d.opening ++ [])) (hread : TagText.read d t.source = .ok (t, []))
      (hrest : Tagged (t.replacement.getD d) s ps e) :
      Tagged d (lead ++ (d.opening ++ (t.source ++ s))) (⟨lead, [], t.unplaced d⟩ :: ps) e

/-- A text that scans is tagged text and static text. -/
theorem Scans.tagged {pre s : Text} {d : Delimiters} {sc : Scan} (h : Scans pre d s sc)
    (hok : sc.failure = none) :
    ∃ body e, s = body ++ sc.tail ∧ Tagged d body (sc.runs.map Run.skeleton) e ∧
      Text.Clear e.opening sc.tail [] := by
  induction h with
  | finish hclear => exact ⟨[], _, rfl, .nil, hclear⟩
  | fail => cases hok
  | @tag pre d lead rest t sc hclear hread _ ih =>
      -- neither the search for the tag nor the tag itself needs what follows the tag
      obtain ⟨body, e, rfl, hbody, htail⟩ := ih hok
      refine ⟨lead ++ (d.opening ++ (t.source ++ body)), e, by simp [Scan.cons], ?_, htail⟩
      exact .tag hclear.congr_after (TagText.read_alone hread) hbody

namespace Tagged

variable {d e : Delimiters} {s : Text} {ps qs : List Piece}

/-- Tagged text scans after any text and before any static text. -/
theorem scans (h : Tagged d s ps e) {tail : Text} (htail : Text.Clear e.opening tail []) (pre : Text) :
    ∃ sc, Scans pre d (s ++ tail) sc ∧ sc.failure = none ∧ sc.tail = tail ∧
      sc.runs.map Run.skeleton = ps := by
  induction h generalizing pre with
  | nil => exact ⟨_, .finish htail, rfl, rfl, rfl⟩
  | @tag d e lead s t ps hclear hread _ ih =>
      obtain ⟨sc, hsc, hok, hsctail, hruns⟩ := ih htail (pre ++ lead ++ (d.opening ++ t.source))
      -- the static text is clear and the tag is read, whatever is put behind them
      have hclear' : Text.Clear d.opening lead (d.opening ++ (t.source ++ (s ++ tail))) := hclear.congr_after
      have hscans := Scans.tag hclear' (TagText.read_append hread (s ++ tail)) hsc
      simp only [List.append_assoc] at hscans ⊢
      exact ⟨_, hscans, hok, hsctail, by rw [← hruns]; rfl⟩

/-- Tagged text is cut after any of its tags. -/
theorem of_append (h : Tagged d s (ps ++ qs) e) :
    ∃ s₁ s₂ m, s = s₁ ++ s₂ ∧ Tagged d s₁ ps m ∧ Tagged m s₂ qs e := by
  induction ps generalizing d s with
  | nil => exact ⟨[], s, d, rfl, .nil, h⟩
  | cons p ps ih =>
      cases h with
      | @tag _ _ lead s t _ hclear hread hrest =>
          obtain ⟨s₁, s₂, m, rfl, hleft, hright⟩ := ih hrest
          exact ⟨_, s₂, m, by simp, .tag hclear hread hleft, hright⟩

/-- Tagged text before static text is parsed by assembling its pieces. -/
theorem parse (h : Tagged d s ps e) {tail : Text} (htail : Text.Clear e.opening tail [])
    {bs : List Element} (hrun : Assembly.run ⟨ps, tail, []⟩ = .ok bs) :
    ∃ es, Element.parse d (s ++ tail) = .ok es ∧ Element.skeletonAll es = bs := by
  obtain ⟨sc, hsc, hok, htailsc, hruns⟩ := h.scans htail []
  rw [← hruns, ← htailsc, ← Trimmed.skeleton_ofScan, Assembly.run_skeleton] at hrun
  have hscan := hsc.ofText_eq
  rw [Element.parse_of_scan (hscan.symm ▸ hok), hscan]
  cases hes : Assembly.run (Trimmed.ofScan sc) with
  | error err =>
      rw [hes] at hrun
      cases hrun
  | ok es =>
      rw [hes] at hrun
      exact ⟨es, rfl, Except.ok.inj hrun⟩

end Tagged

/-! ## Coherent forests -/

namespace Element

/-- The raw body of every section in a forest parses, with the delimiters of the section, and what it parses to
    has the children of the section for its skeleton. -/
def Coherent (es : List Element) : Prop :=
  ∀ key inverted children raw d, Within (.sectionTag key inverted children raw d) es →
    ∃ fs, Element.parse d raw = .ok fs ∧ skeletonAll fs = children

variable {e : Element} {es fs : List Element}

theorem coherent_nil : Coherent [] := fun _ _ _ _ _ h => absurd h not_within_nil

theorem Coherent.mono (h : Coherent es) (hsub : ∀ e ∈ fs, e ∈ es) : Coherent fs :=
  fun _ _ _ _ _ hwithin => h _ _ _ _ _ (hwithin.mono hsub)

theorem Coherent.append (hes : Coherent es) (hfs : Coherent fs) : Coherent (es ++ fs) :=
  fun _ _ _ _ _ h => (within_append.mp h).elim (hes _ _ _ _ _) (hfs _ _ _ _ _)

theorem coherent_singleton (h : Coherent e.children)
    (hself : ∀ key inverted children raw d, e = .sectionTag key inverted children raw d →
      ∃ fs, Element.parse d raw = .ok fs ∧ skeletonAll fs = children) : Coherent [e] :=
  fun _ _ _ _ _ hwithin => (within_singleton.mp hwithin).elim
    (fun he => hself _ _ _ _ _ he.symm) (h _ _ _ _ _)

/-- An element that encloses a coherent forest is coherent if its own raw body is. -/
theorem coherent_enclose {t : Tag} {raw : Text} (hes : Coherent es)
    (hraw : ∃ fs, Element.parse t.delimiters raw = .ok fs ∧ skeletonAll fs = es) :
    Coherent [Assembly.enclose t es raw] := by
  unfold Assembly.enclose
  cases t.kind with
  | parent => exact coherent_singleton (hes.mono fun _ he => (List.mem_filter.mp he).1) (by simp)
  | block => exact coherent_singleton hes (by simp)
  | _ =>
      refine coherent_singleton hes fun key inverted children s d heq => ?_
      cases heq
      exact hraw

end Element

/-! ## Assembling tagged text -/

namespace Assembly

/-- A state after some source and the elements that it makes up. -/
def after (a : Assembly) (s : Text) (bs : List Element) : Assembly :=
  ⟨a.stack, bs.reverse ++ a.siblings, s.reverse ++ a.raw⟩

section After

variable (a : Assembly)

theorem after_after (s s' : Text) (bs bs' : List Element) :
    (a.after s bs).after s' bs' = a.after (s ++ s') (bs ++ bs') := by
  simp [after]

theorem addSource_eq_after (source : Text) : a.addSource source = a.after source [] := by
  simp [addSource, after, List.reverseAux_eq]

theorem addText_eq_after (lead : Text) : a.addText lead [] = a.after lead [] := addSource_eq_after a lead

theorem add_eq_after (source : Text) {e : Element} (h : ∀ es, Element.push e es = e :: es) :
    a.add source e = a.after source [e] := by
  simp [add, addSource, after, List.reverseAux_eq, h]

/-- A tag that neither opens nor closes leaves at most an element, which has no children. -/
theorem addTag_of_flat {t : Tag} (hopens : t.kind.opens = false) (hclose : t.kind ≠ .close) :
    ∃ bs, (∀ a, addTag a t = .ok (a.after t.source bs)) ∧ Element.Coherent bs := by
  unfold addTag
  cases hkind : t.kind with
  | escaped | raw | partialUse =>
      exact ⟨[_], fun a => congrArg Except.ok (a.add_eq_after _ fun _ => rfl),
        Element.coherent_singleton Element.coherent_nil (by simp)⟩
  | comment | delimiters =>
      exact ⟨[], fun a => congrArg Except.ok (a.addSource_eq_after _), Element.coherent_nil⟩
  | close => exact absurd hkind hclose
  | normalSection | invertedSection | parent | block =>
      rw [hkind] at hopens
      cases hopens

theorem addTag_of_opens {t : Tag} (h : t.kind.opens = true) : a.addTag t = .ok (a.enter t) := by
  unfold addTag
  cases hkind : t.kind with
  | normalSection | invertedSection | parent | block => rfl
  | _ => rw [hkind] at h; cases h

theorem addTag_of_close {t : Tag} (h : t.kind = .close) : a.addTag t = a.leave t := by
  unfold addTag
  rw [h]

/-- A tag that opens, what it encloses and its close tag leave the element that they make up. -/
theorem leave_enter {t c : Tag} (hkey : c.key = t.key) (s : Text) (bs : List Element) :
    ((a.enter t).after s bs).leave c = .ok (a.after (t.source ++ s ++ c.source) [enclose t bs s]) := by
  have hpush : ∀ es, Element.push (enclose t bs s) es = enclose t bs s :: es := by
    intro es
    unfold enclose
    cases t.kind <;> rfl
  rw [← add_eq_after a _ hpush]
  simp [leave, enter, after, rawBody, hkey]

end After

/-- The pieces take every state to the one after the source `s` and the elements `bs`. -/
def Adds (ps : List Piece) (s : Text) (bs : List Element) : Prop :=
  ∀ a, ps.foldlM step a = .ok (a.after s bs)

namespace Adds

variable {ps qs : List Piece} {s s' : Text} {bs cs : List Element} {t c : Tag}

theorem nil : Adds [] [] [] := fun _ => rfl

/-- A tag that neither opens nor closes, before pieces that add up. -/
theorem flat (lead : Text) (ht : ∀ a, addTag a t = .ok (a.after t.source bs)) (hps : Adds ps s cs) :
    Adds (⟨lead, [], t⟩ :: ps) (lead ++ (t.source ++ s)) (bs ++ cs) := by
  intro a
  rw [List.foldlM_cons, step, addText_eq_after, ht]
  show ps.foldlM step _ = _
  rw [hps, after_after, after_after]
  simp

/-- A tag that opens, the pieces and the text that it encloses, its close tag and the pieces that follow. -/
theorem nest (lead before : Text) (hopens : t.kind.opens = true) (hclose : c.kind = .close)
    (hkey : c.key = t.key) (hps : Adds ps s bs) (hqs : Adds qs s' cs) :
    Adds (⟨lead, [], t⟩ :: (ps ++ ⟨before, [], c⟩ :: qs))
      (lead ++ (t.source ++ (s ++ (before ++ (c.source ++ s'))))) (enclose t bs (s ++ before) :: cs) := by
  intro a
  have hopen : a.step ⟨lead, [], t⟩ = .ok ((a.after lead []).enter t) := by
    rw [step, addText_eq_after]
    exact addTag_of_opens _ hopens
  have hleave : (((a.after lead []).enter t).after s bs).step ⟨before, [], c⟩
      = .ok ((a.after lead []).after (t.source ++ (s ++ before) ++ c.source)
          [enclose t bs (s ++ before)]) := by
    rw [step, addText_eq_after, after_after, List.append_nil, addTag_of_close _ hclose]
    exact leave_enter _ hkey _ _
  rw [List.foldlM_cons, hopen]
  show (ps ++ _ :: qs).foldlM step _ = _
  rw [List.foldlM_append, hps]
  show (_ :: qs).foldlM step _ = _
  rw [List.foldlM_cons, hleave]
  show qs.foldlM step _ = _
  rw [hqs, after_after, after_after]
  simp

/-- Pieces that add up, with text after them, are a template. -/
theorem run (h : Adds ps s bs) (tail : Text) : Assembly.run ⟨ps, tail, []⟩ = .ok bs := by
  unfold Assembly.run
  rw [h]
  show ((empty.after s bs).addText tail []).finish = _
  rw [addText_eq_after, after_after]
  simp [finish, after, empty]

end Adds

end Assembly

/-- **Tagged text with balanced tags is assembled on its own**: it adds the same elements to every state, and
    they are coherent. By induction on the balance of the tags; the raw body of a section is again tagged text,
    and static text. -/
theorem Tagged.adds {ts : List Tag} (hts : Balanced ts) {d e : Delimiters} {s : Text} {ps : List Piece}
    (h : Tagged d s ps e) (hps : ps.map Piece.tag = ts) :
    ∃ bs, Assembly.Adds ps s bs ∧ Element.Coherent bs := by
  induction hts generalizing d e s ps with
  | nil =>
      obtain rfl := List.map_eq_nil_iff.mp hps
      cases h
      exact ⟨[], .nil, Element.coherent_nil⟩
  | flat hopens hclose _ ih =>
      obtain ⟨p, qs, rfl, rfl, hqs⟩ := List.map_eq_cons_iff.mp hps
      cases h with
      | @tag _ _ lead s t _ hclear hread hrest =>
          obtain ⟨bs, hbs, hbscoherent⟩ := Assembly.addTag_of_flat hopens hclose
          obtain ⟨cs, hcs, hcscoherent⟩ := ih hrest hqs
          have hadds := hcs.flat lead hbs
          rw [TagText.source_unplaced] at hadds
          exact ⟨bs ++ cs, hadds, hbscoherent.append hcscoherent⟩
  | nest hopens hclose hkey _ _ ihts ihus =>
      obtain ⟨p, _, rfl, rfl, hinside⟩ := List.map_eq_cons_iff.mp hps
      obtain ⟨qs, _, rfl, hqs, houtside⟩ := List.map_eq_append_iff.mp hinside
      obtain ⟨q, rs, rfl, rfl, hrs⟩ := List.map_eq_cons_iff.mp houtside
      cases h with
      | @tag _ _ lead s t _ hclear hread hrest =>
          -- a tag that opens declares nothing, so what it encloses begins with its own delimiters
          rw [TagText.replacement_of_read hread fun hkind => by
            rw [TagText.unplaced, hkind] at hopens
            cases hopens] at hrest
          obtain ⟨inner, rest, m, rfl, hinner, hclosed⟩ := hrest.of_append
          cases hclosed with
          | @tag _ _ before after c _ hbefore hreadc hafter =>
              obtain ⟨bs, hbs, hbscoherent⟩ := ihts hinner hqs
              obtain ⟨cs, hcs, hcscoherent⟩ := ihus hafter hrs
              have hraw : ∃ fs, Element.parse d (inner ++ before) = .ok fs ∧ Element.skeletonAll fs = bs :=
                hinner.parse (hbefore.of_append (s := [])) (hbs.run before)
              have hadds := hbs.nest lead before hopens hclose hkey hcs
              have hcoherent : Element.Coherent [Assembly.enclose (t.unplaced d) bs (inner ++ before)] :=
                Element.coherent_enclose hbscoherent hraw
              rw [TagText.source_unplaced, TagText.source_unplaced] at hadds
              exact ⟨_, hadds, hcoherent.append hcscoherent⟩

/-! ## Parsing -/

namespace Element

variable {d : Delimiters} {s : Text} {es : List Element}

/-- **The skeleton of a parsed text is coherent.** -/
theorem coherent_skeletonAll (h : parse d s = .ok es) : Coherent (skeletonAll es) := by
  have hscan := scan_of_parse h
  rw [parse_of_scan hscan] at h
  obtain ⟨body, e, -, hbody, -⟩ := (Scan.scans_ofText d s).tagged hscan
  -- the tags are balanced in the skeleton too, since it assembles
  have hrun := Assembly.run_skeleton (Trimmed.ofScan (Scan.ofText d s))
  rw [h, Trimmed.skeleton_ofScan] at hrun
  obtain ⟨bs, hbs, hcoherent⟩ := hbody.adds (Assembly.run_isOk_iff.mp ⟨_, hrun⟩) rfl
  rw [hbs.run] at hrun
  exact Except.ok.inj hrun ▸ hcoherent

end Element

/-- **Raw bodies parse again.** For every text and all delimiters that parse and every section at any depth of the
    tree: its raw body parses with its delimiters, and what it parses to has the skeleton of the section's
    children. So when the function of the section gives that text as it is, reading it raises no fault: what it
    parses to is rendered. -/
theorem parse_rawBody {d : Delimiters} {s : Text} {es : List Element} (h : Element.parse d s = .ok es)
    {key raw : Text} {inverted : Bool} {children : List Element} {d' : Delimiters}
    (hsection : Element.Within (.sectionTag key inverted children raw d') es) :
    ∃ fs, Element.parse d' raw = .ok fs ∧ Element.skeletonAll fs = Element.skeletonAll children ∧
      ∀ (recur : Renderer.Recur) (scope : Scope) (f : HostFunction) (s t : RenderState) (v : Value),
        (f.call RenderM.host [raw] (Renderer.callback? recur scope d' f)).run s = (.ok v, t) →
        v.shown? = some raw →
        (Renderer.sectionCall recur scope raw d' f).run s
          = (RenderM.collect (recur fs scope) >>= fun out => RenderM.emit ⟨.value, out⟩).run t := by
  obtain ⟨fs, hfs, hskeleton⟩ :=
    Element.coherent_skeletonAll h _ _ _ _ _ (hsection.skeletonAll (List.mem_singleton.mpr rfl))
  refine ⟨fs, hfs, hskeleton, fun recur scope f s t v hcall hshown => ?_⟩
  rw [Renderer.sectionCall_run hcall hshown, Renderer.renderText_of_parse hfs]

/-- A function of one argument that gives its argument. -/
def verbatim : HostFunction := ⟨⟨1, 0, false, false, true⟩, none, .writes [.argument]⟩

/-- A partial that is alone on its line in the raw body only, under a function that gives the raw body as it is. -/
theorem parse_rawBody_indented :
    ∃ fs, Element.parse ⟨['|'], ['|']⟩ " |>p|\n".toList = .ok fs ∧
      Element.skeletonAll fs
        = Element.skeletonAll [.text [' '], .partialTag ['p'] none, .text ['\n']] ∧
      (Renderer.sectionCall (Renderer.elements ⟨[], id, 64⟩ 2) ⟨[], [], 0⟩ " |>p|\n".toList ⟨['|'], ['|']⟩
          verbatim).run ⟨.fresh, .bare .buffer⟩
        = (RenderM.collect (Renderer.elements ⟨[], id, 64⟩ 2 fs ⟨[], [], 0⟩)
            >>= fun out => RenderM.emit ⟨.value, out⟩).run
            ⟨⟨#[], [⟨verbatim, [" |>p|\n".toList], false⟩], []⟩, .bare .buffer⟩ := by
  have hparse : Element.parse ⟨['|'], ['|']⟩ "|#a| |>p|\n|/a|".toList
      = .ok [.sectionTag ['a'] false [.text [' '], .partialTag ['p'] none, .text ['\n']] " |>p|\n".toList
          ⟨['|'], ['|']⟩] := by
    with_unfolding_all rfl
  obtain ⟨fs, hfs, hskeleton, hrun⟩ := parse_rawBody hparse (.root List.mem_cons_self)
  exact ⟨fs, hfs, hskeleton, hrun _ _ _ _ _ (.text " |>p|\n".toList) rfl rfl⟩

end Mustache

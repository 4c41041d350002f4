import Mustache.Element.Assembly

/-!
# `Mustache.Proofs.Assembling` — frames for assembly

Assembly steps look at the innermost open tag only. Two maps of its state commute with every step, which
is what lets a stretch of a template be assembled on its own:

* `Assembly.onto base` puts a state on top of another one. Its siblings follow those of `base`, static
  text joined to static text (`Element.under`, `Element.glue`), and its open tags lie on those of `base`;
* `Assembly.below n k` moves every tag by `n` characters and `k` rows. It changes no element, and moves
  the row of an error.

`Trimmed.append` puts two templates one after the other, and `Assembly.runFrom_append` assembles the
second from where the first has left off.
-/

namespace Mustache

/-! ## Siblings in two parts -/

namespace Element

/-- Later siblings on top of earlier ones, the last one first in both. -/
def under (base : List Element) : List Element → List Element
  | [] => base
  | [e] => push e base
  | e :: f :: es => e :: under base (f :: es)

/-- One list of siblings after another; static text that meets static text is joined to it. -/
def glue (es fs : List Element) : List Element :=
  match es.getLast?, fs with
  | some (.text s), .text t :: rest => es.dropLast ++ .text (s ++ t) :: rest
  | _, _ => es ++ fs

theorem push_nil (e : Element) : push e [] = [e] := by
  cases e <;> rfl

theorem push_text_text (s t : Text) (es : List Element) :
    push (.text t) (push (.text s) es) = push (.text (s ++ t)) es := by
  rcases es with _ | ⟨e, es⟩
  · rfl
  · cases e <;> simp [push]

theorem push_push_of_ne {e f : Element} (h : ∀ s t, f = .text s → e ≠ .text t) (es : List Element) :
    push e (push f es) = e :: push f es := by
  cases e with
  | text t =>
      cases f with
      | text s => exact absurd rfl (h s t rfl)
      | _ => rfl
  | _ => rfl

/-- A new sibling goes on top, whatever is underneath. -/
theorem push_under (e : Element) (base es : List Element) :
    push e (under base es) = under base (push e es) := by
  match es with
  | [] => rw [push_nil]; rfl
  | [f] =>
      -- `f` is the only one to meet what is underneath: if `e` is joined to it, both meet it together
      by_cases htexts : ∃ s t, f = .text s ∧ e = .text t
      · obtain ⟨s, t, rfl, rfl⟩ := htexts
        exact push_text_text s t base
      · have hne : ∀ s t, f = .text s → e ≠ .text t := fun s t hf he => htexts ⟨s, t, hf, he⟩
        have hpush := push_push_of_ne hne []
        rw [push_nil] at hpush
        rw [hpush]
        exact push_push_of_ne hne base
  | f :: g :: es =>
      cases e with
      | text t => cases f <;> rfl
      | _ => rfl

theorem glue_append {es fs gs : List Element} (h : fs ≠ []) :
    glue es (fs ++ gs) = glue es fs ++ gs := by
  obtain ⟨f, fs, rfl⟩ := List.exists_cons_of_ne_nil h
  unfold glue
  cases es.getLast? with
  | none => simp
  | some e => cases e <;> cases f <;> simp

/-- Putting siblings on top of others is gluing them in the order of the source. -/
theorem reverse_under (base es : List Element) :
    (under base es).reverse = glue base.reverse es.reverse := by
  match es with
  | [] =>
      unfold glue
      split <;> simp_all [under]
  | [e] =>
      -- only the first of the later siblings can be joined
      rcases base with _ | ⟨f, base⟩
      · cases e <;> rfl
      · cases f <;> cases e <;> simp [under, push, glue]
  | e :: f :: es =>
      have hne : (f :: es).reverse ≠ [] := by simp
      rw [under, List.reverse_cons, reverse_under base (f :: es), List.reverse_cons (a := e),
        glue_append hne]

end Element

/-! ## Templates in two parts -/

/-- One template without margins after another. -/
def Trimmed.append (x y : Trimmed) : Trimmed :=
  match y.pieces with
  | [] => ⟨x.pieces, x.tail ++ y.tail, x.keptTail ++ y.keptTail⟩
  | p :: ps =>
      ⟨x.pieces ++ { p with lead := x.tail ++ p.lead, kept := x.keptTail ++ p.kept } :: ps, y.tail,
        y.keptTail⟩

namespace Assembly

/-- The elements read, from a state on. -/
def runFrom (a : Assembly) (t : Trimmed) : Except SyntaxError (List Element) := do
  let a ← t.pieces.foldlM step a
  (a.addText t.tail t.keptTail).finish

theorem run_eq (t : Trimmed) : run t = runFrom empty t := rfl

theorem addText_addText (a : Assembly) (l k l' k' : Text) :
    (a.addText l k).addText l' k' = a.addText (l ++ l') (k ++ k') := by
  have hraw : l'.reverseAux (l.reverseAux a.raw) = (l ++ l').reverseAux a.raw := by
    simp [List.reverseAux_eq]
  simp only [addText, addSource, hraw]
  rcases k with _ | ⟨c, k⟩
  · rfl
  · rcases k' with _ | ⟨c', k'⟩
    · simp
    · simp [Element.push_text_text]

theorem step_append (a : Assembly) (l k : Text) (p : Piece) :
    a.step { p with lead := l ++ p.lead, kept := k ++ p.kept } = (a.addText l k).step p := by
  rw [step, step, addText_addText]

/-- The second of two templates is assembled from where the first has left off. -/
theorem runFrom_append {a a' : Assembly} {x : Trimmed} (h : x.pieces.foldlM step a = .ok a')
    (y : Trimmed) : runFrom a (x.append y) = runFrom (a'.addText x.tail x.keptTail) y := by
  unfold runFrom Trimmed.append
  cases hy : y.pieces with
  | nil =>
      simp only [h, List.foldlM_nil]
      show (a'.addText _ _).finish = ((a'.addText _ _).addText _ _).finish
      rw [addText_addText]
  | cons p ps =>
      simp only [List.foldlM_append, h, List.foldlM_cons]
      show (a'.step _ >>= fun a => List.foldlM step a ps) >>= _ = _
      rw [step_append]

/-! ## Commuting with every step -/

/-- A map of states and one of pieces that commute with each step, up to a map of errors, commute with
    a run. -/
theorem foldlM_hom {f : Assembly → Assembly} {g : Piece → Piece} {e : SyntaxError → SyntaxError}
    (h : ∀ a p, step (f a) (g p) = ((step a p).map f).mapError e) (ps : List Piece) (a : Assembly) :
    (ps.map g).foldlM step (f a) = ((ps.foldlM step a).map f).mapError e := by
  induction ps generalizing a with
  | nil => rfl
  | cons p ps ih =>
      rw [List.map_cons, List.foldlM_cons, List.foldlM_cons, h]
      cases hstep : step a p with
      | error err => rfl
      | ok a' => exact ih a'

/-- If they commute with the end of the run as well, the elements correspond. -/
theorem run_hom {f : Assembly → Assembly} {g : Piece → Piece} {k : List Element → List Element}
    {e : SyntaxError → SyntaxError} {t : Trimmed} {tail keptTail : Text} (hempty : f empty = empty)
    (hstep : ∀ a p, step (f a) (g p) = ((step a p).map f).mapError e)
    (hend : ∀ a, ((f a).addText tail keptTail).finish
      = ((a.addText t.tail t.keptTail).finish.map k).mapError e) :
    run ⟨t.pieces.map g, tail, keptTail⟩ = ((run t).map k).mapError e := by
  have hfold := foldlM_hom hstep t.pieces empty
  rw [hempty] at hfold
  unfold run
  rw [hfold]
  cases t.pieces.foldlM step empty with
  | error err => rfl
  | ok a => exact hend a

/-! ### On top of another state -/

end Assembly

/-- Open tags on top of a state: the outermost of them gets the siblings and the source underneath. -/
def OpenTag.onto (base : Assembly) : List OpenTag → List OpenTag
  | [] => base.stack
  | [o] =>
      { o with siblings := Element.under base.siblings o.siblings, raw := o.raw ++ base.raw }
        :: base.stack
  | o :: p :: os => o :: onto base (p :: os)

namespace Assembly

/-- A state on top of another one. -/
def onto (base a : Assembly) : Assembly :=
  match a.stack with
  | [] => ⟨base.stack, Element.under base.siblings a.siblings, a.raw ++ base.raw⟩
  | o :: os => ⟨OpenTag.onto base (o :: os), a.siblings, a.raw⟩

variable {base a : Assembly}

theorem onto_empty (base : Assembly) : onto base empty = base := rfl

theorem add_onto (source : Text) (e : Element) :
    (onto base a).add source e = onto base (a.add source e) := by
  obtain ⟨stack, siblings, raw⟩ := a
  cases stack with
  | nil => simp [onto, add, addSource, Element.push_under, List.reverseAux_eq]
  | cons o os => rfl

theorem addSource_onto (source : Text) :
    (onto base a).addSource source = onto base (a.addSource source) := by
  obtain ⟨stack, siblings, raw⟩ := a
  cases stack with
  | nil => simp [onto, addSource, List.reverseAux_eq]
  | cons o os => rfl

theorem addText_onto (lead kept : Text) :
    (onto base a).addText lead kept = onto base (a.addText lead kept) := by
  have hsource : (onto base a).addSource lead = onto base (a.addSource lead) := addSource_onto lead
  cases kept with
  | nil => exact hsource
  | cons c kept => exact add_onto lead (.text (c :: kept))

theorem enter_onto (t : Tag) : (onto base a).enter t = onto base (a.enter t) := by
  obtain ⟨stack, siblings, raw⟩ := a
  cases stack <;> rfl

/-- A close tag that has no open tag of its own closes what is underneath; otherwise it makes no
    difference what that is. -/
theorem leave_onto (t : Tag) (h : base.stack = [] ∨ a.stack ≠ []) :
    (onto base a).leave t = (a.leave t).map (onto base) := by
  obtain ⟨stack, siblings, raw⟩ := a
  match stack with
  | [] =>
      have hbase := h.resolve_right fun hne => hne rfl
      simp only [leave, onto, hbase]
      rfl
  | [o] =>
      -- the outermost open tag: its element becomes a sibling of what is underneath
      unfold leave
      simp only [onto, OpenTag.onto]
      split
      · exact congrArg Except.ok (add_onto (a := ⟨[], o.siblings, o.raw⟩) _ _)
      · rfl
  | o :: p :: os =>
      unfold leave
      simp only [onto, OpenTag.onto]
      split
      · exact congrArg Except.ok (add_onto (a := ⟨p :: os, o.siblings, o.raw⟩) _ _)
      · rfl

theorem addTag_onto (t : Tag) (h : base.stack = [] ∨ a.stack ≠ []) :
    (onto base a).addTag t = (a.addTag t).map (onto base) := by
  unfold addTag
  cases t.kind with
  | escaped | raw | partialUse => exact congrArg Except.ok (add_onto _ _)
  | normalSection | invertedSection | parent | block => exact congrArg Except.ok (enter_onto t)
  | close => exact leave_onto t h
  | comment | delimiters => exact congrArg Except.ok (addSource_onto _)

theorem step_onto (hbase : base.stack = []) (a : Assembly) (p : Piece) :
    (onto base a).step p = (a.step p).map (onto base) := by
  rw [step, addText_onto, addTag_onto p.tag (Or.inl hbase)]
  rfl

theorem finish_onto (hbase : base.stack = []) (a : Assembly) :
    (onto base a).finish = a.finish.map (Element.glue base.siblings.reverse) := by
  obtain ⟨stack, siblings, raw⟩ := a
  match stack with
  | [] =>
      simp only [finish, onto, hbase]
      exact congrArg Except.ok (Element.reverse_under _ _)
  | [o] => rfl
  | o :: p :: os => rfl

/-- **A template is assembled on its own.** From a state without open tags on, its elements are glued to
    those that are there. -/
theorem runFrom_of_stack_nil (hbase : base.stack = []) (t : Trimmed) :
    runFrom base t = (run t).map (Element.glue base.siblings.reverse) := by
  have hfold := foldlM_hom (f := onto base) (g := id) (e := id)
    (fun a p => by rw [id, step_onto hbase]; cases step a p <;> rfl) t.pieces empty
  rw [List.map_id, onto_empty] at hfold
  unfold run runFrom
  rw [hfold]
  cases t.pieces.foldlM step empty with
  | error e => rfl
  | ok a =>
      show ((onto base a).addText t.tail t.keptTail).finish = _
      rw [addText_onto, finish_onto hbase]
      rfl

end Assembly

/-! ### Further down in a text -/

/-- An error some rows further down. -/
def SyntaxError.below (rows : Nat) (e : SyntaxError) : SyntaxError := { e with row := e.row + rows }

/-- A tag some characters and rows further down. -/
def Tag.below (chars rows : Nat) (t : Tag) : Tag :=
  { t with start := chars + t.start, row := t.row + rows }

/-- A piece whose tag is some characters and rows further down. -/
def Piece.below (chars rows : Nat) (p : Piece) : Piece := { p with tag := p.tag.below chars rows }

/-- A template whose tags are some characters and rows further down. -/
def Trimmed.below (chars rows : Nat) (t : Trimmed) : Trimmed :=
  { t with pieces := t.pieces.map (Piece.below chars rows) }

/-- A state whose open tags are some characters and rows further down. -/
def Assembly.below (chars rows : Nat) (a : Assembly) : Assembly :=
  { a with stack := a.stack.map fun o => { o with tag := o.tag.below chars rows } }

namespace Assembly

variable (chars rows : Nat) (a : Assembly)

theorem leave_below (t : Tag) :
    (a.below chars rows).leave (t.below chars rows)
      = ((a.leave t).map (below chars rows)).mapError (SyntaxError.below rows) := by
  obtain ⟨stack, siblings, raw⟩ := a
  cases stack with
  | nil => rfl
  | cons o os =>
      unfold leave
      show (if o.tag.key = t.key then _ else _)
        = ((if o.tag.key = t.key then _ else _ : Except SyntaxError Assembly).map _).mapError _
      split <;> rfl

theorem step_below (p : Piece) :
    (a.below chars rows).step (p.below chars rows)
      = ((a.step p).map (below chars rows)).mapError (SyntaxError.below rows) := by
  have haddText : (a.below chars rows).addText p.lead p.kept
      = (a.addText p.lead p.kept).below chars rows := rfl
  show ((a.below chars rows).addText p.lead p.kept).addTag (p.tag.below chars rows) = _
  rw [haddText, step]
  generalize a.addText p.lead p.kept = a
  have hkind : (p.tag.below chars rows).kind = p.tag.kind := rfl
  unfold addTag
  rw [hkind]
  cases p.tag.kind with
  | close => exact leave_below chars rows a p.tag
  | _ => rfl

/-- **A template further down** has the same elements, and the same fault further down. -/
theorem run_below (t : Trimmed) :
    run (t.below chars rows) = (run t).mapError (SyntaxError.below rows) := by
  have hrun := run_hom (k := id) (t := t) rfl (step_below chars rows) (fun a => by
    obtain ⟨stack, siblings, raw⟩ := a
    cases stack <;> rfl)
  rwa [Except.map_id] at hrun

end Assembly

/-! ## Parsing -/

namespace Element

variable {d : Delimiters} {s : Text}

/-- A fault of the scan is the fault of the template. -/
theorem parse_of_failure {e : SyntaxError} (h : (Scan.ofText d s).failure = some e) :
    parse d s = .error e := by
  unfold parse
  dsimp only
  rw [h]

/-- A text that scans is trimmed and assembled. -/
theorem parse_of_scan (h : (Scan.ofText d s).failure = none) :
    parse d s = Assembly.run (Trimmed.ofScan (Scan.ofText d s)) := by
  unfold parse
  dsimp only
  rw [h]

/-- A text that parses scans. -/
theorem scan_of_parse {es : List Element} (h : parse d s = .ok es) :
    (Scan.ofText d s).failure = none := by
  cases hf : (Scan.ofText d s).failure with
  | none => rfl
  | some e =>
      rw [parse_of_failure hf] at h
      cases h

end Element

end Mustache

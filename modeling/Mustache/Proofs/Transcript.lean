import Mustache.Proofs.Nesting
import Mustache.Proofs.Seam

/-!
# `Mustache.Proofs.Transcript` — a tree written out mark by mark

A template without margins and the tree assembled from it say the same in the same order. `Mark` is what they
have in common: static text, the leaves, and the open and close tags around children. `Element.marksAll` writes
a forest out by recursion on it; `Trimmed.marks` reads the marks off the pieces, comments and declarations left
out. They differ in two ways, each a function on marks: neighbouring static texts are joined (`Mark.join`), and
what stands directly inside a parent without being a block is dropped (`Mark.prune`).

* `Assembly.Records` — the invariant: what assembly has read so far, joined and pruned, is what its siblings and
  open tags write out;
* `Assembly.Records.step` — one piece preserves it, with one case for each kind of tag;
* `Assembly.marksAll_of_run` — the whole template, by induction over its pieces;
* `parse_balanced` — with the balance of tags (`Mustache.Proofs.Nesting`), what parsing accepts, what the tree
  holds then, and which error is reported otherwise.
-/

namespace Mustache

/-! ## Marks -/

/-- A part of a template in the order of its source. -/
inductive Mark where
  | text (chars : Text)
  | interpolation (key : Text) (escaped : Bool)
  | partialUse (key : Text) (indent : Option Text)
  | sectionOpen (key : Text) (inverted : Bool) (delimiters : Delimiters)
  | parentOpen (key : Text) (indent : Option Text)
  | blockOpen (key : Text) (indent : Option Text)
  | close (key : Text)
  deriving DecidableEq

/-- What an element is, as far as it matters to its neighbours in the tree. -/
inductive Role where
  | parent
  | block
  | other
  deriving DecidableEq

namespace Role

/-- Whether an element counts directly inside another one: inside a parent only blocks do. -/
def countsIn (r outer : Role) : Bool := outer != .parent || r == .block

/-- Whether an element counts that lies inside others, the innermost first. -/
def visible : List Role → Bool
  | [] => true
  | r :: path => path.head?.all r.countsIn && visible path

theorem visible_of_cons {r : Role} {path : List Role} (h : visible (r :: path) = true) :
    visible path = true := (Bool.and_eq_true_iff.mp h).2

end Role

/-- The role of an element whose tag opens with a kind. -/
def TagKind.role : TagKind → Role
  | .parent => .parent
  | .block => .block
  | _ => .other

/-- The role of an element. -/
def Element.role : Element → Role
  | .parentTag .. => .parent
  | .blockTag .. => .block
  | _ => .other

/-- The characters of an element that is static text. -/
def Element.text? : Element → Option Text
  | .text t => some t
  | _ => none

namespace Mark

/-- The mark of a tag. Comments and declarations have none. -/
def ofTag? (t : Tag) : Option Mark :=
  match t.kind with
  | .escaped => some (.interpolation t.key true)
  | .raw => some (.interpolation t.key false)
  | .partialUse => some (.partialUse t.key t.indent)
  | .normalSection => some (.sectionOpen t.key false t.delimiters)
  | .invertedSection => some (.sectionOpen t.key true t.delimiters)
  | .parent => some (.parentOpen t.key t.indent)
  | .block => some (.blockOpen t.key t.indent)
  | .close => some (.close t.key)
  | .comment | .delimiters => none

/-- The mark of static text, if there is any. -/
def ofText (s : Text) : List Mark := if s.isEmpty then [] else [.text s]

/-- The characters of a mark that is static text. -/
def text? : Mark → Option Text
  | .text t => some t
  | _ => none

/-! ### Joining -/

/-- A mark after others, of which the last comes first. Static text is joined to static text. -/
def push (m : Mark) (before : List Mark) : List Mark :=
  match m, before with
  | .text t, .text s :: rest => .text (s ++ t) :: rest
  | m, before => m :: before

/-- The marks with neighbouring static texts joined. -/
def join (ms : List Mark) : List Mark := (ms.foldl (fun before m => m.push before) []).reverse

/-! ### Pruning -/

/-- The roles of the element that a mark belongs to and of those around it, the innermost first. -/
def place (path : List Role) : Mark → List Role
  | .sectionOpen .. => .other :: path
  | .parentOpen .. => .parent :: path
  | .blockOpen .. => .block :: path
  | .close _ => path
  | .text _ | .interpolation .. | .partialUse .. => .other :: path

/-- The roles of the elements that are open after a mark. -/
def after (path : List Role) : Mark → List Role
  | .sectionOpen .. => .other :: path
  | .parentOpen .. => .parent :: path
  | .blockOpen .. => .block :: path
  | .close _ => path.tail
  | .text _ | .interpolation .. | .partialUse .. => path

/-- The marks of what counts, from a place inside some elements on: whatever is directly inside a parent and
    no block is dropped with all that it encloses. -/
def prune (path : List Role) : List Mark → List Mark
  | [] => []
  | m :: ms => (if Role.visible (m.place path) then [m] else []) ++ prune (m.after path) ms

end Mark

namespace Element

mutual

/-- The marks of an element: of one that encloses others, its open tag, its children and its close tag. -/
def marks : Element → List Mark
  | .text t => [.text t]
  | .interpolation key escaped => [.interpolation key escaped]
  | .sectionTag key inverted children _ d =>
      .sectionOpen key inverted d :: (marksAll children ++ [.close key])
  | .partialTag key indent => [.partialUse key indent]
  | .parentTag key children indent => .parentOpen key indent :: (marksAll children ++ [.close key])
  | .blockTag key children indent => .blockOpen key indent :: (marksAll children ++ [.close key])
  | .foreign _ => []

/-- The marks of a forest. -/
def marksAll : List Element → List Mark
  | [] => []
  | e :: es => e.marks ++ marksAll es

end

theorem marksAll_append (es fs : List Element) : marksAll (es ++ fs) = marksAll es ++ marksAll fs := by
  induction es with
  | nil => rfl
  | cons e es ih => rw [List.cons_append, marksAll, marksAll, ih, List.append_assoc]

end Element

/-- The marks of a template without margins. -/
def Trimmed.marks (t : Trimmed) : List Mark :=
  t.pieces.flatMap (fun p => Mark.ofText p.kept ++ (Mark.ofTag? p.tag).toList) ++ Mark.ofText t.keptTail

/-! ## Marks read so far -/

namespace Mark

/-- The roles of the elements that are open after some marks, of which the last comes first. -/
def pathAfter : List Mark → List Role
  | [] => []
  | m :: before => m.after (pathAfter before)

/-- Those of some marks that count, the last first. -/
def shown : List Mark → List Mark
  | [] => []
  | m :: before => (if Role.visible (m.place (pathAfter before)) then [m] else []) ++ shown before

theorem prune_append (path : List Role) (ms ns : List Mark) :
    prune path (ms ++ ns) = prune path ms ++ prune (ms.foldl after path) ns := by
  induction ms generalizing path with
  | nil => rfl
  | cons m ms ih => rw [List.cons_append, prune, prune, ih, List.append_assoc, List.foldl_cons]

theorem pathAfter_eq (ms : List Mark) : pathAfter ms = ms.reverse.foldl after [] := by
  induction ms with
  | nil => rfl
  | cons m ms ih => rw [List.reverse_cons, List.foldl_append, ← ih]; rfl

/-- Pruning from left to right keeps what counts. -/
theorem prune_reverse (ms : List Mark) : prune [] ms.reverse = (shown ms).reverse := by
  induction ms with
  | nil => rfl
  | cons m ms ih =>
      rw [List.reverse_cons, prune_append, ih, ← pathAfter_eq, shown, List.reverse_append, prune, prune,
        List.append_nil]
      split <;> rfl

theorem push_of_not_text {m : Mark} (h : m.text? = none) (before : List Mark) :
    m.push before = m :: before := by
  cases m with
  | text t => cases h
  | _ => rfl

theorem push_text_of_last {before : List Mark} (t : Text) (h : before.head?.bind text? = none) :
    (text t).push before = .text t :: before := by
  cases before with
  | nil => rfl
  | cons m rest =>
      cases m with
      | text s => cases h
      | _ => rfl

/-- Static text last is static text at the head. -/
theorem eq_of_last {before : List Mark} {s : Text} (h : before.head?.bind text? = some s) :
    ∃ rest, before = .text s :: rest := by
  cases before with
  | nil => cases h
  | cons m rest =>
      cases m with
      | text t => exact ⟨rest, by rw [Option.some.inj h]⟩
      | _ => cases h

theorem text?_of_ofTag? {t : Tag} {m : Mark} (h : ofTag? t = some m) : m.text? = none := by
  unfold ofTag? at h
  cases hkind : t.kind with
  | comment | delimiters => rw [hkind] at h; cases h
  | _ => rw [hkind] at h; cases h; rfl

theorem exists_ofTag? {t : Tag} (hc : t.kind ≠ .comment) (hd : t.kind ≠ .delimiters) :
    ∃ m, ofTag? t = some m := by
  unfold ofTag?
  cases hkind : t.kind with
  | comment => exact absurd hkind hc
  | delimiters => exact absurd hkind hd
  | _ => exact ⟨_, rfl⟩

end Mark

namespace Element

theorem push_text_of_last {siblings : List Element} (t : Text)
    (h : siblings.head?.bind text? = none) : push (.text t) siblings = .text t :: siblings := by
  cases siblings with
  | nil => rfl
  | cons e rest =>
      cases e with
      | text s => cases h
      | _ => rfl

/-- Static text last is static text at the head. -/
theorem eq_of_last {siblings : List Element} {s : Text} (h : siblings.head?.bind text? = some s) :
    ∃ rest, siblings = .text s :: rest := by
  cases siblings with
  | nil => cases h
  | cons e rest =>
      cases e with
      | text t => exact ⟨rest, by rw [Option.some.inj h]⟩
      | _ => cases h

end Element

namespace Assembly

/-! ## What a state writes out -/

/-- The roles of the open elements, the innermost first. -/
def roles (os : List OpenTag) : List Role := os.map fun o => o.tag.kind.role

/-- The marks of siblings inside some elements, as far as they count. The last comes first in both. -/
def trailOfSiblings (path : List Role) (siblings : List Element) : List Mark :=
  siblings.flatMap fun e => if Role.visible (e.role :: path) then e.marks.reverse else []

/-- The marks of open tags and of the siblings before each of them, the last first. -/
def trailOfStack : List OpenTag → List Mark
  | [] => []
  | o :: os =>
      (if Role.visible (roles (o :: os)) then (Mark.ofTag? o.tag).toList else [])
        ++ trailOfSiblings (roles os) o.siblings ++ trailOfStack os

/-- The marks of a state as far as they count, the last first. -/
def trail (a : Assembly) : List Mark := trailOfSiblings (roles a.stack) a.siblings ++ trailOfStack a.stack

variable {ms : List Mark} {a a' : Assembly} {path : List Role}

/-- Inside something that does not count nothing counts. -/
theorem trailOfSiblings_of_hidden (h : Role.visible path = false) (es : List Element) :
    trailOfSiblings path es = [] := by
  apply List.flatMap_eq_nil_iff.mpr
  intro e _
  rw [if_neg]
  intro hvisible
  rw [Role.visible_of_cons hvisible] at h
  cases h

/-- Of the siblings inside something that counts, those count that may stand in the innermost element. -/
theorem trailOfSiblings_of_visible (h : Role.visible path = true) (es : List Element) :
    trailOfSiblings path es
      = (Element.marksAll (es.reverse.filter fun e => path.head?.all e.role.countsIn)).reverse := by
  induction es with
  | nil => rfl
  | cons e es ih =>
      have hcons : trailOfSiblings path (e :: es)
          = (if Role.visible (e.role :: path) then e.marks.reverse else [])
            ++ trailOfSiblings path es := rfl
      rw [hcons, ih, List.reverse_cons, List.filter_append, Element.marksAll_append,
        List.reverse_append, Role.visible, h, Bool.and_true]
      cases hcounts : path.head?.all e.role.countsIn with
      | false => simp [hcounts, Element.marksAll]
      | true => simp [hcounts, Element.marksAll]

/-- The children that an open tag keeps. -/
theorem filter_countsIn (r : Role) (es : List Element) :
    es.filter (fun e => e.role.countsIn r) = if r = .parent then es.filter Element.isBlock else es := by
  cases r with
  | parent =>
      rw [if_pos rfl]
      apply List.filter_congr
      intro e _
      cases e <;> rfl
  | block | other =>
      rw [if_neg (by decide)]
      exact List.filter_eq_self.mpr fun e _ => rfl

/-- **An element that is closed** writes out its open tag, what counts of its siblings, and its close tag. -/
theorem marks_enclose {t c : Tag} (hopens : t.kind.opens = true) (hclose : c.kind = .close)
    (hkey : t.key = c.key) (children : List Element) (raw : Text) :
    (enclose t children raw).role = t.kind.role ∧ (enclose t children raw).text? = none ∧
    (enclose t children raw).marks = (Mark.ofTag? t).toList
      ++ (Element.marksAll (children.filter fun e => e.role.countsIn t.kind.role)
        ++ (Mark.ofTag? c).toList) := by
  have hc : Mark.ofTag? c = some (.close t.key) := by
    unfold Mark.ofTag?
    rw [hclose, hkey]
  rw [filter_countsIn, hc]
  unfold enclose Mark.ofTag?
  cases hkind : t.kind with
  | normalSection | invertedSection | parent | block => exact ⟨rfl, rfl, rfl⟩
  | _ => rw [hkind] at hopens; cases hopens

/-! ## The invariant -/

/-- The marks `ms` have been read, the last first, and `a` is the state after them. -/
structure Records (ms : List Mark) (a : Assembly) : Prop where
  /-- The elements that are open are those on the stack. -/
  path : Mark.pathAfter ms = roles a.stack
  /-- What counts of the marks is what the state writes out. -/
  shown : Mark.shown ms = a.trail
  /-- Static text was read last exactly when it is the last sibling. -/
  last : ms.head?.bind Mark.text? = a.siblings.head?.bind Element.text?
  /-- Every tag on the stack opens. -/
  opens : ∀ o ∈ a.stack, o.tag.kind.opens = true

namespace Records

theorem empty : Records [] empty where
  path := rfl
  shown := rfl
  last := rfl
  opens := by intro o ho; exact absurd ho List.not_mem_nil

/-- The source that is kept along does not matter. -/
theorem addSource (h : Records ms a) (source : Text) : Records ms (a.addSource source) :=
  ⟨h.path, h.shown, h.last, h.opens⟩

/-- Static text. -/
theorem pushText (h : Records ms a) (t : Text) :
    Records ((Mark.text t).push ms) { a with siblings := Element.push (.text t) a.siblings } := by
  cases hlast : ms.head?.bind Mark.text? with
  | none =>
      -- it follows something else, in both
      have hlast' := h.last
      rw [hlast] at hlast'
      rw [Mark.push_text_of_last t hlast, Element.push_text_of_last t hlast'.symm]
      constructor
      case path => exact h.path
      case shown =>
        rw [Mark.shown, Mark.place, h.path, h.shown, trail, ← List.append_assoc]
        rfl
      case last => rfl
      case opens => exact h.opens
  | some s =>
      -- it is joined to the text before it, in both
      have hlast' := h.last
      rw [hlast] at hlast'
      obtain ⟨before, rfl⟩ := Mark.eq_of_last hlast
      obtain ⟨rest, hrest⟩ := Element.eq_of_last hlast'.symm
      have hpath : Mark.pathAfter before = roles a.stack := h.path
      have hshown := h.shown
      rw [Mark.shown, Mark.place, hpath, trail, hrest] at hshown
      have hbefore : Mark.shown before
          = trailOfSiblings (roles a.stack) rest ++ trailOfStack a.stack := by
        apply List.append_cancel_left (hshown.trans _)
        rw [← List.append_assoc]
        rfl
      have hsiblings : Element.push (.text t) a.siblings = .text (s ++ t) :: rest := by rw [hrest]; rfl
      rw [hsiblings]
      constructor
      case path => exact h.path
      case shown =>
        show (if Role.visible (.other :: Mark.pathAfter before) then [Mark.text (s ++ t)] else [])
          ++ Mark.shown before = _
        rw [hbefore, hpath, ← List.append_assoc]
        rfl
      case last => rfl
      case opens => exact h.opens

/-- An element that encloses nothing and is no static text. -/
theorem pushLeaf (h : Records ms a) {m : Mark} {e : Element} (hplace : ∀ path, m.place path = .other :: path)
    (hafter : ∀ path, m.after path = path) (hmarks : e.marks = [m]) (hrole : e.role = .other)
    (hm : m.text? = none) (he : e.text? = none) :
    Records (m :: ms) { a with siblings := e :: a.siblings } where
  path := (hafter _).trans h.path
  shown := by
    rw [Mark.shown, hplace, h.path, h.shown, trail, ← List.append_assoc]
    show _ = (if Role.visible (e.role :: roles a.stack) then e.marks.reverse else []) ++ _ ++ _
    rw [hrole, hmarks]
    rfl
  last := by
    show m.text? = e.text?
    rw [hm, he]
  opens := h.opens

/-- A tag that opens. -/
theorem enter (h : Records ms a) {t : Tag} {m : Mark} (hopens : t.kind.opens = true)
    (hm : Mark.ofTag? t = some m) : Records (m :: ms) (a.enter t) := by
  have hplace : ∀ path, m.place path = t.kind.role :: path ∧ m.after path = t.kind.role :: path := by
    intro path
    unfold Mark.ofTag? at hm
    cases hkind : t.kind with
    | normalSection | invertedSection | parent | block =>
        rw [hkind] at hm
        cases hm
        exact ⟨rfl, rfl⟩
    | _ => rw [hkind] at hopens; cases hopens
  constructor
  case path => exact (hplace _).2.trans (congrArg _ h.path)
  case shown =>
    rw [Mark.shown, (hplace _).1, h.path, h.shown]
    show _ = (if Role.visible (t.kind.role :: roles a.stack) then (Mark.ofTag? t).toList else [])
      ++ trailOfSiblings (roles a.stack) a.siblings ++ trailOfStack a.stack
    rw [hm, List.append_assoc]
    rfl
  case last => exact Mark.text?_of_ofTag? hm
  case opens =>
    intro o ho
    rcases List.mem_cons.mp ho with rfl | ho
    · exact hopens
    · exact h.opens o ho

/-- A close tag that fits. What it closes counts or not as a whole. -/
theorem leave (h : Records ms a) {c : Tag} {m : Mark} (hclose : c.kind = .close)
    (hm : Mark.ofTag? c = some m) (hleave : a.leave c = .ok a') : Records (m :: ms) a' := by
  have hplace : ∀ path, m.place path = path ∧ m.after path = path.tail := by
    intro path
    unfold Mark.ofTag? at hm
    rw [hclose] at hm
    cases hm
    exact ⟨rfl, rfl⟩
  obtain ⟨stack, siblings, raw⟩ := a
  cases stack with
  | nil => cases hleave
  | cons o os =>
      unfold Assembly.leave at hleave
      dsimp only at hleave
      split at hleave
      · rename_i hkey
        obtain ⟨hrole, htext, hmarks⟩ := marks_enclose (h.opens o List.mem_cons_self) hclose hkey
          siblings.reverse (Assembly.rawBody ⟨o :: os, siblings, raw⟩)
        generalize enclose o.tag siblings.reverse (Assembly.rawBody ⟨o :: os, siblings, raw⟩) = e
          at hleave hrole htext hmarks
        cases hleave
        have hpush : Element.push e o.siblings = e :: o.siblings := by
          cases e with
          | text s => cases htext
          | _ => rfl
        show Records (m :: ms) { Assembly.addSource ⟨os, o.siblings, o.raw⟩ _ with
          siblings := Element.push e o.siblings }
        rw [hpush]
        constructor
        case path => exact (hplace _).2.trans (congrArg List.tail h.path)
        case shown =>
          rw [Mark.shown, (hplace _).1, h.path, h.shown]
          show _ = ((if Role.visible (e.role :: roles os) then e.marks.reverse else [])
            ++ trailOfSiblings (roles os) o.siblings) ++ trailOfStack os
          rw [hrole, hmarks, hm]
          show _ ++ (trailOfSiblings (roles (o :: os)) siblings
            ++ (((if Role.visible (roles (o :: os)) then (Mark.ofTag? o.tag).toList else [])
              ++ trailOfSiblings (roles os) o.siblings) ++ trailOfStack os)) = _
          cases hvisible : Role.visible (roles (o :: os)) with
          | false =>
              have hhidden : Role.visible (o.tag.kind.role :: roles os) = false := hvisible
              rw [trailOfSiblings_of_hidden hvisible, hhidden]
              rfl
          | true =>
              have hshown : Role.visible (o.tag.kind.role :: roles os) = true := hvisible
              rw [trailOfSiblings_of_visible hvisible, hshown]
              cases Mark.ofTag? o.tag <;> simp [roles]
        case last =>
          show m.text? = e.text?
          rw [htext]
          exact Mark.text?_of_ofTag? hm
        case opens => exact fun o' ho' => h.opens o' (List.mem_cons_of_mem _ ho')
      · cases hleave

/-- **A tag**, by its kind. -/
theorem addTag (h : Records ms a) {t : Tag} (htag : a.addTag t = .ok a') :
    Records ((Mark.ofTag? t).toList ++ ms) a' := by
  cases hkind : t.kind with
  | escaped | raw | partialUse =>
      unfold Assembly.addTag at htag
      rw [hkind] at htag
      cases htag
      unfold Mark.ofTag?
      rw [hkind]
      exact (h.addSource t.source).pushLeaf (fun _ => rfl) (fun _ => rfl) rfl rfl rfl rfl
  | normalSection | invertedSection | parent | block =>
      obtain ⟨m, hm⟩ := Mark.exists_ofTag? (t := t) (by rw [hkind]; decide) (by rw [hkind]; decide)
      unfold Assembly.addTag at htag
      rw [hkind] at htag
      cases htag
      rw [hm]
      exact h.enter (by rw [hkind]; rfl) hm
  | close =>
      obtain ⟨m, hm⟩ := Mark.exists_ofTag? (t := t) (by rw [hkind]; decide) (by rw [hkind]; decide)
      unfold Assembly.addTag at htag
      rw [hkind] at htag
      rw [hm]
      exact h.leave hkind hm htag
  | comment | delimiters =>
      unfold Assembly.addTag at htag
      rw [hkind] at htag
      cases htag
      unfold Mark.ofTag?
      rw [hkind]
      exact h.addSource t.source

/-- Static text, of which only some is kept. -/
theorem addText (h : Records ms a) (lead kept : Text) :
    Records ((Mark.ofText kept).foldl (fun before m => m.push before) ms) (a.addText lead kept) := by
  cases kept with
  | nil => exact h.addSource lead
  | cons c cs => exact (h.addSource lead).pushText (c :: cs)

/-- **A piece**: its static text, and its tag. -/
theorem step (h : Records ms a) {p : Piece} (hstep : a.step p = .ok a') :
    Records ((Mark.ofText p.kept ++ (Mark.ofTag? p.tag).toList).foldl (fun before m => m.push before) ms)
      a' := by
  have htag := (h.addText p.lead p.kept).addTag hstep
  rw [List.foldl_append]
  cases hm : Mark.ofTag? p.tag with
  | none => rwa [hm] at htag
  | some m =>
      rw [hm] at htag
      show Records (m.push _) a'
      rw [Mark.push_of_not_text (Mark.text?_of_ofTag? hm)]
      exact htag

/-- **Pieces one after the other.** -/
theorem foldlM_step (h : Records ms a) {ps : List Piece} (hfold : ps.foldlM Assembly.step a = .ok a') :
    Records ((ps.flatMap fun p => Mark.ofText p.kept ++ (Mark.ofTag? p.tag).toList).foldl
      (fun before m => m.push before) ms) a' := by
  induction ps generalizing ms a with
  | nil =>
      cases hfold
      exact h
  | cons p ps ih =>
      rw [List.foldlM_cons] at hfold
      rw [List.flatMap_cons, List.foldl_append]
      cases hstep : a.step p with
      | error e => rw [hstep] at hfold; cases hfold
      | ok a₁ =>
          rw [hstep] at hfold
          exact ih (h.step hstep) hfold

end Records

/-- **A tree writes out its template.** -/
theorem marksAll_of_run {t : Trimmed} {es : List Element} (h : run t = .ok es) :
    Element.marksAll es = Mark.prune [] (Mark.join t.marks) := by
  obtain ⟨a, hfold, hstack, rfl⟩ := exists_of_run h
  have hrecords := (Records.empty.foldlM_step hfold).addText t.tail t.keptTail
  have hempty : (a.addText t.tail t.keptTail).stack = [] := hstack
  have htrail : (a.addText t.tail t.keptTail).trail
      = (Element.marksAll (a.addText t.tail t.keptTail).siblings.reverse).reverse := by
    rw [trail, hempty, roles, List.map_nil, trailOfSiblings_of_visible rfl, trailOfStack, List.append_nil]
    -- every root element counts
    exact congrArg (fun es => (Element.marksAll es).reverse) (List.filter_eq_self.mpr fun _ _ => rfl)
  rw [Mark.join, Trimmed.marks, List.foldl_append, Mark.prune_reverse, hrecords.shown, htrail,
    List.reverse_reverse]

end Assembly

/-! ## Parsing -/

/-- **What parsing accepts, and which error it reports.** For every text and all delimiters: a fault of the scan
    is the error. A text that scans parses exactly when its tags are balanced; then the tree, written out,
    gives the pieces of the trimmed text in order, comments and declarations left out, neighbouring static texts
    joined, and whatever is no block but directly inside a parent dropped. Otherwise the error is the first
    fault of the tags. -/
theorem parse_balanced (d : Delimiters) (s : Text) :
    (∀ e, (Scan.ofText d s).failure = some e → Element.parse d s = .error e) ∧
    ((Scan.ofText d s).failure = none →
      ((∃ es, Element.parse d s = .ok es) ↔ Balanced (Scan.ofText d s).tags) ∧
      (∀ es, Element.parse d s = .ok es →
        Element.marksAll es = Mark.prune [] (Mark.join (Trimmed.ofScan (Scan.ofText d s)).marks)) ∧
      (∀ e, Element.parse d s = .error e ↔ FirstFault (Scan.ofText d s).tags e)) := by
  refine ⟨fun e => Element.parse_of_failure, fun hok => ?_⟩
  have htags : (Trimmed.ofScan (Scan.ofText d s)).pieces.map Piece.tag = (Scan.ofText d s).tags := by
    rw [Scan.tags_eq]
    exact Piece.map_tag_trim 0 _
  rw [Element.parse_of_scan hok, ← htags]
  exact ⟨Assembly.run_isOk_iff, fun es => Assembly.marksAll_of_run, fun e => Assembly.run_eq_error_iff⟩

/-- A parent loses what is no block inside it, and a block is closed by the wrong key. -/
theorem parse_balanced_parent :
    (Scan.ofText ⟨['|'], ['|']⟩ "a|!c|b|<p|x|#k||$n||/n||/k||$t|y|/t||/p|".toList).failure = none ∧
    (∃ es,
      Element.parse ⟨['|'], ['|']⟩ "a|!c|b|<p|x|#k||$n||/n||/k||$t|y|/t||/p|".toList = .ok es ∧
      Element.marksAll es = [.text ['a', 'b'], .parentOpen ['p'] none, .blockOpen ['t'] none, .text ['y'],
        .close ['t'], .close ['p']]) ∧
    (Scan.ofText ⟨['|'], ['|']⟩ "|$t|\n |/u|".toList).failure = none ∧
    FirstFault (Scan.ofText ⟨['|'], ['|']⟩ "|$t|\n |/u|".toList).tags
      ((SyntaxFault.mismatched ['t'] ['u']).report 2 2) := by
  have hok : (Scan.ofText ⟨['|'], ['|']⟩ "a|!c|b|<p|x|#k||$n||/n||/k||$t|y|/t||/p|".toList).failure = none := by
    decide +kernel
  have hbad : (Scan.ofText ⟨['|'], ['|']⟩ "|$t|\n |/u|".toList).failure = none := by decide +kernel
  refine ⟨hok, ⟨_, by with_unfolding_all rfl, ?_⟩, hbad, ?_⟩
  · exact (((parse_balanced _ _).2 hok).2.1 _ (by with_unfolding_all rfl)).trans (by decide +kernel)
  · exact (((parse_balanced _ _).2 hbad).2.2 _).mp (by with_unfolding_all rfl)

end Mustache

import Mustache.Proofs.Cap

/-!
# `Mustache.Proofs.Inlining` — templates in place of partials

A partial without indentation renders the elements of its template in the scope in which it stands, one level further
down. So these elements can be put in its place, anywhere in a tree. What differs then is only how deep the elements
are nested, and that shows only at the cap.

* `Element.Inlines` — a forest with the elements of templates in place of some of its partials. The direct children of
  a parent stay what they are, since they are overrides and no content;
* `Renderer.Inlining` — two scopes with the same context, in which the overrides of the second are those of the first
  with templates in place of partials;
* `Renderer.elements_follow` — **a render is followed by that of the forest with templates in place of partials**,
  also where the second render has a higher cap;
* `run_of_inlines` — hence both end in the same way when the first one stays below the cap.
-/

namespace Mustache

open RenderM

/-! ## Tables -/

namespace Table

variable {κ α : Type} [BEq κ] {R : α → α → Prop} {t t' u u' : Table κ α} {key : κ}

theorem get?_eq_none [LawfulBEq κ] (h : key ∉ t.keys) : t.get? key = none := by
  induction t with
  | nil => rfl
  | cons e t ih =>
      have hne : (e.1 == key) = false := by
        apply beq_false_of_ne
        rintro rfl
        exact h List.mem_cons_self
      have hrest : key ∉ keys t := fun hmem => h (List.mem_cons_of_mem _ hmem)
      simp [get?, hne, ih hrest]

theorem mem_keys_put {value : α} {name : κ} (h : name ∈ (t.put key value).keys) : name = key ∨ name ∈ t.keys := by
  induction t with
  | nil => exact .inl (List.mem_singleton.mp h)
  | cons e t ih =>
      unfold put at h
      split at h
      · exact .inr h
      · rcases List.mem_cons.mp h with rfl | h
        · exact .inr List.mem_cons_self
        · exact (ih h).imp id (List.mem_cons_of_mem _)

theorem nodup_keys_put [ReflBEq κ] {value : α} (h : t.keys.Nodup) : (t.put key value).keys.Nodup := by
  induction t with
  | nil => simp [put, keys]
  | cons e t ih =>
      obtain ⟨hnew, hrest⟩ := List.nodup_cons.mp h
      unfold put
      split
      · exact h
      · rename_i hkey
        refine List.nodup_cons.mpr ⟨fun hmem => ?_, ih hrest⟩
        rcases mem_keys_put hmem with heq | hmem
        · apply hkey
          rw [← heq]
          exact BEq.rfl
        · exact hnew hmem

theorem nodup_keys_putAll [ReflBEq κ] (h : t.keys.Nodup) (u : Table κ α) : (t.putAll u).keys.Nodup := by
  unfold putAll
  induction u generalizing t with
  | nil => exact h
  | cons e u ih => exact ih (nodup_keys_put h)

theorem nodup_keys_erase (h : t.keys.Nodup) (key : κ) : (t.erase key).keys.Nodup :=
  h.sublist (List.filter_sublist.map Prod.fst)

theorem not_mem_keys_erase [ReflBEq κ] (t : Table κ α) (key : κ) : key ∉ (t.erase key).keys := by
  intro hmem
  obtain ⟨e, he, rfl⟩ := List.mem_map.mp hmem
  have hne := (List.mem_filter.mp he).2
  simp at hne

/-- What is set in a table is found there before what was in it. -/
theorem get?_putAll [LawfulBEq κ] (t : Table κ α) (hu : u.keys.Nodup) (key : κ) :
    (t.putAll u).get? key = (u.get? key).or (t.get? key) := by
  induction u generalizing t with
  | nil => rfl
  | cons e u ih =>
      obtain ⟨hnew, hrest⟩ := List.nodup_cons.mp hu
      have hput : (t.putAll (e :: u)).get? key = ((t.put e.1 e.2).putAll u).get? key := rfl
      rw [hput, ih _ hrest, get?]
      cases hkey : e.1 == key with
      | true =>
          obtain rfl := eq_of_beq hkey
          rw [get?_eq_none hnew, get?_put_self]
          rfl
      | false =>
          rw [get?_put_of_ne t e.2 hkey]
          rfl

/-- Two tables with the same keys and related values. -/
def Related (R : α → α → Prop) (t u : Table κ α) : Prop := ∀ key, Option.Rel R (t.get? key) (u.get? key)

theorem related_of_get? (hR : ∀ v, R v v) (h : ∀ key, t.get? key = u.get? key) : Related R t u := by
  intro key
  rw [h key]
  cases u.get? key with
  | none => exact .none
  | some v => exact .some (hR v)

theorem Related.erase [LawfulBEq κ] (h : Related R t u) (key : κ) : Related R (t.erase key) (u.erase key) := by
  intro name
  cases hname : key == name with
  | true =>
      obtain rfl := eq_of_beq hname
      rw [get?_erase_self, get?_erase_self]
      exact .none
  | false =>
      rw [get?_erase_of_ne t hname, get?_erase_of_ne u hname]
      exact h name

theorem Related.cons {v w : α} (hv : R v w) (h : Related R t u) (key : κ) :
    Related R ((key, v) :: t) ((key, w) :: u) := by
  intro name
  unfold get?
  split
  · exact .some hv
  · exact h name

theorem Related.putAll [LawfulBEq κ] (ht : Related R t t') (hu : Related R u u') (hnodup : u.keys.Nodup)
    (hnodup' : u'.keys.Nodup) : Related R (t.putAll u) (t'.putAll u') := by
  intro key
  have hkey := hu key
  rw [get?_putAll t hnodup, get?_putAll t' hnodup']
  generalize u.get? key = v at hkey ⊢
  generalize u'.get? key = w at hkey ⊢
  cases hkey with
  | none => exact ht key
  | some hv => exact .some hv

end Table

/-! ## Forests with templates in place of partials -/

namespace Element

mutual

/-- An element whose tag stays, with templates in place of partials inside it. -/
inductive InlinesIn (p : Table Text Template) : Element → Element → Prop where
  | leaf {e : Element} (hleaf : e.children? = none) : InlinesIn p e e
  | sectionTag {key raw : Text} {inverted : Bool} {d : Delimiters} {children children' : List Element}
      (h : Inlines p children children') :
      InlinesIn p (.sectionTag key inverted children raw d) (.sectionTag key inverted children' raw d)
  | parentTag {key : Text} {indent : Option Text} {children children' : List Element}
      (h : InlinesEach p children children') :
      InlinesIn p (.parentTag key children indent) (.parentTag key children' indent)
  | blockTag {key : Text} {indent : Option Text} {children children' : List Element}
      (h : Inlines p children children') :
      InlinesIn p (.blockTag key children indent) (.blockTag key children' indent)

/-- Elements whose tags stay, with templates in place of partials inside them. -/
inductive InlinesEach (p : Table Text Template) : List Element → List Element → Prop where
  | nil : InlinesEach p [] []
  | cons {e e' : Element} {es es' : List Element} (he : InlinesIn p e e') (hes : InlinesEach p es es') :
      InlinesEach p (e :: es) (e' :: es')

/-- `Inlines p es es'`: the forest `es'` is `es` with the elements of the templates of `p` in place of some partials
    that have no indentation, at any depth. A raw body stays as it is. -/
inductive Inlines (p : Table Text Template) : List Element → List Element → Prop where
  | nil : Inlines p [] []
  | keep {e e' : Element} {es es' : List Element} (he : InlinesIn p e e') (hes : Inlines p es es') :
      Inlines p (e :: es) (e' :: es')
  | splice {key : Text} {indent : Option Text} {t : Template} {es es' : List Element} (hget : p.get? key = some t)
      (hindent : indent.getD [] = []) (hes : Inlines p es es') :
      Inlines p (.partialTag key indent :: es) (t.elements ++ es')

end

variable {p : Table Text Template} {e e' : Element} {es es' : List Element}

mutual

/-- A forest in which no partial is replaced. -/
theorem InlinesIn.refl (e : Element) : InlinesIn p e e := by
  cases e with
  | sectionTag _ _ children _ _ => exact .sectionTag (Inlines.refl children)
  | parentTag _ children _ => exact .parentTag (InlinesEach.refl children)
  | blockTag _ children _ => exact .blockTag (Inlines.refl children)
  | _ => exact .leaf rfl

theorem InlinesEach.refl (es : List Element) : InlinesEach p es es := by
  cases es with
  | nil => exact .nil
  | cons e es => exact .cons (InlinesIn.refl e) (InlinesEach.refl es)

theorem Inlines.refl (es : List Element) : Inlines p es es := by
  cases es with
  | nil => exact .nil
  | cons e es => exact .keep (InlinesIn.refl e) (Inlines.refl es)

end

theorem InlinesEach.inlines (h : InlinesEach p es es') : Inlines p es es' := by
  induction es generalizing es' with
  | nil =>
      cases h
      exact .nil
  | cons e es ih =>
      cases h with
      | cons he hes => exact .keep he (ih hes)

theorem InlinesIn.key?_eq (h : InlinesIn p e e') : e'.key? = e.key? := by
  cases h <;> rfl

theorem InlinesIn.indent?_eq (h : InlinesIn p e e') : e'.indent? = e.indent? := by
  cases h <;> rfl

theorem InlinesIn.children? (h : InlinesIn p e e') : Option.Rel (Inlines p) e.children? e'.children? := by
  cases h with
  | leaf hleaf =>
      rw [hleaf]
      exact .none
  | parentTag h => exact .some h.inlines
  | sectionTag h | blockTag h => exact .some h

/-- The keys of a table of overrides are all different. -/
theorem nodup_overrides? {own : Table Text Element} (h : overrides? es = some own) : own.keys.Nodup := by
  induction es generalizing own with
  | nil =>
      cases h
      exact List.nodup_nil
  | cons e es ih =>
      unfold overrides? at h
      split at h
      · rename_i key rest _ hrest
        cases h
        exact List.nodup_cons.mpr ⟨Table.not_mem_keys_erase rest key, Table.nodup_keys_erase (ih hrest) key⟩
      · cases h

/-- The overrides that the children of a parent give are related like the children. -/
theorem InlinesEach.overrides? (h : InlinesEach p es es') :
    Option.Rel (Table.Related (InlinesIn p)) (overrides? es) (overrides? es') := by
  induction es generalizing es' with
  | nil =>
      cases h
      exact .some fun _ => .none
  | cons e es ih =>
      cases h with
      | cons he hes =>
          unfold Element.overrides?
          rw [he.key?_eq]
          cases e.key? with
          | none => exact .none
          | some key =>
              have hrest := ih hes
              generalize Element.overrides? es = rest at hrest ⊢
              generalize Element.overrides? _ = rest' at hrest ⊢
              cases hrest with
              | none => exact .none
              | some hrest => exact .some ((hrest.erase key).cons he key)

end Element

open Element (Inlines InlinesIn InlinesEach)

/-! ## Renders -/

namespace Renderer

variable {r : Renderer} {cap : Int} {p : Table Text Template} {ok : Fault → Prop} {scope scope' : Scope}
  {e e' : Element} {es es' : List Element} {recur recur' : Recur}

/-- Two scopes with the same context. In the overrides of the second, templates stand in place of partials, and there
    are no fewer levels left below the cap of the second than below that of the first. -/
structure Inlining (r : Renderer) (cap : Int) (p : Table Text Template) (scope scope' : Scope) : Prop where
  stack : scope'.stack = scope.stack
  overrides : Table.Related (InlinesIn p) scope.overrides scope'.overrides
  nodup : scope.overrides.keys.Nodup
  nodup' : scope'.overrides.keys.Nodup
  levels : r.maxDepth - scope.depth ≤ cap - scope'.depth

namespace Inlining

theorem refl (hcap : r.maxDepth ≤ cap) (hnodup : scope.overrides.keys.Nodup) : Inlining r cap p scope scope where
  stack := rfl
  overrides := Table.related_of_get? InlinesIn.refl fun _ => rfl
  nodup := hnodup
  nodup' := hnodup
  levels := by omega

theorem push (h : Inlining r cap p scope scope') (v : Value) : Inlining r cap p (scope.push v) (scope'.push v) where
  stack := congrArg (Stack.push · v) h.stack
  overrides := h.overrides
  nodup := h.nodup
  nodup' := h.nodup'
  levels := h.levels

theorem erase (h : Inlining r cap p scope scope') (key : Text) :
    Inlining r cap p { scope with overrides := scope.overrides.erase key }
      { scope' with overrides := scope'.overrides.erase key } where
  stack := h.stack
  overrides := h.overrides.erase key
  nodup := Table.nodup_keys_erase h.nodup key
  nodup' := Table.nodup_keys_erase h.nodup' key
  levels := h.levels

/-- One level further down in both scopes. -/
theorem deeper (h : Inlining r cap p scope scope') :
    Inlining r cap p { scope with depth := scope.depth + 1 } { scope' with depth := scope'.depth + 1 } where
  stack := h.stack
  overrides := h.overrides
  nodup := h.nodup
  nodup' := h.nodup'
  levels := by
    have hlevels := h.levels
    dsimp only
    omega

/-- The overrides of a parent in effect in both scopes. -/
theorem putAll (h : Inlining r cap p scope scope') {own own' : Table Text Element}
    (hown : Table.Related (InlinesIn p) own own') (hnodup : own.keys.Nodup) (hnodup' : own'.keys.Nodup) :
    Inlining r cap p { scope with overrides := own.putAll scope.overrides }
      { scope' with overrides := own'.putAll scope'.overrides } where
  stack := h.stack
  overrides := hown.putAll h.overrides h.nodup h.nodup'
  nodup := Table.nodup_keys_putAll hnodup _
  nodup' := Table.nodup_keys_putAll hnodup' _
  levels := h.levels

/-- Where the second scope is at its cap, so is the first. -/
theorem capped (h : Inlining r cap p scope scope') (hcap : cap ≤ scope'.depth) : r.maxDepth ≤ scope.depth := by
  have hlevels := h.levels
  omega

end Inlining

section Elements

variable (hrecur : ∀ {es es' : List Element} {inside inside' : Scope}, Inlines p es es' →
  Inlining r cap p inside inside' → Follows ok (recur es inside) (recur' es' inside'))

include hrecur

theorem blockTag_follows (hscope : Inlining r cap p scope scope') {key : Text} {children children' : List Element}
    (h : Inlines p children children') (indent : Option Text) :
    Follows ok (blockTag recur scope key children indent) (blockTag recur' scope' key children' indent) := by
  have hoverride := hscope.overrides key
  unfold blockTag
  generalize scope.overrides.get? key = o at hoverride ⊢
  generalize scope'.overrides.get? key = o' at hoverride ⊢
  cases hoverride with
  | none => exact hrecur h hscope
  | @some o o' ho =>
      have hbody := ho.children?
      dsimp only
      rw [ho.indent?_eq]
      generalize o.children? = body at hbody ⊢
      generalize o'.children? = body' at hbody ⊢
      cases hbody with
      | none =>
          split
          · exact follows_throw _
          · exact follows_throw _
          · exact follows_withLayer _ (follows_throw _)
      | some hbody =>
          have hinside := hrecur hbody (hscope.erase key)
          split
          · exact hinside
          · exact follows_throw _
          · exact follows_withLayer _ hinside

theorem parentTag_follows (hscope : Inlining r cap p scope scope') (key : Text) {children children' : List Element}
    (h : InlinesEach p children children') (indent : Option Text) :
    Follows ok (r.parentTag recur scope key children indent)
      (parentTag { r with maxDepth := cap } recur' scope' key children' indent) := by
  refine (coupling_followsAt ok).always_bind ((coupling_followsAt ok).always_template? key) fun found => ?_
  cases found with
  | none => exact follows_pure ()
  | some t =>
      have hown := h.overrides?
      have hnodup := @Element.nodup_overrides? children
      have hnodup' := @Element.nodup_overrides? children'
      dsimp only
      generalize Element.overrides? children = own at hown hnodup ⊢
      generalize Element.overrides? children' = own' at hown hnodup' ⊢
      cases hown with
      | none => exact follows_throw _
      | some hown =>
          refine expand_follows hscope.capped fun _ => ?_
          exact hrecur (Inlines.refl t.elements) (hscope.putAll hown (hnodup rfl) (hnodup' rfl)).deeper

/-- **An element is followed by the element with templates in place of partials inside it.** -/
theorem element_follows (hscope : Inlining r cap p scope scope') (h : InlinesIn p e e') :
    Follows ok (r.element recur scope e) (element { r with maxDepth := cap } recur' scope' e') := by
  have C := coupling_followsAt ok
  have hsame : ∀ es, Follows ok (recur es scope) (recur' es scope') := fun es => hrecur (Inlines.refl es) hscope
  cases h with
  | @leaf e hleaf =>
      cases e with
      | text t => exact follows_emit _
      | interpolation key escaped =>
          intro s
          exact C.interpolation (r := r) escaped hscope.stack (fun c _ => follows_emit c) fun _ => hsame
      | partialTag key indent =>
          refine C.always_bind (C.always_template? key) fun found => ?_
          cases found with
          | none => exact follows_pure ()
          | some t => exact expand_follows hscope.capped fun _ => hrecur (Inlines.refl t.elements) hscope.deeper
      | foreign typeName => exact follows_throw _
      | sectionTag | parentTag | blockTag => cases hleaf
  | sectionTag h =>
      intro s
      exact C.sectionTag hscope.stack (fun _ => hrecur h hscope) (fun _ v => hrecur h (hscope.push v))
        fun _ => ⟨hsame, follows_emit⟩
  | parentTag h => exact parentTag_follows hrecur hscope _ h _
  | blockTag h => exact blockTag_follows hrecur hscope h _

end Elements

/-- Where each element is followed by its counterpart, and each partial by what stands in its place, so is the
    forest. -/
theorem follows_forM {k k' : Element → RenderM Unit} (hkeep : ∀ {e e'}, InlinesIn p e e' → Follows ok (k e) (k' e'))
    (hsplice : ∀ {key indent t}, p.get? key = some t → indent.getD [] = [] →
      Follows ok (k (.partialTag key indent)) (t.elements.forM k'))
    (h : Inlines p es es') : Follows ok (es.forM k) (es'.forM k') := by
  have C := coupling_followsAt ok
  induction es generalizing es' with
  | nil =>
      cases h
      exact follows_pure ()
  | cons e es ih =>
      cases h with
      | keep he hes => exact C.always_bind (hkeep he) fun _ => ih hes
      | @splice key indent t _ es' hget hindent hes =>
          have happend : (t.elements ++ es').forM k' = t.elements.forM k' >>= fun _ => es'.forM k' :=
            List.forM_append
          rw [happend]
          exact C.always_bind (hsplice hget hindent) fun _ => ih hes

/-- **A render is followed by that of the forest with templates in place of partials.** The second render may go
    deeper, and has to where partials are replaced, because what replaces them is rendered at their depth; then the
    first one may not be cut short. By induction on the depth of the first. -/
theorem elements_follow (hp : ∀ key t, p.get? key = some t → r.partials.get? key = some t) (n m : Nat)
    (hdepth : (¬ ok .exhausted ∧ n ≤ m) ∨ (p = [] ∧ n = m)) (h : Inlines p es es')
    (hscope : Inlining r cap p scope scope') :
    Follows ok (r.elements n es scope) (elements { r with maxDepth := cap } m es' scope') := by
  induction n generalizing m es es' scope scope' with
  | zero =>
      rcases hdepth with ⟨hok, -⟩ | ⟨-, rfl⟩
      · exact follows_of_not_ok hok _
      · exact follows_throw _
  | succ n ih =>
      obtain ⟨m, rfl⟩ : ∃ k, m = k + 1 := ⟨m - 1, by omega⟩
      refine follows_forM (fun he => ?_) (fun {key indent t} hget hindent => ?_) h
      · refine element_follows (fun hes hinside => ih m ?_ hes hinside) hscope he
        exact hdepth.imp (And.imp_right Nat.le_of_succ_le_succ) (And.imp_right Nat.succ.inj)
      · rcases hdepth with ⟨hok, hle⟩ | ⟨rfl, -⟩
        · have hpartial : r.element (r.elements n) scope (.partialTag key indent) = _ :=
            partialTag_of_get? (hp key t hget) indent
          rw [hpartial]
          -- the partial goes one level down to the elements, which stand in its place on the other side
          refine expand_followed hindent fun _ => ih (m + 1) (.inl ⟨hok, by omega⟩) (Inlines.refl t.elements) ?_
          refine ⟨hscope.stack, hscope.overrides, hscope.nodup, hscope.nodup', ?_⟩
          have hlevels := hscope.levels
          dsimp only
          omega
        · cases hget

end Renderer

/-- **Templates in place of partials make no difference.** Let some partials without indentation be replaced by the
    elements of their templates, anywhere in a forest. If the render of the forest ends, down to some depth, and does
    not report that the cap is reached, then the render with the templates in place ends in the same way, down to the
    same depth and every greater one: with the same outcome and the same output, the same calls of the host in the
    same order, and the same reports. -/
theorem run_of_inlines {r : Renderer} {es es' : List Element} {stack : Stack} {s : RenderState} {n m : Nat}
    (h : Inlines r.partials es es') (hnm : n ≤ m) (hends : (r.run n es stack s).1 ≠ .error .exhausted)
    (hquiet : (r.run n es stack s).2.host.capReports = s.host.capReports) :
    r.run m es' stack s = r.run n es stack s := by
  have hscope : Renderer.Inlining r r.maxDepth r.partials ⟨stack, [], 0⟩ ⟨stack, [], 0⟩ :=
    .refl (Int.le_refl _) List.nodup_nil
  have hfollows : Follows (· ≠ .exhausted) (r.elements n es ⟨stack, [], 0⟩) (r.elements m es' ⟨stack, [], 0⟩) :=
    Renderer.elements_follow (fun _ _ => id) n m (.inl ⟨fun hne => hne rfl, hnm⟩) h hscope
  exact hfollows.run_eq_of_ends hends hquiet

/-! ### A partial with a block, in four places -/

/-- A text and a block. -/
def inlineBody : List Element := [.text ['x'], .blockTag ['b'] [.interpolation ['v'] true] none]

/-- The templates `p`, the text and the block, and `q`, a block and the partial `p`. -/
def inlinePartials : Table Text Template :=
  [(['p'], ⟨inlineBody, none⟩), (['q'], ⟨[.blockTag ['a'] [.text ['-']] none, .partialTag ['p'] none], none⟩)]

/-- The partial `p` alone, in an override, in a section and in the default of a block. -/
def inlineUse : List Element :=
  [.partialTag ['p'] none,
    .parentTag ['q'] [.blockTag ['a'] [.partialTag ['p'] (some [])] none, .blockTag ['b'] [.text ['!']] none] none,
    .sectionTag ['f'] false [.partialTag ['p'] none] [] .braces, .blockTag ['c'] [.partialTag ['p'] none] none]

/-- The template of `p` in all of these places but the section. -/
def inlinedUse : List Element :=
  inlineBody ++
    [.parentTag ['q'] [.blockTag ['a'] inlineBody none, .blockTag ['b'] [.text ['!']] none] none,
      .sectionTag ['f'] false [.partialTag ['p'] none] [] .braces, .blockTag ['c'] inlineBody none]

/-- A text with markup, and a function that gives one item. -/
def inlineStack : Stack :=
  .ofValues [.map .dict [(.text ['v'], .text ['<']),
    (.text ['f'], .function ⟨⟨0, 0, false, false, true⟩, none, .writes [.literal ['y']]⟩)]]

theorem inlines_inlinedUse : Inlines inlinePartials inlineUse inlinedUse := by
  have hbody : ∀ indent : Option Text, indent.getD [] = [] →
      Inlines inlinePartials [.partialTag ['p'] indent] inlineBody := by
    intro indent hindent
    exact .splice (t := ⟨inlineBody, none⟩) rfl hindent .nil
  have hoverride : InlinesIn inlinePartials (.blockTag ['a'] [.partialTag ['p'] (some [])] none)
      (.blockTag ['a'] inlineBody none) := .blockTag (hbody (some []) rfl)
  have hdefault : InlinesIn inlinePartials (.blockTag ['c'] [.partialTag ['p'] none] none)
      (.blockTag ['c'] inlineBody none) := .blockTag (hbody none rfl)
  have hparent := InlinesEach.cons hoverride (.refl [.blockTag ['b'] [.text ['!']] none])
  exact .splice (t := ⟨inlineBody, none⟩) rfl rfl (.keep (.parentTag hparent) (.keep (.refl _) (.keep hdefault .nil)))

/-- The block of the partial is overridden where the partial stands in the parent, and nowhere else. -/
theorem run_of_inlines_blocks :
    Inlines inlinePartials inlineUse inlinedUse ∧
    Renderer.run ⟨inlinePartials, Escape.html, 2⟩ 6 inlinedUse inlineStack ⟨.fresh, .bare .buffer⟩
      = Renderer.run ⟨inlinePartials, Escape.html, 2⟩ 5 inlineUse inlineStack ⟨.fresh, .bare .buffer⟩ ∧
    (Renderer.run ⟨inlinePartials, Escape.html, 2⟩ 5 inlineUse inlineStack ⟨.fresh, .bare .buffer⟩).1 = .ok () ∧
    (Renderer.run ⟨inlinePartials, Escape.html, 2⟩ 5 inlineUse inlineStack ⟨.fresh, .bare .buffer⟩).2.sink.device.text
      = "x&lt;x!x!x&lt;x&lt;".toList ∧
    (Renderer.run ⟨inlinePartials, Escape.html, 2⟩ 5 inlineUse inlineStack ⟨.fresh, .bare .buffer⟩).2.host.calls.length
      = 1 := by
  have hok : (Renderer.run ⟨inlinePartials, Escape.html, 2⟩ 5 inlineUse inlineStack ⟨.fresh, .bare .buffer⟩).1
      = .ok () := by
    with_unfolding_all rfl
  refine ⟨inlines_inlinedUse, run_of_inlines inlines_inlinedUse ?_ ?_ ?_, hok, ?_, ?_⟩
  · decide
  · rw [hok]
    intro h
    cases h
  · with_unfolding_all rfl
  · with_unfolding_all rfl
  · with_unfolding_all rfl

end Mustache

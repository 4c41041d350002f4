import Mustache.Proofs.Termination

/-!
# `Mustache.Proofs.Substitution` — inheritance is substitution

A parent renders the elements of its template with overrides in effect, and a block looks up its override while it is
rendered. The same could be had before rendering: put the bodies of the overrides in place of the blocks, and render
what comes out. The overrides that are in effect inside a block are those that were not entered around it, so a body
is substituted without its own override, just as it is rendered without it.

* `Element.substitute` — elements with overrides put in place of their blocks, in which no block is left;
* `RenderM.EndsLike` — a part that ends like another one, unless it was stopped; a coupling, so that it is enough to
  compare blocks with what is substituted for them;
* `Renderer.watched_endsLike` — elements under overrides end like what is substituted for them;
* `render_parent_eq_substitute` — **a parent is rendered like its substituted template**.
-/

namespace Mustache

open RenderM

/-! ## Tables -/

namespace Table

variable {κ α : Type} [BEq κ] {t u : Table κ α} {key : κ} {v : α}

theorem length_erase_lt (h : t.get? key = some v) : (t.erase key).length < t.length := by
  induction t with
  | nil => cases h
  | cons p t ih =>
      unfold get? at h
      split at h
      · rename_i hp
        have hle := List.length_filter_le (fun e : κ × α => !(e.1 == key)) t
        simp only [erase, List.filter_cons, hp, Bool.not_true, Bool.false_eq_true, if_false, List.length_cons]
        omega
      · rename_i hp
        have hlt := ih h
        unfold erase at hlt
        simp only [erase, List.filter_cons, hp, Bool.not_false, if_true, List.length_cons]
        omega

/-- Tables with the same values have the same values without a key. -/
theorem get?_erase_congr [LawfulBEq κ] (h : ∀ name, t.get? name = u.get? name) (key name : κ) :
    (t.erase key).get? name = (u.erase key).get? name := by
  cases hname : key == name with
  | true =>
      obtain rfl := eq_of_beq hname
      rw [get?_erase_self, get?_erase_self]
  | false => rw [get?_erase_of_ne t hname, get?_erase_of_ne u hname, h]

end Table

/-! ## Substitution -/

namespace Element

/-- The overrides that a parent gives, by the names of the blocks. A name can occur more than once; looking it up
    takes the first override. -/
def overrideTable (children : List Element) : Table Text Element :=
  children.filterMap fun e => e.key?.map fun key => (key, e)

mutual

/-- What is put in place of an element. A block is replaced by what is substituted in the body of its override, which
    is not in effect there, or in its own children if it has none. -/
def substitute (overrides : Table Text Element) : Element → List Element
  | .blockTag key children _ =>
      match _hget : overrides.get? key with
      | some o => substituteAll (overrides.erase key) o.children
      | none => substituteAll overrides children
  | .sectionTag key inverted children rawBody d =>
      [.sectionTag key inverted (substituteAll overrides children) rawBody d]
  | e => [e]
termination_by e => (overrides.length, e.size, 0)
decreasing_by
  · exact Prod.Lex.left _ _ (Table.length_erase_lt _hget)
  · exact Prod.Lex.right _ (Prod.Lex.left _ _ (by rw [size]; omega))
  · exact Prod.Lex.right _ (Prod.Lex.left _ _ (by rw [size]; omega))

/-- What is put in place of some elements. -/
def substituteAll (overrides : Table Text Element) : List Element → List Element
  | [] => []
  | e :: es => substitute overrides e ++ substituteAll overrides es
termination_by es => (overrides.length, sizeAll es, 1)
decreasing_by
  · -- the last sibling is as big as the forest
    rw [sizeAll]
    rcases Nat.eq_zero_or_pos (sizeAll es) with hzero | hpos
    · rw [hzero]
      exact Prod.Lex.right _ (Prod.Lex.right _ Nat.one_pos)
    · exact Prod.Lex.right _ (Prod.Lex.left _ _ (by omega))
  · have hpos := e.size_eq
    exact Prod.Lex.right _ (Prod.Lex.left _ _ (by rw [sizeAll]; omega))

end

theorem substituteAll_eq_flatMap (O : Table Text Element) (es : List Element) :
    substituteAll O es = es.flatMap (substitute O) := by
  induction es with
  | nil => rw [substituteAll, List.flatMap_nil]
  | cons e es ih => rw [substituteAll, ih, List.flatMap_cons]

variable {O : Table Text Element} {key : Text} {o : Element}

theorem substitute_of_leaf {e : Element} (h : e.children? = none) : substitute O e = [e] := by
  cases e with
  | sectionTag | blockTag => cases h
  | _ => simp [substitute]

/-- A block that is overridden. -/
theorem substitute_of_get? (hget : O.get? key = some o) (children : List Element) (indent : Option Text) :
    substitute O (.blockTag key children indent) = substituteAll (O.erase key) o.children := by
  rw [substitute]
  split
  · rename_i o' hget'
    rw [hget] at hget'
    cases hget'
    rfl
  · rename_i hget'
    rw [hget] at hget'
    cases hget'

/-- A block that is not overridden. -/
theorem substitute_of_get?_none (hget : O.get? key = none) (children : List Element) (indent : Option Text) :
    substitute O (.blockTag key children indent) = substituteAll O children := by
  rw [substitute]
  split
  · rename_i o' hget'
    rw [hget] at hget'
    cases hget'
  · rfl

/-- All overrides of a parent are among those that its children give, and the first of a name counts. -/
theorem overrides?_of_isBlock {es : List Element} (h : ∀ e ∈ es, e.isBlock = true) :
    ∃ own, overrides? es = some own ∧ ∀ name, own.get? name = (overrideTable es).get? name := by
  induction es with
  | nil => exact ⟨[], rfl, fun _ => rfl⟩
  | cons e es ih =>
      obtain ⟨he, hes⟩ := List.forall_mem_cons.mp h
      obtain ⟨rest, hrest, hget⟩ := ih hes
      cases e with
      | blockTag key children indent =>
          refine ⟨(key, .blockTag key children indent) :: Table.erase rest key, ?_, fun name => ?_⟩
          · rw [overrides?, hrest]
            rfl
          · have hfirst : overrideTable (.blockTag key children indent :: es)
                = (key, .blockTag key children indent) :: overrideTable es := rfl
            rw [hfirst, Table.get?, Table.get?]
            split
            · rfl
            · rename_i hname
              rw [Table.get?_erase_of_ne rest (Bool.eq_false_iff.mpr hname), hget]
      | _ => cases he

/-- An element that is neither a partial nor a parent, and no block that stands alone on its line. -/
def Plain : Element → Prop
  | .partialTag .. | .parentTag .. => False
  | .blockTag _ _ indent => indent = none
  | .text _ | .interpolation .. | .sectionTag .. | .foreign _ => True

end Element

open Element (Everywhere Plain substitute substituteAll overrideTable)

/-! ## Parts that end like others -/

namespace RenderM

variable {α β : Type} {fault : Fault} {s : RenderState}

/-- From a state on, a part ends like another one and not by exhaustion, or it was stopped with a fault. -/
def EndsLike (fault : Fault) (s : RenderState) (x y : RenderM α) : Prop :=
  AgreeAt (· ≠ .exhausted) s x y ∨ ∃ t, x.run s = (.error fault, t)

theorem EndsLike.of_run_eq {x x' y : RenderM α} (heq : x.run s = x'.run s) (h : EndsLike fault s x' y) :
    EndsLike fault s x y := AgreeUnless.of_run_eq heq h

/-- To end like another part is a coupling. -/
theorem coupling_endsLike (fault : Fault) : Coupling (fun s x y => EndsLike fault s x y) :=
  coupling_agreeUnless (fun _ h => h) fault

theorem EndsLike.unlessFault {stop : RenderState → Bool} {x y : RenderM Unit}
    (h : stop s = false → EndsLike fault s x y) : EndsLike fault s (unlessFault stop fault x) y :=
  AgreeUnless.unlessFault h

end RenderM

/-! ## Renders -/

namespace Renderer

variable {r : Renderer} {L : Limits} {scope scope' : Scope} {e : Element} {es : List Element} {fault : Fault}
  {overrides : Table Text Element} {recur recur' : Recur} {s : RenderState}

theorem blockTag_of_get?_none {key : Text} (hget : scope.overrides.get? key = none) (children : List Element)
    (indent : Option Text) : blockTag recur scope key children indent = recur children scope := by
  rw [blockTag, hget]

theorem blockTag_of_get? {key : Text} {o : Element} (hget : scope.overrides.get? key = some o)
    (hblock : o.isBlock = true) (children : List Element) :
    blockTag recur scope key children none
      = recur o.children { scope with overrides := scope.overrides.erase key } := by
  cases o with
  | blockTag =>
      rw [blockTag, hget]
      rfl
  | _ => cases hblock

/-- Plain overrides are in effect, which have the values of a table. -/
structure PlainOverrides (scope : Scope) (overrides : Table Text Element) : Prop where
  blocks : ∀ p ∈ scope.overrides, p.2.isBlock = true
  plain : ∀ p ∈ scope.overrides, Everywhere Plain p.2.children
  get? : ∀ name, scope.overrides.get? name = overrides.get? name

theorem PlainOverrides.erase (h : PlainOverrides scope overrides) (key : Text) :
    PlainOverrides { scope with overrides := scope.overrides.erase key } (overrides.erase key) where
  blocks p hp := h.blocks p (List.mem_filter.mp hp).1
  plain p hp := h.plain p (List.mem_filter.mp hp).1
  get? := Table.get?_erase_congr h.get? key

/-- An element without children renders the same whatever the overrides. -/
theorem leaf_endsLike (hleaf : e.children? = none) (hplain : e.Plain) (hstack : scope'.stack = scope.stack)
    (hcallable : e.resolvesCallable scope s = false) :
    EndsLike fault s (r.element recur scope e) (r.element recur' scope' e) := by
  have hemit : ∀ c s, EndsLike fault s (emit c) (emit c) := fun c s => .inl (agree_emit (fun _ h => h) c s)
  cases e with
  | text t => exact hemit _ s
  | interpolation key escaped =>
      exact (coupling_endsLike fault).interpolation escaped hstack (fun c _ => hemit c)
        fun hc => absurd (hc.symm.trans hcallable) (by simp)
  | foreign typeName => exact .inl (agree_throw (fun _ h => h) (by simp) s)
  | partialTag => exact hplain.elim
  | sectionTag | parentTag | blockTag => cases hleaf

/-- A block ends like what is substituted for it, if what it brings in ends like what is substituted for that. -/
theorem blockTag_endsLike (r : Renderer) (recur' : Recur) {key : Text} {children : List Element}
    (hoverrides : PlainOverrides scope overrides)
    (hchildren : Everywhere Plain children)
    (hinside : ∀ {es inside} overrides', r.Descends scope (.blockTag key children none) es inside →
      Everywhere Plain es → PlainOverrides inside overrides' → inside.stack = scope.stack →
      substitute overrides (.blockTag key children none) = substituteAll overrides' es →
      Always (fun s x y => EndsLike fault s x y) (recur es inside) (recur' (substituteAll overrides' es) scope')) :
    Always (fun s x y => EndsLike fault s x y) (blockTag recur scope key children none)
      (recur' (substitute overrides (.blockTag key children none)) scope') := by
  cases hget : scope.overrides.get? key with
  | none =>
      have heq := Element.substitute_of_get?_none ((hoverrides.get? key).symm.trans hget) children none
      rw [blockTag_of_get?_none hget, heq]
      exact hinside overrides (.block hget) hchildren hoverrides rfl heq
  | some o =>
      have heq := Element.substitute_of_get? ((hoverrides.get? key).symm.trans hget) children none
      have hblock := Table.of_get? (P := fun o : Element => o.isBlock = true) hget hoverrides.blocks
      have hplain := Table.of_get? (P := fun o : Element => Everywhere Plain o.children) hget hoverrides.plain
      have hbody : o.children? = some o.children := by
        cases o with
        | blockTag => rfl
        | _ => cases hblock
      rw [blockTag_of_get? hget hblock, heq]
      exact hinside _ (.override hget hbody) hplain (hoverrides.erase key) rfl heq

/-- **Elements under overrides end like what is substituted for them**, unless they come to a function. By induction
    on the depth on the left, which decreases at every descent; on the right a block is gone, and what is substituted
    for it is rendered at the depth of the block. -/
theorem watched_endsLike (n m : Nat) (around : List Element) (hb : L.Bounds r es scope)
    (hplain : Everywhere Plain es) (hoverrides : PlainOverrides scope overrides) (hn : L.cost r es scope ≤ n)
    (hm : Element.heightAll (substituteAll overrides es) < m) (hstack : scope'.stack = scope.stack) :
    Always (fun s x y => EndsLike fault s x y) (r.watched .callable fault n around es scope)
      (r.elements m (substituteAll overrides es) scope') := by
  induction n generalizing m around es scope scope' overrides with
  | zero => exact absurd hn (Nat.not_succ_le_zero _)
  | succ n ih =>
      obtain ⟨m, rfl⟩ : ∃ k, m = k + 1 := ⟨m - 1, by omega⟩
      have C := coupling_endsLike fault
      rw [Element.substituteAll_eq_flatMap] at hm ⊢
      refine C.always_forM_flatMap fun e he s => EndsLike.unlessFault fun hcallable => ?_
      have hheight : Element.heightAll (substitute overrides e) ≤ m := by
        refine Element.heightAll_le_iff.mpr fun f hf => ?_
        exact Element.heightAll_le_iff.mp (Nat.le_of_lt_succ hm) f (List.mem_flatMap.mpr ⟨e, he, hf⟩)
      -- what an element brings in ends like what is substituted for it
      have hinside : ∀ {es' inside inside'} (overrides' : Table Text Element) (k : Nat),
          r.Descends scope e es' inside → Everywhere Plain es' → PlainOverrides inside overrides' →
          Element.heightAll (substituteAll overrides' es') < k → inside'.stack = inside.stack →
          Always (fun s x y => EndsLike fault s x y) (r.watched .callable fault n (e :: around) es' inside)
            (r.elements k (substituteAll overrides' es') inside') := by
        intro es' inside inside' overrides' k hd hes' hover hk hsame
        have hlt := hd.cost_lt hb he
        exact ih k (e :: around) (hd.bounds hb he) hes' hover (by omega) hk hsame
      cases e with
      | partialTag | parentTag => exact (hplain.root he).elim
      | text | interpolation | foreign =>
          rw [Element.substitute_of_leaf rfl, forM_singleton]
          exact leaf_endsLike rfl (hplain.root he) hstack hcallable
      | sectionTag key inverted children raw d =>
          rw [substitute] at hheight ⊢
          rw [forM_singleton]
          have hlevel : Element.heightAll (substituteAll overrides children) < m :=
            Element.heightAll_le_iff.mp hheight _ List.mem_cons_self
          refine C.sectionTag hstack ?_ ?_ fun hc => absurd (hc.symm.trans hcallable) (by simp)
          · rintro rfl
            exact hinside _ m .absent (hplain.children he) hoverrides hlevel hstack
          · rintro rfl v
            have hpush : (scope'.push v).stack = (scope.push v).stack := congrArg (Stack.push · v) hstack
            exact hinside _ m (.item v) (hplain.children he) ⟨hoverrides.blocks, hoverrides.plain, hoverrides.get?⟩
              hlevel hpush
      | blockTag key children indent =>
          obtain rfl : indent = none := hplain.root he
          refine blockTag_endsLike r (r.elements (m + 1)) hoverrides (hplain.children he) ?_ s
          intro es' inside overrides' hd hes' hover hsame heq
          exact hinside overrides' (m + 1) hd hes' hover (heq ▸ Nat.lt_succ_of_le hheight) (hstack.trans hsame.symm)

/-- A parent without indentation renders the elements of its template. -/
theorem parentTag_eq {key : Text} {children : List Element} {indent : Option Text} {t : Template}
    {own : Table Text Element} (ht : r.partials.get? key = some t) (hown : Element.overrides? children = some own)
    (hdepth : scope.depth < r.maxDepth) (hindent : indent.getD [] = []) :
    r.parentTag recur scope key children indent
      = recur t.elements { scope with overrides := own.putAll scope.overrides, depth := scope.depth + 1 } := by
  rw [parentTag_of_get? ht hown, expand_of_below hdepth hindent]

/-- What a render costs at some depth of partials costs no less at the top. -/
theorem cost_le_depthBound_of_depth (r : Renderer) (es : List Element) (hnone : scope.overrides = []) :
    (r.limits es).cost r es scope ≤ r.depthBound es := by
  have htop := r.cost_le_depthBound es scope.stack []
  rw [List.map_nil, List.append_nil] at htop
  refine Nat.le_trans ?_ htop
  have hlevels : (r.maxDepth - scope.depth).toNat ≤ (r.maxDepth - (0 : Nat)).toNat := by omega
  have hmul := Nat.mul_le_mul_right (((r.limits es).names.length + 1) * ((r.limits es).levels + 1)) hlevels
  unfold Limits.cost
  rw [hnone]
  dsimp only
  omega

theorem heightAll_lt_depthBound (r : Renderer) (es : List Element) : Element.heightAll es < r.depthBound es := by
  have hheight : Element.heightAll es ≤ r.heightBound es := r.height_le_levels List.mem_cons_self
  have hpos : 0 < (r.maxDepth.toNat + 1) * (r.overrideBound es + 1) :=
    Nat.mul_pos (Nat.succ_pos _) (Nat.succ_pos _)
  have hle := Nat.le_mul_of_pos_left (r.heightBound es + 1) hpos
  unfold depthBound
  omega

end Renderer

/-- **Inheritance is substitution.** Let a parent without indentation be rendered below the cap and with no overrides
    in effect, and let its template and the bodies of its overrides hold no partials, no parents and no blocks with
    an indentation. If the render comes to no function, then it ends like that of the elements of the template with
    the overrides put in place of the blocks: with the same outcome, output and use of the host, and neither is cut
    short. Of overrides with the same name the first one counts. -/
theorem render_parent_eq_substitute {r : Renderer} {key : Text} {children : List Element} {indent : Option Text}
    {t : Template} {scope : Scope} {s : RenderState} {n m : Nat} (ht : r.partials.get? key = some t)
    (hindent : indent.getD [] = []) (hblocks : ∀ o ∈ children, o.isBlock = true)
    (hdepth : scope.depth < r.maxDepth) (hnone : scope.overrides = [])
    (hplain : Everywhere Plain t.elements) (hbodies : ∀ o ∈ children, Everywhere Plain o.children)
    (hcalls : r.Avoids .callable n [.parentTag key children indent] scope s)
    (hn : r.depthBound [.parentTag key children indent] ≤ n)
    (hm : r.depthBound (substituteAll (overrideTable children) t.elements) ≤ m) :
    (r.elements n [.parentTag key children indent] scope).run s
      = (r.elements m (substituteAll (overrideTable children) t.elements) scope).run s ∧
    ((r.elements n [.parentTag key children indent] scope).run s).1 ≠ .error .exhausted := by
  obtain ⟨own, hown, hget⟩ := Element.overrides?_of_isBlock hblocks
  have hd : r.Descends scope (.parentTag key children indent) t.elements
      { scope with overrides := own.putAll scope.overrides, depth := scope.depth + 1 } := .parent ht hown hdepth
  have hbounds := r.limits_bounds [.parentTag key children indent] scope
  rw [hnone, List.map_nil, List.append_nil] at hbounds
  have hlt := hd.cost_lt hbounds List.mem_cons_self
  have hcost := r.cost_le_depthBound_of_depth [.parentTag key children indent] hnone
  obtain ⟨n, rfl⟩ : ∃ k, n = k + 1 := ⟨n - 1, by omega⟩
  have hoverrides : Renderer.PlainOverrides
      { scope with overrides := own.putAll scope.overrides, depth := scope.depth + 1 } (overrideTable children) := by
    rw [hnone]
    exact ⟨Element.forall_overrides? hown hblocks, Element.forall_overrides? hown hbodies, hget⟩
  have hheight := Nat.lt_of_lt_of_le (r.heightAll_lt_depthBound _) hm
  -- whatever fault the watch stops the render with, the render ends like the substituted one
  have hends : ∀ fault, EndsLike fault s (r.elements (n + 1) [.parentTag key children indent] scope)
      (r.elements m (substituteAll (overrideTable children) t.elements) scope) := by
    intro fault
    have hinside : EndsLike fault s (r.watched .callable fault n [.parentTag key children indent] t.elements
          { scope with overrides := own.putAll scope.overrides, depth := scope.depth + 1 })
        (r.elements m (substituteAll (overrideTable children) t.elements) scope) :=
      Renderer.watched_endsLike n m _ (hd.bounds hbounds List.mem_cons_self) hplain hoverrides (by omega) hheight
        (Eq.refl scope.stack) s
    refine hinside.of_run_eq ?_
    have hparent : r.element (r.watched .callable fault n [.parentTag key children indent]) scope
        (.parentTag key children indent) = _ := Renderer.parentTag_eq ht hown hdepth hindent
    have hwatched : r.watched .callable fault (n + 1) [] [.parentTag key children indent] scope = _ :=
      forM_singleton _ _
    rw [← hcalls fault, hwatched, run_unlessFault, hparent]
    rfl
  rcases hends .badType with ⟨heq, hne⟩ | ⟨u, hstop⟩
  · exact ⟨heq, fun h => hne _ h rfl⟩
  · rcases hends .badValue with ⟨heq, hne⟩ | ⟨u', hstop'⟩
    · exact ⟨heq, fun h => hne _ h rfl⟩
    · -- the render cannot end with both faults
      cases hstop.symm.trans hstop'

/-! ### Overrides that mention one another -/

/-- A template with a block in the default of another one, and a block in a section. -/
def layout : List Element :=
  [.blockTag ['a'] [.blockTag ['b'] [.text ['A']] none] none,
    .sectionTag ['s'] false [.blockTag ['b'] [.text ['B']] none] [] .braces, .blockTag ['c'] [.text ['C']] none]

/-- An override that mentions itself and another block, and two overrides of this block. -/
def layoutOverrides : List Element :=
  [.blockTag ['a'] [.text ['1'], .blockTag ['a'] [.text ['2']] none, .blockTag ['b'] [] none] none,
    .blockTag ['b'] [.interpolation ['x'] true] none, .blockTag ['b'] [.text ['3']] none]

/-- A text with markup, and two items. -/
def layoutStack : Stack :=
  .ofValues [.map .dict [(.text ['x'], .text ['<']), (.text ['s'], .seq .list [.null, .null])]]

theorem substituteAll_layout :
    substituteAll (overrideTable layoutOverrides) layout
      = [.text ['1'], .text ['2'], .interpolation ['x'] true,
          .sectionTag ['s'] false [.interpolation ['x'] true] [] .braces, .text ['C']] := by
  simp [layout, layoutOverrides, overrideTable, Element.key?, substituteAll, substitute, Table.get?, Table.erase,
    Element.children, Element.children?]

/-- The overrides are put in place in the layout, with a section over two items. -/
theorem render_parent_eq_substitute_layout :
    substituteAll (overrideTable layoutOverrides) layout
      = [.text ['1'], .text ['2'], .interpolation ['x'] true,
          .sectionTag ['s'] false [.interpolation ['x'] true] [] .braces, .text ['C']] ∧
    ((Renderer.elements ⟨[(['p'], ⟨layout, none⟩)], Escape.html, 1⟩ 200 [.parentTag ['p'] layoutOverrides none]
          ⟨layoutStack, [], 0⟩).run ⟨.fresh, .bare .buffer⟩
        = (Renderer.elements ⟨[(['p'], ⟨layout, none⟩)], Escape.html, 1⟩ 200
            (substituteAll (overrideTable layoutOverrides) layout) ⟨layoutStack, [], 0⟩).run ⟨.fresh, .bare .buffer⟩ ∧
      ((Renderer.elements ⟨[(['p'], ⟨layout, none⟩)], Escape.html, 1⟩ 200 [.parentTag ['p'] layoutOverrides none]
          ⟨layoutStack, [], 0⟩).run ⟨.fresh, .bare .buffer⟩).1 ≠ .error .exhausted) ∧
    ((Renderer.elements ⟨[(['p'], ⟨layout, none⟩)], Escape.html, 1⟩ 200 [.parentTag ['p'] layoutOverrides none]
        ⟨layoutStack, [], 0⟩).run ⟨.fresh, .bare .buffer⟩).2.sink.device.text = "12&lt;&lt;&lt;C".toList := by
  refine ⟨substituteAll_layout, render_parent_eq_substitute (t := ⟨layout, none⟩) rfl rfl ?_ ?_ rfl ?_ ?_ ?_ ?_ ?_,
    ?_⟩
  · decide
  · decide
  · simp [layout, Element.everywhere_cons, Element.everywhere_nil, Plain, Element.children, Element.children?]
  · simp [layoutOverrides, Element.everywhere_cons, Element.everywhere_nil, Plain, Element.children,
      Element.children?]
  · intro fault
    with_unfolding_all rfl
  · decide +kernel
  · rw [substituteAll_layout]
    decide +kernel
  · with_unfolding_all rfl

end Mustache

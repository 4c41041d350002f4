import Mustache.Proofs.Inlining
import Mustache.Proofs.Substitution

/-!
# `Mustache.Proofs.Levels` — the levels of partials do not show below the cap

How deep partials and parents are nested shows only in the reports of the cap. So it makes no difference to a render
below the cap if there is more room above it, nor if parents that do nothing but pass on their overrides are left out.

* `run_of_cap_le` — **a higher cap makes no difference to a render that does not reach the lower one**;
* `Renderer.ParentChain` — a parent of a template that is itself a parent, and so on down to a last one;
* `run_of_parentChain` — **such a chain is rendered like one parent of the last template with all overrides**, of
  which the outermost take precedence.
-/

namespace Mustache

open RenderM

/-! ## The cap -/

theorem Renderer.depthBound_le_of_cap_le {r : Renderer} {cap : Int} (hcap : r.maxDepth ≤ cap) (es : List Element) :
    r.depthBound es ≤ depthBound { r with maxDepth := cap } es := by
  have hlevels : r.maxDepth.toNat + 1 ≤ cap.toNat + 1 := by omega
  have hnames := Nat.mul_le_mul_right (r.overrideBound es + 1) hlevels
  exact Nat.succ_le_succ (Nat.mul_le_mul_right (r.heightBound es + 1) hnames)

/-- **The cap is invisible until it is hit.** If a render ends, down to some depth, and does not report that the cap
    is reached, then under a higher cap it ends in the same way, down to the same depth and every greater one: with the
    same outcome and output, the same calls of the host, which may keep a state of its own, and the same reports. So
    do the renders of a template to a device, down to the depths that their caps give. -/
theorem run_of_cap_le (r : Renderer) {cap : Int} (hcap : r.maxDepth ≤ cap) :
    (∀ (es : List Element) (stack : Stack) (s : RenderState) (n m : Nat), n ≤ m →
      (r.run n es stack s).1 ≠ .error .exhausted →
      (r.run n es stack s).2.host.capReports = s.host.capReports →
      Renderer.run { r with maxDepth := cap } m es stack s = r.run n es stack s) ∧
    ∀ (d : Device) (t : Template) (stack : Stack) (h : Host),
      ((r.renderTo d t stack).run h).1.1 ≠ .error .exhausted →
      ((r.renderTo d t stack).run h).2.capReports = h.capReports →
      (Renderer.renderTo { r with maxDepth := cap } d t stack).run h = (r.renderTo d t stack).run h := by
  have hruns : ∀ (es : List Element) (stack : Stack) (s : RenderState) (n m : Nat), n ≤ m →
      (r.run n es stack s).1 ≠ .error .exhausted →
      (r.run n es stack s).2.host.capReports = s.host.capReports →
      Renderer.run { r with maxDepth := cap } m es stack s = r.run n es stack s := by
    intro es stack s n m hnm hends hquiet
    have hscope : Renderer.Inlining r cap [] ⟨stack, [], 0⟩ ⟨stack, [], 0⟩ := .refl hcap List.nodup_nil
    have hfollows : Follows (· ≠ .exhausted) (r.elements n es ⟨stack, [], 0⟩) _ :=
      Renderer.elements_follow (p := []) (fun _ _ h => nomatch h) n m (.inl ⟨fun hne => hne rfl, hnm⟩) (.refl es) hscope
    exact hfollows.run_eq_of_ends hends hquiet
  refine ⟨hruns, fun d t stack h hends hquiet => ?_⟩
  rcases hrun : r.run (r.depthBound t.elements + Renderer.functionDepth) t.elements stack ⟨h, .bare d⟩
    with ⟨outcome, s⟩
  have hle := Nat.add_le_add_right (r.depthBound_le_of_cap_le hcap t.elements) Renderer.functionDepth
  rw [Renderer.renderTo_run hrun] at hends hquiet ⊢
  refine Renderer.renderTo_run ?_
  rw [hruns t.elements stack ⟨h, .bare d⟩ _ _ hle, hrun]
  · rw [hrun]
    exact hends
  · rw [hrun]
    exact hquiet

/-- A partial of itself, which counts its renders with the function `f` and goes down the items `n`. -/
def counted : List Element :=
  [.sectionTag ['f'] false [.interpolation ['.'] true] [] .braces,
    .sectionTag ['n'] false [.text ['('], .partialTag ['p'] none, .text [')']] [] .braces]

/-- A function that writes how often it has been called, and two levels. -/
def countedStack : Stack :=
  .ofValues [.map .dict [
    (.text ['f'], .function ⟨⟨0, 0, false, false, true⟩, some 0, .writes [.callNumber]⟩),
    (.text ['n'], .map .dict [(.text ['n'], .null)])]]

/-- Two levels under a cap of two and under a cap of 64, with a host that has counted to six. -/
theorem run_of_cap_le_counted :
    (2 : Int) ≤ 64 ∧
    Renderer.run ⟨[(['p'], ⟨counted, none⟩)], Escape.html, 64⟩ 9 [.partialTag ['p'] none] countedStack
        ⟨⟨#[6], [], []⟩, .bare .buffer⟩
      = Renderer.run ⟨[(['p'], ⟨counted, none⟩)], Escape.html, 2⟩ 7 [.partialTag ['p'] none] countedStack
          ⟨⟨#[6], [], []⟩, .bare .buffer⟩ ∧
    (Renderer.run ⟨[(['p'], ⟨counted, none⟩)], Escape.html, 2⟩ 7 [.partialTag ['p'] none] countedStack
      ⟨⟨#[6], [], []⟩, .bare .buffer⟩).1.isOk = true ∧
    (Renderer.run ⟨[(['p'], ⟨counted, none⟩)], Escape.html, 2⟩ 7 [.partialTag ['p'] none] countedStack
      ⟨⟨#[6], [], []⟩, .bare .buffer⟩).2.sink.device.text = "7(8)".toList := by
  have hok : (Renderer.run ⟨[(['p'], ⟨counted, none⟩)], Escape.html, 2⟩ 7 [.partialTag ['p'] none] countedStack
      ⟨⟨#[6], [], []⟩, .bare .buffer⟩).1.isOk = true := by
    decide +kernel
  have hcap : (2 : Int) ≤ 64 := by decide
  refine ⟨hcap, (run_of_cap_le ⟨[(['p'], ⟨counted, none⟩)], Escape.html, 2⟩ hcap).1 _ _ _ 7 9 ?_ ?_ ?_, hok, ?_⟩
  · decide
  · intro h
    rw [h] at hok
    cases hok
  · decide +kernel
  · decide +kernel

/-! ## Chains of parents -/

namespace Renderer

variable {r : Renderer} {es : List Element} {levels : List (List Element)} {key : Text} {stack : Stack}
  {ok : Fault → Prop}

/-- `r.ParentChain es levels key`: the elements `es` are one parent without indentation, whose template is one parent
    without indentation, and so on. The last of these parents is that of the template `key`; their overrides are
    `levels`, the outermost first. -/
inductive ParentChain (r : Renderer) : List Element → List (List Element) → Text → Prop where
  | last {key : Text} {blocks : List Element} {indent : Option Text} (hindent : indent.getD [] = [])
      (hblocks : ∀ o ∈ blocks, o.isBlock = true) : ParentChain r [.parentTag key blocks indent] [blocks] key
  | next {name key : Text} {blocks : List Element} {indent : Option Text} {t : Template}
      {levels : List (List Element)} (hindent : indent.getD [] = []) (hblocks : ∀ o ∈ blocks, o.isBlock = true)
      (ht : r.partials.get? name = some t) (hrest : ParentChain r t.elements levels key) :
      ParentChain r [.parentTag name blocks indent] (blocks :: levels) key

theorem get?_overrideTable_append (es fs : List Element) (name : Text) :
    (Element.overrideTable (es ++ fs)).get? name
      = ((Element.overrideTable es).get? name).or ((Element.overrideTable fs).get? name) := by
  have happend : ∀ t u : Table Text Element, Table.get? (t ++ u) name = (t.get? name).or (u.get? name) := by
    intro t u
    induction t with
    | nil => rfl
    | cons e t ih =>
        rw [List.cons_append, Table.get?, Table.get?]
        split
        · rfl
        · exact ih
  unfold Element.overrideTable
  rw [List.filterMap_append]
  exact happend _ _

/-- The overrides of some blocks are in effect. -/
structure Carries (scope : Scope) (before : List Element) : Prop where
  get? : ∀ name, scope.overrides.get? name = (Element.overrideTable before).get? name
  nodup : scope.overrides.keys.Nodup

/-- The overrides of a parent come after those that are in effect. -/
theorem Carries.putAll {scope : Scope} {before blocks : List Element} (h : Carries scope before)
    {own : Table Text Element} (hown : Element.overrides? blocks = some own)
    (hget : ∀ name, own.get? name = (Element.overrideTable blocks).get? name) :
    Carries { scope with overrides := own.putAll scope.overrides, depth := scope.depth + 1 } (before ++ blocks) where
  get? name := by
    rw [get?_overrideTable_append, ← h.get? name, ← hget name]
    exact Table.get?_putAll own h.nodup name
  nodup := Table.nodup_keys_putAll (Element.nodup_overrides? hown) _

/-- **A chain of parents is followed by one parent of the last template.** By induction on the chain: the overrides of
    the parents that have been passed are in effect on the left, and are the first children of the parent on the
    right. -/
theorem ParentChain.follows (h : r.ParentChain es levels key) {scope : Scope} {before : List Element} {n m : Nat}
    (hscope : Carries scope before) (hbefore : ∀ o ∈ before, o.isBlock = true)
    (hdepth : (¬ ok .exhausted ∧ n ≤ m + levels.length) ∨ n = m + levels.length) :
    Follows ok (r.elements n es scope)
      (r.elements (m + 1) [.parentTag key (before ++ levels.flatten) none] ⟨scope.stack, [], 0⟩) := by
  have C := coupling_followsAt ok
  induction h generalizing scope before n with
  | @last key blocks indent hindent hblocks =>
      cases n with
      | zero => exact follows_of_not_ok (hdepth.resolve_right (by simp)).1 _
      | succ n =>
          obtain ⟨own, hown, hget⟩ := Element.overrides?_of_isBlock hblocks
          have hall : ∀ o ∈ before ++ blocks, o.isBlock = true := by
            intro o ho
            exact (List.mem_append.mp ho).elim (hbefore o) (hblocks o)
          obtain ⟨own', hown', hget'⟩ := Element.overrides?_of_isBlock hall
          rw [List.flatten_singleton]
          have hleft : r.elements (n + 1) [.parentTag key blocks indent] scope
              = r.parentTag (r.elements n) scope key blocks indent := forM_singleton _ _
          have hright : r.elements (m + 1) [.parentTag key (before ++ blocks) none] ⟨scope.stack, [], 0⟩
              = r.parentTag (r.elements m) ⟨scope.stack, [], 0⟩ key (before ++ blocks) none := forM_singleton _ _
          rw [hleft, hright]
          refine C.always_bind (C.always_template? key) fun found => ?_
          cases found with
          | none => exact follows_pure ()
          | some t =>
              dsimp only
              rw [hown, hown']
              dsimp only
              refine expand_followed hindent fun hbelow => ?_
              have hroom : ((⟨scope.stack, [], 0⟩ : Scope).depth : Int) < r.maxDepth := by
                dsimp only
                omega
              have hbare : (none : Option Text).getD [] = [] := rfl
              rw [expand_of_below hroom hbare]
              have hcarries := hscope.putAll hown hget
              refine elements_follow (p := []) (fun _ _ h => nomatch h) n m ?_ (.refl t.elements) ?_
              · exact hdepth.imp (And.imp_right Nat.le_of_succ_le_succ) fun heq => ⟨rfl, Nat.succ.inj heq⟩
              · refine ⟨rfl, Table.related_of_get? Element.InlinesIn.refl fun name => ?_, hcarries.nodup, ?_, ?_⟩
                · exact (hcarries.get? name).trans (hget' name).symm
                · exact Element.nodup_overrides? hown'
                · dsimp only
                  omega
  | @next name key blocks indent t levels hindent hblocks ht hrest ih =>
      rw [List.length_cons] at hdepth
      cases n with
      | zero => exact follows_of_not_ok (hdepth.resolve_right (by omega)).1 _
      | succ n =>
          obtain ⟨own, hown, hget⟩ := Element.overrides?_of_isBlock hblocks
          have hleft : r.elements (n + 1) [.parentTag name blocks indent] scope
              = r.expand (r.elements n) scope t indent (own.putAll scope.overrides) :=
            (forM_singleton _ _).trans (parentTag_of_get? ht hown indent)
          -- on the left the parent is passed, on the right its overrides move to those that are in effect
          rw [hleft, List.flatten_cons, ← List.append_assoc]
          refine expand_followed hindent fun _ => ?_
          refine ih (hscope.putAll hown hget) ?_ ?_
          · intro o ho
            exact (List.mem_append.mp ho).elim (hbefore o) (hblocks o)
          · exact hdepth.imp (And.imp_right (by omega)) (by omega)

theorem ParentChain.length_pos (h : r.ParentChain es levels key) : 0 < levels.length := by
  cases h <;> simp

end Renderer

/-- **Parents that pass on their overrides collapse.** Let some elements be one parent, its template one parent, and
    so on down to the parent of a last template, which can be any template, and let no parent be indented. If the
    render of the chain does not report that the cap is reached, then it does what the render of one parent of the last
    template does, with the overrides of all parents as its children, the outermost first: of overrides with the same
    name the outermost counts. This holds of the renders down to any depth, less one level for each parent that is left
    out; hence when the chain ends, then so does the one parent, in the same way, down to the same depth and every
    greater one. -/
theorem run_of_parentChain {r : Renderer} {es : List Element} {levels : List (List Element)} {key : Text}
    (h : r.ParentChain es levels key) (stack : Stack) (s : RenderState) :
    (∀ k, (r.run (k + levels.length) es stack s).2.host.capReports = s.host.capReports →
      r.run (k + 1) [.parentTag key levels.flatten none] stack s = r.run (k + levels.length) es stack s) ∧
    ∀ n m, n ≤ m → (r.run n es stack s).1 ≠ .error .exhausted →
      (r.run n es stack s).2.host.capReports = s.host.capReports →
      r.run m [.parentTag key levels.flatten none] stack s = r.run n es stack s := by
  have hcarries : Renderer.Carries ⟨stack, [], 0⟩ [] := ⟨fun _ => rfl, List.nodup_nil⟩
  have hnone : ∀ o ∈ ([] : List Element), o.isBlock = true := fun _ ho => nomatch ho
  refine ⟨fun k hquiet => ?_, fun n m hnm hends hquiet => ?_⟩
  · have hfollows : Follows (fun _ => True) (r.elements (k + levels.length) es ⟨stack, [], 0⟩) _ :=
      h.follows (m := k) hcarries hnone (.inr rfl)
    exact (hfollows s).run_eq hquiet fun _ _ => trivial
  · cases m with
    | zero =>
        obtain rfl : n = 0 := Nat.le_zero.mp hnm
        exact absurd rfl hends
    | succ m =>
        have hpos := h.length_pos
        have hfollows : Follows (· ≠ .exhausted) (r.elements n es ⟨stack, [], 0⟩) _ :=
          h.follows (m := m) hcarries hnone (.inl ⟨fun hne => hne rfl, by omega⟩)
        exact hfollows.run_eq_of_ends hends hquiet

/-! ### Three parents -/

/-- The parent `p` has the parent `q`, and the template of `q` is a parent of `r`, which has four blocks. -/
def chainPartials : Table Text Template :=
  [(['p'], ⟨[.parentTag ['q'] [.blockTag ['a'] [.text ['2']] none, .blockTag ['b'] [.text ['3']] none] none], none⟩),
    (['q'], ⟨[.parentTag ['r'] [.blockTag ['b'] [.text ['4']] none, .blockTag ['c'] [.text ['5']] none] none], none⟩),
    (['r'], ⟨[.blockTag ['a'] [] none, .blockTag ['b'] [] none, .blockTag ['c'] [] none,
      .blockTag ['d'] [.interpolation ['v'] true] none], none⟩)]

/-- The overrides of three parents, the outermost first. -/
def chainLevels : List (List Element) :=
  [[.blockTag ['a'] [.text ['1']] none], [.blockTag ['a'] [.text ['2']] none, .blockTag ['b'] [.text ['3']] none],
    [.blockTag ['b'] [.text ['4']] none, .blockTag ['c'] [.text ['5']] none]]

/-- Of the overrides of three parents that overlap the outermost count, under a cap that the third one stays just
    below. -/
theorem run_of_parentChain_overlapping :
    Renderer.ParentChain ⟨chainPartials, Escape.html, 3⟩ [.parentTag ['p'] [.blockTag ['a'] [.text ['1']] none] none]
      chainLevels ['r'] ∧
    Renderer.run ⟨chainPartials, Escape.html, 3⟩ 3 [.parentTag ['r'] chainLevels.flatten none]
        (.ofValues [.map .dict [(.text ['v'], .text ['&'])]]) ⟨.fresh, .bare .buffer⟩
      = Renderer.run ⟨chainPartials, Escape.html, 3⟩ 5 [.parentTag ['p'] [.blockTag ['a'] [.text ['1']] none] none]
        (.ofValues [.map .dict [(.text ['v'], .text ['&'])]]) ⟨.fresh, .bare .buffer⟩ ∧
    (Renderer.run ⟨chainPartials, Escape.html, 3⟩ 5 [.parentTag ['p'] [.blockTag ['a'] [.text ['1']] none] none]
      (.ofValues [.map .dict [(.text ['v'], .text ['&'])]]) ⟨.fresh, .bare .buffer⟩).2.sink.device.text
      = "135&amp;".toList := by
  have hchain : Renderer.ParentChain ⟨chainPartials, Escape.html, 3⟩
      [.parentTag ['p'] [.blockTag ['a'] [.text ['1']] none] none] chainLevels ['r'] := by
    refine .next rfl ?_ (t := ⟨_, none⟩) rfl (.next rfl ?_ (t := ⟨_, none⟩) rfl (.last rfl ?_)) <;> decide
  refine ⟨hchain, (run_of_parentChain hchain _ _).1 2 ?_, ?_⟩
  · with_unfolding_all rfl
  · with_unfolding_all rfl

end Mustache

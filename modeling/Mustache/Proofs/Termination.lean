import Mustache.Proofs.Heredity
import Mustache.Proofs.Watching

/-!
# `Mustache.Proofs.Termination` — rendering ends

A partial may bring in itself, a block the body of an override in another tree, and the overrides in effect grow as
partials nest. What decreases on every descent is a triple, compared from left to right: the levels that are left
below the cap, the blocks that are overridden, and the height of what is rendered. `Limits` bounds the last two, by
the names of all blocks and the height of the highest tree, and `Limits.cost` makes one number of the triple.

* `Renderer.Descends.cost_lt` — every descent costs less than where it starts;
* `Renderer.watched_agree` — a render under a watch for functions ends at every depth that its cost allows, with
  one and the same outcome, which is not exhaustion;
* `render_finishes` — hence so does every render that comes to no function; `Renderer.run_ne_exhausted` for the
  depth to which templates are rendered.
-/

namespace Mustache

open RenderM

/-! ## Trees -/

namespace Element

mutual

/-- The names of the blocks of a tree. -/
def blockNames : Element → List Text
  | .sectionTag _ _ children _ _ => blockNamesAll children
  | .parentTag _ children _ => blockNamesAll children
  | .blockTag key children _ => key :: blockNamesAll children
  | .text _ | .interpolation .. | .partialTag .. | .foreign _ => []

/-- The names of the blocks of a forest. -/
def blockNamesAll : List Element → List Text
  | [] => []
  | e :: es => e.blockNames ++ blockNamesAll es

end

mutual

theorem length_blockNames_le (e : Element) : e.blockNames.length ≤ e.size := by
  cases e with
  | sectionTag _ _ children _ _ | parentTag _ children _ =>
      have h := length_blockNamesAll_le children
      rw [blockNames, size]
      omega
  | blockTag _ children _ =>
      have h := length_blockNamesAll_le children
      rw [blockNames, size, List.length_cons]
      omega
  | _ => exact Nat.zero_le _

theorem length_blockNamesAll_le (es : List Element) : (blockNamesAll es).length ≤ sizeAll es := by
  cases es with
  | nil => exact Nat.le_refl _
  | cons e es =>
      have he := length_blockNames_le e
      have hes := length_blockNamesAll_le es
      rw [blockNamesAll, sizeAll, List.length_append]
      omega

end

variable {e : Element} {es : List Element} {n : Nat} {name : Text}

theorem mem_blockNamesAll_iff : name ∈ blockNamesAll es ↔ ∃ e ∈ es, name ∈ e.blockNames := by
  induction es with
  | nil => simp [blockNamesAll]
  | cons e es ih => simp [blockNamesAll, ih]

theorem blockNamesAll_children (e : Element) (h : name ∈ blockNamesAll e.children) : name ∈ e.blockNames := by
  cases e with
  | sectionTag | parentTag => exact h
  | blockTag => exact List.mem_cons_of_mem _ h
  | _ => cases h

theorem heightAll_le_iff : heightAll es ≤ n ↔ ∀ e ∈ es, e.height ≤ n := by
  induction es with
  | nil => simp [heightAll]
  | cons e es ih => rw [heightAll, Nat.max_le, ih, List.forall_mem_cons]

theorem height_eq (e : Element) : e.height = heightAll e.children + 1 := by
  cases e <;> rfl

end Element

/-! ## The cost of a render -/

/-- Bounds on all trees that a render can come to. -/
structure Limits where
  /-- The names of the blocks. -/
  names : List Text
  /-- The number of levels. -/
  levels : Nat

namespace Limits

/-- A forest within the limits. -/
def Fits (L : Limits) (es : List Element) : Prop :=
  ∀ e ∈ es, e.height ≤ L.levels ∧ ∀ name ∈ e.blockNames, name ∈ L.names

/-- All that can be rendered is within the limits. -/
structure Bounds (L : Limits) (r : Renderer) (es : List Element) (scope : Scope) : Prop where
  partials : ∀ p ∈ r.partials, L.Fits p.2.elements
  overrides : ∀ p ∈ scope.overrides, L.Fits p.2.children
  elements : L.Fits es

/-- How many names of blocks are overridden. -/
def overridden (L : Limits) (overrides : Table Text Element) : Nat :=
  L.names.countP fun name => (overrides.get? name).isSome

/-- An upper bound on the depth to which a render goes: of the levels below the cap each can be entered with every
    block overridden, and below each override is a whole tree. -/
def cost (L : Limits) (r : Renderer) (es : List Element) (scope : Scope) : Nat :=
  (r.maxDepth - scope.depth).toNat * ((L.names.length + 1) * (L.levels + 1))
    + L.overridden scope.overrides * (L.levels + 1) + Element.heightAll es + 1

variable {L : Limits} {e : Element} {es fs : List Element}

theorem Fits.heightAll_le (h : L.Fits es) : Element.heightAll es ≤ L.levels :=
  Element.heightAll_le_iff.mpr fun e he => (h e he).1

theorem Fits.children (h : L.Fits es) (he : e ∈ es) : L.Fits e.children := by
  obtain ⟨hheight, hnames⟩ := h e he
  rw [Element.height_eq] at hheight
  have hle := Element.heightAll_le_iff.mp (Nat.le_of_succ_le hheight)
  intro f hf
  refine ⟨hle f hf, fun name hname => hnames name ?_⟩
  exact e.blockNamesAll_children (Element.mem_blockNamesAll_iff.mpr ⟨f, hf, hname⟩)

theorem overridden_le (L : Limits) (overrides : Table Text Element) :
    L.overridden overrides ≤ L.names.length :=
  List.countP_le_length

/-- What a render costs at most. -/
theorem cost_le {r : Renderer} {scope : Scope} (h : L.Fits es) :
    L.cost r es scope
      ≤ ((r.maxDepth - scope.depth).toNat + 1) * (L.names.length + 1) * (L.levels + 1) := by
  have hheight := h.heightAll_le
  have hover := Nat.mul_le_mul_right (L.levels + 1) (L.overridden_le scope.overrides)
  unfold cost
  rw [Nat.mul_assoc, Nat.add_one_mul (r.maxDepth - scope.depth).toNat, Nat.add_one_mul L.names.length]
  omega

/-- One block less is overridden without its override. -/
theorem overridden_erase_lt {overrides : Table Text Element} {key : Text} {o : Element}
    (hkey : key ∈ L.names) (hget : overrides.get? key = some o) :
    L.overridden (overrides.erase key) < L.overridden overrides := by
  unfold overridden
  have hsub : ∀ name, ((overrides.erase key).get? name).isSome → (overrides.get? name).isSome := by
    intro name h
    cases hname : key == name with
    | true =>
        rw [eq_of_beq hname, Table.get?_erase_self] at h
        cases h
    | false => rwa [Table.get?_erase_of_ne _ hname] at h
  obtain ⟨before, after, hnames⟩ := List.append_of_mem hkey
  have hmono : ∀ names : List Text, names.countP (fun name => ((overrides.erase key).get? name).isSome)
      ≤ names.countP fun name => (overrides.get? name).isSome :=
    fun names => List.countP_mono_left fun name _ => hsub name
  have hbefore := hmono before
  have hafter := hmono after
  rw [hnames, List.countP_append, List.countP_append, List.countP_cons, List.countP_cons, hget,
    Table.get?_erase_self]
  simp only [Option.isSome_some, Option.isSome_none, if_true, Bool.false_eq_true, if_false]
  omega

end Limits

/-! ## Descents -/

namespace Renderer

variable {r : Renderer} {scope inside : Scope} {e : Element} {es es' : List Element} {L : Limits}

/-- A descent stays within the limits. -/
theorem Descends.bounds (h : r.Descends scope e es' inside) (hb : L.Bounds r es scope) (he : e ∈ es) :
    L.Bounds r es' inside := by
  have hinside := h.throughout ⟨hb.partials, hb.overrides, hb.elements⟩ he fun hfits hf => hfits.children hf
  exact ⟨hinside.partials, hinside.overrides, hinside.elements⟩

/-- **Every descent costs less.** -/
theorem Descends.cost_lt (h : r.Descends scope e es' inside) (hb : L.Bounds r es scope) (he : e ∈ es) :
    L.cost r es' inside < L.cost r es scope := by
  have hchildren : Element.heightAll e.children < Element.heightAll es := by
    have hle := Element.heightAll_le_iff.mp (Nat.le_refl _) e he
    rw [Element.height_eq] at hle
    exact hle
  have hlevels := (h.bounds hb he).elements.heightAll_le
  -- one level further down, there is room for all overrides and a whole tree
  have hexpand : ∀ overrides : Table Text Element, scope.depth < r.maxDepth →
      Element.heightAll es' ≤ L.levels →
      L.cost r es' { scope with overrides := overrides, depth := scope.depth + 1 } < L.cost r es scope := by
    intro overrides hdepth hes'
    have hlevel : (r.maxDepth - scope.depth).toNat = (r.maxDepth - (scope.depth + 1 : Nat)).toNat + 1 := by
      omega
    have hover := Nat.mul_le_mul_right (L.levels + 1) (L.overridden_le overrides)
    unfold Limits.cost
    rw [hlevel, Nat.succ_mul, Nat.succ_mul]
    dsimp only
    omega
  cases h with
  | absent | item | block => exact Nat.succ_lt_succ (Nat.add_lt_add_left hchildren _)
  | partialUse _ hdepth => exact hexpand _ hdepth hlevels
  | parent _ _ hdepth => exact hexpand _ hdepth hlevels
  | @override key _ _ _ o hget hbody =>
      have hkey : key ∈ L.names := (hb.elements _ he).2 key List.mem_cons_self
      -- the body can be as high as any tree, but one override less is in effect
      have hover := Nat.mul_le_mul_right (L.levels + 1) (Limits.overridden_erase_lt hkey hget)
      unfold Limits.cost
      dsimp only
      rw [Nat.succ_mul] at hover
      omega

/-! ## Renders without functions -/

/-- **Under a watch for functions a render ends at every depth that its cost allows**, with one and the same
    outcome. By induction on one of two depths, the cost decreasing with both. -/
theorem watched_agree {fault : Fault} (hfault : fault ≠ .exhausted) (n m : Nat) {around : List Element}
    (hb : L.Bounds r es scope) (hn : L.cost r es scope ≤ n) (hm : L.cost r es scope ≤ m) :
    Agree (· ≠ .exhausted) (r.watched .callable fault n around es scope)
      (r.watched .callable fault m around es scope) := by
  induction n generalizing m around es scope with
  | zero => exact absurd hn (Nat.not_succ_le_zero _)
  | succ n ih =>
      cases m with
      | zero => exact absurd hm (Nat.not_succ_le_zero _)
      | succ m =>
          refine (coupling_agreeAt fun _ h => h).always_forM fun e he s =>
            agreeAt_unlessFault hfault fun hcallable => ?_
          refine element_agree (fun _ h => h) r e (fun es' inside hd => ?_) fun hc => ?_
          · have hlt := hd.cost_lt hb he
            exact ih m (hd.bounds hb he) (by omega) (by omega)
          · exact absurd (hc.symm.trans hcallable) (by simp)

/-- A render that comes to no function ends at every depth that its cost allows. -/
theorem elements_finish {s : RenderState} (hb : L.Bounds r es scope)
    (h : ∀ n, r.Avoids .callable n es scope s) :
    ∃ outcome, outcome.1 ≠ .error .exhausted ∧
      ∀ n, L.cost r es scope ≤ n → (r.elements n es scope).run s = outcome := by
  have hfault : Fault.badType ≠ .exhausted := by simp
  refine ⟨(r.elements (L.cost r es scope) es scope).run s, fun hexhausted => ?_, fun n hn => ?_⟩
  -- the watch makes no difference, so what is true of the watched render is true of the render
  · rw [← h _ .badType] at hexhausted
    exact (watched_agree hfault _ _ hb (Nat.le_refl _) (Nat.le_refl _) s).2 _ hexhausted rfl
  · rw [← h _ .badType, ← h _ .badType]
    exact (watched_agree hfault _ _ hb hn (Nat.le_refl _) s).1

/-! ## The bound on the depth -/

/-- The elements and those of all partials. -/
def forests (r : Renderer) (es : List Element) : List (List Element) :=
  es :: r.partials.map fun p => p.2.elements

/-- The limits of a renderer. -/
def limits (r : Renderer) (es : List Element) : Limits where
  names := (r.forests es).flatMap Element.blockNamesAll
  levels := r.heightBound es

theorem length_names_le (r : Renderer) (es : List Element) :
    (r.limits es).names.length ≤ r.overrideBound es := by
  have hfold : ∀ (forests : List (List Element)) (n : Nat),
      n + (forests.flatMap Element.blockNamesAll).length
        ≤ (forests.map Element.sizeAll).foldl (· + ·) n := by
    intro forests
    induction forests with
    | nil => exact fun n => Nat.le_refl n
    | cons fs forests ih =>
        intro n
        have hfs := Element.length_blockNamesAll_le fs
        have hrest := ih (n + Element.sizeAll fs)
        rw [List.flatMap_cons, List.length_append, List.map_cons, List.foldl_cons]
        omega
  have h := hfold (r.forests es) 0
  rwa [Nat.zero_add] at h

theorem height_le_levels {fs : List Element} (h : fs ∈ r.forests es) :
    Element.heightAll fs ≤ (r.limits es).levels := by
  have hfold : ∀ (forests : List (List Element)) (n : Nat),
      n ≤ (forests.map Element.heightAll).foldl max n ∧
        (fs ∈ forests → Element.heightAll fs ≤ (forests.map Element.heightAll).foldl max n) := by
    intro forests
    induction forests with
    | nil => exact fun n => ⟨Nat.le_refl n, fun h => nomatch h⟩
    | cons gs forests ih =>
        intro n
        obtain ⟨hle, hmem⟩ := ih (max n (Element.heightAll gs))
        refine ⟨Nat.le_trans (Nat.le_max_left _ _) hle, fun h => ?_⟩
        rcases List.mem_cons.mp h with rfl | h
        · exact Nat.le_trans (Nat.le_max_right _ _) hle
        · exact hmem h
  exact (hfold (r.forests es) 0).2 h

theorem limits_fits {fs : List Element} (h : fs ∈ r.forests es) : (r.limits es).Fits fs := by
  intro e he
  refine ⟨Element.heightAll_le_iff.mp (height_le_levels h) e he, fun name hname => ?_⟩
  exact List.mem_flatMap.mpr ⟨fs, h, Element.mem_blockNamesAll_iff.mpr ⟨e, he, hname⟩⟩

/-- The limits of a renderer hold for the overrides in effect when these count as elements. -/
theorem limits_bounds (r : Renderer) (es : List Element) (scope : Scope) :
    (r.limits (es ++ scope.overrides.map Prod.snd)).Bounds r es scope where
  partials p hp := limits_fits (List.mem_cons_of_mem _ (List.mem_map.mpr ⟨p, hp, rfl⟩))
  overrides p hp :=
    Limits.Fits.children (limits_fits List.mem_cons_self)
      (List.mem_append_right es (List.mem_map.mpr ⟨p, hp, rfl⟩))
  elements e he := limits_fits List.mem_cons_self e (List.mem_append_left _ he)

/-- **The depth bound allows for the cost.** -/
theorem cost_le_depthBound (r : Renderer) (es : List Element) (stack : Stack)
    (overrides : Table Text Element) :
    (r.limits (es ++ overrides.map Prod.snd)).cost r es ⟨stack, overrides, 0⟩
      ≤ r.depthBound (es ++ overrides.map Prod.snd) := by
  have hfits := (r.limits_bounds es ⟨stack, overrides, 0⟩).elements
  generalize es ++ overrides.map Prod.snd = all at hfits ⊢
  have hcost : (r.limits all).cost r es ⟨stack, overrides, 0⟩ ≤ _ := Limits.cost_le hfits
  have hdepth : (r.maxDepth - (0 : Nat)).toNat = r.maxDepth.toNat := by simp
  have hnames := Nat.mul_le_mul_left (r.maxDepth.toNat + 1) (Nat.succ_le_succ (r.length_names_le all))
  have hbound := Nat.mul_le_mul_right (r.heightBound all + 1) hnames
  dsimp only at hcost
  rw [hdepth] at hcost
  exact Nat.le_succ_of_le (Nat.le_trans hcost hbound)

/-- A render of a template that comes to no function is never cut short. -/
theorem run_ne_exhausted {depth : Nat} {stack : Stack} {s : RenderState} (hdepth : r.depthBound es ≤ depth)
    (h : ∀ n, r.Avoids .callable n es ⟨stack, [], 0⟩ s) : (r.run depth es stack s).1 ≠ .error .exhausted := by
  obtain ⟨outcome, hne, hall⟩ := elements_finish (r.limits_bounds es ⟨stack, [], 0⟩) h
  have hcost := r.cost_le_depthBound es stack []
  rw [List.map_nil, List.append_nil] at hcost hall
  rw [run, hall depth (Nat.le_trans hcost hdepth)]
  exact hne

end Renderer

/-- **Rendering ends, whatever the partials do.** At no moment of any render are more partials and parents open
    inside one another than the cap allows. And a render that comes to no function has one outcome, which is not
    exhaustion: it is that of the render down to every depth from the bound on, which is computed of the cap, the
    trees of the template and the partials, and the overrides in effect at the beginning. -/
theorem render_finishes (r : Renderer) (es : List Element) (stack : Stack) (overrides : Table Text Element)
    (s : RenderState) :
    (∀ n, r.Avoids (.deeperThan r.maxDepth.toNat) n es ⟨stack, overrides, 0⟩ s) ∧
    ((∀ n, r.Avoids .callable n es ⟨stack, overrides, 0⟩ s) →
      ∃ outcome, outcome.1 ≠ .error .exhausted ∧
        ∀ n, r.depthBound (es ++ overrides.map Prod.snd) ≤ n →
          (r.elements n es ⟨stack, overrides, 0⟩).run s = outcome) := by
  refine ⟨fun n => r.avoids_deeperThan n es stack overrides s, fun h => ?_⟩
  obtain ⟨outcome, hne, hall⟩ := Renderer.elements_finish (r.limits_bounds es _) h
  have hcost := r.cost_le_depthBound es stack overrides
  exact ⟨outcome, hne, fun n hn => hall n (Nat.le_trans hcost hn)⟩

/-! ### A template that is its own parent -/

/-- A template that is its own parent and overrides its own block. -/
def selfParent : List Element :=
  [.interpolation ['x'] true, .blockTag ['b'] [] none,
    .parentTag ['p'] [.blockTag ['b'] [.interpolation ['x'] true] none] none]

/-- What is true of all that the template comes to: the stack stays the same, and the only body that overrides a
    block is the interpolation. -/
def InSelfParent (_around es : List Element) (scope : Scope) : Prop :=
  scope.stack = .ofValues [.map .dict [(.text ['x'], .text ['a'])]] ∧ (∀ e ∈ es, e ∈ selfParent) ∧
    ∀ p ∈ scope.overrides, p.2.children = [.interpolation ['x'] true]

theorem InSelfParent.not_callable {around es : List Element} {scope : Scope} {e : Element}
    (h : InSelfParent around es scope) (he : e ∈ es) (s : RenderState) : e.resolvesCallable scope s = false := by
  obtain ⟨stack, overrides, depth⟩ := scope
  obtain ⟨hstack, hes, -⟩ := h
  obtain rfl : stack = _ := hstack
  have he := hes e he
  simp only [selfParent, List.mem_cons, List.not_mem_nil, or_false] at he
  rcases he with rfl | rfl | rfl <;> rfl

theorem invariant_selfParent (escape : Escape) (maxDepth : Int) :
    Renderer.Invariant ⟨[(['p'], ⟨selfParent, none⟩)], escape, maxDepth⟩ InSelfParent where
  calls := by
    rintro around es e scope s h he hc
    rw [h.not_callable he] at hc
    cases hc
  descends := by
    rintro around es es' e scope inside ⟨hstack, hes, hoverrides⟩ he hd
    have he := hes e he
    simp only [selfParent, List.mem_cons, List.not_mem_nil, or_false] at he
    rcases he with rfl | rfl | rfl
    · cases hd
    · cases hd with
      | block => exact ⟨hstack, fun _ h => absurd h List.not_mem_nil, hoverrides⟩
      | override hget hbody =>
          have hchildren := Table.of_get? (P := fun o : Element => o.children = _) hget hoverrides
          rw [Element.eq_of_children? hbody] at hchildren
          refine ⟨hstack, fun e h => ?_, fun p hp => hoverrides p (List.mem_filter.mp hp).1⟩
          have h : e ∈ es' := h
          rw [hchildren] at h
          rw [List.mem_singleton.mp h]
          exact List.mem_cons_self
    · cases hd with
      | parent ht hown =>
          cases ht
          have hown := Element.forall_overrides? (P := fun o => o.children = [.interpolation ['x'] true]) hown
            (List.forall_mem_singleton.mpr rfl)
          exact ⟨hstack, fun _ h => h,
            Table.forall_putAll (P := fun o : Element => o.children = _) hown hoverrides⟩

/-- A template that is its own parent ends, with a text for its key and two levels. -/
theorem render_finishes_selfParent :
    (∀ n, Renderer.Avoids ⟨[(['p'], ⟨selfParent, none⟩)], id, 2⟩ .callable n selfParent
      ⟨.ofValues [.map .dict [(.text ['x'], .text ['a'])]], [], 0⟩ ⟨.fresh, .bare .buffer⟩) ∧
    ∃ outcome : Except Fault Unit × RenderState, outcome.1 = .ok () ∧
      outcome.2.sink.device.text = "aaaaa".toList ∧
      ∀ n, 200 ≤ n → (Renderer.elements ⟨[(['p'], ⟨selfParent, none⟩)], id, 2⟩ n selfParent
        ⟨.ofValues [.map .dict [(.text ['x'], .text ['a'])]], [], 0⟩).run ⟨.fresh, .bare .buffer⟩
        = outcome := by
  have hstart : InSelfParent [] selfParent ⟨.ofValues [.map .dict [(.text ['x'], .text ['a'])]], [], 0⟩ :=
    ⟨rfl, fun _ h => h, fun _ h => absurd h List.not_mem_nil⟩
  have havoids := fun n => (invariant_selfParent id 2).avoids (w := .callable)
    (fun _ _ _ _ s h he => h.not_callable he s) hstart n ⟨.fresh, .bare .buffer⟩
  have hbound : Renderer.depthBound ⟨[(['p'], ⟨selfParent, none⟩)], id, 2⟩ (selfParent ++ []) ≤ 200 := by
    decide +kernel
  obtain ⟨outcome, -, hall⟩ := (render_finishes _ _ _ _ _).2 havoids
  have hrun := hall 200 hbound
  refine ⟨havoids, outcome, ?_, ?_, fun n hn => hall n (Nat.le_trans hbound hn)⟩
  · rw [← hrun]
    with_unfolding_all rfl
  · rw [← hrun]
    with_unfolding_all rfl

end Mustache

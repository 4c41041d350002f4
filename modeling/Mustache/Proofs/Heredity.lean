import Mustache.Proofs.Coupling
import Mustache.Proofs.Skeleton

/-!
# `Mustache.Proofs.Heredity` — what is true of everything that a render comes to

A render comes to the elements of templates, of partials and of overrides, and to whatever is inside them. So if
something holds of all these forests at the beginning, and of the children of an element whenever it holds of the
siblings, then it holds of everything that the render descends to.

* `Table.of_get?`, `Table.forall_putAll` — what is true of all values of a table;
* `Element.Everywhere` — what is true of all elements of a forest, at any depth;
* `Renderer.Throughout`, `Renderer.Descends.throughout` — **what is true of all forests stays true in a descent**.
-/

namespace Mustache

/-! ## Tables -/

namespace Table

variable {κ α : Type} [BEq κ] {t u : Table κ α} {key : κ} {v : α} {P : α → Prop}

theorem of_get? (h : t.get? key = some v) (ht : ∀ p ∈ t, P p.2) : P v := by
  induction t with
  | nil => cases h
  | cons p t ih =>
      unfold get? at h
      split at h
      · cases h
        exact ht _ List.mem_cons_self
      · exact ih h fun q hq => ht q (List.mem_cons_of_mem p hq)

theorem forall_put (ht : ∀ p ∈ t, P p.2) (hv : P v) : ∀ p ∈ t.put key v, P p.2 := by
  induction t with
  | nil =>
      intro p hp
      rw [List.mem_singleton.mp hp]
      exact hv
  | cons q t ih =>
      unfold put
      split
      · exact List.forall_mem_cons.mpr ⟨hv, fun p hp => ht p (List.mem_cons_of_mem q hp)⟩
      · exact List.forall_mem_cons.mpr
          ⟨ht q List.mem_cons_self, ih fun p hp => ht p (List.mem_cons_of_mem q hp)⟩

theorem forall_putAll (ht : ∀ p ∈ t, P p.2) (hu : ∀ p ∈ u, P p.2) : ∀ p ∈ t.putAll u, P p.2 := by
  unfold putAll
  induction u generalizing t with
  | nil => exact ht
  | cons q u ih =>
      obtain ⟨hq, hu⟩ := List.forall_mem_cons.mp hu
      exact ih (forall_put ht hq) hu

end Table

/-! ## Trees -/

namespace Element

variable {e : Element} {es fs : List Element} {Q : Element → Prop}

/-- Something is true of all elements of a forest, at any depth. -/
def Everywhere (Q : Element → Prop) (es : List Element) : Prop := ∀ e, Within e es → Q e

theorem everywhere_nil : Everywhere Q [] := fun _ h => absurd h not_within_nil

theorem Everywhere.mono (h : Everywhere Q es) (hsub : ∀ e ∈ fs, e ∈ es) : Everywhere Q fs :=
  fun e he => h e (he.mono hsub)

theorem everywhere_append : Everywhere Q (es ++ fs) ↔ Everywhere Q es ∧ Everywhere Q fs := by
  unfold Everywhere
  simp only [within_append, or_imp, forall_and]

theorem everywhere_singleton : Everywhere Q [e] ↔ Q e ∧ Everywhere Q e.children := by
  unfold Everywhere
  simp only [within_singleton, or_imp, forall_and, forall_eq]

theorem everywhere_cons : Everywhere Q (e :: es) ↔ (Q e ∧ Everywhere Q e.children) ∧ Everywhere Q es := by
  rw [← everywhere_singleton]
  exact @everywhere_append [e] es Q

theorem Everywhere.root (h : Everywhere Q es) (he : e ∈ es) : Q e := h e (.root he)

theorem Everywhere.children (h : Everywhere Q es) (he : e ∈ es) : Everywhere Q e.children :=
  fun f hf => h f (.child he hf)

theorem eq_of_children? {body : List Element} (h : e.children? = some body) : e.children = body := by
  rw [children, h, Option.getD_some]

/-- The overrides of a parent are children of it. -/
theorem forall_overrides? {own : Table Text Element} {P : Element → Prop} (h : overrides? es = some own)
    (hes : ∀ e ∈ es, P e) : ∀ p ∈ own, P p.2 := by
  induction es generalizing own with
  | nil =>
      cases h
      exact fun _ hp => nomatch hp
  | cons e es ih =>
      obtain ⟨he, hes⟩ := List.forall_mem_cons.mp hes
      unfold overrides? at h
      split at h
      · rename_i key rest _ hrest
        cases h
        exact List.forall_mem_cons.mpr ⟨he, fun p hp => ih hrest hes p (List.mem_filter.mp hp).1⟩
      · cases h

end Element

/-! ## Descents -/

namespace Renderer

variable {r : Renderer} {scope inside : Scope} {e : Element} {es es' : List Element} {P : List Element → Prop}

/-- Something is true of some elements in a scope, of the bodies of all overrides and of all partials. -/
structure Throughout (P : List Element → Prop) (r : Renderer) (es : List Element) (scope : Scope) : Prop where
  partials : ∀ p ∈ r.partials, P p.2.elements
  overrides : ∀ p ∈ scope.overrides, P p.2.children
  elements : P es

/-- **What is true of all forests stays true in a descent**, if it is inherited by the children of elements. -/
theorem Descends.throughout (h : r.Descends scope e es' inside) (hb : Throughout P r es scope) (he : e ∈ es)
    (hchildren : ∀ {fs : List Element} {f : Element}, P fs → f ∈ fs → P f.children) :
    Throughout P r es' inside := by
  have hinner := hchildren hb.elements he
  cases h with
  | absent => exact ⟨hb.partials, hb.overrides, hinner⟩
  | item v => exact ⟨hb.partials, hb.overrides, hinner⟩
  | partialUse ht =>
      exact ⟨hb.partials, hb.overrides, Table.of_get? (P := fun t : Template => P t.elements) ht hb.partials⟩
  | parent ht hown =>
      -- the parent's own overrides are among its children
      have hown := Element.forall_overrides? hown fun f hf => hchildren hinner hf
      exact ⟨hb.partials, Table.forall_putAll (P := fun o : Element => P o.children) hown hb.overrides,
        Table.of_get? (P := fun t : Template => P t.elements) ht hb.partials⟩
  | block => exact ⟨hb.partials, hb.overrides, hinner⟩
  | override hget hbody =>
      refine ⟨hb.partials, fun p hp => hb.overrides p (List.mem_filter.mp hp).1, ?_⟩
      rw [← Element.eq_of_children? hbody]
      exact Table.of_get? (P := fun o : Element => P o.children) hget hb.overrides

end Renderer

end Mustache

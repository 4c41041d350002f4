import Mustache.Template

/-!
# `Mustache.Proofs.Walking` — a walk visits everything once, in the order of the source

A walk is a loop over a stack, and what it visits is given by a recursion: each element in turn, followed by all that is
inside it. The invariant is that the elements which wait, read from the top of the stack down, are the roots of a forest
of which the recursion lists exactly what has not been visited yet.

What the recursion lists is known by addresses. It lists every address of the forest once, an address before those
inside it, and everything inside a sibling before the next sibling.

* `Walk.remaining_of_next?` — **a step of the loop visits what the recursion lists first**, and leaves the rest;
* `Walk.Visits` — the visits of some steps, with `Walk.Visits.remaining_eq` and `Walk.exists_visits` for any number;
* `Walk.toList_eq_remaining` — **the whole walk is the recursion**;
* `Address.Precedes` — the order of the source, and `Element.pairwise_addressedFrom`: the recursion keeps to it;
* `walk_preorder` — **the walk through a template**, all of this together.
-/

namespace Mustache

/-! ## The recursion -/

namespace Element

/-- The elements of a forest: each in turn, followed by those inside it. -/
def preorder : List Element → List Element
  | [] => []
  | e :: es => e :: (preorder e.children ++ preorder es)
termination_by es => sizeAll es
decreasing_by
  · exact sizeAll_children_lt e es
  · exact sizeAll_lt_cons e es

theorem preorder_append (es fs : List Element) : preorder (es ++ fs) = preorder es ++ preorder fs := by
  induction es with
  | nil => simp [preorder]
  | cons e es ih => simp [preorder, ih]

end Element

/-! ## The loop -/

namespace Walk

variable {w w' : Walk} {e : Element} {es fs : List Element}

/-- What the recursion lists of the elements that wait. -/
def remaining (w : Walk) : List Element := Element.preorder w.pending.toList.reverse

theorem remaining_start (es : List Element) : (start es).remaining = Element.preorder es := by
  simp [remaining, start]

theorem remaining_of_empty (h : w.pending = #[]) : w.remaining = [] := by
  simp [remaining, h, Element.preorder]

/-- **A step visits what the recursion lists first.** -/
theorem remaining_of_next? (h : w.next? = some (e, w')) : w.remaining = e :: w'.remaining := by
  obtain ⟨rest, hpending, hpending'⟩ := next?_eq_some_iff.mp h
  have hbefore : w.pending.toList.reverse = e :: rest.toList.reverse := by simp [hpending]
  have hafter : w'.pending.toList.reverse = e.children ++ rest.toList.reverse := by simp [hpending']
  rw [remaining, remaining, hbefore, hafter, Element.preorder, Element.preorder_append]

/-- After visits to some elements, one by one, a walk has become another. -/
inductive Visits : Walk → List Element → Walk → Prop where
  | none {w : Walk} : Visits w [] w
  | next {w w' last : Walk} {e : Element} {es : List Element} (hnext : w.next? = some (e, w'))
      (hrest : Visits w' es last) : Visits w (e :: es) last

/-- What has been visited is what the recursion lists before the rest. -/
theorem Visits.remaining_eq (h : w.Visits es w') : w.remaining = es ++ w'.remaining := by
  induction h with
  | none => rfl
  | next hnext _ ih => rw [remaining_of_next? hnext, ih, List.cons_append]

/-- A walk comes to everything that the recursion lists. -/
theorem exists_visits (h : w.remaining = es ++ fs) : ∃ w', w.Visits es w' ∧ w'.remaining = fs := by
  induction es generalizing w with
  | nil => exact ⟨w, .none, h⟩
  | cons e es ih =>
      cases hnext : w.next? with
      | none =>
          rw [remaining_of_empty (next?_eq_none_iff.mp hnext)] at h
          cases h
      | some step =>
          obtain ⟨f, w₁⟩ := step
          rw [remaining_of_next? hnext] at h
          obtain ⟨rfl, hrest⟩ := List.cons.inj h
          obtain ⟨w', hvisits, hremaining⟩ := ih hrest
          exact ⟨w', .next hnext hvisits, hremaining⟩

/-- **The loop ends.** After the visits of the whole walk nothing waits. -/
theorem visits_toList (w : Walk) : ∃ done, w.Visits w.toList done ∧ done.pending = #[] := by
  fun_induction toList w with
  | case1 w hnext => exact ⟨w, .none, next?_eq_none_iff.mp hnext⟩
  | case2 w e w' hnext _ ih =>
      obtain ⟨done, hvisits, hdone⟩ := ih
      exact ⟨done, .next hnext hvisits, hdone⟩

/-- **The whole walk is the recursion.** -/
theorem toList_eq_remaining (w : Walk) : w.toList = w.remaining := by
  obtain ⟨done, hvisits, hdone⟩ := w.visits_toList
  rw [hvisits.remaining_eq, remaining_of_empty hdone, List.append_nil]

end Walk

/-! ## Addresses -/

/-- Where an element is in a forest: the number of siblings before the root that it is inside, and so on inwards, down to
    the number of siblings before itself. -/
abbrev Address := List Nat

namespace Address

variable {p q : Address}

/-- The order of addresses in the source. -/
inductive Precedes : Address → Address → Prop where
  /-- An address comes before those inside it. -/
  | outside (p : Address) (i : Nat) (q : Address) : Precedes p (p ++ i :: q)
  /-- A sibling, and all that is inside it, comes before a later sibling and all that is inside that. -/
  | sibling (p : Address) {i j : Nat} (hlt : i < j) (q r : Address) : Precedes (p ++ i :: q) (p ++ j :: r)

theorem Precedes.cons (h : Precedes p q) (i : Nat) : Precedes (i :: p) (i :: q) := by
  cases h with
  | outside p j q => exact .outside (i :: p) j q
  | sibling p hlt q r => exact .sibling (i :: p) hlt q r

theorem Precedes.ne (h : Precedes p q) : p ≠ q := by
  intro heq
  cases h with
  | outside p i q => simp at heq
  | sibling p hlt q r =>
      simp at heq
      omega

end Address

namespace Element

variable {f : Element} {es : List Element} {n : Nat} {p : Address}

/-- The element at an address. -/
def at? : List Element → Address → Option Element
  | _, [] => none
  | es, [i] => es[i]?
  | es, i :: j :: p => es[i]?.bind fun e => at? e.children (j :: p)

/-- The elements of a forest with their addresses, in the order of the recursion. The siblings are counted from `n`. -/
def addressedFrom (n : Nat) : List Element → List (Address × Element)
  | [] => []
  | e :: es => ([n], e) :: ((addressedFrom 0 e.children).map (Prod.map (n :: ·) id) ++ addressedFrom (n + 1) es)
termination_by es => sizeAll es
decreasing_by
  · exact sizeAll_children_lt e es
  · exact sizeAll_lt_cons e es

theorem map_snd_addressedFrom (n : Nat) (es : List Element) : (addressedFrom n es).map Prod.snd = preorder es := by
  fun_induction addressedFrom n es with
  | case1 n => simp [preorder]
  | case2 n e es hchildren hsiblings => simp [preorder, ← hchildren, ← hsiblings]

theorem at?_nil (p : Address) : at? [] p = none := by
  match p with
  | [] => rfl
  | [i] => rfl
  | i :: j :: p => rfl

theorem at?_cons_succ (e : Element) (es : List Element) (i : Nat) (p : Address) :
    at? (e :: es) ((i + 1) :: p) = at? es (i :: p) := by
  cases p <;> rfl

/-- **An element is listed with an address if it is there**, and only then. -/
theorem mem_addressedFrom :
    (p, f) ∈ addressedFrom n es ↔ ∃ i q, p = (n + i) :: q ∧ at? es (i :: q) = some f := by
  fun_induction addressedFrom n es generalizing p f with
  | case1 n => simp [at?_nil]
  | case2 n e es hchildren hsiblings =>
      have hnext (i : Nat) : n + 1 + i = n + (i + 1) := by omega
      rw [List.mem_cons, List.mem_append, List.mem_map]
      constructor
      · rintro (heq | ⟨⟨q, f⟩, hmem, heq⟩ | hmem)
        · cases heq
          exact ⟨0, [], rfl, rfl⟩
        · cases heq
          obtain ⟨i, r, rfl, hat⟩ := hchildren.mp hmem
          exact ⟨0, (0 + i) :: r, rfl, by rwa [Nat.zero_add]⟩
        · obtain ⟨i, q, rfl, hat⟩ := hsiblings.mp hmem
          exact ⟨i + 1, q, by rw [hnext], by rwa [at?_cons_succ]⟩
      · rintro ⟨i, q, rfl, hat⟩
        cases i with
        | zero =>
            cases q with
            | nil =>
                cases hat
                exact .inl rfl
            | cons j q => exact .inr (.inl ⟨(j :: q, f), hchildren.mpr ⟨j, q, by rw [Nat.zero_add], hat⟩, rfl⟩)
        | succ i =>
            rw [at?_cons_succ] at hat
            exact .inr (.inr (hsiblings.mpr ⟨i, q, by rw [hnext], hat⟩))

theorem exists_of_mem_addresses (h : p ∈ (addressedFrom n es).map Prod.fst) : ∃ i q, p = (n + i) :: q := by
  obtain ⟨⟨p, f⟩, hmem, rfl⟩ := List.mem_map.mp h
  obtain ⟨i, q, hp, -⟩ := mem_addressedFrom.mp hmem
  exact ⟨i, q, hp⟩

/-- **The addresses are listed in the order of the source.** -/
theorem pairwise_addressedFrom (n : Nat) (es : List Element) :
    ((addressedFrom n es).map Prod.fst).Pairwise Address.Precedes := by
  fun_induction addressedFrom n es with
  | case1 n => exact .nil
  | case2 n e es hchildren hsiblings =>
      have hinside : ((addressedFrom 0 e.children).map (Prod.map (n :: ·) id)).map Prod.fst
          = ((addressedFrom 0 e.children).map Prod.fst).map (n :: ·) := by simp
      have hlater : ∀ p, ∀ q ∈ (addressedFrom (n + 1) es).map Prod.fst, Address.Precedes (n :: p) q := by
        intro p q hq
        obtain ⟨i, q, rfl⟩ := exists_of_mem_addresses hq
        exact .sibling [] (by omega) p q
      rw [List.map_cons, List.map_append, hinside, List.pairwise_cons, List.pairwise_append, List.pairwise_map]
      refine ⟨?_, hchildren.imp fun h => h.cons n, hsiblings, ?_⟩
      · intro p hp
        rcases List.mem_append.mp hp with hp | hp
        · obtain ⟨q, hq, rfl⟩ := List.mem_map.mp hp
          obtain ⟨i, q, rfl⟩ := exists_of_mem_addresses hq
          exact .outside [n] (0 + i) q
        · exact hlater [] p hp
      · intro p hp q hq
        obtain ⟨p, -, rfl⟩ := List.mem_map.mp hp
        exact hlater p q hq

end Element

/-! ## Templates -/

/-- **A walk is the pre-order traversal.** Whatever the tree, after any number of visits the elements that wait are the
    roots, from the top of the stack down, of what the recursion lists from there on; the loop ends with nothing
    waiting; and the walk that it has made is what the recursion lists. Every element is visited at each of its
    addresses, at each of them once, before what is inside it, and with all that is inside it before later siblings. -/
theorem walk_preorder (t : Template) :
    (∀ n, ∃ w, (Walk.start t.elements).Visits (t.walk.take n) w ∧ w.remaining = t.walk.drop n) ∧
    (∃ done, (Walk.start t.elements).Visits t.walk done ∧ done.pending = #[]) ∧
    t.walk = Element.preorder t.elements ∧
    ∃ addressed : List (Address × Element), t.walk = addressed.map Prod.snd ∧
      (∀ p e, (p, e) ∈ addressed ↔ Element.at? t.elements p = some e) ∧
      (addressed.map Prod.fst).Nodup ∧ (addressed.map Prod.fst).Pairwise Address.Precedes := by
  have hremaining : (Walk.start t.elements).remaining = t.walk := (Walk.toList_eq_remaining _).symm
  have hwalk : t.walk = Element.preorder t.elements := hremaining.symm.trans (Walk.remaining_start _)
  have hordered := Element.pairwise_addressedFrom 0 t.elements
  refine ⟨fun n => ?_, Walk.visits_toList _, hwalk, Element.addressedFrom 0 t.elements, ?_, fun p e => ?_, ?_, hordered⟩
  · exact Walk.exists_visits (hremaining.trans (List.take_append_drop n _).symm)
  · rw [Element.map_snd_addressedFrom, hwalk]
  · rw [Element.mem_addressedFrom]
    constructor
    · rintro ⟨i, q, rfl, hat⟩
      rwa [Nat.zero_add]
    · intro hat
      cases p with
      | nil => cases hat
      | cons i q => exact ⟨i, q, by rw [Nat.zero_add], hat⟩
  · exact hordered.imp Address.Precedes.ne

/-- Two siblings, of which the first holds a block with a value in it. -/
example :
    let value := Element.interpolation ['x'] true
    let block := Element.blockTag ['b'] [value, .text ['!']] none
    let parent := Element.parentTag ['p'] [block] none
    (Template.mk [parent, .text ['c']] none).walk = [parent, block, value, .text ['!'], .text ['c']] := by
  cbv

end Mustache

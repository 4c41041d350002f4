import Mustache.Element

/-!
# `Mustache.Element.Walk` — walking through a forest

A walk visits the elements of a forest one by one. Those that it has come across and not yet visited
wait on a stack. The children of an element go on the stack when it is visited, and so are visited
before everything that waits already.

## Contents
- **Steps.** `Walk.start` and `Walk.next?`. A step leaves one element less, by `Walk.left_of_next?`.
- **Whole walks.** `Walk.toList`.
-/

namespace Mustache

/-- A walk that is under way. -/
structure Walk where
  /-- The elements that wait, the next one last. -/
  pending : Array Element

namespace Walk

/-! ## Steps -/

/-- A walk that begins. -/
def start (es : List Element) : Walk := ⟨es.reverse.toArray⟩

/-- The next element, and the walk after it. The children of the element wait in its place, the last
    one below the others. -/
def next? (w : Walk) : Option (Element × Walk) :=
  w.pending.back?.map fun e => (e, ⟨w.pending.pop ++ e.children.reverse⟩)

theorem next?_eq_none_iff {w : Walk} : w.next? = none ↔ w.pending = #[] := by
  simp [next?, Array.back?_eq_none_iff]

theorem next?_eq_some_iff {w w' : Walk} {e : Element} :
    w.next? = some (e, w') ↔
      ∃ rest : Array Element, w.pending = rest.push e ∧ w'.pending = rest ++ e.children.reverse := by
  cases w' with
  | mk pending' =>
      simp only [next?, Option.map_eq_some_iff, Array.back?_eq_some_iff, Prod.mk.injEq, Walk.mk.injEq]
      constructor
      · rintro ⟨e, ⟨rest, hpending⟩, rfl, rfl⟩
        exact ⟨rest, hpending, by rw [hpending, Array.pop_push]⟩
      · rintro ⟨rest, hpending, rfl⟩
        exact ⟨e, ⟨rest, hpending⟩, rfl, by rw [hpending, Array.pop_push]⟩

/-- The number of elements that are still to be visited, at any depth. -/
def left (w : Walk) : Nat := Element.sizeAll w.pending.toList

/-- A step visits one element, and what is inside it remains to be visited. -/
theorem left_of_next? {w w' : Walk} {e : Element} (h : w.next? = some (e, w')) : w.left = w'.left + 1 := by
  obtain ⟨rest, hpending, hpending'⟩ := next?_eq_some_iff.mp h
  have hleft : w.left = Element.sizeAll rest.toList + (1 + Element.sizeAll e.children) := by
    simp [left, hpending, Element.sizeAll_append, Element.sizeAll, Element.size_eq e]
  have hleft' : w'.left = Element.sizeAll rest.toList + Element.sizeAll e.children := by
    simp [left, hpending', Element.sizeAll_append, Element.sizeAll_reverse]
  omega

/-! ## Whole walks -/

/-- The elements that are still to be visited, in the order of their visits. -/
def toList (w : Walk) : List Element :=
  match hnext : w.next? with
  | none => []
  | some (e, w') =>
      have _fewer := left_of_next? hnext
      e :: w'.toList
termination_by w.left

end Walk

end Mustache

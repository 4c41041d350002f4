import Mustache.Delimiters
import Mustache.Table

/-!
# `Mustache.Element` — the element tree

A parsed template is a list of elements. Sections, parents and blocks hold further elements, so a
template is a forest; a tree built by hand may also hold an element of a type that rendering does
not know.

## Contents
- **Elements.** `Element`, with the key, the children and the indentation of those that have them.
- **Siblings.** `Element.push` adds an element to its siblings and joins neighbouring static text.
- **Overrides.** What the children of a parent put in place of the blocks of its template.
- **Sizes.** `Element.size`, the number of elements of a tree.
-/

namespace Mustache

/-! ## Elements -/

/-- An element of a template. -/
inductive Element where
  /-- Static text. -/
  | text (chars : Text)
  /-- The value of a key, escaped or raw. -/
  | interpolation (key : Text) (escaped : Bool)
  /-- Children that are rendered for each item of a value, or, inverted, when there is none. The raw
      body is the source between the tags, written with the delimiters. -/
  | sectionTag (key : Text) (inverted : Bool) (children : List Element) (rawBody : Text)
      (delimiters : Delimiters)
  /-- A partial, put in place of the tag; the indentation is that of a tag alone on its line. -/
  | partialTag (key : Text) (indent : Option Text)
  /-- A partial whose blocks are overridden by the children. -/
  | parentTag (key : Text) (children : List Element) (indent : Option Text)
  /-- A named region that a parent tag can override. -/
  | blockTag (key : Text) (children : List Element) (indent : Option Text)
  /-- An element of an unknown type. -/
  | foreign (typeName : Text)
  deriving Repr, Inhabited

namespace Element

/-- The key of an element that has one. -/
def key? : Element → Option Text
  | .interpolation key _ => some key
  | .sectionTag key .. => some key
  | .partialTag key _ => some key
  | .parentTag key .. => some key
  | .blockTag key .. => some key
  | .text _ | .foreign _ => none

/-- The children of an element that can have some. -/
def children? : Element → Option (List Element)
  | .sectionTag _ _ children _ _ => some children
  | .parentTag _ children _ => some children
  | .blockTag _ children _ => some children
  | .text _ | .interpolation .. | .partialTag .. | .foreign _ => none

/-- The indentation of an element that can have one. -/
def indent? : Element → Option (Option Text)
  | .partialTag _ indent => some indent
  | .parentTag _ _ indent => some indent
  | .blockTag _ _ indent => some indent
  | .text _ | .interpolation .. | .sectionTag .. | .foreign _ => none

/-- The children of an element. -/
def children (e : Element) : List Element := e.children?.getD []

/-- Whether an element is a block. -/
def isBlock : Element → Bool
  | .blockTag .. => true
  | _ => false

/-! ## Siblings -/

/-- An element after its siblings, of which the last comes first. Static text is joined to static
    text. -/
def push (e : Element) (siblings : List Element) : List Element :=
  match e, siblings with
  | .text t, .text s :: rest => .text (s ++ t) :: rest
  | e, siblings => e :: siblings

/-! ## Overrides -/

/-- Elements by their keys; of two with one key the first counts. There is no such table when an
    element has no key. -/
def overrides? : List Element → Option (Table Text Element)
  | [] => some []
  | e :: es =>
      match e.key?, overrides? es with
      | some key, some rest => some ((key, e) :: Table.erase rest key)
      | _, _ => none

/-! ## Sizes -/

mutual

/-- The number of elements of a tree. -/
def size : Element → Nat
  | .sectionTag _ _ children _ _ => 1 + sizeAll children
  | .parentTag _ children _ => 1 + sizeAll children
  | .blockTag _ children _ => 1 + sizeAll children
  | .text _ | .interpolation .. | .partialTag .. | .foreign _ => 1

/-- The number of elements of a forest. -/
def sizeAll : List Element → Nat
  | [] => 0
  | e :: es => e.size + sizeAll es

end

theorem sizeAll_append (es fs : List Element) : sizeAll (es ++ fs) = sizeAll es + sizeAll fs := by
  induction es with
  | nil => simp [sizeAll]
  | cons e es ih => simp [sizeAll, ih, Nat.add_assoc]

theorem sizeAll_reverse (es : List Element) : sizeAll es.reverse = sizeAll es := by
  induction es with
  | nil => rfl
  | cons e es ih => simp [sizeAll_append, sizeAll, ih, Nat.add_comm]

theorem size_eq (e : Element) : e.size = 1 + sizeAll e.children := by
  cases e <;> simp [size, children, children?, sizeAll]

theorem sizeAll_children_lt (e : Element) (es : List Element) : sizeAll e.children < sizeAll (e :: es) := by
  rw [sizeAll, size_eq]
  omega

theorem sizeAll_lt_cons (e : Element) (es : List Element) : sizeAll es < sizeAll (e :: es) := by
  rw [sizeAll, size_eq]
  omega

end Element

end Mustache

import Mustache.Proofs.Markup

/-!
# `Mustache.Proofs.Entities` — reading escaped text back

An entity begins with `&`, and each `&` of a text is escaped too. So whatever looks like an entity in a text is no
entity in the escaped text, and an entity there never reaches into what is written for the next character.

* `Escape.unescape` — a text with its entities replaced by the characters that they stand for;
* `Escape.unescape_entity_append` — the entity of a character is read as the character, whatever follows it;
* `html_lossless` — **escaped text is free of markup and tells which text it was**.
-/

namespace Mustache

namespace Escape

/-- The text with each entity replaced by its character. It is read once, from the left; what an entity gives is not
    read again. -/
def unescape : Text → Text
  | '&' :: 'a' :: 'm' :: 'p' :: ';' :: s => '&' :: unescape s
  | '&' :: 'l' :: 't' :: ';' :: s => '<' :: unescape s
  | '&' :: 'g' :: 't' :: ';' :: s => '>' :: unescape s
  | '&' :: 'q' :: 'u' :: 'o' :: 't' :: ';' :: s => '"' :: unescape s
  | c :: s => c :: unescape s
  | [] => []

@[simp]
theorem html_nil : html [] = [] := rfl

@[simp]
theorem html_cons (c : Char) (s : Text) : html (c :: s) = entity c ++ html s := List.flatMap_cons

theorem html_append (s t : Text) : html (s ++ t) = html s ++ html t := List.flatMap_append

/-- No entity begins with another character than `&`. -/
theorem unescape_cons {c : Char} (h : c ≠ '&') (s : Text) : unescape (c :: s) = c :: unescape s := by
  rw [unescape]
  all_goals
    rintro t rfl
    exact absurd rfl h

/-- **The entity of a character is read as the character**, whatever follows it. -/
theorem unescape_entity_append (c : Char) (s : Text) : unescape (entity c ++ s) = c :: unescape s := by
  unfold entity
  split
  case h_5 hamp _ _ _ => exact unescape_cons hamp s
  all_goals rfl

theorem unescape_html (s : Text) : unescape (html s) = s := by
  induction s with
  | nil => rfl
  | cons c s ih => rw [html_cons, unescape_entity_append, ih]

theorem html_injective : Function.Injective html := Function.LeftInverse.injective unescape_html

end Escape

open Escape (html unescape)

/-- **Escaping is lossless and safe.** For all texts: the escaped text holds no `<`, no `>` and no double quote, each
    `&` in it begins an entity, and with its entities replaced by their characters it is the text again. So no other
    text is escaped to the same; and two texts one after the other are escaped one by one. -/
theorem html_lossless (s t : Text) :
    (∀ c ∈ ['<', '>', '"'], c ∉ html s) ∧
    (∀ before after, html s = before ++ '&' :: after →
      ∃ name ∈ ["amp;".toList, "lt;".toList, "gt;".toList, "quot;".toList], name <+: after) ∧
    unescape (html s) = s ∧
    (html s = html t ↔ s = t) ∧
    html (s ++ t) = html s ++ html t := by
  refine ⟨?_, ?_, Escape.unescape_html s, Escape.html_injective.eq_iff, Escape.html_append s t⟩
  · intro c hc
    obtain ⟨hmarkup, hne⟩ := Escape.mem_markup hc
    exact Escape.not_mem_of_guarded hne (Escape.guarded_html hmarkup s)
  · intro before after heq
    exact (Escape.guarded_html (c := '&') (by decide) s before after heq).2

/-- What looks like an entity is escaped, and read back as it was. -/
example : html "&lt;&amp".toList = "&amp;lt;&amp;amp".toList ∧
    unescape "&amp;lt;&amp;amp".toList = "&lt;&amp".toList := by decide

end Mustache

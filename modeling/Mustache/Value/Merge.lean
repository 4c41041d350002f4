import Mustache.Value.Pairs

/-!
# `Mustache.Value.Merge` — one mapping over another

Mappings are merged entry by entry, at every depth, and give dictionaries; anything else in the
upper mapping takes the place of what the lower one has.

## Contents
- **Merging.** `Value.mergedOver` for any values, `mergeEntries` for the entries of mappings.
- **Layers.** `Value.merge` for values that need not be mappings.
-/

namespace Mustache

mutual

/-- A value put over another. -/
def Value.mergedOver (base : Value) : Value → Value
  | .map kind upper =>
      match base with
      | .map _ lower => .map .dict (mergeEntries lower upper)
      | _ => .map kind upper
  | v => v

/-- Entries put over other entries. -/
def mergeEntries (lower : Entries) : List (Key × Value) → Entries
  | [] => lower
  | (key, v) :: rest =>
      let merged :=
        match lower.get? key with
        | some below => Value.mergedOver below v
        | none => v
      mergeEntries (lower.put key merged) rest

end

namespace Value

/-- The entries of the upper layer. Whatever counts as false is an empty layer. -/
def layerEntries (v : Value) : Except Fault Entries :=
  match v with
  | .map _ es => .ok es
  | .closedMap => .error .badType
  | v => if v.truthy then .error .missingAttribute else .ok []

/-- The second layer over the first, which may be given as pairs. -/
def merge (base layer : Value) : HostM Entries := do
  let lower ← base.toEntries
  match layer.layerEntries with
  | .ok upper => return mergeEntries lower upper
  | .error fault => throw fault

end Value

end Mustache

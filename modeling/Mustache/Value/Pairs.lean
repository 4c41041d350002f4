import Mustache.Host

/-!
# `Mustache.Value.Pairs` — mappings from pairs

Whoever asks for a mapping may be given pairs instead: anything that can be gone through and whose
parts are of two parts each. The first is the key, which must be a value that stays as it is.

## Contents
- **Keys.** `Value.key?`.
- **Parts.** `Value.readParts`.
- **Entries.** `Value.toEntries`.
-/

namespace Mustache

/-! ## Keys -/

mutual

/-- The key that a value is, if its content cannot change. -/
def Value.key? : Value → Option Key
  | .null => some .null
  | .bool b => some (.bool b)
  | .int n => some (.int n)
  | .float x => some (.float x)
  | .text s => some (.text s)
  | .bytes mutable bs => if mutable then none else some (.bytes bs)
  | .moment m => some (.moment m)
  | .seq .tuple vs => (Value.keys? vs).map .tuple
  | .seq .list _ | .seq .deque _ | .seq .userList _ => none
  | .map .. | .closedMap | .view .keys _ => none
  | v => some (.object v.repr)

/-- The keys that values are, if all are some. -/
def Value.keys? : List Value → Option (List Key)
  | [] => some []
  | v :: vs =>
      match v.key?, Value.keys? vs with
      | some k, some ks => some (k :: ks)
      | _, _ => none

end

namespace Value

/-! ## Parts -/

/-- The parts of a value: characters, bytes, keys or items. -/
def parts? : Value → Option (List Value)
  | .text s => some (s.map fun c => .text [c])
  | .bytes _ bs => some (bs.map fun b => .int b.toNat)
  | .map _ es => some (es.map fun e => e.1.toValue)
  | v => v.items?

/-- Goes through the parts of a value that has some. -/
def readParts (v : Value) : HostM (List Value) :=
  match v with
  | .stream .. => v.readItems
  | v =>
      match v.parts? with
      | some vs => return vs
      | none => throw .badType

/-! ## Entries -/

/-- The entry that a pair is. -/
def toEntry (v : Value) : HostM (Key × Value) := do
  match ← v.readParts with
  | [k, w] =>
      match k.key? with
      | some k => return (k, w)
      | none => throw .badType
  | _ => throw .badValue

/-- The entries of a mapping or of the pairs in its place. Of two pairs with one key the later gives
    the value. -/
def toEntries (v : Value) : HostM Entries :=
  match v with
  | .map _ es => return es
  | v => do return Table.ofList (← (← v.readParts).mapM toEntry)

end Value

end Mustache

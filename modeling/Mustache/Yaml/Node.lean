import Mustache.Value.Pairs
import Mustache.Yaml.Token

/-!
# `Mustache.Yaml.Node` — what a document means

A document is a tree of scalars, sequences and mappings. A mapping may merge others into itself:
what stands under its merge key, a mapping or a sequence of mappings, gives entries that come before
its own. Of two entries with one key the later gives the value, so a mapping's own entries win, and
of a sequence the earlier mapping wins.

A tree may mean nothing, for several reasons at once. The reason that is reported is the one with
the fewest collections around it, and of several such the first.

## Contents
- **Nodes.** `Node`.
- **Merging.** `Node.merged`.
- **Reasons.** `Blame`, `Blamed.both`.
- **Values.** `Node.value`, and `Node.read` for a whole tree.
-/

namespace Mustache.Yaml

/-! ## Nodes -/

/-- A node of a document. -/
inductive Node where
  | scalar (plain : Bool) (text : Text)
  | sequence (items : List Node)
  | mapping (entries : List (Node × Node))
  /-- A mapping that merges something that is no mapping. -/
  | badMerge

namespace Node

/-- The node of an absent value. -/
def empty : Node := .scalar true []

/-- Whether a node is a scalar. -/
def isScalar : Node → Bool
  | .scalar .. => true
  | _ => false

/-- Whether a node is a given plain scalar. -/
def isPlain (s : Text) : Node → Bool
  | .scalar true t => s == t
  | _ => false

/-! ## Merging -/

/-- The entries of a mapping. -/
def entries? : Node → Option (List (Node × Node))
  | .mapping es => some es
  | _ => none

/-- The entries that stand under a merge key. Those of an earlier mapping come later and win. -/
def mergeEntries? : Node → Option (List (Node × Node))
  | .mapping es => some es
  | .sequence ns => (ns.mapM entries?).map fun ess => ess.reverse.flatten
  | _ => none

/-- A key as a mapping takes it: the key of a default value is its text. -/
def asKey (key : Node) : Node := if key.isPlain defaultKey then .scalar false defaultKey else key

/-- The mapping with some entries, of which those under merge keys are put before the others. -/
def ofEntries (es : List (Node × Node)) : Node :=
  let (merges, own) := es.partition fun e => e.1.isPlain mergeKey
  match merges.mapM fun e => e.2.mergeEntries? with
  | some ess => .mapping (ess.flatten ++ own.map fun e => (e.1.asKey, e.2))
  | none => .badMerge

mutual

/-- The tree without merge keys. -/
def merged : Node → Node
  | .sequence ns => .sequence (mergedItems ns)
  | .mapping es => .ofEntries (mergedValues es)
  | n => n

def mergedItems : List Node → List Node
  | [] => []
  | n :: ns => merged n :: mergedItems ns

/-- The entries of a mapping with values without merge keys. -/
def mergedValues : List (Node × Node) → List (Node × Node)
  | [] => []
  | (k, v) :: es => (k, merged v) :: mergedValues es

end

end Node

/-! ## Reasons -/

/-- Why a tree means nothing. -/
structure Blame where
  /-- The number of collections around the place. -/
  depth : Nat
  why : Refusal
  deriving DecidableEq, Repr

/-- A meaning, or why there is none. -/
abbrev Blamed := Except Blame

namespace Blamed

/-- No meaning, for a reason that lies in the node at hand. -/
def refused {α : Type} (why : Refusal) : Blamed α := .error ⟨0, why⟩

/-- The meaning of a node from within the collection around it. -/
def within {α : Type} (x : Blamed α) : Blamed α :=
  x.mapError fun b => { b with depth := b.depth + 1 }

/-- Two meanings together. The second one's reason is reported if it has fewer collections around
    it. -/
def both {α β γ : Type} (f : α → β → γ) : Blamed α → Blamed β → Blamed γ
  | .ok a, .ok b => .ok (f a b)
  | .ok _, .error e => .error e
  | .error d, .ok _ => .error d
  | .error d, .error e => .error (if e.depth < d.depth then e else d)

end Blamed

/-! ## Values -/

/-- The value of a scalar. -/
def scalarValue (plain : Bool) (s : Text) : Blamed Value :=
  if plain then
    match Plain.ofText s with
    | .value v => .ok v
    | .merge | .default => .refused .malformed
    | .nothing => .refused .badValue
  else
    .ok (.text s)

namespace Node

/-- The key that a node stands for. Collections stand for none. -/
def key : Node → Blamed Key
  | .scalar plain s =>
      match scalarValue plain s with
      | .ok v => match v.key? with
        | some k => .ok k
        | none => .refused .malformed
      | .error b => .error b
  | _ => .refused .malformed

mutual

/-- The value of a node without merge keys. -/
def value : Node → Blamed Value
  | .scalar plain s => scalarValue plain s
  | .sequence ns => (itemValues ns).map (.seq .list)
  | .mapping es => (entryValues es).map fun es => .map .dict (Table.ofList es)
  | .badMerge => .refused .malformed

/-- The values of the items of a sequence. -/
def itemValues : List Node → Blamed (List Value)
  | [] => .ok []
  | n :: ns =>
      let v := if n.isScalar then value n else (value n).within
      Blamed.both List.cons v (itemValues ns)

/-- The entries of a mapping. -/
def entryValues : List (Node × Node) → Blamed (List (Key × Value))
  | [] => .ok []
  | (k, n) :: es =>
      let v := if n.isScalar then value n else (value n).within
      Blamed.both List.cons (Blamed.both Prod.mk k.key v) (entryValues es)

end

/-- The value of a tree. -/
def read (n : Node) : Reads Value := n.merged.value.mapError Blame.why

end Node

end Mustache.Yaml

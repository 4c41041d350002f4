import Mustache.Config.Variable
import Mustache.Value.Graph

/-!
# `Mustache.Config.Graph` — configurations

A configuration is a dictionary in a store, and the dictionaries inside it stand in the same store.
A layer that was read from a file is put over the default one entry by entry; what only the upper
layer has is not copied. Changes are made in place: a dictionary that stands in several places
changes in all of them.

## Contents
- **Configurations.** `Config`, and what it shows as a value.
- **Layers.** `Graph.Store.overlay` puts a node over a value.
- **Setting.** `setAt` sets what stands at a path, whatever the case of the names on the way.
- **Overrides.** `applied` and `Overrides.applyOn` put overrides in effect.
- **Looking up.** `dotted?` finds what stands under a dotted key.
-/

namespace Mustache

open Mustache.Graph

/-! ## Configurations -/

/-- A configuration: its sections by name. -/
structure Config where
  store : Store
  root : Place

namespace Config

/-- What a configuration shows. A dictionary that holds itself is shown as often as there are
    containers. -/
def toValue (config : Config) : Value := config.store.value config.store.length (.held config.root)

/-- The entries that a configuration shows. -/
def toEntries (config : Config) : Entries := config.toValue.entries?.getD []

instance : Coe Config Entries := ⟨toEntries⟩

/-- A mapping as a configuration that shares nothing. -/
def ofMap (kind : MapKind) (es : Entries) : Config :=
  let (st, ns) := Store.holdEntries [] es
  ⟨st ++ [.map kind ns], st.length⟩

end Config

/-! ## Layers -/

namespace Graph.Store

mutual

/-- A node put over a value. A mapping over a mapping gives a new dictionary; anything else takes
    the place of the value. -/
def overlay (st : Store) (base : Value) (upper : Node) : Store × Node :=
  match base with
  | .map _ lower =>
      match st.map? upper with
      | some es =>
          let (st, merged) := overlayEntries st es lower
          let added := es.filter fun e => !Table.contains lower e.1
          (st ++ [.map .dict (merged ++ added)], .held st.length)
      | none => (st, upper)
  | _ => (st, upper)

/-- The entries of a lower layer, each with what the upper one puts over it. -/
def overlayEntries (st : Store) (upper : Table Key Node) :
    List (Key × Value) → Store × List (Key × Node)
  | [] => (st, [])
  | (k, v) :: rest =>
      let (st, n) :=
        match upper.get? k with
        | some n => overlay st v n
        | none => hold st v
      let (st, merged) := overlayEntries st upper rest
      (st, (k, n) :: merged)

end

end Graph.Store

namespace Config

/-! ## Setting -/

/-- The name that a segment means: the last one that is equal to it in lower case, or the segment
    itself if there is none. Keys that are no texts are no names. -/
def matchedName {α : Type} (es : Table Key α) (segment : Text) : Text :=
  ((es.keys.filterMap Key.text?).reverse.find? fun name => Text.lower name == segment).getD segment

/-- What stands under the name that a segment means in the mapping at a place. -/
def matchedNode? (st : Store) (place : Place) (segment : Text) : Option Node :=
  (st.entries place).get? (.text (matchedName (st.entries place) segment))

/-- The store with an entry set under the name that a segment means in the mapping at a place. -/
def putMatched (st : Store) (place : Place) (segment : Text) (n : Node) : Store :=
  st.put place (.text (matchedName (st.entries place) segment)) n

/-- The store with an empty dictionary, which is new in it, under the name that a segment means in
    the mapping at a place. -/
def opened (st : Store) (place : Place) (segment : Text) : Store :=
  putMatched (st ++ [.map .dict []]) place segment (.held st.length)

/-- The store with a node at a path from the mapping at a place. Where there is no dictionary on the
    way, an empty one is put. -/
def setAt (st : Store) (place : Place) : List Text → Node → Store
  | [], _ => st
  | [segment], n => putMatched st place segment n
  | segment :: next :: rest, n =>
      match (matchedNode? st place segment).bind st.dict? with
      | some inner => setAt st inner (next :: rest) n
      | none => setAt (opened st place segment) st.length (next :: rest) n

/-- The configuration with a value at a path. -/
def set (config : Config) (path : List Text) (v : Value) : Config :=
  let (st, n) := config.store.hold v
  ⟨setAt st config.root path n, config.root⟩

/-- A mapping with a value at a path, which has at least one segment. -/
def setIn (root : Value) (path : List Text) (v : Value) : Except Fault Value :=
  match root, path with
  | .map .., [] => .error .noElement
  | .map kind es, path => .ok ((ofMap kind es).set path v).toValue
  | .closedMap, _ => .error .badType
  | _, _ => .error .missingAttribute

/-! ## Overrides -/

/-- A configuration with changes in effect: of two that meet, the later wins. -/
def applied (config : Config) (changes : Changes) : Config :=
  changes.foldl (fun config change => config.set change.1 change.2) config

namespace Overrides

/-- A configuration with overrides in effect, unless something is wrong with a variable. -/
def applyOn (o : Overrides) (config : Config) : Except Fault Config := o.complete.map config.applied

/-- A mapping with overrides in effect. They can be set in nothing else. -/
def applyTo (o : Overrides) (root : Value) : Except Fault Value :=
  match root, o.changes with
  | .map kind es, _ => (o.applyOn (ofMap kind es)).map toValue
  | root, [] => o.complete.map fun _ => root
  | .closedMap, _ => .error .badType
  | _, _ => .error .missingAttribute

end Overrides

/-! ## Looking up -/

/-- The node at a path of names. Only dictionaries have names. -/
def node? (st : Store) : Node → List Text → Option Node
  | n, [] => some n
  | n, name :: path =>
      match (st.dict? n).bind fun place => (st.entries place).get? (.text name) with
      | some inner => node? st inner path
      | none => none

/-- What stands at a path of names, if anything does. -/
def at? (config : Config) (path : List Text) : Option Value :=
  (node? config.store (.held config.root) path).map (config.store.value config.store.length)

/-- What stands under a dotted key, if anything does. -/
def dotted? (config : Config) (key : Text) : Option Value := config.at? (Text.splitOn '.' key)

end Config

end Mustache

import Mustache.Value

/-!
# `Mustache.Value.Graph` — values that share parts

A mapping or a sequence that was read from a file can stand in several places of it, even inside
itself. What is set in such a container is seen wherever it stands. So the containers of a graph are
kept in a store, and a container names those in it by their places there.

## Contents
- **Stores.** The `Container`s of a `Store`, and the `Node`s in them; `Store.Closed`.
- **Looking.** `Store.entries`, `Store.dict?`, and `Store.value` for what a node shows.
- **Changing.** `Store.put` sets an entry in place.
- **Trees.** `Store.hold` keeps a value whose parts are not shared, in a store that stays closed.
- **Graphs.** `Graph`, `Graph.ofValue`.
-/

namespace Mustache

namespace Graph

/-- Where a container is in a store. -/
abbrev Place := Nat

/-- What stands in a container: a value without parts, or a container. -/
inductive Node where
  | leaf (v : Value)
  | held (place : Place)

/-- A mapping or a sequence. -/
inductive Container where
  | map (kind : MapKind) (entries : Table Key Node)
  | seq (kind : SeqKind) (items : List Node)

/-- What stands in a container, in order. -/
def Container.nodes : Container → List Node
  | .map _ es => es.map Prod.snd
  | .seq _ ns => ns

/-- Containers by their places. -/
abbrev Store := List Container

/-- A node is a value without entries, or a container of a store. -/
def Node.IsIn (st : Store) : Node → Prop
  | .leaf v => v.entries? = none
  | .held place => place < st.length

theorem Node.IsIn.mono {n : Node} {st st' : Store} (h : n.IsIn st)
    (hle : st.length ≤ st'.length) : n.IsIn st' := by
  cases n with
  | leaf v => exact h
  | held place => exact Nat.lt_of_lt_of_le h hle

/-- All containers that stand in those of a store are in it. -/
def Store.Closed (st : Store) : Prop := ∀ c ∈ st, ∀ n ∈ c.nodes, n.IsIn st

namespace Store

/-! ## Looking -/

/-- The entries of the mapping at a place. -/
def entries (st : Store) (place : Place) : Table Key Node :=
  match st[place]? with
  | some (.map _ es) => es
  | _ => []

/-- The mapping that a node is, if it is one. -/
def map? (st : Store) : Node → Option (Table Key Node)
  | .leaf _ => none
  | .held place =>
      match st[place]? with
      | some (.map _ es) => some es
      | _ => none

/-- The place of the dictionary proper that a node is, if it is one. -/
def dict? (st : Store) : Node → Option Place
  | .leaf _ => none
  | .held place =>
      match st[place]? with
      | some (.map kind _) => if kind.isDict then some place else none
      | _ => none

/-- The value of a node. Of containers inside each other, as many as a number says are shown. -/
def value (st : Store) : Nat → Node → Value
  | _, .leaf v => v
  | 0, .held _ => .null
  | depth + 1, .held place =>
      match st[place]? with
      | some (.map kind es) => .map kind (es.map (Prod.map id (st.value depth)))
      | some (.seq kind ns) => .seq kind (ns.map (st.value depth))
      | none => .null

/-! ## Changing -/

/-- The store with an entry of the mapping at a place set. -/
def put (st : Store) (place : Place) (key : Key) (n : Node) : Store :=
  match st[place]? with
  | some (.map kind es) => st.set place (.map kind (es.put key n))
  | _ => st

/-! ## Trees -/

mutual

/-- The store with the parts of a value, and the value in it. -/
def hold (st : Store) : Value → Store × Node
  | .map kind es =>
      let (st, es) := holdEntries st es
      (st ++ [.map kind es], .held st.length)
  | .seq kind vs =>
      let (st, ns) := holdItems st vs
      (st ++ [.seq kind ns], .held st.length)
  | v => (st, .leaf v)

def holdEntries (st : Store) : List (Key × Value) → Store × List (Key × Node)
  | [] => (st, [])
  | (k, v) :: es =>
      let (st, n) := hold st v
      let (st, rest) := holdEntries st es
      (st, (k, n) :: rest)

def holdItems (st : Store) : List Value → Store × List Node
  | [] => (st, [])
  | v :: vs =>
      let (st, n) := hold st v
      let (st, rest) := holdItems st vs
      (st, n :: rest)

end

theorem hold_map (st : Store) (kind : MapKind) (es : List (Key × Value)) : st.hold (.map kind es)
    = ((st.holdEntries es).1 ++ [.map kind (st.holdEntries es).2],
        .held (st.holdEntries es).1.length) := by
  rw [hold]

theorem hold_seq (st : Store) (kind : SeqKind) (vs : List Value) : st.hold (.seq kind vs)
    = ((st.holdItems vs).1 ++ [.seq kind (st.holdItems vs).2],
        .held (st.holdItems vs).1.length) := by
  rw [hold]

theorem holdEntries_cons (st : Store) (k : Key) (v : Value) (es : List (Key × Value)) :
    st.holdEntries ((k, v) :: es)
      = (((st.hold v).1.holdEntries es).1,
          (k, (st.hold v).2) :: ((st.hold v).1.holdEntries es).2) := by
  rw [holdEntries]

theorem holdItems_cons (st : Store) (v : Value) (vs : List Value) : st.holdItems (v :: vs)
    = (((st.hold v).1.holdItems vs).1, (st.hold v).2 :: ((st.hold v).1.holdItems vs).2) := by
  rw [holdItems]

theorem Closed.nil : Closed [] := nofun

/-- A closed store stays closed with a container of what is in it. -/
theorem Closed.concat {st : Store} {c : Container} (h : st.Closed) (hc : ∀ n ∈ c.nodes, n.IsIn st) :
    Closed (st ++ [c]) := by
  have hle : st.length ≤ (st ++ [c]).length := (List.prefix_append st [c]).length_le
  intro c' hmem n hn
  rcases List.mem_append.mp hmem with hmem | hmem
  · exact (h c' hmem n hn).mono hle
  · rw [List.mem_singleton.mp hmem] at hn
    exact (hc n hn).mono hle

/-- A new container is in the store. -/
theorem isIn_concat (st : Store) (c : Container) : (Node.held st.length).IsIn (st ++ [c]) := by
  show st.length < (st ++ [c]).length
  rw [List.length_append]
  exact Nat.lt_succ_self st.length

mutual

/-- A store with the parts of a value goes on from what was in it before, and stays closed. -/
theorem hold_closed {st : Store} (h : st.Closed) (v : Value) :
    st <+: (st.hold v).1 ∧ (st.hold v).1.Closed ∧ (st.hold v).2.IsIn (st.hold v).1 := by
  cases v with
  | map kind es =>
      obtain ⟨hgrown, hclosed, hin⟩ := holdEntries_closed h es
      rw [hold_map]
      exact ⟨hgrown.trans (List.prefix_append _ _), hclosed.concat hin, isIn_concat _ _⟩
  | seq kind vs =>
      obtain ⟨hgrown, hclosed, hin⟩ := holdItems_closed h vs
      rw [hold_seq]
      exact ⟨hgrown.trans (List.prefix_append _ _), hclosed.concat hin, isIn_concat _ _⟩
  | _ => exact ⟨List.prefix_rfl, h, rfl⟩

theorem holdEntries_closed {st : Store} (h : st.Closed) (es : List (Key × Value)) :
    st <+: (st.holdEntries es).1 ∧ (st.holdEntries es).1.Closed ∧
      ∀ n ∈ (st.holdEntries es).2.map Prod.snd, n.IsIn (st.holdEntries es).1 := by
  cases es with
  | nil => exact ⟨List.prefix_rfl, h, nofun⟩
  | cons e es =>
      obtain ⟨k, v⟩ := e
      obtain ⟨hgrown, hclosed, hin⟩ := hold_closed h v
      obtain ⟨hgrown', hclosed', hin'⟩ := holdEntries_closed hclosed es
      rw [holdEntries_cons]
      refine ⟨hgrown.trans hgrown', hclosed', ?_⟩
      exact List.forall_mem_cons.mpr ⟨hin.mono hgrown'.length_le, hin'⟩

theorem holdItems_closed {st : Store} (h : st.Closed) (vs : List Value) :
    st <+: (st.holdItems vs).1 ∧ (st.holdItems vs).1.Closed ∧
      ∀ n ∈ (st.holdItems vs).2, n.IsIn (st.holdItems vs).1 := by
  cases vs with
  | nil => exact ⟨List.prefix_rfl, h, nofun⟩
  | cons v vs =>
      obtain ⟨hgrown, hclosed, hin⟩ := hold_closed h v
      obtain ⟨hgrown', hclosed', hin'⟩ := holdItems_closed hclosed vs
      rw [holdItems_cons]
      refine ⟨hgrown.trans hgrown', hclosed', ?_⟩
      exact List.forall_mem_cons.mpr ⟨hin.mono hgrown'.length_le, hin'⟩

end

end Store

end Graph

/-! ## Graphs -/

/-- A value that can share parts. -/
structure Graph where
  store : Graph.Store
  root : Graph.Node
  closed : store.Closed
  rooted : root.IsIn store

/-- A value as a graph. -/
def Graph.ofValue (v : Value) : Graph where
  store := (Graph.Store.hold [] v).1
  root := (Graph.Store.hold [] v).2
  closed := (Graph.Store.hold_closed .nil v).2.1
  rooted := (Graph.Store.hold_closed .nil v).2.2

end Mustache

import Mustache.Text

/-!
# `Mustache.Table` — tables in order of insertion

A table maps keys to values. Setting a key that is present keeps the key and its place and changes
the value; a new key goes to the end. Looking up takes the first entry of a key. Keys are compared
with `==`, which may take two keys for one that are written differently.

## Contents
- **Operations.** `get?`, `put`, `erase`, `keys`, `ofList`.
- **Laws.** What `get?` sees after `put` and `erase`; tables whose values are mapped.
-/

namespace Mustache

/-- Keys and their values, in order. -/
abbrev Table (κ α : Type) := List (κ × α)

namespace Table

variable {κ α : Type} [BEq κ]

/-- The value of a key. -/
def get? : Table κ α → κ → Option α
  | [], _ => none
  | (k, v) :: t, key => if k == key then some v else get? t key

/-- The table with a key set. -/
def put : Table κ α → κ → α → Table κ α
  | [], key, value => [(key, value)]
  | (k, v) :: t, key, value =>
      if k == key then (k, value) :: t else (k, v) :: put t key value

/-- The table without a key. -/
def erase (t : Table κ α) (key : κ) : Table κ α := t.filter fun e => !(e.1 == key)

/-- The keys of a table, in order. -/
def keys (t : Table κ α) : List κ := t.map Prod.fst

/-- Whether a key has a value. -/
def contains (t : Table κ α) (key : κ) : Bool := (t.get? key).isSome

/-- Entries set one after the other: of two with one key the later gives the value. -/
def ofList (es : List (κ × α)) : Table κ α := es.foldl (fun t e => t.put e.1 e.2) []

/-- The second table's entries set in the first. -/
def putAll (t u : Table κ α) : Table κ α := u.foldl (fun t e => t.put e.1 e.2) t

/-! ## Laws -/

theorem get?_put_self [ReflBEq κ] (t : Table κ α) (key : κ) (value : α) :
    (t.put key value).get? key = some value := by
  induction t with
  | nil => simp [put, get?]
  | cons e t ih =>
      obtain ⟨k, v⟩ := e
      by_cases hk : k == key
      · simp [put, get?, hk]
      · simp [put, get?, hk, ih]

theorem get?_put_of_ne [EquivBEq κ] (t : Table κ α) {key other : κ} (value : α)
    (h : (key == other) = false) : (t.put key value).get? other = t.get? other := by
  induction t with
  | nil => simp [put, get?, h]
  | cons e t ih =>
      obtain ⟨k, v⟩ := e
      by_cases hk : k == key
      · have ho : (k == other) = false := by rw [BEq.congr_left hk, h]
        simp [put, get?, hk, ho]
      · by_cases ho : k == other
        · simp [put, get?, hk, ho]
        · simp [put, get?, hk, ho, ih]

theorem get?_erase_self (t : Table κ α) (key : κ) : (t.erase key).get? key = none := by
  induction t with
  | nil => rfl
  | cons e t ih =>
      obtain ⟨k, v⟩ := e
      by_cases hk : k == key
      · simpa [erase, hk] using ih
      · simpa [erase, hk, get?] using ih

theorem get?_erase_of_ne [EquivBEq κ] (t : Table κ α) {key other : κ}
    (h : (key == other) = false) : (t.erase key).get? other = t.get? other := by
  induction t with
  | nil => rfl
  | cons e t ih =>
      obtain ⟨k, v⟩ := e
      by_cases hk : k == key
      · have ho : (k == other) = false := by rw [BEq.congr_left hk, h]
        simpa [erase, get?, hk, ho] using ih
      · by_cases ho : k == other
        · simp [erase, hk, get?, ho]
        · simpa [erase, hk, get?, ho] using ih

section Maps

variable {β : Type} (f : α → β) (t u : Table κ α) (key : κ)

theorem get?_map : get? (t.map (Prod.map id f)) key = (t.get? key).map f := by
  induction t with
  | nil => rfl
  | cons p t ih =>
      rw [List.map_cons, Prod.map, id, get?, get?, ih]
      cases p.1 == key <;> rfl

theorem erase_map : erase (t.map (Prod.map id f)) key = (t.erase key).map (Prod.map id f) := by
  unfold erase
  rw [List.filter_map]
  rfl

theorem put_map (value : α) : put (t.map (Prod.map id f)) key (f value) = (t.put key value).map (Prod.map id f) := by
  induction t with
  | nil => rfl
  | cons p t ih =>
      rw [List.map_cons, Prod.map, id, put, put, ih]
      cases p.1 == key <;> rfl

theorem putAll_map :
    putAll (t.map (Prod.map id f)) (u.map (Prod.map id f)) = (t.putAll u).map (Prod.map id f) := by
  induction u generalizing t with
  | nil => rfl
  | cons p u ih =>
      show putAll (put (t.map (Prod.map id f)) p.1 (f p.2)) (u.map (Prod.map id f)) = _
      rw [put_map, ih]
      rfl

end Maps

end Table

end Mustache

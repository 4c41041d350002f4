import Mustache.Value.Merge

/-!
# `Mustache.Proofs.Merging` — what a merge has at each path

A path of keys leads through nested mappings to a value. A merge is known path by path: where the
upper mapping leads to something plain, the merge has that; where it leads to a mapping, the merge
has this mapping over what the lower one has there; where it leads nowhere, the merge has what the
lower mapping has, unless something plain in the upper one is in the way. From this come the laws
of the empty layer and of a layer that is put on twice.

* `get?_mergeEntries` : one level, for which all keys of the upper mapping must be different
  (`Entries.Proper`).
* `Value.at?_over_of_some`, `Value.at?_over_of_none` : all levels, along the path. The lower value
  may be missing, as below a key that only the upper mapping has (`Value.over`).
* `Value.mergedOver_again` : a value put once more over what it was put over, by `Value.mapInduction`.
  It changes nothing if all mappings in it are dictionaries. A mapping of another kind becomes a
  dictionary when it meets a mapping, from which `Value.asDicts` abstracts.
* `merge_at_paths` : the whole description, with the laws.
-/

namespace Mustache

/-! ## Tables -/

namespace Table

variable {κ α : Type} [BEq κ] {t : Table κ α} {key other : κ} {value : α}

theorem get?_congr [EquivBEq κ] (t : Table κ α) (h : (key == other) = true) : t.get? key = t.get? other := by
  induction t with
  | nil => rfl
  | cons e t ih => rw [get?, get?, ih, BEq.congr_right h]

/-- To set a key to what it has is to change nothing. -/
theorem put_eq_self (h : t.get? key = some value) : t.put key value = t := by
  induction t with
  | nil => cases h
  | cons e t ih =>
      rw [get?] at h
      rw [put]
      cases hkey : e.1 == key with
      | true =>
          rw [hkey, if_pos rfl] at h
          rw [if_pos rfl, ← Option.some.inj h]
      | false =>
          rw [hkey, if_neg Bool.false_ne_true] at h
          rw [if_neg Bool.false_ne_true, ih h]

/-- A new key goes to the end. -/
theorem put_eq_append (h : t.get? key = none) : t.put key value = t ++ [(key, value)] := by
  induction t with
  | nil => rfl
  | cons e t ih =>
      rw [get?] at h
      rw [put]
      cases hkey : e.1 == key with
      | true =>
          rw [hkey, if_pos rfl] at h
          cases h
      | false =>
          rw [hkey, if_neg Bool.false_ne_true] at h
          rw [if_neg Bool.false_ne_true, ih h, List.cons_append]

theorem get?_append (t u : Table κ α) (key : κ) : get? (t ++ u) key = (t.get? key).or (u.get? key) := by
  induction t with
  | nil => rfl
  | cons e t ih =>
      rw [List.cons_append, get?, get?, ih]
      cases e.1 == key <;> rfl

end Table

/-! ## Proper mappings -/

mutual

/-- All mappings in a value can be read, and no two keys of one of them are the same. -/
def Value.Proper : Value → Prop
  | .map _ es => Entries.Proper es
  | .closedMap => False
  | _ => True

/-- The entries of such a mapping. -/
def Entries.Proper : List (Key × Value) → Prop
  | [] => True
  | (k, v) :: es => Table.get? es k = none ∧ v.Proper ∧ Entries.Proper es

end

namespace Entries

variable {es : Entries} {k : Key} {v : Value}

theorem Proper.get?_of_mem (h : Proper es) (hmem : (k, v) ∈ es) : Table.get? es k = some v := by
  induction es with
  | nil => cases hmem
  | cons e es ih =>
      obtain ⟨hnew, -, hes⟩ := h
      rw [Table.get?]
      rcases List.mem_cons.mp hmem with rfl | hmem
      · exact if_pos BEq.rfl
      · cases hkey : e.1 == k with
        | true =>
            rw [Table.get?_congr es hkey, ih hes hmem] at hnew
            cases hnew
        | false => rw [if_neg Bool.false_ne_true, ih hes hmem]

theorem Proper.of_get? (h : Proper es) (hget : Table.get? es k = some v) : v.Proper := by
  induction es with
  | nil => cases hget
  | cons e es ih =>
      obtain ⟨-, hv, hes⟩ := h
      rw [Table.get?] at hget
      cases hkey : e.1 == k with
      | true =>
          rw [hkey, if_pos rfl] at hget
          exact Option.some.inj hget ▸ hv
      | false =>
          rw [hkey, if_neg Bool.false_ne_true] at hget
          exact ih hes hget

theorem Proper.of_mem (h : Proper es) (hmem : (k, v) ∈ es) : v.Proper := h.of_get? (h.get?_of_mem hmem)

/-- A mapping stays proper when a proper value is set under a key. -/
theorem Proper.put (h : Proper es) (hv : v.Proper) : Proper (Table.put es k v) := by
  induction es with
  | nil => exact ⟨rfl, hv, trivial⟩
  | cons e es ih =>
      obtain ⟨hnew, he, hes⟩ := h
      rw [Table.put]
      cases hkey : e.1 == k with
      | true =>
          rw [if_pos rfl]
          exact ⟨Table.get?_congr es hkey ▸ hnew, hv, hes⟩
      | false =>
          rw [if_neg Bool.false_ne_true]
          have hkept : Table.get? (Table.put es k v) e.1 = none := by
            rw [Table.get?_put_of_ne es v (BEq.symm_false hkey), hnew]
          exact ⟨hkept, he, ih hes⟩

end Entries

namespace Value

variable {v : Value}

/-- A mapping that can be read has entries. -/
theorem Proper.eq_map (h : v.Proper) (hmap : v.isMapping = true) : ∃ kind es, v = .map kind es := by
  cases v with
  | map kind es => exact ⟨kind, es, rfl⟩
  | closedMap => cases h
  | _ => cases hmap

theorem eq_map_of_entries? {es : Entries} (h : v.entries? = some es) : ∃ kind, v = .map kind es := by
  cases v with
  | map kind es' => exact ⟨kind, Option.some.inj h ▸ rfl⟩
  | _ => cases h

theorem entries?_of_plain (h : v.isMapping = false) : v.entries? = none := by
  cases v with
  | map kind es => cases h
  | _ => rfl

end Value

/-! ## One level -/

/-- A value over what is below it, if there is something. -/
def Value.over (v : Value) : Option Value → Value
  | some below => below.mergedOver v
  | none => v

namespace Value

variable {v below : Value}

theorem mergedOver_of_plain (h : v.entries? = none) : below.mergedOver v = v := by
  cases v with
  | map kind es => cases h
  | _ => rfl

theorem over_of_plain (h : v.entries? = none) (below : Option Value) : v.over below = v := by
  cases below with
  | none => rfl
  | some below => exact mergedOver_of_plain h

theorem over_without_entries (h : below.entries? = none) : v.over (some below) = v := by
  cases v with
  | map kind es =>
      cases below with
      | map kind' lower => cases h
      | _ => rfl
  | _ => rfl

end Value

theorem mergeEntries_cons (lower : Entries) (k : Key) (v : Value) (rest : Entries) :
    mergeEntries lower ((k, v) :: rest) = mergeEntries (lower.put k (v.over (lower.get? k))) rest := by
  rw [mergeEntries]
  cases lower.get? k <;> rfl

/-- **What a merge has under a key.** -/
theorem get?_mergeEntries {upper : Entries} (h : Entries.Proper upper) (lower : Entries) (k : Key) :
    (mergeEntries lower upper).get? k = match upper.get? k with
      | some v => some (v.over (lower.get? k))
      | none => lower.get? k := by
  induction upper generalizing lower with
  | nil => rfl
  | cons e rest ih =>
      obtain ⟨key, v⟩ := e
      obtain ⟨hnew, -, hrest⟩ := h
      rw [mergeEntries_cons, ih hrest, Table.get?]
      cases hkey : key == k with
      | true =>
          rw [← Table.get?_congr rest hkey, hnew, if_pos rfl, ← Table.get?_congr _ hkey, Table.get?_put_self,
            Table.get?_congr lower hkey]
      | false => rw [if_neg Bool.false_ne_true, Table.get?_put_of_ne lower _ hkey]

/-! ## Along a path -/

namespace Value

/-- What stands at a path of keys. -/
def at? : Value → List Key → Option Value
  | v, [] => some v
  | .map _ es, k :: p => (Table.get? es k).bind fun v => at? v p
  | _, _ :: _ => none

/-- Something on the way along a path is no mapping. -/
def Blocks (v : Value) (p : List Key) : Prop :=
  ∃ q r x, p = q ++ r ∧ r ≠ [] ∧ v.at? q = some x ∧ x.isMapping = false

variable {v w : Value} {p : List Key}

theorem at?_map_cons (kind : MapKind) (es : Entries) (k : Key) (p : List Key) :
    (map kind es).at? (k :: p) = (Table.get? es k).bind fun v => v.at? p := rfl

theorem at?_cons_without_entries (h : v.entries? = none) (k : Key) (p : List Key) : v.at? (k :: p) = none := by
  cases v with
  | map kind es => cases h
  | _ => rfl

/-- Only a mapping leads further. -/
theorem eq_map_of_at?_cons {k : Key} (h : v.at? (k :: p) = some w) :
    ∃ kind es x, v = map kind es ∧ Table.get? es k = some x ∧ x.at? p = some w := by
  cases v with
  | map kind es =>
      obtain ⟨x, hx, hw⟩ := Option.bind_eq_some_iff.mp h
      exact ⟨kind, es, x, rfl, hx, hw⟩
  | _ => cases h

theorem at?_append (v : Value) (p q : List Key) : v.at? (p ++ q) = (v.at? p).bind fun w => w.at? q := by
  induction p generalizing v with
  | nil => rfl
  | cons k p ih =>
      cases v with
      | map kind es =>
          rw [List.cons_append, at?_map_cons, at?_map_cons]
          cases Table.get? es k with
          | none => rfl
          | some x => exact ih x
      | _ => rfl

theorem bind_at?_bind_at? (below : Option Value) (k : Key) (p : List Key) :
    ((below.bind fun b => b.at? [k]).bind fun b => b.at? p) = below.bind fun b => b.at? (k :: p) := by
  rw [Option.bind_assoc]
  congr 1
  funext b
  exact (at?_append b [k] p).symm

/-- One step along a path in a mapping over something. -/
theorem at?_over_cons {kind : MapKind} {es : Entries} (h : (map kind es).Proper) (below : Option Value) (k : Key)
    (p : List Key) : ((map kind es).over below).at? (k :: p) = match Table.get? es k with
      | some x => (x.over (below.bind fun b => b.at? [k])).at? p
      | none => below.bind fun b => b.at? (k :: p) := by
  have halone : (map kind es).at? (k :: p) = match Table.get? es k with
      | some x => x.at? p
      | none => none := by
    rw [at?_map_cons]
    cases Table.get? es k <;> rfl
  cases below with
  | none => exact halone
  | some b =>
      cases hb : b.entries? with
      | none =>
          rw [over_without_entries hb, halone, Option.bind_some, Option.bind_some, at?_cons_without_entries hb,
            at?_cons_without_entries hb]
          rfl
      | some lower =>
          obtain ⟨kind', rfl⟩ := eq_map_of_entries? hb
          show ((mergeEntries lower es).get? k).bind _ = _
          rw [get?_mergeEntries h, Option.bind_some, at?_map_cons]
          cases Table.get? es k with
          | none => rfl
          | some x => cases lower.get? k <;> rfl

/-- **Where the upper value leads somewhere**, it leads to what it has there over what the lower value
    has there. -/
theorem at?_over_of_some (h : v.Proper) (hw : v.at? p = some w) (below : Option Value) :
    (v.over below).at? p = some (w.over (below.bind fun b => b.at? p)) := by
  induction p generalizing v below with
  | nil =>
      obtain rfl := Option.some.inj hw
      cases below <;> rfl
  | cons k p ih =>
      obtain ⟨kind, es, x, rfl, hx, hrest⟩ := eq_map_of_at?_cons hw
      rw [at?_over_cons h, hx]
      show (x.over _).at? p = _
      rw [ih (Entries.Proper.of_get? h hx) hrest, bind_at?_bind_at?]

/-- **Where the upper value leads nowhere**, the lower one leads on, unless something plain is in the
    way. -/
theorem at?_over_of_none (h : v.Proper) (hnone : v.at? p = none) (hfree : ¬v.Blocks p) (below : Option Value) :
    (v.over below).at? p = below.bind fun b => b.at? p := by
  induction p generalizing v below with
  | nil => cases hnone
  | cons k p ih =>
      have hmap : v.isMapping = true := by
        rw [← Bool.not_eq_false]
        exact fun hplain => hfree ⟨[], k :: p, v, rfl, List.cons_ne_nil k p, rfl, hplain⟩
      obtain ⟨kind, es, rfl⟩ := h.eq_map hmap
      rw [at?_over_cons h]
      cases hx : Table.get? es k with
      | none => rfl
      | some x =>
          have hnone' : x.at? p = none := by rwa [at?_map_cons, hx] at hnone
          have hfree' : ¬x.Blocks p := by
            rintro ⟨q, r, y, rfl, hr, hy, hplain⟩
            refine hfree ⟨k :: q, r, y, rfl, hr, ?_, hplain⟩
            rw [at?_map_cons, hx, Option.bind_some, hy]
          show (x.over _).at? p = _
          rw [ih (Entries.Proper.of_get? h hx) hnone' hfree', bind_at?_bind_at?]

/-- Behind something plain in the upper value there is nothing. -/
theorem at?_over_of_blocks (h : v.Proper) (hblocks : v.Blocks p) (below : Option Value) :
    (v.over below).at? p = none := by
  obtain ⟨q, r, x, rfl, hr, hx, hplain⟩ := hblocks
  obtain ⟨k, r, rfl⟩ := List.exists_cons_of_ne_nil hr
  rw [at?_append, at?_over_of_some h hx, over_of_plain (entries?_of_plain hplain), Option.bind_some,
    at?_cons_without_entries (entries?_of_plain hplain)]

end Value

/-! ## Nested mappings -/

mutual

/-- Induction on a value along the mappings in it. -/
@[elab_as_elim]
theorem Value.mapInduction {motive : Value → Prop} (plain : ∀ v : Value, v.entries? = none → motive v)
    (map : ∀ kind es, (∀ k v, (k, v) ∈ es → motive v) → motive (.map kind es)) (v : Value) : motive v := by
  cases v with
  | map kind es => exact map kind es (Entries.mapInduction plain map es)
  | _ => exact plain _ rfl

theorem Entries.mapInduction {motive : Value → Prop} (plain : ∀ v : Value, v.entries? = none → motive v)
    (map : ∀ kind es, (∀ k v, (k, v) ∈ es → motive v) → motive (.map kind es)) (es : List (Key × Value)) :
    ∀ k v, (k, v) ∈ es → motive v := by
  intro k v hmem
  match es, hmem with
  | (k', v') :: rest, hmem =>
      rcases List.mem_cons.mp hmem with heq | hmem
      · obtain ⟨rfl, rfl⟩ := Prod.mk.inj heq
        exact Value.mapInduction plain map v
      · exact Entries.mapInduction plain map rest k v hmem

end

/-- Proper entries over proper entries are proper. -/
theorem Entries.Proper.merge {upper lower : Entries} (h : Proper upper) (hlower : Proper lower)
    (hover : ∀ k v, (k, v) ∈ upper → ∀ below, (∀ b ∈ below, b.Proper) → (v.over below).Proper) :
    Proper (mergeEntries lower upper) := by
  induction upper generalizing lower with
  | nil => exact hlower
  | cons e rest ih =>
      obtain ⟨k, v⟩ := e
      obtain ⟨-, -, hrest⟩ := h
      have hv := hover k v List.mem_cons_self (lower.get? k) fun b hb => hlower.of_get? hb
      rw [mergeEntries_cons]
      exact ih hrest (hlower.put hv) fun k' v' hmem => hover k' v' (List.mem_cons_of_mem _ hmem)

theorem Value.Proper.over {v : Value} (h : v.Proper) {below : Option Value} (hbelow : ∀ b ∈ below, b.Proper) :
    (v.over below).Proper := by
  induction v using Value.mapInduction generalizing below with
  | plain v hv =>
      cases below with
      | none => exact h
      | some b =>
          rw [Value.over, mergedOver_of_plain hv]
          exact h
  | map kind upper ih =>
      cases below with
      | none => exact h
      | some b =>
          cases hb : b.entries? with
          | none =>
              rw [over_without_entries hb]
              exact h
          | some lower =>
              obtain ⟨kind', rfl⟩ := eq_map_of_entries? hb
              exact Entries.Proper.merge h (hbelow _ rfl) fun k v hmem _ => ih k v hmem (Entries.Proper.of_mem h hmem)

theorem Entries.Proper.mergeEntries {upper lower : Entries} (hlower : Proper lower) (h : Proper upper) :
    Proper (mergeEntries lower upper) :=
  h.merge hlower fun _ _ hmem _ => Value.Proper.over (h.of_mem hmem)

/-! ## Kinds of mapping -/

mutual

/-- A value with dictionaries in place of all mappings in it. The host takes mappings for equal whatever their kind. -/
def Value.asDicts : Value → Value
  | .map _ es => .map .dict (Entries.asDicts es)
  | v => v

/-- Entries with dictionaries in place of all mappings in their values. -/
def Entries.asDicts : List (Key × Value) → List (Key × Value)
  | [] => []
  | (k, v) :: es => (k, v.asDicts) :: Entries.asDicts es

end

theorem Value.asDicts_of_plain {v : Value} (h : v.entries? = none) : v.asDicts = v := by
  cases v with
  | map kind es => cases h
  | _ => rfl

namespace Entries

variable {es : Entries}

theorem asDicts_eq_map (es : Entries) : asDicts es = es.map (Prod.map id Value.asDicts) := by
  induction es with
  | nil => rfl
  | cons e es ih =>
      rw [asDicts, ih]
      rfl

theorem get?_asDicts (es : Entries) (k : Key) : Table.get? (asDicts es) k = (Table.get? es k).map Value.asDicts := by
  rw [asDicts_eq_map, Table.get?_map]

theorem asDicts_eq_self (h : ∀ k v, (k, v) ∈ es → v.asDicts = v) : asDicts es = es := by
  induction es with
  | nil => rfl
  | cons e es ih =>
      rw [asDicts, h e.1 e.2 List.mem_cons_self, ih fun k v hmem => h k v (List.mem_cons_of_mem e hmem)]

theorem asDicts_of_mem {k : Key} {v : Value} (h : asDicts es = es) (hmem : (k, v) ∈ es) : v.asDicts = v := by
  induction es with
  | nil => cases hmem
  | cons e es ih =>
      rw [asDicts] at h
      obtain ⟨he, hes⟩ := List.cons.inj h
      rcases List.mem_cons.mp hmem with rfl | hmem
      · exact (Prod.mk.inj he).2
      · exact ih hes hmem

theorem Proper.asDicts (h : Proper es) (hvalues : ∀ k v, (k, v) ∈ es → v.asDicts.Proper) : Proper (asDicts es) := by
  induction es with
  | nil => trivial
  | cons e es ih =>
      obtain ⟨hnew, -, hes⟩ := h
      have hnew' : Table.get? (Entries.asDicts es) e.1 = none := by
        rw [get?_asDicts, hnew]
        rfl
      exact ⟨hnew', hvalues e.1 e.2 List.mem_cons_self,
        ih hes fun k v hmem => hvalues k v (List.mem_cons_of_mem e hmem)⟩

end Entries

namespace Value

theorem asDicts_asDicts (v : Value) : v.asDicts.asDicts = v.asDicts := by
  induction v using mapInduction with
  | plain v hv => rw [asDicts_of_plain hv, asDicts_of_plain hv]
  | map kind es ih =>
      have hentries : Entries.asDicts (Entries.asDicts es) = Entries.asDicts es := by
        rw [Entries.asDicts_eq_map es]
        apply Entries.asDicts_eq_self
        intro k v hmem
        obtain ⟨e, he, heq⟩ := List.mem_map.mp hmem
        obtain ⟨rfl, rfl⟩ := Prod.mk.inj heq
        exact ih e.1 e.2 he
      exact congrArg (map .dict) hentries

theorem Proper.asDicts {v : Value} (h : v.Proper) : v.asDicts.Proper := by
  induction v using mapInduction with
  | plain v hv => rwa [asDicts_of_plain hv]
  | map kind es ih => exact Entries.Proper.asDicts h fun k v hmem => ih k v hmem (Entries.Proper.of_mem h hmem)

end Value

/-- Merging does not look at the kinds of mappings, entry by entry. -/
theorem Entries.asDicts_merge {upper : Entries}
    (hover : ∀ k v, (k, v) ∈ upper → ∀ below, (v.over below).asDicts = v.asDicts.over (below.map Value.asDicts))
    (lower : Entries) : asDicts (mergeEntries lower upper) = mergeEntries (asDicts lower) (asDicts upper) := by
  induction upper generalizing lower with
  | nil => rfl
  | cons e rest ih =>
      obtain ⟨k, v⟩ := e
      have hput (w : Value) : asDicts (Table.put lower k w) = Table.put (asDicts lower) k w.asDicts := by
        rw [asDicts_eq_map, asDicts_eq_map, Table.put_map]
      rw [mergeEntries_cons, ih fun k' v' hmem => hover k' v' (List.mem_cons_of_mem _ hmem), hput,
        hover k v List.mem_cons_self, ← get?_asDicts, asDicts, mergeEntries_cons]

/-- Merging does not look at the kinds of mappings. -/
theorem Value.asDicts_over (v : Value) (below : Option Value) :
    (v.over below).asDicts = v.asDicts.over (below.map Value.asDicts) := by
  induction v using mapInduction generalizing below with
  | plain v hv => rw [over_of_plain hv, asDicts_of_plain hv, over_of_plain hv]
  | map kind upper ih =>
      cases below with
      | none => rfl
      | some b =>
          cases b with
          | map kind' lower => exact congrArg (map .dict) (Entries.asDicts_merge (fun k v hmem => ih k v hmem) lower)
          | _ => rfl

theorem asDicts_mergeEntries (lower upper : Entries) : Entries.asDicts (mergeEntries lower upper)
    = mergeEntries (Entries.asDicts lower) (Entries.asDicts upper) :=
  Entries.asDicts_merge (fun _ v _ => Value.asDicts_over v) lower

/-! ## The laws -/

/-- Entries under new keys go to the end as they are. -/
theorem mergeEntries_eq_append {lower upper : Entries} (h : Entries.Proper upper)
    (hnew : ∀ k v, (k, v) ∈ upper → lower.get? k = none) : mergeEntries lower upper = lower ++ upper := by
  induction upper generalizing lower with
  | nil => exact (List.append_nil lower).symm
  | cons e rest ih =>
      obtain ⟨k, v⟩ := e
      obtain ⟨hk, -, hrest⟩ := h
      have hlower := hnew k v List.mem_cons_self
      have hnew' : ∀ k' v', (k', v') ∈ rest → Table.get? (lower ++ [(k, v)]) k' = none := by
        intro k' v' hmem
        have hne : (k == k') = false := by
          cases hkey : k == k' with
          | false => rfl
          | true =>
              rw [Table.get?_congr rest hkey, hrest.get?_of_mem hmem] at hk
              cases hk
        rw [Table.get?_append, hnew k' v' (List.mem_cons_of_mem _ hmem), Table.get?, hne]
        rfl
      rw [mergeEntries_cons, hlower, Table.put_eq_append hlower, Value.over, ih hrest hnew', List.append_assoc]
      rfl

/-- Nothing changes where each value is put over one that it changes nothing in. -/
theorem mergeEntries_eq_self {lower upper : Entries}
    (h : ∀ k v, (k, v) ∈ upper → ∃ w, lower.get? k = some w ∧ w.mergedOver v = w) :
    mergeEntries lower upper = lower := by
  induction upper with
  | nil => rfl
  | cons e rest ih =>
      obtain ⟨k, v⟩ := e
      obtain ⟨w, hget, hw⟩ := h k v List.mem_cons_self
      rw [mergeEntries_cons, hget, Value.over, hw, Table.put_eq_self hget]
      exact ih fun k' v' hmem => h k' v' (List.mem_cons_of_mem _ hmem)

/-- **A value changes nothing in what it was put over already**, if its mappings are dictionaries. -/
theorem Value.mergedOver_again {v : Value} (h : v.Proper) (hdicts : v.asDicts = v) (below : Option Value) :
    (v.over below).mergedOver v = v.over below := by
  induction v using mapInduction generalizing below with
  | plain v hv => rw [over_of_plain hv, mergedOver_of_plain hv]
  | map kind upper ih =>
      obtain ⟨rfl, hentries⟩ := Value.map.inj hdicts
      -- below each key the value is that of `upper` over something
      have hagain (entries : Entries) (hget : ∀ k v, (k, v) ∈ upper → ∃ b, entries.get? k = some (v.over b)) :
          mergeEntries entries upper = entries := by
        apply mergeEntries_eq_self
        intro k v hmem
        obtain ⟨b, hb⟩ := hget k v hmem
        exact ⟨v.over b, hb, ih k v hmem (Entries.Proper.of_mem h hmem) (Entries.asDicts_of_mem hentries hmem) b⟩
      have hself : (map .dict upper).mergedOver (map .dict upper) = map .dict upper := by
        have hupper := hagain upper fun k v hmem => ⟨none, Entries.Proper.get?_of_mem h hmem⟩
        exact congrArg (map .dict) hupper
      cases below with
      | none => exact hself
      | some b =>
          cases hb : b.entries? with
          | none =>
              rw [over_without_entries hb]
              exact hself
          | some lower =>
              obtain ⟨kind', rfl⟩ := eq_map_of_entries? hb
              have hmerged := hagain (mergeEntries lower upper) fun k v hmem => by
                rw [get?_mergeEntries h lower k, Entries.Proper.get?_of_mem h hmem]
                exact ⟨lower.get? k, rfl⟩
              exact congrArg (map .dict) hmerged

/-- Entries change nothing in what they were put over already, if their mappings are dictionaries. -/
theorem mergeEntries_again {upper : Entries} (h : Entries.Proper upper) (lower : Entries)
    (hdicts : Entries.asDicts upper = upper) :
    mergeEntries (mergeEntries lower upper) upper = mergeEntries lower upper := by
  have hvalue := Value.mergedOver_again (v := .map .dict upper) h (congrArg (Value.map .dict) hdicts)
    (some (.map .dict lower))
  exact (Value.map.inj hvalue).2

/-! ## The merge of two layers -/

/-- What a merge has at a path, by what the layers have there. -/
structure MergesAt (lower upper merged : Value) (p : List Key) : Prop where
  /-- What is no mapping in the upper layer stands. -/
  plain : ∀ v, upper.at? p = some v → v.isMapping = false → merged.at? p = some v
  /-- Two mappings are merged. -/
  both : ∀ kind es kind' es', upper.at? p = some (.map kind es) → lower.at? p = some (.map kind' es') →
    merged.at? p = some (.map .dict (mergeEntries es' es))
  /-- A mapping that meets none stands. -/
  alone : ∀ kind es, upper.at? p = some (.map kind es) → (∀ b, lower.at? p = some b → b.isMapping = false) →
    merged.at? p = some (.map kind es)
  /-- Behind something in the upper layer that is no mapping there is nothing. -/
  blocked : upper.at? p = none → upper.Blocks p → merged.at? p = none
  /-- Anywhere else the lower layer stands. -/
  free : upper.at? p = none → ¬upper.Blocks p → merged.at? p = lower.at? p

theorem Value.mergesAt {lower upper : Value} (h : upper.Proper) (p : List Key) :
    MergesAt lower upper (lower.mergedOver upper) p where
  plain v hv hplain := by
    have hover := at?_over_of_some h hv (some lower)
    rwa [over_of_plain (entries?_of_plain hplain)] at hover
  both kind es kind' es' hes hes' := by
    have hover := at?_over_of_some h hes (some lower)
    rwa [Option.bind_some, hes'] at hover
  alone kind es hes hplain := by
    have hover := at?_over_of_some h hes (some lower)
    cases hb : lower.at? p with
    | none => rwa [Option.bind_some, hb] at hover
    | some b =>
        have hentries := entries?_of_plain (hplain b hb)
        rwa [Option.bind_some, hb, over_without_entries hentries] at hover
  blocked _ hblocks := at?_over_of_blocks h hblocks (some lower)
  free hnone hfree := at?_over_of_none h hnone hfree (some lower)

/-- **A merge, path by path.** Two layers of nested mappings have a merge, and it is one of nested mappings again. At
    each path that leads below the layers themselves it has what `MergesAt` says. An empty layer changes nothing, above
    or below another; and a layer that is put on once more changes nothing, but for the kind of mappings that are no
    dictionaries. -/
theorem merge_at_paths {lower upper : Entries} (hlower : Entries.Proper lower) (hupper : Entries.Proper upper)
    (kind kind' : MapKind) (host : Host) :
    ∃ merged, ((Value.map kind lower).merge (.map kind' upper)).run host = (.ok merged, host)
      ∧ Entries.Proper merged
      ∧ (∀ p, p ≠ [] → MergesAt (.map kind lower) (.map kind' upper) (.map .dict merged) p)
      ∧ ((Value.map kind []).merge (.map kind' upper)).run host = (.ok upper, host)
      ∧ ((Value.map kind lower).merge (.map kind' [])).run host = (.ok lower, host)
      ∧ ∃ again, ((Value.map .dict merged).merge (.map kind' upper)).run host = (.ok again, host)
        ∧ Entries.asDicts again = Entries.asDicts merged
        ∧ (Entries.asDicts upper = upper → again = merged) := by
  have habove : (Value.map kind' upper).Proper := hupper
  refine ⟨mergeEntries lower upper, rfl, hlower.mergeEntries hupper, fun p _ => Value.mergesAt habove p, ?_, rfl,
    mergeEntries (mergeEntries lower upper) upper, rfl, ?_, mergeEntries_again hupper lower⟩
  · have hempty : mergeEntries [] upper = upper := mergeEntries_eq_append hupper fun k v _ => rfl
    show (Except.ok (mergeEntries [] upper), host) = _
    rw [hempty]
  · -- as dictionaries, the upper layer is one of dictionaries only
    have hdicts : (Value.map .dict upper).asDicts.asDicts = (Value.map .dict upper).asDicts := Value.asDicts_asDicts _
    have hproper : (Value.map .dict upper).asDicts.Proper := Value.Proper.asDicts hupper
    rw [asDicts_mergeEntries, asDicts_mergeEntries]
    exact mergeEntries_again hproper _ (Value.map.inj hdicts).2

/-- A scalar over a mapping, a mapping over a scalar and, one level down, both at once. -/
theorem merge_at_conflicting_paths :
    ∃ lower upper : Entries,
      lower = .ofNames [("a", .ofNames [("b", .int 1)]), ("c", .int 2), ("d", .ofNames [("e", .int 3), ("f", .null)])]
      ∧ upper = .ofNames [("a", .int 4), ("c", .ofNames [("b", .int 5)]), ("d", .ofNames [("e", .ofNames [])])]
      ∧ Entries.Proper lower ∧ Entries.Proper upper
      ∧ ∃ merged, ((Value.map .dict lower).merge (.map .userDict upper)).run .fresh = (.ok merged, .fresh)
        ∧ (Value.map .dict merged).at? [.text ['a']] = some (.int 4)
        ∧ (Value.map .dict merged).at? [.text ['a'], .text ['b']] = none
        ∧ (Value.map .dict merged).at? [.text ['c'], .text ['b']] = some (.int 5)
        ∧ (Value.map .dict merged).at? [.text ['d'], .text ['e']] = some (.ofNames [])
        ∧ (Value.map .dict merged).at? [.text ['d'], .text ['f']] = some .null := by
  have hlower : Entries.Proper (Entries.ofNames [("a", .ofNames [("b", .int 1)]), ("c", .int 2),
      ("d", .ofNames [("e", .int 3), ("f", .null)])]) :=
    ⟨rfl, ⟨rfl, trivial, trivial⟩, rfl, trivial, rfl, ⟨rfl, trivial, rfl, trivial, trivial⟩, trivial⟩
  have hupper : Entries.Proper (Entries.ofNames [("a", .int 4), ("c", .ofNames [("b", .int 5)]),
      ("d", .ofNames [("e", .ofNames [])])]) :=
    ⟨rfl, trivial, rfl, ⟨rfl, trivial, trivial⟩, rfl, ⟨rfl, trivial, trivial⟩, trivial⟩
  obtain ⟨merged, hrun, -, hpaths, -⟩ := merge_at_paths hlower hupper .dict .userDict .fresh
  refine ⟨_, _, rfl, rfl, hlower, hupper, merged, hrun, ?_, ?_, ?_, ?_, ?_⟩
  · exact (hpaths _ (List.cons_ne_nil _ _)).plain _ rfl rfl
  · exact (hpaths _ (List.cons_ne_nil _ _)).blocked rfl ⟨[.text ['a']], [.text ['b']], _, rfl, nofun, rfl, rfl⟩
  · exact (hpaths _ (List.cons_ne_nil _ _)).plain _ rfl rfl
  · refine (hpaths _ (List.cons_ne_nil _ _)).alone _ _ rfl fun b hb => ?_
    obtain rfl := Option.some.inj hb
    rfl
  · refine (hpaths _ (List.cons_ne_nil _ _)).free rfl ?_
    rintro ⟨q, r, x, hq, hr, hx, hplain⟩
    match q with
    | [] =>
        obtain rfl := Option.some.inj hx
        cases hplain
    | [k] =>
        obtain ⟨rfl, -⟩ := List.cons.inj hq
        obtain rfl := Option.some.inj hx
        cases hplain
    | _ :: _ :: q => exact hr (List.append_eq_nil_iff.mp (List.cons.inj (List.cons.inj hq).2).2.symm).2

end Mustache

import Mustache.Config.Load
import Mustache.Proofs.Sharing

/-!
# `Mustache.Proofs.Layers` — a document over the defaults

A document that was read is put over the default layer. What only the document has is not copied, so that what it
shares stays shared. The store stays closed all the same, and the configuration is a dictionary. What it shows is what a
merge of values gives.

* `Graph.Store.overlay_closed`, `Config.closed_of_withFile` — **the store of a configuration is closed**, and its root
  is a dictionary;
* `Entries.mergeEntries_eq` — a merge in one go: what the lower layer has, and after it what only the upper one has;
* `Graph.Store.overlay_value`, `Config.value_ofDocument` — **a node over a value shows the merge** of what the node
  shows over the value, and so does a configuration;
* `Graph.Store.overlay_owns`, `Config.unshared_ofDocument` — **what shares nothing shares nothing over a value**.
-/

namespace Mustache

open Mustache.Graph

/-! ## A merge in one go -/

/-- No two keys of a table are the same. -/
def Table.Distinct {κ α : Type} [BEq κ] : Table κ α → Prop
  | [] => True
  | e :: t => Table.get? t e.1 = none ∧ Distinct t

namespace Table

variable {κ α β : Type} [BEq κ] {t : Table κ α} {key : κ} {value : α}

/-- The entries whose keys another table does not have. -/
def beyond (t : Table κ α) (u : Table κ β) : Table κ α := t.filter fun e => !u.contains e.1

theorem ne_of_get?_eq_none (h : t.get? key = none) : ∀ e ∈ t, (e.1 == key) = false := by
  induction t with
  | nil => exact nofun
  | cons e t ih =>
      rw [get?] at h
      split at h
      · cases h
      · rename_i hne
        exact List.forall_mem_cons.mpr ⟨Bool.eq_false_iff.mpr hne, ih h⟩

theorem Distinct.map (h : t.Distinct) (f : α → β) : Distinct (t.map (Prod.map id f)) := by
  induction t with
  | nil => trivial
  | cons e t ih =>
      refine ⟨?_, ih h.2⟩
      show get? (t.map (Prod.map id f)) e.1 = none
      rw [get?_map, h.1]
      rfl

theorem Distinct.put [EquivBEq κ] (h : t.Distinct) : (t.put key value).Distinct := by
  induction t with
  | nil => exact ⟨rfl, trivial⟩
  | cons e t ih =>
      rw [Table.put]
      cases hkey : e.1 == key with
      | true =>
          rw [if_pos rfl]
          exact h
      | false =>
          rw [if_neg Bool.false_ne_true]
          exact ⟨(get?_put_of_ne t value (BEq.symm_false hkey)).trans h.1, ih h.2⟩

theorem beyond_nil (t : Table κ α) : t.beyond ([] : Table κ β) = t := by
  simp [beyond, contains, get?]

theorem beyond_subset (t : Table κ α) (u : Table κ β) : t.beyond u ⊆ t := List.filter_subset_self t

theorem beyond_map {γ : Type} (t : Table κ α) (u : Table κ β) (f : α → γ) :
    beyond (t.map (Prod.map id f)) u = (t.beyond u).map (Prod.map id f) := by
  rw [beyond, List.filter_map]
  rfl

theorem cons_beyond_of_get? {u : Table κ β} {x : β} (h : u.get? key = some x) :
    beyond ((key, value) :: t) u = t.beyond u := by
  simp [beyond, contains, h]

theorem cons_beyond_of_get?_none {u : Table κ β} (h : u.get? key = none) :
    beyond ((key, value) :: t) u = (key, value) :: t.beyond u := by
  simp [beyond, contains, h]

/-- A key that a table does not have may be set in the other one. -/
theorem beyond_put [EquivBEq κ] {u : Table κ β} (h : t.get? key = none) (x : β) :
    t.beyond (u.put key x) = t.beyond u := by
  refine List.filter_congr fun e he => ?_
  rw [contains, get?_put_of_ne u x (BEq.symm_false (ne_of_get?_eq_none h e he)), contains]

/-- What is beyond a key and others is what is beyond the others without the key. -/
theorem beyond_cons_right [EquivBEq κ] (t : Table κ α) (key : κ) (x : β) (u : Table κ β) :
    t.beyond ((key, x) :: u) = (t.erase key).beyond u := by
  unfold beyond erase
  rw [List.filter_filter]
  refine List.filter_congr fun e _ => ?_
  by_cases hkey : e.1 == key
  · simp [contains, get?, hkey, BEq.symm hkey]
  · have hkey' : (key == e.1) = false := BEq.symm_false (Bool.eq_false_iff.mpr hkey)
    simp [contains, get?, hkey, hkey']

end Table

namespace Entries

variable {lower upper : Entries} {k : Key} {v below : Value}

theorem Proper.distinct (h : Proper lower) : Table.Distinct lower := by
  induction lower with
  | nil => trivial
  | cons e lower ih => exact ⟨h.1, ih h.2.2⟩

/-- An entry of the lower layer with what the upper one puts over it. -/
def mergedEntry (upper : Entries) (e : Key × Value) : Key × Value :=
  (e.1, match upper.get? e.1 with
    | some v => e.2.mergedOver v
    | none => e.2)

theorem mergedEntry_of_get? {e : Key × Value} (h : upper.get? e.1 = some v) :
    mergedEntry upper e = (e.1, e.2.mergedOver v) := by
  rw [mergedEntry, h]

theorem mergedEntry_of_get?_none {e : Key × Value} (h : upper.get? e.1 = none) : mergedEntry upper e = e := by
  rw [mergedEntry, h]

theorem mergedEntry_cons {e : Key × Value} (h : (k == e.1) = false) :
    mergedEntry ((k, v) :: upper) e = mergedEntry upper e := by
  rw [mergedEntry, Table.get?, if_neg (Bool.eq_false_iff.mp h), mergedEntry]

/-- Entries that have nothing to do with a key. -/
theorem map_mergedEntry_cons (h : lower.get? k = none) :
    lower.map (mergedEntry ((k, v) :: upper)) = lower.map (mergedEntry upper) :=
  List.map_congr_left fun e he => mergedEntry_cons (BEq.symm_false (Table.ne_of_get?_eq_none h e he))

/-- One entry of the upper layer put over the lower one, before the others. -/
theorem map_mergedEntry_put (hlower : Table.Distinct lower) (hnew : upper.get? k = none)
    (hbelow : lower.get? k = some below) : (lower.put k (below.mergedOver v)).map (mergedEntry upper)
      = lower.map (mergedEntry ((k, v) :: upper)) := by
  induction lower with
  | nil => cases hbelow
  | cons e lower ih =>
      obtain ⟨key, w⟩ := e
      obtain ⟨hhead, hrest⟩ := hlower
      rw [Table.get?] at hbelow
      rw [Table.put]
      cases hkey : key == k with
      | true =>
          rw [hkey, if_pos rfl] at hbelow
          have hlower : Table.get? lower k = none := by rw [← Table.get?_congr lower hkey, hhead]
          have hupper : Table.get? upper key = none := by rw [Table.get?_congr upper hkey, hnew]
          have hcons : Table.get? ((k, v) :: upper) key = some v := if_pos (BEq.symm hkey)
          obtain rfl := Option.some.inj hbelow
          rw [if_pos rfl, List.map_cons, List.map_cons, map_mergedEntry_cons hlower]
          rw [mergedEntry_of_get?_none hupper, mergedEntry_of_get? hcons]
      | false =>
          rw [hkey, if_neg Bool.false_ne_true] at hbelow
          rw [if_neg Bool.false_ne_true, List.map_cons, List.map_cons, ih hrest hbelow,
            mergedEntry_cons (BEq.symm_false hkey)]

/-- **A merge in one go**: the entries of the lower layer, and after them what only the upper one has. -/
theorem mergeEntries_eq (hlower : Table.Distinct lower) (hupper : Table.Distinct upper) : mergeEntries lower upper
    = lower.map (mergedEntry upper) ++ upper.beyond lower := by
  induction upper generalizing lower with
  | nil =>
      have hid : mergedEntry [] = id := rfl
      rw [hid, List.map_id]
      exact (List.append_nil lower).symm
  | cons e upper ih =>
      obtain ⟨k, v⟩ := e
      obtain ⟨hnew, hrest⟩ := hupper
      rw [mergeEntries_cons, ih hlower.put hrest, Table.beyond_put hnew]
      cases hbelow : lower.get? k with
      | some below =>
          rw [Table.cons_beyond_of_get? hbelow]
          exact congrArg (· ++ _) (map_mergedEntry_put hlower hnew hbelow)
      | none =>
          rw [Table.cons_beyond_of_get?_none hbelow, Table.put_eq_append hbelow, List.map_append,
            map_mergedEntry_cons hbelow, List.append_assoc]
          exact congrArg (_ ++ · :: _) (mergedEntry_of_get?_none hnew)

end Entries

namespace Graph.Store

variable {st st' : Store} {n : Node}

/-! ## Closed stores -/

theorem overlay_map (kind : MapKind) (lower : List (Key × Value)) {es : Table Key Node} (h : st.map? n = some es) :
    st.overlay (.map kind lower) n
      = ((st.overlayEntries es lower).1 ++ [.map .dict ((st.overlayEntries es lower).2
          ++ es.beyond lower)], .held (st.overlayEntries es lower).1.length) := by
  rw [overlay, h]
  rfl

theorem overlay_of_no_map (base : Value) (h : base.entries? = none ∨ st.map? n = none) :
    st.overlay base n = (st, n) := by
  cases base with
  | map kind lower =>
      rcases h with h | h
      · cases h
      · rw [overlay, h]
  | _ => rfl

/-- What is put over an entry of the lower layer, if anything. -/
def overlayEntry (st : Store) (upper : Table Key Node) (k : Key) (v : Value) : Store × Node :=
  match upper.get? k with
  | some n => st.overlay v n
  | none => st.hold v

theorem overlayEntries_cons (upper : Table Key Node) (k : Key) (v : Value) (rest : List (Key × Value)) :
    st.overlayEntries upper ((k, v) :: rest)
      = (((st.overlayEntry upper k v).1.overlayEntries upper rest).1,
        (k, (st.overlayEntry upper k v).2) :: ((st.overlayEntry upper k v).1.overlayEntries upper rest).2) := by
  rw [overlayEntries]
  unfold overlayEntry
  cases upper.get? k <;> rfl

/-- The nodes in a mapping of a closed store are in the store. -/
theorem Closed.of_map? (h : st.Closed) {es : Table Key Node} (hmap : st.map? n = some es) :
    ∀ m ∈ es.map Prod.snd, m.IsIn st := by
  cases n with
  | leaf v => cases hmap
  | held place =>
      rw [map?] at hmap
      split at hmap
      · rename_i kind es' hplace
        obtain rfl := Option.some.inj hmap
        exact h _ (List.mem_of_getElem? hplace)
      · cases hmap

/-- What was put into a closed store, and the store: it goes on from what was in it before, and is closed. -/
def GrownTo (st : Store) (out : Store × Node) : Prop := st <+: out.1 ∧ out.1.Closed ∧ out.2.IsIn out.1

/-- An entry is what it was in the lower layer, or a node over it. -/
theorem overlayEntry_closed_of (h : st.Closed) {upper : Table Key Node} (hupper : ∀ m ∈ upper.map Prod.snd, m.IsIn st)
    (k : Key) {v : Value} (hover : ∀ n, n.IsIn st → GrownTo st (st.overlay v n)) :
    GrownTo st (st.overlayEntry upper k v) := by
  unfold overlayEntry
  cases hget : upper.get? k with
  | none => exact hold_closed h v
  | some n => exact hover n (hupper n (Table.mem_of_get? hget))

mutual

/-- **A closed store stays closed when a node is put over a value**, and goes on from what was in it before. -/
theorem overlay_closed {st : Store} (h : st.Closed) (base : Value) {n : Node} (hn : n.IsIn st) :
    GrownTo st (st.overlay base n) := by
  cases base with
  | map kind lower =>
      cases hmap : st.map? n with
      | none =>
          rw [overlay_of_no_map _ (Or.inr hmap)]
          exact ⟨List.prefix_rfl, h, hn⟩
      | some es =>
          have hes := h.of_map? hmap
          obtain ⟨hgrown, hclosed, hmerged⟩ := overlayEntries_closed h hes lower
          rw [overlay_map kind lower hmap]
          refine ⟨hgrown.trans (List.prefix_append _ _), hclosed.concat ?_, isIn_concat _ _⟩
          -- what only the document has was in the store before
          have hadded : ∀ m ∈ (es.beyond lower).map Prod.snd, m ∈ es.map Prod.snd :=
            List.map_subset _ (Table.beyond_subset es lower)
          show ∀ m ∈ List.map Prod.snd (_ ++ _), _
          rw [List.map_append]
          exact List.forall_mem_append.mpr ⟨hmerged, fun m hm => (hes m (hadded m hm)).mono hgrown.length_le⟩
  | _ => exact ⟨List.prefix_rfl, h, hn⟩

theorem overlayEntries_closed {st : Store} (h : st.Closed) {upper : Table Key Node}
    (hupper : ∀ m ∈ upper.map Prod.snd, m.IsIn st) (lower : List (Key × Value)) :
    st <+: (st.overlayEntries upper lower).1 ∧ (st.overlayEntries upper lower).1.Closed ∧
      ∀ m ∈ (st.overlayEntries upper lower).2.map Prod.snd, m.IsIn (st.overlayEntries upper lower).1 := by
  cases lower with
  | nil => exact ⟨List.prefix_rfl, h, nofun⟩
  | cons e rest =>
      obtain ⟨k, v⟩ := e
      obtain ⟨hgrown, hclosed, hin⟩ := overlayEntry_closed_of h hupper k fun n hn => overlay_closed h v hn
      obtain ⟨hgrown', hclosed', hin'⟩ :=
        overlayEntries_closed hclosed (fun m hm => (hupper m hm).mono hgrown.length_le) rest
      rw [overlayEntries_cons]
      refine ⟨hgrown.trans hgrown', hclosed', ?_⟩
      exact List.forall_mem_cons.mpr ⟨hin.mono hgrown'.length_le, hin'⟩

end

theorem overlayEntry_closed (h : st.Closed) {upper : Table Key Node} (hupper : ∀ m ∈ upper.map Prod.snd, m.IsIn st)
    (k : Key) (v : Value) : GrownTo st (st.overlayEntry upper k v) :=
  overlayEntry_closed_of h hupper k fun _ hn => overlay_closed h v hn

/-! ## What a node over a value shows -/

/-- No mapping of a store has a key twice. -/
def Distinct (st : Store) : Prop := ∀ n es, st.map? n = some es → es.Distinct

theorem map?_of_grown (h : st <+: st') (hn : n.IsIn st) : st'.map? n = st.map? n := by
  obtain ⟨more, rfl⟩ := h
  cases n with
  | leaf v => rfl
  | held place => rw [map?, List.getElem?_append_left hn, map?]

/-- What comes into a closed store makes no difference to what is in it. -/
theorem value_of_grown (hclosed : st.Closed) (h : st <+: st') (depth : Nat) {n : Node} (hn : n.IsIn st) :
    st'.value depth n = st.value depth n := by
  induction depth generalizing n with
  | zero => cases n <;> rfl
  | succ depth ih =>
      obtain ⟨more, rfl⟩ := h
      cases n with
      | leaf v => rfl
      | held place =>
          rw [value, value, List.getElem?_append_left hn]
          cases hplace : st[place]? with
          | none => rfl
          | some c =>
              have hnodes : ∀ m ∈ c.nodes, value (st ++ more) depth m = st.value depth m :=
                fun m hm => ih (hclosed c (List.mem_of_getElem? hplace) m hm)
              cases c with
              | map kind es =>
                  refine congrArg (Value.map kind) (List.map_congr_left fun e he => ?_)
                  exact Prod.ext rfl (hnodes e.2 (List.mem_map_of_mem he))
              | seq kind ns => exact congrArg (Value.seq kind) (List.map_congr_left hnodes)

theorem value_map {es : Table Key Node} (h : st.map? n = some es) (depth : Nat) :
    ∃ kind, st.value (depth + 1) n = .map kind (es.map (Prod.map id (st.value depth))) := by
  cases n with
  | leaf v => cases h
  | held place =>
      rw [map?] at h
      split at h
      · rename_i kind es' hplace
        obtain rfl := Option.some.inj h
        exact ⟨kind, by rw [value, hplace]⟩
      · cases h

/-- What is no mapping shows none. -/
theorem entries?_value (hn : n.IsIn st) (h : st.map? n = none) (depth : Nat) : (st.value depth n).entries? = none := by
  cases n with
  | leaf v =>
      rw [value]
      exact hn
  | held place =>
      cases depth with
      | zero => rfl
      | succ depth =>
          rw [value]
          cases hplace : st[place]? with
          | none => rfl
          | some c =>
              cases c with
              | map kind es =>
                  rw [map?, hplace] at h
                  cases h
              | seq kind ns => rfl

theorem map_value_congr {es : Table Key Node} {f g : Node → Value} (h : ∀ m ∈ es.map Prod.snd, f m = g m) :
    es.map (Prod.map id f) = es.map (Prod.map id g) :=
  List.map_congr_left fun e he => Prod.ext rfl (h e.2 (List.mem_map_of_mem he))

mutual

/-- **A node over a value shows the merge** of what the node shows over the value, if enough is shown of it. -/
theorem overlay_value (hclosed : st.Closed) (hdistinct : st.Distinct) {st' : Store} (hgrown : st <+: st')
    (hclosed' : st'.Closed) (base : Value) (hbase : base.Proper) {n : Node} (hn : n.IsIn st) :
    ∃ bound, ∀ depth ≥ bound,
      (st'.overlay base n).1.value depth (st'.overlay base n).2 = base.mergedOver (st.value depth n) := by
  cases base with
  | map kind lower =>
      cases hmap : st.map? n with
      | none =>
          rw [overlay_of_no_map _ (Or.inr ((map?_of_grown hgrown hn).trans hmap))]
          refine ⟨0, fun depth _ => ?_⟩
          rw [value_of_grown hclosed hgrown depth hn, Value.mergedOver_of_plain (entries?_value hn hmap depth)]
      | some es =>
          have hes := hclosed.of_map? hmap
          have hes' : ∀ m ∈ es.map Prod.snd, m.IsIn st' := fun m hm => (hes m hm).mono hgrown.length_le
          obtain ⟨bound, hbound⟩ := overlayEntries_value hclosed hdistinct hgrown hclosed' hes lower hbase
          obtain ⟨hgrown₁, hclosed₁, hmerged⟩ := overlayEntries_closed hclosed' hes' lower
          refine ⟨bound + 1, fun depth hdepth => ?_⟩
          obtain ⟨depth, rfl⟩ := Nat.exists_eq_add_of_le' (Nat.le_trans (Nat.le_add_left 1 bound) hdepth)
          obtain ⟨kind', hvalue⟩ := value_map hmap depth
          rw [overlay_map kind lower ((map?_of_grown hgrown hn).trans hmap), hvalue]
          dsimp only
          rw [value, List.getElem?_concat_length]
          refine congrArg (Value.map .dict) ?_
          rw [Entries.mergeEntries_eq hbase.distinct ((hdistinct n es hmap).map _),
            ← hbound depth (Nat.le_of_succ_le_succ hdepth), List.map_append, Table.beyond_map]
          have hgrown₂ := List.prefix_append (st'.overlayEntries es lower).1
            [.map .dict ((st'.overlayEntries es lower).2 ++ es.beyond lower)]
          have hmergedValues := map_value_congr fun m hm => value_of_grown hclosed₁ hgrown₂ depth (hmerged m hm)
          -- what only the document has is as it was at first
          have hadded : ∀ m ∈ (es.beyond lower).map Prod.snd, m.IsIn st :=
            fun m hm => hes m (List.map_subset _ (Table.beyond_subset es lower) hm)
          have haddedValues := map_value_congr fun m hm =>
            value_of_grown hclosed ((hgrown.trans hgrown₁).trans hgrown₂) depth (hadded m hm)
          exact congrArg₂ (· ++ ·) hmergedValues haddedValues
  | _ =>
      rw [overlay_of_no_map _ (Or.inl rfl)]
      refine ⟨0, fun depth _ => ?_⟩
      rw [value_of_grown hclosed hgrown depth hn]
      exact (Value.over_without_entries rfl).symm

theorem overlayEntries_value (hclosed : st.Closed) (hdistinct : st.Distinct) {st' : Store} (hgrown : st <+: st')
    (hclosed' : st'.Closed) {upper : Table Key Node} (hupper : ∀ m ∈ upper.map Prod.snd, m.IsIn st)
    (lower : List (Key × Value)) (hlower : Entries.Proper lower) :
    ∃ bound, ∀ depth ≥ bound,
      (st'.overlayEntries upper lower).2.map (Prod.map id ((st'.overlayEntries upper lower).1.value depth))
        = lower.map (Entries.mergedEntry (upper.map (Prod.map id (st.value depth)))) := by
  cases lower with
  | nil => exact ⟨0, fun _ _ => rfl⟩
  | cons e rest =>
      obtain ⟨k, v⟩ := e
      obtain ⟨-, hv, hrest⟩ := hlower
      have hupper' : ∀ m ∈ upper.map Prod.snd, m.IsIn st' := fun m hm => (hupper m hm).mono hgrown.length_le
      obtain ⟨hgrown₁, hclosed₁, hin⟩ := overlayEntry_closed hclosed' hupper' k v
      have hhead : ∃ bound, ∀ depth ≥ bound,
          (k, (st'.overlayEntry upper k v).1.value depth (st'.overlayEntry upper k v).2)
            = Entries.mergedEntry (upper.map (Prod.map id (st.value depth))) (k, v) := by
        unfold overlayEntry Entries.mergedEntry
        cases hget : upper.get? k with
        | none =>
            obtain ⟨more, ps, hstore, howns, -⟩ := st'.hold_owns v
            refine ⟨ps.length, fun depth hdepth => ?_⟩
            rw [Table.get?_map, hget]
            dsimp only
            rw [hstore, howns.value_eq hdepth]
            rfl
        | some n =>
            obtain ⟨bound, hbound⟩ :=
              overlay_value hclosed hdistinct hgrown hclosed' v hv (hupper n (Table.mem_of_get? hget))
            refine ⟨bound, fun depth hdepth => ?_⟩
            rw [Table.get?_map, hget]
            exact congrArg (k, ·) (hbound depth hdepth)
      obtain ⟨bound, hbound⟩ := hhead
      obtain ⟨bound', hbound'⟩ :=
        overlayEntries_value hclosed hdistinct (hgrown.trans hgrown₁) hclosed₁ hupper rest hrest
      have hupper₁ : ∀ m ∈ upper.map Prod.snd, m.IsIn (st'.overlayEntry upper k v).1 :=
        fun m hm => (hupper' m hm).mono hgrown₁.length_le
      obtain ⟨hgrown₂, -, -⟩ := overlayEntries_closed hclosed₁ hupper₁ rest
      refine ⟨max bound bound', fun depth hdepth => ?_⟩
      rw [overlayEntries_cons, List.map_cons, List.map_cons, ← hbound depth (Nat.le_trans (Nat.le_max_left _ _) hdepth),
        ← hbound' depth (Nat.le_trans (Nat.le_max_right _ _) hdepth)]
      exact congrArg (fun shown => (k, shown) :: _) (value_of_grown hclosed₁ hgrown₂ depth hin)

end

theorem map?_of_dict? {place : Place} (h : st.dict? n = some place) : ∃ es, st.map? n = some es := by
  cases n with
  | leaf v => cases h
  | held p =>
      rw [dict?] at h
      split at h
      · rename_i kind es hplace
        exact ⟨es, by rw [map?, hplace]⟩
      · cases h

end Graph.Store

/-! ## What a node over a value owns -/

namespace Graph.OwnsAll

variable {st : Store} {below : Table Key Node} {es : Entries} {ps : List Place}

/-- What stands under some of the keys owns a part of what stands under all of them. -/
theorem filter (hkeys : below.keys = Table.keys es) (h : OwnsAll st (below.map Prod.snd) (es.map Prod.snd) ps)
    (f : Key → Bool) :
    Table.keys (below.filter fun e => f e.1) = Table.keys (es.filter fun e => f e.1) ∧
      ∃ qs, OwnsAll st ((below.filter fun e => f e.1).map Prod.snd) ((es.filter fun e => f e.1).map Prod.snd) qs ∧
        qs ⊆ ps := by
  induction below generalizing es ps with
  | nil =>
      obtain rfl : es = [] := List.map_eq_nil_iff.mp hkeys.symm
      exact ⟨rfl, ps, h, List.Subset.refl ps⟩
  | cons e below ih =>
      obtain ⟨k, n⟩ := e
      obtain ⟨v, es, hs, rs, rfl, hkeysrest, hhead, hrest, hapart, rfl⟩ := of_cons hkeys h
      obtain ⟨hkeys', qs, hall, hqs⟩ := ih hkeysrest hrest
      have hqs' : qs ⊆ hs ++ rs := List.subset_append_of_subset_right hs hqs
      by_cases hf : f k
      · simp only [List.filter_cons, hf, if_true, List.map_cons, Table.keys]
        refine ⟨congrArg (k :: ·) hkeys', hs ++ qs, ?_, List.append_subset.mpr ⟨List.subset_append_left hs rs, hqs'⟩⟩
        exact cons_iff.mpr ⟨hs, qs, hhead, hall, List.disjoint_of_subset_right hqs hapart, rfl⟩
      · simp only [List.filter_cons, hf]
        exact ⟨hkeys', qs, hall, hqs'⟩

/-- What stands under a key, and what stands under the others, have no container in common. -/
theorem erase (hkeys : below.keys = Table.keys es) (h : OwnsAll st (below.map Prod.snd) (es.map Prod.snd) ps)
    (key : Key) :
    ∃ rs, OwnsAll st ((below.erase key).map Prod.snd) ((es.erase key).map Prod.snd) rs ∧ rs ⊆ ps ∧
      (below.get? key = none ∧ es.get? key = none ∨
        ∃ n v qs, below.get? key = some n ∧ es.get? key = some v ∧ Owns st n v qs ∧ qs ⊆ ps ∧ qs.Disjoint rs) := by
  induction below generalizing es ps with
  | nil =>
      obtain rfl : es = [] := List.map_eq_nil_iff.mp hkeys.symm
      exact ⟨ps, h, List.Subset.refl ps, Or.inl ⟨rfl, rfl⟩⟩
  | cons e below ih =>
      obtain ⟨k, m⟩ := e
      obtain ⟨v, es, hs, rs, rfl, hkeysrest, hhead, hrest, hapart, rfl⟩ := of_cons hkeys h
      by_cases hkey : k == key
      · obtain ⟨-, qs, hall, hqs⟩ := filter hkeysrest hrest fun k => !(k == key)
        refine ⟨qs, ?_, List.subset_append_of_subset_right hs hqs, Or.inr ⟨m, v, hs, ?_, ?_, hhead, ?_, ?_⟩⟩
        · simpa [Table.erase, hkey] using hall
        · exact if_pos hkey
        · exact if_pos hkey
        · exact List.subset_append_left hs rs
        · exact List.disjoint_of_subset_right hqs hapart
      · obtain ⟨rs', hall, hrs', hlook⟩ := ih hkeysrest hrest
        have hget {α : Type} (a : α) (t : Table Key α) : Table.get? ((k, a) :: t) key = Table.get? t key := if_neg hkey
        have hapart' := List.disjoint_of_subset_right hrs' hapart
        refine ⟨hs ++ rs', ?_, ?_, ?_⟩
        · simpa [Table.erase, hkey] using cons_iff.mpr ⟨hs, rs', hhead, hall, hapart', rfl⟩
        · exact List.append_subset.mpr
            ⟨List.subset_append_left hs rs, List.subset_append_of_subset_right hs hrs'⟩
        · rw [hget, hget]
          refine hlook.imp_right ?_
          rintro ⟨n, w, qs, hn, hw, howns, hqs, hdisjoint⟩
          refine ⟨n, w, qs, hn, hw, howns, List.subset_append_of_subset_right hs hqs, ?_⟩
          apply List.disjoint_append_right.mpr
          exact ⟨List.disjoint_symm (List.disjoint_of_subset_right hqs hapart), hdisjoint⟩

end Graph.OwnsAll

namespace Graph.Store

section Erasing

variable {lower : List (Key × Value)} {k : Key}

/-- A key that a layer does not have makes no difference to what is put over it. -/
theorem overlayEntries_erase (upper : Table Key Node) (h : Table.get? lower k = none) (st : Store) :
    st.overlayEntries (upper.erase k) lower = st.overlayEntries upper lower := by
  induction lower generalizing st with
  | nil => rfl
  | cons e lower ih =>
      have hne : (k == e.1) = false := BEq.symm_false (Table.ne_of_get?_eq_none h e List.mem_cons_self)
      have hentry : st.overlayEntry (upper.erase k) e.1 e.2 = st.overlayEntry upper e.1 e.2 := by
        unfold overlayEntry
        rw [Table.get?_erase_of_ne upper hne]
      rw [Table.get?, if_neg (Bool.eq_false_iff.mp (BEq.symm_false hne))] at h
      rw [overlayEntries_cons, overlayEntries_cons, hentry, ih h]

theorem map_mergedEntry_erase (es : Entries) (h : Table.get? lower k = none) :
    lower.map (Entries.mergedEntry (es.erase k)) = lower.map (Entries.mergedEntry es) := by
  refine List.map_congr_left fun e he => ?_
  have hne : (k == e.1) = false := BEq.symm_false (Table.ne_of_get?_eq_none h e he)
  rw [Entries.mergedEntry, Table.get?_erase_of_ne es hne, Entries.mergedEntry]

end Erasing

theorem map?_of_plain {v : Value} {ps : List Place} (h : Owns st n v ps) (hplain : v.entries? = none) :
    st.map? n = none := by
  cases h with
  | leaf _ => rfl
  | map => cases hplain
  | seq hplace => rw [map?, hplace]

/-- What was put into a store, and the store: it is a value, in new containers and some of those that are given. -/
def OwnsNew (st : Store) (v : Value) (ps : List Place) (out : Store × Node) : Prop :=
  ∃ more qs, out.1 = st ++ more ∧ Owns (st ++ more) out.2 v qs ∧ ∀ p ∈ qs, p ∈ ps ∨ st.length ≤ p

mutual

/-- **A node over a value owns what the node owned**, and new containers. So the merge shares nothing if the node does
    not. -/
theorem overlay_owns {st : Store} (base : Value) (hbase : base.Proper) {n : Node} {v : Value} (hv : v.Proper)
    {ps : List Place} (h : Owns st n v ps) : OwnsNew st (base.mergedOver v) ps (st.overlay base n) := by
  have hkept (hover : st.overlay base n = (st, n)) (hmerged : base.mergedOver v = v) :
      OwnsNew st (base.mergedOver v) ps (st.overlay base n) := by
    rw [hover, hmerged]
    exact ⟨[], ps, (List.append_nil st).symm, (List.append_nil st).symm ▸ h, fun p hp => Or.inl hp⟩
  cases base with
  | map kind lower =>
      cases hentries : v.entries? with
      | none =>
          have hmap : st.map? n = none := map?_of_plain h hentries
          exact hkept (overlay_of_no_map _ (Or.inr hmap)) (Value.mergedOver_of_plain hentries)
      | some es =>
          obtain ⟨kind', rfl⟩ := Value.eq_map_of_entries? hentries
          obtain ⟨place, below, rs, rfl, hplace, hkeys, hbelow, -, rfl⟩ := Owns.map_iff.mp h
          have hproper : ∀ w ∈ es.map Prod.snd, w.Proper := by
            intro w hw
            obtain ⟨e, he, rfl⟩ := List.mem_map.mp hw
            exact Entries.Proper.of_mem hv he
          obtain ⟨more, qs, hstore, hkeys', hall, hqs⟩ :=
            overlayEntries_owns hkeys hproper hbelow lower hbase
          have hmap : st.map? (.held place) = some below := by rw [map?, hplace]
          have hmerge : mergeEntries lower es = lower.map (Entries.mergedEntry es) ++ es.beyond lower :=
            Entries.mergeEntries_eq hbase.distinct (Entries.Proper.distinct hv)
          rw [overlay_map kind lower hmap, hstore]
          refine ⟨_, (st ++ more).length :: qs, List.append_assoc _ _ _, ?_,
            List.forall_mem_cons.mpr ⟨Or.inr ?_, fun p hp => ?_⟩⟩
          · show Owns _ _ (.map .dict (mergeEntries lower es)) _
            rw [hmerge, ← List.append_assoc]
            exact Owns.of_map hkeys' hall
          · exact (List.prefix_append st more).length_le
          · exact (hqs p hp).imp_left fun hp => List.mem_cons_of_mem place hp
  | _ => exact hkept (overlay_of_no_map _ (Or.inl rfl)) (Value.over_without_entries rfl)

theorem overlayEntries_owns {st : Store} {upper : Table Key Node} {es : Entries} {ps : List Place}
    (hkeys : upper.keys = Table.keys es) (hes : ∀ w ∈ es.map Prod.snd, w.Proper)
    (h : OwnsAll st (upper.map Prod.snd) (es.map Prod.snd) ps) (lower : List (Key × Value))
    (hlower : Entries.Proper lower) :
    ∃ more qs, (st.overlayEntries upper lower).1 = st ++ more ∧
      Table.keys ((st.overlayEntries upper lower).2 ++ upper.beyond lower)
        = Table.keys (lower.map (Entries.mergedEntry es) ++ es.beyond lower) ∧
      OwnsAll (st ++ more)
        (((st.overlayEntries upper lower).2 ++ upper.beyond lower).map Prod.snd)
        ((lower.map (Entries.mergedEntry es) ++ es.beyond lower).map Prod.snd) qs ∧
      ∀ p ∈ qs, p ∈ ps ∨ st.length ≤ p := by
  cases lower with
  | nil =>
      rw [overlayEntries, Table.beyond_nil, Table.beyond_nil]
      exact ⟨[], ps, (List.append_nil st).symm, hkeys, (List.append_nil st).symm ▸ h, fun p hp => Or.inl hp⟩
  | cons e rest =>
      obtain ⟨k, v⟩ := e
      obtain ⟨hnotin, hv, hrest⟩ := hlower
      have hkeys' : Table.keys (upper.erase k) = Table.keys (es.erase k) := (h.filter hkeys fun k' => !(k' == k)).1
      obtain ⟨rs, hothers, hrs, hlook⟩ := h.erase hkeys k
      have hlt : ∀ p ∈ rs, p < st.length := hothers.lt_length
      -- the first entry takes over nothing that stands under the other keys
      have hfirst : ∃ qs, OwnsNew st (Entries.mergedEntry es (k, v)).2 qs (st.overlayEntry upper k v) ∧ qs ⊆ ps ∧
          qs.Disjoint rs := by
        rcases hlook with ⟨hnone, hnone'⟩ | ⟨n, w, qs, hn, hw, howns, hqs, hdisjoint⟩
        · obtain ⟨more, hs, hstore, howns, hnew⟩ := st.hold_owns v
          rw [overlayEntry, hnone, Entries.mergedEntry_of_get?_none hnone']
          refine ⟨[], ?_, List.nil_subset ps, List.disjoint_nil_left rs⟩
          exact ⟨more, hs, hstore, howns, fun p hp => Or.inr (hnew p hp)⟩
        · rw [overlayEntry, hn, Entries.mergedEntry_of_get? hw]
          exact ⟨qs, overlay_owns v hv (hes w (Table.mem_of_get? hw)) howns, hqs, hdisjoint⟩
      obtain ⟨taken, ⟨more, hs, hstore, hhead, hhs⟩, htaken, hapart⟩ := hfirst
      obtain ⟨more', qs, hstore', hkeysrest, hall, hqs⟩ :=
        overlayEntries_owns hkeys' (fun w hw => hes w (List.map_subset _ (List.filter_subset_self es) hw))
          (hothers.append more) rest hrest
      have hle : st.length ≤ (st ++ more).length := (List.prefix_append st more).length_le
      rw [overlayEntries_erase upper hnotin] at hstore' hkeysrest hall
      rw [map_mergedEntry_erase es hnotin] at hkeysrest hall
      rw [overlayEntries_cons, hstore, Table.beyond_cons_right, Table.beyond_cons_right]
      refine ⟨more ++ more', hs ++ qs, ?_, congrArg (k :: ·) hkeysrest, ?_, ?_⟩
      · rw [hstore', List.append_assoc]
      · rw [← List.append_assoc]
        refine OwnsAll.cons_iff.mpr ⟨hs, qs, OwnsAll.append hhead more', hall, fun p hp hp' => ?_, rfl⟩
        rcases hqs p hp' with hmem | hnew
        · rcases hhs p hp with hmem' | hnew
          · exact hapart hmem' hmem
          · exact Nat.not_lt_of_le hnew (hlt p hmem)
        · exact Nat.not_lt_of_le hnew (OwnsAll.lt_length hhead p hp)
      · refine List.forall_mem_append.mpr ⟨?_, ?_⟩
        · exact fun p hp => (hhs p hp).imp_left fun hmem => htaken hmem
        · exact fun p hp => (hqs p hp).imp (fun hmem => hrs hmem) (Nat.le_trans hle)

end

end Graph.Store

namespace Config

theorem closed_ofMap (es : Entries) : (ofMap .dict es).store.Closed ∧
    (ofMap .dict es).store.dict? (.held (ofMap .dict es).root) = some (ofMap .dict es).root := by
  obtain ⟨-, hclosed, hin⟩ := Store.holdEntries_closed .nil es
  exact ⟨hclosed.concat hin, Store.dict?_concat rfl _⟩

/-- No key comes twice in a mapping of the default layer. -/
theorem proper_defaults : Entries.Proper defaults := by
  repeat' first | exact trivial | apply And.intro | rfl

/-- **A configuration shows the merge** of the default layer and the document, if enough is shown of them. -/
theorem value_ofDocument (document : Graph) (hdistinct : document.store.Distinct) {place : Place}
    (hdict : document.store.dict? document.root = some place) :
    ∃ bound, ∀ depth ≥ bound, (ofDocument document).store.value depth (.held (ofDocument document).root)
      = (Value.map .dict defaults).mergedOver (document.store.value depth document.root) := by
  obtain ⟨es, hmap⟩ := Store.map?_of_dict? hdict
  obtain ⟨bound, hbound⟩ := Store.overlay_value document.closed hdistinct List.prefix_rfl document.closed
    (.map .dict defaults) proper_defaults document.rooted
  rw [Store.overlay_map _ _ hmap] at hbound
  refine ⟨bound, ?_⟩
  rw [ofDocument, Store.overlay_map _ _ hmap]
  exact hbound

/-- **A document that shares nothing gives a configuration that shares nothing**, and shows its merge with the default
    layer. -/
theorem unshared_ofDocument {document : Graph} {kind : MapKind} {es : Entries} {ps : List Place}
    (hes : Entries.Proper es) (h : Owns document.store document.root (.map kind es) ps) :
    (ofDocument document).Unshared ∧ (ofDocument document).toEntries = mergeEntries defaults es := by
  obtain ⟨place, below, -, hroot, hplace, -⟩ := Owns.map_iff.mp h
  have hmap : document.store.map? document.root = some below := by rw [hroot, Store.map?, hplace]
  have hv : (Value.map kind es).Proper := hes
  obtain ⟨more, qs, hstore, howns, -⟩ := Store.overlay_owns (.map .dict defaults) proper_defaults hv h
  rw [← hstore, Store.overlay_map _ _ hmap] at howns
  rw [ofDocument, Store.overlay_map _ _ hmap]
  exact unshared_of_owns howns

section Loading

variable [Yaml.Reader] {fs : Files}

/-- The document of a file is a dictionary. -/
theorem dict?_of_ofFile {p : Path} {document : Graph} (h : ofFile fs p = .ok document) :
    ∃ place, document.store.dict? document.root = some place := by
  unfold ofFile at h
  split at h
  · cases h
  · split at h
    · cases h
    · split at h
      · cases h
      · obtain rfl := Except.ok.inj h
        exact ⟨0, rfl⟩
      · split at h
        · rename_i place hdict
          obtain rfl := Except.ok.inj h
          exact ⟨place, hdict⟩
        · cases h

/-- **The store of a configuration is closed**, and its root is a dictionary. -/
theorem closed_of_withFile {file : Option Path} {below : Config} (h : withFile fs file = .ok below) :
    below.store.Closed ∧ below.store.dict? (.held below.root) = some below.root := by
  cases file with
  | none => exact Except.ok.inj h ▸ closed_ofMap defaults
  | some p =>
      rw [withFile] at h
      cases hdocument : ofFile fs p with
      | error fault =>
          rw [hdocument] at h
          cases h
      | ok document =>
          rw [hdocument] at h
          obtain rfl := Except.ok.inj h
          obtain ⟨place, hdict⟩ := dict?_of_ofFile hdocument
          obtain ⟨es, hmap⟩ := Store.map?_of_dict? hdict
          obtain ⟨-, hclosed, -⟩ := Store.overlay_closed document.closed (.map .dict defaults) document.rooted
          rw [Store.overlay_map _ _ hmap] at hclosed
          rw [ofDocument, Store.overlay_map _ _ hmap]
          exact ⟨hclosed, Store.dict?_concat rfl _⟩

end Loading

end Config

end Mustache

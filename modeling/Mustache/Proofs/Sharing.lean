import Mathlib.Data.List.Basic
import Mathlib.Data.List.Nodup
import Mathlib.Data.List.Perm.Subperm
import Mustache.Config.Graph
import Mustache.Proofs.Merging

/-!
# `Mustache.Proofs.Sharing` — containers of one's own

A node is a value in containers at some places. If each of these containers stands in it once, the node shares nothing
with itself, and to set something in place is to make the dictionaries on the way anew. What happens to other
containers is of no importance then.

* `Graph.Owns` — a node is a value in containers of its own: `Owns.frame`, `Owns.value_eq` say that only these
  containers count, and what they show;
* `Graph.Store.hold_owns` — values that are held get containers of their own;
* `Graph.Around` — a mapping around one of its keys: what is under the key can change if this is kept;
* `Config.setAt_owns` — **where nothing is shared, to set in place is to rebuild** (`Config.rebuilt`), in the
  containers of the mapping and of the new value, and in new ones;
* `Config.Unshared`, `Config.Unshared.applied` — the same of changes one after the other.
-/

namespace Mustache

open Mustache.Graph

theorem Table.mem_of_get? {κ α : Type} [BEq κ] {t : Table κ α} {key : κ} {value : α} (h : t.get? key = some value) :
    value ∈ t.map Prod.snd := by
  induction t with
  | nil => cases h
  | cons e t ih =>
      rw [get?] at h
      split at h
      · exact List.mem_cons.mpr (Or.inl (Option.some.inj h).symm)
      · exact List.mem_cons_of_mem e.2 (ih h)

/-- Keys and what is under them give the entries back. -/
theorem Table.map_of_keys {κ α β : Type} {f : α → β} {t : Table κ α} {u : Table κ β} (hkeys : t.keys = u.keys)
    (hvalues : (t.map Prod.snd).map f = u.map Prod.snd) : t.map (Prod.map id f) = u := by
  have hmap : t.map (Prod.map id f) = t.keys.zip ((t.map Prod.snd).map f) := by
    rw [Table.keys, List.map_map, List.zip_map']
    rfl
  rw [hmap, hkeys, hvalues, Table.keys]
  exact (List.zip_of_prod rfl rfl).symm

namespace Graph

/-! ## Reading after writing -/

namespace Store

variable {st : Store} {place p : Place} {key : Key} {n : Node}

@[simp]
theorem length_put (st : Store) (place : Place) (key : Key) (n : Node) : (st.put place key n).length = st.length := by
  unfold put
  split
  · exact List.length_set
  · rfl

theorem getElem?_put_of_ne (h : p ≠ place) : (st.put place key n)[p]? = st[p]? := by
  unfold put
  split
  · exact List.getElem?_set_ne (Ne.symm h)
  · rfl

theorem getElem?_put_self {kind : MapKind} {es : Table Key Node} (h : st[place]? = some (.map kind es)) :
    (st.put place key n)[place]? = some (.map kind (es.put key n)) := by
  obtain ⟨hlt, -⟩ := List.getElem?_eq_some_iff.mp h
  rw [put, h]
  exact List.getElem?_set_self hlt

theorem entries_eq {kind : MapKind} {es : Table Key Node} (h : st[place]? = some (.map kind es)) :
    st.entries place = es := by
  rw [entries, h]

/-- A dictionary stands at its place. -/
theorem eq_of_dict? (h : st.dict? n = some place) :
    n = .held place ∧ ∃ kind es, st[place]? = some (.map kind es) ∧ kind.isDict = true := by
  cases n with
  | leaf v => cases h
  | held place' =>
      rw [dict?] at h
      split at h
      · rename_i kind es hplace
        obtain ⟨hkind, rfl⟩ := Option.ite_none_right_eq_some.mp h |>.imp_right Option.some.inj
        exact ⟨rfl, kind, es, hplace, hkind⟩
      · cases h

theorem dict?_held {kind : MapKind} {es : Table Key Node} (h : st[place]? = some (.map kind es))
    (hkind : kind.isDict = true) : st.dict? (.held place) = some place := by
  rw [dict?, h]
  exact if_pos hkind

theorem dict?_concat {kind : MapKind} (hkind : kind.isDict = true) (es : Table Key Node) :
    dict? (st ++ [.map kind es]) (.held st.length) = some st.length :=
  dict?_held List.getElem?_concat_length hkind

end Store

/-! ## Containers of one's own -/

/-- Nodes are values in the containers at some places, each of which stands in them once. -/
inductive OwnsAll (st : Store) : List Node → List Value → List Place → Prop
  | nil : OwnsAll st [] [] []
  | leaf {v : Value} {ns : List Node} {vs : List Value} {qs : List Place} (hplain : v.entries? = none)
      (hrest : OwnsAll st ns vs qs) : OwnsAll st (.leaf v :: ns) (v :: vs) qs
  | map {place : Place} {kind : MapKind} {below : Table Key Node} {es : Entries} {ns : List Node} {vs : List Value}
      {ps qs : List Place} (hplace : st[place]? = some (.map kind below)) (hkeys : below.keys = Table.keys es)
      (hbelow : OwnsAll st (below.map Prod.snd) (es.map Prod.snd) ps) (hnew : place ∉ ps)
      (hrest : OwnsAll st ns vs qs) (hapart : (place :: ps).Disjoint qs) :
      OwnsAll st (.held place :: ns) (.map kind es :: vs) (place :: ps ++ qs)
  | seq {place : Place} {kind : SeqKind} {below ns : List Node} {items vs : List Value} {ps qs : List Place}
      (hplace : st[place]? = some (.seq kind below)) (hbelow : OwnsAll st below items ps) (hnew : place ∉ ps)
      (hrest : OwnsAll st ns vs qs) (hapart : (place :: ps).Disjoint qs) :
      OwnsAll st (.held place :: ns) (.seq kind items :: vs) (place :: ps ++ qs)

/-- A node is a value in containers of its own. -/
def Owns (st : Store) (n : Node) (v : Value) (ps : List Place) : Prop := OwnsAll st [n] [v] ps

section Owning

variable {st st' : Store} {n : Node} {v : Value} {ns : List Node} {vs : List Value} {ps qs : List Place}

namespace OwnsAll

/-- What nodes own is in the store. -/
theorem lt_length (h : OwnsAll st ns vs ps) : ∀ p ∈ ps, p < st.length := by
  induction h with
  | nil => exact nofun
  | leaf _ _ ih => exact ih
  | map hplace _ _ _ _ _ ihbelow ihrest =>
      refine List.forall_mem_append.mpr ⟨List.forall_mem_cons.mpr ⟨?_, ihbelow⟩, ihrest⟩
      exact (List.getElem?_eq_some_iff.mp hplace).1
  | seq hplace _ _ _ _ ihbelow ihrest =>
      refine List.forall_mem_append.mpr ⟨List.forall_mem_cons.mpr ⟨?_, ihbelow⟩, ihrest⟩
      exact (List.getElem?_eq_some_iff.mp hplace).1

theorem nodup (h : OwnsAll st ns vs ps) : ps.Nodup := by
  induction h with
  | nil => exact .nil
  | leaf _ _ ih => exact ih
  | map _ _ _ hnew _ hapart ihbelow ihrest => exact (List.nodup_cons.mpr ⟨hnew, ihbelow⟩).append ihrest hapart
  | seq _ _ hnew _ hapart ihbelow ihrest => exact (List.nodup_cons.mpr ⟨hnew, ihbelow⟩).append ihrest hapart

/-- Nodes own no more than there is. -/
theorem length_le (h : OwnsAll st ns vs ps) : ps.length ≤ st.length := by
  have hrange : ps ⊆ List.range st.length := fun p hp => List.mem_range.mpr (h.lt_length p hp)
  have hle := (List.subperm_of_subset h.nodup hrange).length_le
  rwa [List.length_range] at hle

/-- **Only what nodes own counts** for what they are. -/
theorem frame (h : OwnsAll st ns vs ps) (hsame : ∀ p ∈ ps, st'[p]? = st[p]?) : OwnsAll st' ns vs ps := by
  induction h with
  | nil => exact .nil
  | leaf hplain _ ih => exact .leaf hplain (ih hsame)
  | map hplace hkeys _ hnew _ hapart ihbelow ihrest =>
      obtain ⟨hhead, hrest⟩ := List.forall_mem_append.mp hsame
      obtain ⟨hhere, hbelow⟩ := List.forall_mem_cons.mp hhead
      exact .map (hhere.trans hplace) hkeys (ihbelow hbelow) hnew (ihrest hrest) hapart
  | seq hplace _ hnew _ hapart ihbelow ihrest =>
      obtain ⟨hhead, hrest⟩ := List.forall_mem_append.mp hsame
      obtain ⟨hhere, hbelow⟩ := List.forall_mem_cons.mp hhead
      exact .seq (hhere.trans hplace) (ihbelow hbelow) hnew (ihrest hrest) hapart

/-- **Nodes show the values that they are**, if so many containers are shown as they own. -/
theorem value_eq (h : OwnsAll st ns vs ps) {depth : Nat} (hdepth : ps.length ≤ depth) :
    ns.map (st.value depth) = vs := by
  induction h generalizing depth with
  | nil => rfl
  | leaf _ _ ih => rw [List.map_cons, ih hdepth, Store.value]
  | map hplace hkeys _ _ _ _ ihbelow ihrest =>
      rw [List.length_append, List.length_cons] at hdepth
      rw [List.map_cons, ihrest (by omega)]
      cases depth with
      | zero => omega
      | succ depth =>
          rw [Store.value, hplace]
          exact congrArg (Value.map _ · :: _) (Table.map_of_keys hkeys (ihbelow (by omega)))
  | seq hplace _ _ _ _ ihbelow ihrest =>
      rw [List.length_append, List.length_cons] at hdepth
      rw [List.map_cons, ihrest (by omega)]
      cases depth with
      | zero => omega
      | succ depth =>
          rw [Store.value, hplace]
          exact congrArg (Value.seq _ · :: _) (ihbelow (by omega))

/-- What nodes own they also own when more is in the store. -/
theorem append (h : OwnsAll st ns vs ps) (more : Store) : OwnsAll (st ++ more) ns vs ps :=
  h.frame fun p hp => List.getElem?_append_left (h.lt_length p hp)

/-- The first of several nodes and the others have no container in common. -/
theorem cons_iff : OwnsAll st (n :: ns) (v :: vs) ps ↔
    ∃ hs qs, Owns st n v hs ∧ OwnsAll st ns vs qs ∧ hs.Disjoint qs ∧ ps = hs ++ qs := by
  constructor
  · intro h
    cases h with
    | leaf hplain hrest => exact ⟨[], _, .leaf hplain .nil, hrest, List.disjoint_nil_left _, rfl⟩
    | map hplace hkeys hbelow hnew hrest hapart =>
        have hhead := OwnsAll.map hplace hkeys hbelow hnew .nil (List.disjoint_nil_right _)
        rw [List.append_nil] at hhead
        exact ⟨_, _, hhead, hrest, hapart, rfl⟩
    | seq hplace hbelow hnew hrest hapart =>
        have hhead := OwnsAll.seq hplace hbelow hnew .nil (List.disjoint_nil_right _)
        rw [List.append_nil] at hhead
        exact ⟨_, _, hhead, hrest, hapart, rfl⟩
  · rintro ⟨hs, qs, hhead, hrest, hapart, rfl⟩
    cases hhead with
    | leaf hplain hnil =>
        cases hnil
        exact .leaf hplain hrest
    | map hplace hkeys hbelow hnew hnil =>
        cases hnil
        rw [List.append_nil] at hapart ⊢
        exact .map hplace hkeys hbelow hnew hrest hapart
    | seq hplace hbelow hnew hnil =>
        cases hnil
        rw [List.append_nil] at hapart ⊢
        exact .seq hplace hbelow hnew hrest hapart

end OwnsAll

namespace Owns

theorem value_eq (h : Owns st n v ps) {depth : Nat} (hdepth : ps.length ≤ depth) : st.value depth n = v :=
  List.cons.inj (OwnsAll.value_eq h hdepth) |>.1

/-- A node that is a mapping is a place where that mapping stands, beside what is in it. -/
theorem map_iff {kind : MapKind} {es : Entries} : Owns st n (.map kind es) ps ↔
    ∃ place below qs, n = .held place ∧ st[place]? = some (.map kind below) ∧ Table.keys below = Table.keys es ∧
      OwnsAll st (below.map Prod.snd) (es.map Prod.snd) qs ∧ place ∉ qs ∧ ps = place :: qs := by
  constructor
  · intro h
    cases h with
    | leaf hplain => cases hplain
    | map hplace hkeys hbelow hnew hnil =>
        cases hnil
        exact ⟨_, _, _, rfl, hplace, hkeys, hbelow, hnew, List.append_nil _⟩
  · rintro ⟨place, below, qs, rfl, hplace, hkeys, hbelow, hnew, rfl⟩
    have h := OwnsAll.map hplace hkeys hbelow hnew .nil (List.disjoint_nil_right _)
    rwa [List.append_nil] at h

/-- An empty mapping owns itself. -/
theorem of_empty {place : Place} {kind : MapKind} (h : st[place]? = some (.map kind [])) :
    Owns st (.held place) (.map kind []) [place] :=
  map_iff.mpr ⟨place, [], [], rfl, h, rfl, .nil, List.not_mem_nil, rfl⟩

/-- A new mapping of nodes. -/
theorem of_map {kind : MapKind} {below : Table Key Node} {es : Entries} (hkeys : below.keys = Table.keys es)
    (h : OwnsAll st (below.map Prod.snd) (es.map Prod.snd) ps) :
    Owns (st ++ [.map kind below]) (.held st.length) (.map kind es) (st.length :: ps) :=
  map_iff.mpr ⟨_, below, ps, rfl, List.getElem?_concat_length, hkeys, h.append _,
    fun hmem => Nat.lt_irrefl _ (h.lt_length _ hmem), rfl⟩

/-- A new sequence of nodes. -/
theorem of_seq {kind : SeqKind} (h : OwnsAll st ns vs ps) :
    Owns (st ++ [.seq kind ns]) (.held st.length) (.seq kind vs) (st.length :: ps) := by
  have hplace : (st ++ [.seq kind ns])[st.length]? = some (.seq kind ns) := List.getElem?_concat_length
  have hseq := OwnsAll.seq hplace (h.append _) (fun hmem => Nat.lt_irrefl _ (h.lt_length _ hmem)) .nil
    (List.disjoint_nil_right _)
  rwa [List.append_nil] at hseq

/-- A node beside others that came into the store after it. -/
theorem cons_append {more : Store} (h : Owns st n v ps) (hrest : OwnsAll (st ++ more) ns vs qs)
    (hnew : ∀ p ∈ qs, st.length ≤ p) : OwnsAll (st ++ more) (n :: ns) (v :: vs) (ps ++ qs) := by
  refine OwnsAll.cons_iff.mpr ⟨ps, qs, OwnsAll.append h more, hrest, ?_, rfl⟩
  intro p hp hq
  exact Nat.not_lt_of_le (hnew p hq) (h.lt_length p hp)

end Owns

end Owning

/-! ## Values that are held -/

namespace Store

mutual

/-- **A value that is held gets containers of its own**, which are new. -/
theorem hold_owns (st : Store) (v : Value) :
    ∃ more ps, (st.hold v).1 = st ++ more ∧ Owns (st ++ more) (st.hold v).2 v ps ∧ ∀ p ∈ ps, st.length ≤ p := by
  cases v with
  | map kind es =>
      obtain ⟨more, ps, hstore, hkeys, hall, hnew⟩ := holdEntries_owns st es
      rw [hold_map, hstore]
      refine ⟨more ++ [.map kind (st.holdEntries es).2], (st ++ more).length :: ps, List.append_assoc _ _ _, ?_,
        List.forall_mem_cons.mpr ⟨(List.prefix_append st more).length_le, hnew⟩⟩
      rw [← List.append_assoc]
      exact .of_map hkeys hall
  | seq kind vs =>
      obtain ⟨more, ps, hstore, hall, hnew⟩ := holdItems_owns st vs
      rw [hold_seq, hstore]
      refine ⟨more ++ [.seq kind (st.holdItems vs).2], (st ++ more).length :: ps, List.append_assoc _ _ _, ?_,
        List.forall_mem_cons.mpr ⟨(List.prefix_append st more).length_le, hnew⟩⟩
      rw [← List.append_assoc]
      exact .of_seq hall
  | _ => exact ⟨[], [], (List.append_nil st).symm, .leaf rfl .nil, nofun⟩

theorem holdEntries_owns (st : Store) (es : List (Key × Value)) :
    ∃ more ps, (st.holdEntries es).1 = st ++ more ∧ Table.keys (st.holdEntries es).2 = Table.keys es ∧
      OwnsAll (st ++ more) ((st.holdEntries es).2.map Prod.snd) (es.map Prod.snd) ps ∧ ∀ p ∈ ps, st.length ≤ p := by
  cases es with
  | nil => exact ⟨[], [], (List.append_nil st).symm, rfl, .nil, nofun⟩
  | cons e es =>
      obtain ⟨k, v⟩ := e
      obtain ⟨more, ps, hstore, hhead, hps⟩ := hold_owns st v
      obtain ⟨more', qs, hstore', hkeys, hrest, hqs⟩ := holdEntries_owns (st ++ more) es
      rw [holdEntries_cons, hstore]
      refine ⟨more ++ more', ps ++ qs, ?_, congrArg (k :: ·) hkeys, ?_, List.forall_mem_append.mpr ⟨hps, ?_⟩⟩
      · rw [hstore', List.append_assoc]
      · rw [← List.append_assoc]
        exact hhead.cons_append hrest hqs
      · intro p hp
        exact Nat.le_trans (List.prefix_append st more).length_le (hqs p hp)

theorem holdItems_owns (st : Store) (vs : List Value) :
    ∃ more ps, (st.holdItems vs).1 = st ++ more ∧
      OwnsAll (st ++ more) (st.holdItems vs).2 vs ps ∧ ∀ p ∈ ps, st.length ≤ p := by
  cases vs with
  | nil => exact ⟨[], [], (List.append_nil st).symm, .nil, nofun⟩
  | cons v vs =>
      obtain ⟨more, ps, hstore, hhead, hps⟩ := hold_owns st v
      obtain ⟨more', qs, hstore', hrest, hqs⟩ := holdItems_owns (st ++ more) vs
      rw [holdItems_cons, hstore]
      refine ⟨more ++ more', ps ++ qs, ?_, ?_, List.forall_mem_append.mpr ⟨hps, ?_⟩⟩
      · rw [hstore', List.append_assoc]
      · rw [← List.append_assoc]
        exact hhead.cons_append hrest hqs
      · intro p hp
        exact Nat.le_trans (List.prefix_append st more).length_le (hqs p hp)

end

end Store

/-! ## Entries that are set -/

section Entries

variable {st : Store} {below : Table Key Node} {es : Entries} {ps : List Place}

/-- The first entry of a mapping and the others have no container in common. -/
theorem OwnsAll.of_cons {k : Key} {n : Node} (hkeys : Table.keys ((k, n) :: below) = Table.keys es)
    (h : OwnsAll st (((k, n) :: below).map Prod.snd) (es.map Prod.snd) ps) :
    ∃ v es' hs rs, es = (k, v) :: es' ∧ below.keys = Table.keys es' ∧ Owns st n v hs ∧
      OwnsAll st (below.map Prod.snd) (es'.map Prod.snd) rs ∧ hs.Disjoint rs ∧ ps = hs ++ rs := by
  obtain ⟨⟨k', v⟩, es', rfl, hk, hkeys'⟩ := List.map_eq_cons_iff.mp hkeys.symm
  obtain rfl : k' = k := hk
  obtain ⟨hs, rs, hhead, hrest, hapart, rfl⟩ := cons_iff.mp h
  exact ⟨v, es', hs, rs, rfl, hkeys'.symm, hhead, hrest, hapart, rfl⟩

/-- What stands under a key, and what stands around it, have no container in common. So one can change without the
    other. -/
theorem OwnsAll.around (hkeys : below.keys = Table.keys es)
    (h : OwnsAll st (below.map Prod.snd) (es.map Prod.snd) ps) (key : Key) :
    ∃ others, others ⊆ ps ∧
      (below.get? key = none ∧ es.get? key = none ∨
        ∃ n v qs, below.get? key = some n ∧ es.get? key = some v ∧ Owns st n v qs ∧ qs ⊆ ps ∧ others.Disjoint qs) ∧
      ∀ st' n v qs, (∀ p ∈ others, st'[p]? = st[p]?) → Owns st' n v qs → others.Disjoint qs →
        Table.keys (below.put key n) = Table.keys (es.put key v) ∧
        ∃ ps', OwnsAll st' ((below.put key n).map Prod.snd) ((es.put key v).map Prod.snd) ps' ∧ ps' ⊆ others ++ qs := by
  induction below generalizing es ps with
  | nil =>
      obtain rfl : es = [] := List.map_eq_nil_iff.mp hkeys.symm
      refine ⟨[], List.nil_subset _, Or.inl ⟨rfl, rfl⟩, fun st' n v qs _ hn _ => ⟨rfl, qs, hn, ?_⟩⟩
      exact List.Subset.refl qs
  | cons e below ih =>
      obtain ⟨k', m⟩ := e
      obtain ⟨w, es, hs, rs, rfl, hkeysrest, hhead, hrest, hapart, rfl⟩ := of_cons hkeys h
      cases hkey : k' == key with
      | true =>
          have hput {α : Type} (a a' : α) (t : Table Key α) : Table.put ((k', a) :: t) key a' = (k', a') :: t :=
            if_pos hkey
          have hget {α : Type} (a : α) (t : Table Key α) : Table.get? ((k', a) :: t) key = some a := if_pos hkey
          rw [hget, hget]
          have hapart' := List.disjoint_symm hapart
          refine ⟨rs, List.subset_append_right hs rs, Or.inr ⟨m, w, hs, rfl, rfl, hhead, ?_, hapart'⟩, ?_⟩
          · exact List.subset_append_left hs rs
          · intro st' n v qs hsame hn hdisjoint
            rw [hput, hput]
            refine ⟨congrArg (k' :: ·) hkeysrest, qs ++ rs, ?_, ?_⟩
            · exact cons_iff.mpr ⟨qs, rs, hn, hrest.frame hsame, List.disjoint_symm hdisjoint, rfl⟩
            · exact List.append_subset.mpr ⟨List.subset_append_right rs qs, List.subset_append_left rs qs⟩
      | false =>
          have hput {α : Type} (a a' : α) (t : Table Key α) :
              Table.put ((k', a) :: t) key a' = (k', a) :: Table.put t key a' := if_neg (Bool.eq_false_iff.mp hkey)
          have hget {α : Type} (a : α) (t : Table Key α) : Table.get? ((k', a) :: t) key = Table.get? t key :=
            if_neg (Bool.eq_false_iff.mp hkey)
          obtain ⟨others, hothers, hlook, hkeep⟩ := ih hkeysrest hrest
          rw [hget, hget]
          refine ⟨hs ++ others, List.append_subset.mpr ⟨List.subset_append_left hs rs, ?_⟩, ?_, ?_⟩
          · exact List.Subset.trans hothers (List.subset_append_right hs rs)
          · refine hlook.imp_right ?_
            rintro ⟨n, v, qs, hn, hv, howns, hqs, hdisjoint⟩
            refine ⟨n, v, qs, hn, hv, howns, List.Subset.trans hqs (List.subset_append_right hs rs), ?_⟩
            exact List.disjoint_append_left.mpr ⟨List.disjoint_of_subset_right hqs hapart, hdisjoint⟩
          · intro st' n v qs hsame hn hdisjoint
            obtain ⟨hsamehead, hsamerest⟩ := List.forall_mem_append.mp hsame
            obtain ⟨hdisjointhead, hdisjointrest⟩ := List.disjoint_append_left.mp hdisjoint
            obtain ⟨hkeys', ps', hall, hps'⟩ := hkeep st' n v qs hsamerest hn hdisjointrest
            rw [hput, hput]
            refine ⟨congrArg (k' :: ·) hkeys', hs ++ ps', ?_, ?_⟩
            · refine cons_iff.mpr ⟨hs, ps', hhead.frame hsamehead, hall, ?_, rfl⟩
              refine List.disjoint_of_subset_right hps' (List.disjoint_append_right.mpr ⟨?_, hdisjointhead⟩)
              exact List.disjoint_of_subset_right hothers hapart
            · rw [List.append_assoc]
              refine List.append_subset.mpr ⟨List.subset_append_left _ _, ?_⟩
              exact List.Subset.trans hps' (List.subset_append_right _ _)

variable {place : Place} {kind : MapKind} {qs : List Place} {n : Node} {v : Value}

/-- A node is a dictionary just if the value is one. -/
theorem Owns.dict?_cases (h : Owns st n v ps) :
    (∃ place kind es, n = .held place ∧ v = .map kind es ∧ kind.isDict = true ∧ st.dict? n = some place) ∨
      (st.dict? n = none ∧ v.dictEntries? = none) := by
  cases h with
  | leaf hplain =>
      refine Or.inr ⟨rfl, ?_⟩
      cases v with
      | map kind es => cases hplain
      | _ => rfl
  | @map place kind _ es _ _ _ _ hplace =>
      cases hkind : kind.isDict with
      | true => exact Or.inl ⟨place, kind, es, rfl, rfl, hkind, by simp only [Store.dict?, hplace, hkind, if_true]⟩
      | false => exact Or.inr ⟨by simp [Store.dict?, hplace, hkind], by simp [Value.dictEntries?, hkind]⟩
  | seq hplace => exact Or.inr ⟨by simp only [Store.dict?, hplace], rfl⟩

/-- A mapping around a key: the mapping itself, and what stands under its other keys. -/
structure Around (st : Store) (place : Place) (kind : MapKind) (es : Entries) (ps : List Place) (key : Key)
    (below : Table Key Node) (others : List Place) : Prop where
  here : st[place]? = some (.map kind below)
  keys : Table.keys below = Table.keys es
  mem : place ∈ others
  subset : others ⊆ ps
  /-- If what is around the key is kept, anything else can be put under it. -/
  keep : ∀ st' n v qs, (∀ p ∈ others, p ≠ place → st'[p]? = st[p]?) →
    st'[place]? = some (.map kind (below.put key n)) → Owns st' n v qs → others.Disjoint qs →
    ∃ ps', Owns st' (.held place) (.map kind (es.put key v)) ps' ∧ ps' ⊆ others ++ qs

/-- A mapping around a key, and what is under the key: no dictionary, or one that has no container in common with what
    is around. -/
theorem Owns.around (h : Owns st (.held place) (.map kind es) ps) (key : Key) :
    ∃ below others, Around st place kind es ps key below others ∧
      ((below.get? key).bind st.dict? = none ∧ (∀ v, es.get? key = some v → v.dictEntries? = none) ∨
        ∃ within kind' es' qs, below.get? key = some (.held within) ∧ es.get? key = some (.map kind' es') ∧
          kind'.isDict = true ∧ st.dict? (.held within) = some within ∧
          Owns st (.held within) (.map kind' es') qs ∧ qs ⊆ ps ∧ others.Disjoint qs) := by
  obtain ⟨_, below, rs, ⟨⟩, hplace, hkeys, hbelow, hnew, rfl⟩ := map_iff.mp h
  obtain ⟨others, hothers, hlook, hkeep⟩ := hbelow.around hkeys key
  refine ⟨below, place :: others, ⟨hplace, hkeys, List.mem_cons_self, List.cons_subset_cons place hothers, ?_⟩, ?_⟩
  · intro st' n v qs hsame hhere hn hdisjoint
    obtain ⟨hplaceqs, hdisjoint⟩ := List.disjoint_cons_left.mp hdisjoint
    have hne : ∀ p ∈ others, p ≠ place := fun p hp heq => hnew (hothers (heq ▸ hp))
    obtain ⟨hkeys', ps', hall, hps'⟩ :=
      hkeep st' n v qs (fun p hp => hsame p (List.mem_cons_of_mem place hp) (hne p hp)) hn hdisjoint
    refine ⟨place :: ps', map_iff.mpr ⟨place, _, ps', rfl, hhere, hkeys', hall, fun hmem => ?_, rfl⟩, ?_⟩
    · rcases List.mem_append.mp (hps' hmem) with hmem | hmem
      · exact hnew (hothers hmem)
      · exact hplaceqs hmem
    · exact List.cons_subset_cons place hps'
  · rcases hlook with ⟨hnone, hnone'⟩ | ⟨n, v, qs, hn, hv, howns, hqs, hdisjoint⟩
    · exact Or.inl ⟨by rw [hnone, Option.bind_none], fun v hv => absurd (hnone'.symm.trans hv) nofun⟩
    · rcases howns.dict?_cases with ⟨within, kind', es', rfl, rfl, hkind, hdict⟩ | ⟨hdict, hplain⟩
      · have hqs' := List.Subset.trans hqs (List.subset_cons_self place rs)
        refine Or.inr ⟨within, kind', es', qs, hn, hv, hkind, hdict, howns, hqs', ?_⟩
        exact List.disjoint_cons_left.mpr ⟨fun hmem => hnew (hqs hmem), hdisjoint⟩
      · exact Or.inl ⟨by rw [hn, Option.bind_some, hdict], fun w hw => Option.some.inj (hv.symm.trans hw) ▸ hplain⟩

/-- A mapping that owns containers it had, others that are given, and new ones. Nothing else has changed. -/
def OwnsAfter (st st' : Store) (place : Place) (v : Value) (ps qs : List Place) : Prop :=
  ∃ ps', Owns st' (.held place) v ps' ∧ (∀ p ∈ ps', p ∈ ps ∨ p ∈ qs ∨ st.length ≤ p) ∧
    ∀ p < st.length, p ∉ ps → st'[p]? = st[p]?

/-- Whatever is put under a key, the mapping owns what is around the key besides. -/
theorem Around.put {key : Key} {below : Table Key Node} {others rs : List Place} {st' : Store} {m : Node} {w : Value}
    (h : Around st place kind es ps key below others) (hlt : ∀ p ∈ ps, p < st.length) (hapart : ps.Disjoint qs)
    (hhere : st'[place]? = some (.map kind (below.put key m))) (hm : Owns st' m w rs)
    (hrs : ∀ p ∈ rs, p ∈ ps ∧ p ∉ others ∨ p ∈ qs ∨ st.length ≤ p)
    (hsame : ∀ p < st.length, p ≠ place → (p ∈ others ∨ p ∉ ps) → st'[p]? = st[p]?) :
    OwnsAfter st st' place (.map kind (es.put key w)) ps qs := by
  have hdisjoint : others.Disjoint rs := by
    intro p hp hp'
    rcases hrs p hp' with ⟨-, hnot⟩ | hmem | hle
    · exact hnot hp
    · exact hapart (h.subset hp) hmem
    · exact Nat.not_lt_of_le hle (hlt p (h.subset hp))
  obtain ⟨ps', howns, hps'⟩ :=
    h.keep st' m w rs (fun p hp hne => hsame p (hlt p (h.subset hp)) hne (Or.inl hp)) hhere hm hdisjoint
  refine ⟨ps', howns, fun p hp => ?_, fun p hp hnot => ?_⟩
  · rcases List.mem_append.mp (hps' hp) with hp | hp
    · exact Or.inl (h.subset hp)
    · exact (hrs p hp).imp_left And.left
  · exact hsame p hp (fun heq => hnot (heq ▸ h.subset h.mem)) (Or.inr hnot)

end Entries

end Graph

namespace Config

/-! ## Setting without sharing -/

/-- The dictionary under a name. Anything else there counts as an empty one. -/
def inner (es : Entries) (name : Text) : MapKind × Entries :=
  match es.get? (.text name) with
  | some (.map kind below) => if kind.isDict then (kind, below) else (.dict, [])
  | _ => (.dict, [])

/-- The entries with a value at a path, where the dictionaries on the way are made anew. -/
def rebuilt (es : Entries) : List Text → Value → Entries
  | [], _ => es
  | [segment], v => es.put (.text (matchedName es segment)) v
  | segment :: next :: rest, v =>
      let name := matchedName es segment
      let (kind, below) := inner es name
      es.put (.text name) (.map kind (rebuilt below (next :: rest) v))

/-- The entries with changes made one after the other. -/
def rebuiltAll (es : Entries) (changes : Changes) : Entries :=
  changes.foldl (fun es change => rebuilt es change.1 change.2) es

section Setting

variable {st : Store} {place : Place} {kind : MapKind} {es : Entries} {ps qs : List Place} {n : Node} {v : Value}
  {path : List Text}

theorem inner_of_dict {name : Text} {below : Entries} (hget : es.get? (.text name) = some (.map kind below))
    (hkind : kind.isDict = true) : inner es name = (kind, below) := by
  simp only [inner, hget, hkind, if_true]

theorem inner_of_not_dict {name : Text} (h : ∀ w, es.get? (.text name) = some w → w.dictEntries? = none) :
    inner es name = (.dict, []) := by
  unfold inner
  split
  · rename_i kind below hget
    have hdict := h _ hget
    cases hkind : kind.isDict with
    | true => simp [Value.dictEntries?, hkind] at hdict
    | false => rfl
  · rfl

/-- Which name a segment means depends on the names only. -/
theorem matchedName_congr {α β : Type} {t : Table Key α} {u : Table Key β} (h : t.keys = u.keys) (segment : Text) :
    matchedName t segment = matchedName u segment := by
  rw [matchedName, h, matchedName]

theorem putMatched_eq {below : Table Key Node} (h : st[place]? = some (.map kind below)) (segment : Text) :
    putMatched st place segment n = st.put place (.text (matchedName below segment)) n := by
  rw [putMatched, Store.entries_eq h]

theorem matchedNode?_eq {below : Table Key Node} (h : st[place]? = some (.map kind below)) (segment : Text) :
    matchedNode? st place segment = below.get? (.text (matchedName below segment)) := by
  rw [matchedNode?, Store.entries_eq h]

section Opening

variable {segment : Text} {p : Place}

theorem length_opened (st : Store) (place : Place) (segment : Text) :
    (opened st place segment).length = st.length + 1 := by
  rw [opened, putMatched, Store.length_put, List.length_append]
  rfl

theorem getElem?_opened_new (h : place ≠ st.length) : (opened st place segment)[st.length]? = some (.map .dict []) := by
  rw [opened, putMatched, Store.getElem?_put_of_ne h.symm, List.getElem?_concat_length]

theorem getElem?_opened_of_ne (hp : p < st.length) (h : p ≠ place) : (opened st place segment)[p]? = st[p]? := by
  rw [opened, putMatched, Store.getElem?_put_of_ne h, List.getElem?_append_left hp]

theorem getElem?_opened_self {below : Table Key Node} (h : st[place]? = some (.map kind below)) :
    (opened st place segment)[place]?
      = some (.map kind (below.put (.text (matchedName below segment)) (.held st.length))) := by
  obtain ⟨hlt, -⟩ := List.getElem?_eq_some_iff.mp h
  have hbefore : (st ++ [.map .dict []])[place]? = some (.map kind below) := by rw [List.getElem?_append_left hlt, h]
  rw [opened, putMatched_eq hbefore, Store.getElem?_put_self hbefore]

end Opening

/-- An empty dictionary is put on the way, and the rest is set in it. -/
theorem ownsAfter_of_opened {segment : Text} {below : Table Key Node} {others : List Place} {rest : Entries}
    {st' : Store} (ha : Around st place kind es ps (.text (matchedName es segment)) below others)
    (hlt : ∀ p ∈ ps, p < st.length) (hapart : ps.Disjoint qs)
    (h : OwnsAfter (opened st place segment) st' st.length (.map .dict rest) [st.length] qs) :
    OwnsAfter st st' place (.map kind (es.put (.text (matchedName es segment)) (.map .dict rest))) ps qs := by
  obtain ⟨rs, hset, hrs, hkept⟩ := h
  rw [length_opened] at hrs hkept
  have hname : matchedName below segment = matchedName es segment := matchedName_congr ha.keys segment
  have hsame : ∀ p < st.length, st'[p]? = (opened st place segment)[p]? :=
    fun p hp => hkept p (Nat.lt_succ_of_lt hp) fun hmem => Nat.ne_of_lt hp (List.mem_singleton.mp hmem)
  refine ha.put hlt hapart ?_ hset (fun p hp => Or.inr ?_) fun p hp hne _ => ?_
  · rw [hsame place (hlt place (ha.subset ha.mem)), getElem?_opened_self ha.here, hname]
  · rcases hrs p hp with hmem | hmem | hle
    · exact Or.inr (Nat.le_of_eq (List.mem_singleton.mp hmem).symm)
    · exact Or.inl hmem
    · exact Or.inr (Nat.le_of_succ_le hle)
  · exact (hsame p hp).trans (getElem?_opened_of_ne hp hne)

/-- **Where nothing is shared, to set in place is to rebuild.** The mapping then owns what it owned before, what the new
    value owns, and new containers. -/
theorem setAt_owns (hne : path ≠ []) (h : Owns st (.held place) (.map kind es) ps) (hn : Owns st n v qs)
    (hapart : ps.Disjoint qs) : OwnsAfter st (setAt st place path n) place (.map kind (rebuilt es path v)) ps qs := by
  induction path generalizing st place kind es ps with
  | nil => exact absurd rfl hne
  | cons segment path ih =>
      obtain ⟨below, others, ha, hlook⟩ := h.around (.text (matchedName es segment))
      have hname : matchedName below segment = matchedName es segment := matchedName_congr ha.keys segment
      have hmatched := matchedNode?_eq ha.here segment
      rw [hname] at hmatched
      have hqs : ∀ p ∈ qs, p ≠ place := fun p hp heq => hapart (ha.subset ha.mem) (heq ▸ hp)
      cases path with
      | nil =>
          rw [setAt, rebuilt, putMatched_eq ha.here, hname]
          exact ha.put h.lt_length hapart (Store.getElem?_put_self ha.here)
            (hn.frame fun p hp => Store.getElem?_put_of_ne (hqs p hp)) (fun p hp => Or.inr (Or.inl hp))
            fun p _ hp _ => Store.getElem?_put_of_ne hp
      | cons next rest =>
          rcases hlook with ⟨hnone, hplain⟩ | ⟨within, kind', es', rs, hget, hget', hkind, hdict, howns, hrs, hdisjoint⟩
          · have hne : place ≠ st.length := Nat.ne_of_lt (h.lt_length place (ha.subset ha.mem))
            have hfresh : Owns (opened st place segment) (.held st.length) (.map .dict []) [st.length] :=
              .of_empty (getElem?_opened_new hne)
            rw [setAt, hmatched, hnone, rebuilt, inner_of_not_dict hplain]
            refine ownsAfter_of_opened ha h.lt_length hapart (ih (List.cons_ne_nil _ _) hfresh ?_ ?_)
            · exact hn.frame fun p hp => getElem?_opened_of_ne (hn.lt_length p hp) (hqs p hp)
            · exact List.singleton_disjoint.mpr fun hmem => Nat.lt_irrefl _ (hn.lt_length _ hmem)
          · -- the dictionary on the way stays where it is
            obtain ⟨rs', hset, hrs', hkept⟩ :=
              ih (List.cons_ne_nil _ _) howns hn (List.disjoint_of_subset_left hrs hapart)
            have hsame : ∀ p < st.length, (p ∈ others ∨ p ∉ ps) → (setAt st within (next :: rest) n)[p]? = st[p]? :=
              fun p hp hor => hkept p hp fun hmem => hor.elim (hdisjoint · hmem) fun hnot => hnot (hrs hmem)
            rw [setAt, hmatched, hget, Option.bind_some, hdict, rebuilt, inner_of_dict hget' hkind]
            refine ha.put h.lt_length hapart ?_ hset (fun p hp => ?_) fun p hp _ => hsame p hp
            · rw [hsame place (h.lt_length place (ha.subset ha.mem)) (Or.inl ha.mem), ha.here, Table.put_eq_self hget]
            · exact (hrs' p hp).imp_left fun hmem => ⟨hrs hmem, fun hp => hdisjoint hp hmem⟩

end Setting

/-! ## Configurations that share nothing -/

/-- No container stands in a configuration twice: it is a mapping, in containers of its own. -/
def Unshared (config : Config) : Prop :=
  ∃ kind ps, Owns config.store (.held config.root) (.map kind config.toEntries) ps

section Unshared

variable {config : Config} {kind : MapKind} {es : Entries} {ps : List Place} {path : List Text}

/-- What a configuration owns is what it shows. -/
theorem unshared_of_owns (h : Owns config.store (.held config.root) (.map kind es) ps) :
    config.Unshared ∧ config.toEntries = es := by
  have hentries : config.toEntries = es := by
    rw [toEntries, toValue, Owns.value_eq h h.length_le]
    rfl
  exact ⟨⟨kind, ps, hentries.symm ▸ h⟩, hentries⟩

/-- A mapping that is given as a value shares nothing. -/
theorem unshared_ofMap (kind : MapKind) (es : Entries) : (ofMap kind es).Unshared ∧ (ofMap kind es).toEntries = es := by
  obtain ⟨more, ps, hstore, hkeys, hall, -⟩ := Store.holdEntries_owns [] es
  rw [← hstore] at hall
  exact unshared_of_owns (Owns.of_map hkeys hall)

/-- **To set a value in place is to rebuild the entries**, and nothing is shared then either. -/
theorem Unshared.set (h : config.Unshared) (hne : path ≠ []) (v : Value) :
    (config.set path v).Unshared ∧ (config.set path v).toEntries = rebuilt config.toEntries path v := by
  obtain ⟨kind, ps, howns⟩ := h
  obtain ⟨more, qs, hstore, hn, hnew⟩ := config.store.hold_owns v
  have hbefore : Owns (config.store ++ more) (.held config.root) (.map kind config.toEntries) ps := howns.append more
  have hapart : ps.Disjoint qs := fun p hp hq => Nat.not_lt_of_le (hnew p hq) (howns.lt_length p hp)
  obtain ⟨ps', hset, -, -⟩ := setAt_owns hne hbefore hn hapart
  rw [← hstore] at hset
  exact unshared_of_owns hset

/-- **Changes in place, one after the other, rebuild the entries.** -/
theorem Unshared.applied (h : config.Unshared) {changes : Changes} (hne : ∀ c ∈ changes, c.1 ≠ []) :
    (applied config changes).Unshared ∧ (applied config changes).toEntries = rebuiltAll config.toEntries changes := by
  induction changes generalizing config with
  | nil => exact ⟨h, rfl⟩
  | cons c changes ih =>
      obtain ⟨hc, hrest⟩ := List.forall_mem_cons.mp hne
      obtain ⟨hset, hentries⟩ := h.set hc c.2
      obtain ⟨hunshared, hall⟩ := ih hset hrest
      refine ⟨hunshared, ?_⟩
      show (Config.applied (config.set c.1 c.2) changes).toEntries = rebuiltAll (rebuilt _ c.1 c.2) changes
      rw [hall, hentries]

end Unshared

end Config

end Mustache

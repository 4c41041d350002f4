import Mustache.Proofs.Overrides

/-!
# `Mustache.Proofs.Spelling` — the names on the way along a path

A path of segments leads through dictionaries, in each of which the next segment means a name. What is set at a path is
put in the last of these dictionaries, or in new ones behind it. If none of them comes twice on the way, the others stay
as they are, and the names on the way lead to what was set. A dictionary that holds itself can come twice, and then what
was set may be in the way of itself.

* `Config.way`, `Config.spelling` — the dictionaries on the way along a path, and the names that its segments mean;
* `Config.way_of_owns` — no dictionary comes twice on the way where nothing is shared;
* `Config.closed_setAt` — stores stay closed;
* `Config.isSet_setAt` — **what is set at a path stands under the names that its segments mean**, and the same names are
  meant afterwards;
* `Config.at?_applied_spelling` — changes at one path leave the last value there.
-/

namespace Mustache

open Mustache.Graph

/-! ## Closed stores -/

theorem Table.mem_of_mem_put {κ α : Type} [BEq κ] {t : Table κ α} {key : κ} {value x : α}
    (h : x ∈ (t.put key value).map Prod.snd) : x ∈ t.map Prod.snd ∨ x = value := by
  induction t with
  | nil => exact Or.inr (List.mem_singleton.mp h)
  | cons e t ih =>
      rw [put] at h
      split at h
      · exact (List.mem_cons.mp h).symm.imp_left (List.mem_cons_of_mem e.2)
      · rcases List.mem_cons.mp h with rfl | h
        · exact Or.inl List.mem_cons_self
        · exact (ih h).imp_left (List.mem_cons_of_mem e.2)

namespace Graph.Store

variable {st st' : Store} {place : Place} {key : Key} {n : Node}

theorem Closed.put (h : st.Closed) (hn : n.IsIn st) (place : Place) (key : Key) : (st.put place key n).Closed := by
  have hle : st.length ≤ (st.put place key n).length := Nat.le_of_eq (length_put st place key n).symm
  suffices hnodes : ∀ c ∈ st.put place key n, ∀ m ∈ c.nodes, m.IsIn st from
    fun c hc m hm => (hnodes c hc m hm).mono hle
  unfold Store.put
  split
  · rename_i kind es hplace
    intro c hc m hm
    rcases List.mem_or_eq_of_mem_set hc with hc | rfl
    · exact h c hc m hm
    · rcases Table.mem_of_mem_put hm with hm | rfl
      · exact h _ (List.mem_of_getElem? hplace) m hm
      · exact hn
  · exact h

theorem entries_isIn (h : st.Closed) (hget : (st.entries place).get? key = some n) : n.IsIn st := by
  unfold entries at hget
  split at hget
  · rename_i kind es hplace
    exact h _ (List.mem_of_getElem? hplace) _ (Table.mem_of_get? hget)
  · cases hget

theorem entries_of_grown (h : st <+: st') (hplace : place < st.length) : st'.entries place = st.entries place := by
  obtain ⟨more, rfl⟩ := h
  rw [entries, List.getElem?_append_left hplace, entries]

theorem dict?_of_grown (h : st <+: st') (hn : n.IsIn st) : st'.dict? n = st.dict? n := by
  obtain ⟨more, rfl⟩ := h
  cases n with
  | leaf v => rfl
  | held place => rw [dict?, List.getElem?_append_left hn, dict?]

end Graph.Store

namespace Config

/-! ## On the way along a path -/

/-- The dictionary under the name that a segment means. -/
def within? (st : Store) (place : Place) (segment : Text) : Option Place :=
  (matchedNode? st place segment).bind st.dict?

/-- The dictionaries on the way along a path, as far as there are any. -/
def way (st : Store) : Place → List Text → List Place
  | _, [] => []
  | place, segment :: path =>
      place :: match within? st place segment with
        | some within => way st within path
        | none => []

/-- The names that the segments of a path mean on the way along it. -/
def spelling (st : Store) : Place → List Text → List Text
  | _, [] => []
  | place, segment :: path =>
      matchedName (st.entries place) segment :: match within? st place segment with
        | some within => spelling st within path
        | none => path

section Way

variable {st st' : Store} {place within : Place} {segment next : Text} {path rest : List Text} {n : Node}

theorem setAt_of_within (h : within? st place segment = some within) :
    setAt st place (segment :: next :: rest) n = setAt st within (next :: rest) n := by
  rw [setAt, show (matchedNode? st place segment).bind st.dict? = some within from h]

theorem setAt_of_no_within (h : within? st place segment = none) :
    setAt st place (segment :: next :: rest) n = setAt (opened st place segment) st.length (next :: rest) n := by
  rw [setAt, show (matchedNode? st place segment).bind st.dict? = none from h]

theorem way_of_within (h : within? st place segment = some within) (path : List Text) :
    way st place (segment :: path) = place :: way st within path := by
  rw [way, h]

theorem way_of_no_within (h : within? st place segment = none) (path : List Text) :
    way st place (segment :: path) = [place] := by
  rw [way, h]

theorem spelling_of_within (h : within? st place segment = some within) (path : List Text) :
    spelling st place (segment :: path) = matchedName (st.entries place) segment :: spelling st within path := by
  rw [spelling, h]

theorem spelling_of_no_within (h : within? st place segment = none) (path : List Text) :
    spelling st place (segment :: path) = matchedName (st.entries place) segment :: path := by
  rw [spelling, h]

theorem within?_eq {kind : MapKind} {es : Table Key Node} (hplace : st[place]? = some (.map kind es)) (segment : Text) :
    within? st place segment = (es.get? (.text (matchedName es segment))).bind st.dict? := by
  rw [within?, matchedNode?_eq hplace]

theorem within?_of_empty {kind : MapKind} (hplace : st[place]? = some (.map kind [])) (segment : Text) :
    within? st place segment = none := by
  rw [within?_eq hplace]
  rfl

/-- The way along a path is in the store. -/
theorem way_lt_length (hplace : place < st.length) : ∀ p ∈ way st place path, p < st.length := by
  induction path generalizing place with
  | nil => exact nofun
  | cons segment path ih =>
      cases h : within? st place segment with
      | none =>
          rw [way_of_no_within h]
          exact List.forall_mem_singleton.mpr hplace
      | some within =>
          rw [way_of_within h]
          obtain ⟨m, -, hdict⟩ := Option.bind_eq_some_iff.mp h
          obtain ⟨-, kind, es, hwithin, -⟩ := Store.eq_of_dict? hdict
          exact List.forall_mem_cons.mpr ⟨hplace, ih (List.getElem?_eq_some_iff.mp hwithin).1⟩

/-- **Where nothing is shared, no dictionary comes twice on the way** along a path. -/
theorem way_of_owns {kind : MapKind} {es : Entries} {ps : List Place} (h : Owns st (.held place) (.map kind es) ps)
    (path : List Text) : (way st place path).Nodup ∧ way st place path ⊆ ps := by
  induction path generalizing place kind es ps with
  | nil => exact ⟨List.nodup_nil, List.nil_subset ps⟩
  | cons segment path ih =>
      obtain ⟨below, others, ha, hlook⟩ := h.around (.text (matchedName es segment))
      have hwithin := within?_eq ha.here segment
      rw [matchedName_congr ha.keys] at hwithin
      rcases hlook with ⟨hnone, -⟩ | ⟨within, kind', es', qs, hget, -, -, hdict, howns, hqs, hdisjoint⟩
      · rw [way_of_no_within (hwithin.trans hnone)]
        exact ⟨List.nodup_singleton place, fun p hp => List.mem_singleton.mp hp ▸ ha.subset ha.mem⟩
      · rw [hget, Option.bind_some, hdict] at hwithin
        obtain ⟨hnodup, hsubset⟩ := ih howns
        rw [way_of_within hwithin]
        refine ⟨List.nodup_cons.mpr ⟨fun hway => hdisjoint ha.mem (hsubset hway), hnodup⟩, ?_⟩
        exact List.cons_subset.mpr ⟨ha.subset ha.mem, List.Subset.trans hsubset hqs⟩

theorem Unshared.nodup_way {config : Config} (h : config.Unshared) (path : List Text) :
    (way config.store config.root path).Nodup := by
  obtain ⟨kind, ps, howns⟩ := h
  exact (way_of_owns howns path).1

/-- What comes into a closed store makes no difference to what a segment means. -/
theorem within?_of_grown (hclosed : st.Closed) (h : st <+: st') (hplace : place < st.length) (segment : Text) :
    within? st' place segment = within? st place segment := by
  rw [within?, within?, matchedNode?, matchedNode?, Store.entries_of_grown h hplace]
  cases hget : (st.entries place).get? (.text (matchedName (st.entries place) segment)) with
  | none => rfl
  | some m => exact Store.dict?_of_grown h (Store.entries_isIn hclosed hget)

theorem way_spelling_of_grown (hclosed : st.Closed) (h : st <+: st') (hplace : place < st.length) (path : List Text) :
    way st' place path = way st place path ∧ spelling st' place path = spelling st place path := by
  induction path generalizing place with
  | nil => exact ⟨rfl, rfl⟩
  | cons segment path ih =>
      have hwithin := within?_of_grown hclosed h hplace segment
      cases hin : within? st place segment with
      | none =>
          rw [hin] at hwithin
          rw [way_of_no_within hwithin, way_of_no_within hin, spelling_of_no_within hwithin, spelling_of_no_within hin,
            Store.entries_of_grown h hplace]
          exact ⟨rfl, rfl⟩
      | some within =>
          rw [hin] at hwithin
          obtain ⟨m, -, hdict⟩ := Option.bind_eq_some_iff.mp hin
          obtain ⟨-, kind, es, hget, -⟩ := Store.eq_of_dict? hdict
          obtain ⟨hway, hspelling⟩ := ih (List.getElem?_eq_some_iff.mp hget).1
          rw [way_of_within hwithin, way_of_within hin, spelling_of_within hwithin, spelling_of_within hin,
            Store.entries_of_grown h hplace, hway, hspelling]
          exact ⟨rfl, rfl⟩

/-- A store in which a node was set at a path, seen from the store before. -/
structure IsSet (st st' : Store) (place : Place) (path : List Text) (n : Node) : Prop where
  /-- The node is under the names that the segments meant. -/
  found : node? st' (.held place) (spelling st place path) = some n
  /-- They mean the same names afterwards. -/
  spelt : spelling st' place path = spelling st place path
  /-- The way leads further, if anywhere, through new dictionaries. -/
  new : ∀ p ∈ way st' place path, p ∈ way st place path ∨ st.length ≤ p
  nodup : (way st' place path).Nodup
  dict : st'.dict? (.held place) = some place
  /-- What is not on the way is as before. -/
  kept : ∀ p < st.length, p ∉ way st place path → st'[p]? = st[p]?

theorem node?_cons {kind : MapKind} {es : Table Key Node} (hplace : st[place]? = some (.map kind es))
    (hkind : kind.isDict = true) {name : Text} {m : Node} (hget : es.get? (.text name) = some m) (path : List Text) :
    node? st (.held place) (name :: path) = node? st m path := by
  rw [node?, Store.dict?_held hplace hkind, Option.bind_some, Store.entries_eq hplace, hget]

/-- What is set further on along a path is set along the path, also if the dictionary further on is new. -/
theorem IsSet.cons {st₁ : Store} {kind : MapKind} {es : Table Key Node} {ws : List Place}
    (h : IsSet st₁ st' within path n) (hplace : st₁[place]? = some (.map kind es)) (hkind : kind.isDict = true)
    (hname : matchedName es segment = matchedName (st.entries place) segment)
    (hget : es.get? (.text (matchedName es segment)) = some (.held within))
    (hspelling : spelling st place (segment :: path)
      = matchedName (st.entries place) segment :: Config.spelling st₁ within path)
    (hway : way st place (segment :: path) = place :: ws) (hnot : place ∉ ws)
    (hnew : ∀ p ∈ way st₁ within path, p ∈ ws ∨ st.length ≤ p) (hlt : place < st.length)
    (hle : st.length ≤ st₁.length) (hbefore : ∀ p < st.length, p ≠ place → st₁[p]? = st[p]?) :
    IsSet st st' place (segment :: path) n := by
  have hkept : ∀ p < st.length, p ∉ ws → st'[p]? = st₁[p]? := by
    intro p hp hnot
    refine h.kept p (Nat.lt_of_lt_of_le hp hle) fun hmem => ?_
    exact (hnew p hmem).elim hnot fun hle => Nat.not_lt_of_le hle hp
  have hnew' : ∀ p ∈ way st' within path, p ∈ ws ∨ st.length ≤ p := by
    intro p hp
    exact (h.new p hp).elim (hnew p) fun hle' => Or.inr (Nat.le_trans hle hle')
  have hplace' : st'[place]? = some (.map kind es) := (hkept place hlt hnot).trans hplace
  have hin : within? st' place segment = some within := by rw [within?_eq hplace', hget, Option.bind_some, h.dict]
  refine ⟨?_, ?_, ?_, ?_, Store.dict?_held hplace' hkind, fun p hp hmem => ?_⟩
  · rw [hspelling, node?_cons hplace' hkind (hname ▸ hget)]
    exact h.found
  · rw [spelling_of_within hin, Store.entries_eq hplace', hname, h.spelt, hspelling]
  · rw [way_of_within hin, hway]
    exact List.forall_mem_cons.mpr ⟨Or.inl List.mem_cons_self, fun p hp =>
      (hnew' p hp).imp_left (List.mem_cons_of_mem place)⟩
  · rw [way_of_within hin]
    refine List.nodup_cons.mpr ⟨fun hmem => ?_, h.nodup⟩
    exact (hnew' place hmem).elim hnot fun hle => Nat.not_lt_of_le hle hlt
  · rw [hway, List.mem_cons, not_or] at hmem
    exact (hkept p hp hmem.2).trans (hbefore p hp hmem.1)

section Cases

variable {kind : MapKind} {es : Table Key Node} (hplace : st[place]? = some (.map kind es)) (hkind : kind.isDict = true)
  (hsegment : Text.lower segment = segment)
include hplace hkind hsegment

theorem isSet_single (n : Node) : IsSet st (setAt st place [segment] n) place [segment] n := by
  have hentries := Store.entries_eq hplace
  have hput : (setAt st place [segment] n)[place]?
      = some (.map kind (es.put (.text (matchedName es segment)) n)) := by
    rw [setAt, putMatched_eq hplace, Store.getElem?_put_self hplace]
  have hname : matchedName (es.put (.text (matchedName es segment)) n) segment = matchedName es segment :=
    matchedName_put hsegment n segment
  have hway (st : Store) : way st place [segment] = [place] := by
    cases hin : within? st place segment with
    | none => exact way_of_no_within hin []
    | some within => exact way_of_within hin []
  have hspelling (st : Store) : spelling st place [segment] = [matchedName (st.entries place) segment] := by
    cases hin : within? st place segment with
    | none => exact spelling_of_no_within hin []
    | some within => exact spelling_of_within hin []
  refine ⟨?_, ?_, ?_, ?_, Store.dict?_held hput hkind, ?_⟩
  · rw [hspelling, hentries, node?_cons hput hkind (Table.get?_put_self _ _ _)]
    rfl
  · rw [hspelling, hspelling, hentries, Store.entries_eq hput, hname]
  · rw [hway, hway]
    exact fun p hp => Or.inl hp
  · rw [hway]
    exact List.nodup_singleton place
  · intro p _ hp
    rw [hway, List.mem_singleton] at hp
    rw [setAt, putMatched_eq hplace, Store.getElem?_put_of_ne hp]

/-- What is set in an empty dictionary that was put on the way is set along the path. -/
theorem IsSet.opened (h : IsSet (opened st place segment) st' st.length (next :: rest) n)
    (hin : within? st place segment = none) : IsSet st st' place (segment :: next :: rest) n := by
  obtain ⟨hlt, -⟩ := List.getElem?_eq_some_iff.mp hplace
  have hfresh : (Config.opened st place segment)[st.length]? = some (.map .dict []) :=
    getElem?_opened_new (Nat.ne_of_lt hlt)
  have hnone := within?_of_empty hfresh next
  refine h.cons (getElem?_opened_self hplace) hkind ?_ ?_ ?_ (way_of_no_within hin _) List.not_mem_nil ?_ hlt ?_
    fun p hp hne => getElem?_opened_of_ne hp hne
  · rw [matchedName_put hsegment, Store.entries_eq hplace]
  · rw [matchedName_put hsegment, Table.get?_put_self]
  · rw [spelling_of_no_within hin, spelling_of_no_within hnone, Store.entries_eq hfresh]
    rfl
  · rw [way_of_no_within hnone]
    exact List.forall_mem_singleton.mpr (Or.inr (Nat.le_refl _))
  · rw [length_opened]
    exact Nat.le_succ _

end Cases

/-- **What is set at a path stands under the names that its segments mean**, if no dictionary comes twice on the way. -/
theorem isSet_setAt (hlower : InLowerCase path) (hne : path ≠ []) (hdict : st.dict? (.held place) = some place)
    (hway : (way st place path).Nodup) (n : Node) : IsSet st (setAt st place path n) place path n := by
  induction path generalizing st place with
  | nil => exact absurd rfl hne
  | cons segment path ih =>
      obtain ⟨hsegment, hlower⟩ := List.forall_mem_cons.mp hlower
      obtain ⟨-, kind, es, hplace, hkind⟩ := Store.eq_of_dict? hdict
      obtain ⟨hlt, -⟩ := List.getElem?_eq_some_iff.mp hplace
      cases path with
      | nil => exact isSet_single hplace hkind hsegment n
      | cons next rest =>
          cases hin : within? st place segment with
          | some within =>
              rw [way_of_within hin] at hway
              obtain ⟨hnot, hway⟩ := List.nodup_cons.mp hway
              obtain ⟨m, hget, hm⟩ := Option.bind_eq_some_iff.mp hin
              obtain ⟨rfl, -⟩ := Store.eq_of_dict? hm
              rw [matchedNode?_eq hplace] at hget
              rw [setAt_of_within hin]
              exact (ih hlower (List.cons_ne_nil next rest) hm hway).cons hplace hkind (by rw [Store.entries_eq hplace])
                hget (spelling_of_within hin _) (way_of_within hin _) hnot (fun p hp => Or.inl hp) hlt (Nat.le_refl _)
                fun p _ _ => rfl
          | none =>
              -- an empty dictionary is put on the way, and the rest is set in it
              have hfresh : (opened st place segment)[st.length]? = some (.map .dict []) :=
                getElem?_opened_new (Nat.ne_of_lt hlt)
              have hone : (way (opened st place segment) st.length (next :: rest)).Nodup := by
                rw [way_of_no_within (within?_of_empty hfresh next)]
                exact List.nodup_singleton st.length
              rw [setAt_of_no_within hin]
              exact (ih hlower (List.cons_ne_nil next rest) (Store.dict?_held hfresh rfl) hone).opened hplace hkind
                hsegment hin

end Way

/-! ## Setting along a path -/

theorem closed_putMatched {st : Store} {n : Node} (h : st.Closed) (hn : n.IsIn st) (place : Place) (segment : Text) :
    (putMatched st place segment n).Closed := h.put hn place _

theorem closed_opened {st : Store} (h : st.Closed) (place : Place) (segment : Text) :
    (opened st place segment).Closed :=
  closed_putMatched (h.concat fun _ hn => absurd hn List.not_mem_nil) (Store.isIn_concat st _) place segment

/-- A closed store stays closed when one of its nodes is set. -/
theorem closed_setAt {st : Store} {n : Node} (h : st.Closed) (hn : n.IsIn st) (place : Place) (path : List Text) :
    (setAt st place path n).Closed := by
  induction path generalizing st place with
  | nil => exact h
  | cons segment path ih =>
      cases path with
      | nil => exact closed_putMatched h hn place segment
      | cons next rest =>
          cases hin : within? st place segment with
          | some within =>
              rw [setAt_of_within hin]
              exact ih h hn within
          | none =>
              rw [setAt_of_no_within hin]
              refine ih (closed_opened h place segment) (hn.mono ?_) st.length
              rw [length_opened]
              exact Nat.le_succ _

/-- A configuration that is a dictionary, with nothing in it that leads nowhere, and in which no dictionary comes twice
    on the way along a path. -/
structure Passable (config : Config) (path : List Text) : Prop where
  closed : config.store.Closed
  dict : config.store.dict? (.held config.root) = some config.root
  nodup : (way config.store config.root path).Nodup

section Setting

variable {config : Config} {path : List Text}

/-- **A value that is set at a path is read under the names that its segments mean**, and can be set there again. -/
theorem Passable.set (h : config.Passable path) (hlower : InLowerCase path) (hne : path ≠ []) (v : Value) :
    (config.set path v).Passable path ∧
      spelling (config.set path v).store config.root path = spelling config.store config.root path ∧
      (config.set path v).at? (spelling config.store config.root path) = some v := by
  obtain ⟨hgrown, hclosed, hin⟩ := Store.hold_closed h.closed v
  obtain ⟨more, ps, hstore, howns, hps⟩ := config.store.hold_owns v
  rw [← hstore] at howns
  have hroot : config.root < config.store.length := by
    obtain ⟨-, kind, es, hget, -⟩ := Store.eq_of_dict? h.dict
    exact (List.getElem?_eq_some_iff.mp hget).1
  obtain ⟨hway, hspelling⟩ := way_spelling_of_grown h.closed hgrown hroot path
  have hdict : (config.store.hold v).1.dict? (.held config.root) = some config.root := by
    rw [Store.dict?_of_grown (n := .held config.root) hgrown hroot, h.dict]
  have hset := isSet_setAt hlower hne hdict (hway ▸ h.nodup) (config.store.hold v).2
  refine ⟨⟨closed_setAt hclosed hin config.root path, hset.dict, hset.nodup⟩, hset.spelt.trans hspelling, ?_⟩
  -- the containers of the value are new, so none of them is on the way
  have howns' : Owns (config.set path v).store (config.store.hold v).2 v ps := by
    refine howns.frame fun p hp => hset.kept p (howns.lt_length p hp) fun hmem => ?_
    rw [hway] at hmem
    exact Nat.not_lt_of_le (hps p hp) (way_lt_length hroot p hmem)
  have hfound : node? (config.set path v).store (.held (config.set path v).root)
      (spelling config.store config.root path) = some (config.store.hold v).2 := hspelling ▸ hset.found
  rw [at?, hfound, Option.map_some, howns'.value_eq (OwnsAll.length_le howns')]

/-- **Several changes at one path** leave the value of the last one there. -/
theorem at?_applied_spelling {changes : Changes} {v : Value} (h : config.Passable path) (hlower : InLowerCase path)
    (hne : path ≠ []) (hall : ∀ c ∈ changes, c = (path, v)) (hsome : changes ≠ []) :
    (applied config changes).at? (spelling config.store config.root path) = some v := by
  induction changes generalizing config with
  | nil => exact absurd rfl hsome
  | cons c changes ih =>
      obtain ⟨rfl, hrest⟩ := List.forall_mem_cons.mp hall
      obtain ⟨hafter, hspelling, hread⟩ := h.set hlower hne v
      cases changes with
      | nil => exact hread
      | cons c' changes =>
          -- the next change meets the same names, so it goes to the same place
          rw [← hspelling]
          exact ih hafter hrest (List.cons_ne_nil c' changes)

end Setting

/-! ### A dictionary that holds itself -/

/-- A dictionary that stands under a name in itself, and under another name in the configuration. -/
def circle : Config := ⟨[.map .dict [(.text ['b'], .held 0)], .map .dict [(.text ['a'], .held 0)]], 1⟩

/-- **What is set where a dictionary leads back to itself is not read there**: it takes the place of what led there. -/
theorem at?_set_of_circle (v : Int) :
    way circle.store circle.root [['a'], ['b'], ['b']] = [1, 0, 0] ∧
      (circle.set [['a'], ['b'], ['b']] (.int v)).at? [['a'], ['b'], ['b']] = none ∧
      (circle.set [['a'], ['b'], ['b']] (.int v)).at? [['a'], ['b']] = some (.int v) := by
  have hset : circle.set [['a'], ['b'], ['b']] (.int v)
      = ⟨[.map .dict [(.text ['b'], .leaf (.int v))], .map .dict [(.text ['a'], .held 0)]], 1⟩ := rfl
  rw [hset]
  exact ⟨rfl, rfl, rfl⟩

end Config

end Mustache

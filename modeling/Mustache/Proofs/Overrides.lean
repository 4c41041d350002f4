import Mathlib.Data.List.Forall2
import Mustache.Proofs.Background
import Mustache.Proofs.Casing
import Mustache.Proofs.CheckedLoads
import Mustache.Proofs.Sharing

/-!
# `Mustache.Proofs.Overrides` — overrides one after the other

The environment overrides settings at paths of segments in lower case. Each segment means a name on the way, whatever
the case of the name, so paths are read in the same manner as they are set (`Config.readAt?`). Setting a name does not
change what any segment means (`Config.matchedName_put`), for which it matters that a new name is in lower case already.
Changes are made in place. In a configuration that shares nothing this is to rebuild its entries, and they can be read
in what is rebuilt.

* `Config.readAt?_rebuilt_self`, `Config.readAt?_rebuilt_of_apart` — one change is read where it was made, and not apart
  from there, along the path that is set;
* `Config.readAt?_rebuiltAll_self`, `Config.readAt?_rebuiltAll_of_apart` — the same of many changes, by induction on
  them;
* `Config.overridesOf_cons`, `Config.overridesOf_cons_of_not` — what one variable adds, said with the name of the
  variable alone (`Config.Overriding`, `Config.pathOf`);
* `Config.overrides_compose` — **overrides compose by the last one**, and nothing else changes;
* `Config.overrides_of_shared` — what changes besides, if a dictionary stands in two places.
-/

namespace Mustache

/-! ## Names that are set -/

namespace Table

variable {κ α : Type} [BEq κ] {t : Table κ α} {key : κ} {value : α}

theorem keys_put_of_get? (h : t.get? key = some value) (value' : α) : (t.put key value').keys = t.keys := by
  induction t with
  | nil => cases h
  | cons e t ih =>
      rw [get?] at h
      rw [put]
      cases hkey : e.1 == key with
      | true => rfl
      | false =>
          rw [hkey, if_neg Bool.false_ne_true] at h
          rw [if_neg Bool.false_ne_true]
          exact congrArg (e.1 :: ·) (ih h)

theorem get?_ne_none_of_mem [ReflBEq κ] (h : key ∈ t.keys) : t.get? key ≠ none := by
  induction t with
  | nil => cases h
  | cons e t ih =>
      rw [get?]
      cases hkey : e.1 == key with
      | true => exact Option.some_ne_none e.2
      | false =>
          rcases List.mem_cons.mp h with rfl | h
          · exact absurd BEq.rfl (Bool.eq_false_iff.mp hkey)
          · exact ih h

end Table

namespace Config

section Names

variable {α : Type} {es : Table Key α} {segment : Text}

/-- What a segment means: a name that is equal to it in lower case, or itself if there is none. -/
theorem matchedName_cases (es : Table Key α) (segment : Text) :
    (Key.text (matchedName es segment) ∈ Table.keys es ∧ Text.lower (matchedName es segment) = segment) ∨
      (matchedName es segment = segment ∧ ∀ name, Key.text name ∈ Table.keys es → Text.lower name ≠ segment) := by
  unfold matchedName
  cases hfind : ((Table.keys es).filterMap Key.text?).reverse.find? fun name => Text.lower name == segment with
  | some name =>
      apply Or.inl
      have hmem : name ∈ (Table.keys es).filterMap Key.text? := List.mem_reverse.mp (List.mem_of_find?_eq_some hfind)
      obtain ⟨k, hk, hname⟩ := List.mem_filterMap.mp hmem
      obtain rfl : k = .text name := by
        cases k with
        | text s => exact congrArg Key.text (Option.some.inj hname)
        | _ => cases hname
      exact ⟨hk, eq_of_beq (List.find?_some hfind :)⟩
  | none =>
      refine Or.inr ⟨rfl, fun name hname heq => ?_⟩
      refine List.find?_eq_none.mp hfind name ?_ (beq_iff_eq.mpr heq)
      exact List.mem_reverse.mpr (List.mem_filterMap.mpr ⟨_, hname, rfl⟩)

/-- A name that a segment in lower case means is that segment in lower case. -/
theorem lower_matchedName (h : Text.lower segment = segment) : Text.lower (matchedName es segment) = segment := by
  rcases matchedName_cases es segment with ⟨-, hlower⟩ | ⟨heq, -⟩
  · exact hlower
  · rw [heq, h]

/-- To set a name that a segment means does not change what any segment means. -/
theorem matchedName_put (h : Text.lower segment = segment) (v : α) (other : Text) :
    matchedName (es.put (.text (matchedName es segment)) v) other = matchedName es other := by
  cases hget : es.get? (.text (matchedName es segment)) with
  | some w => rw [matchedName, Table.keys_put_of_get? hget, matchedName]
  | none =>
      rcases matchedName_cases es segment with ⟨hmem, -⟩ | ⟨hself, hnew⟩
      · exact absurd hget (Table.get?_ne_none_of_mem hmem)
      · -- the new name is last, so its own segment finds it, and others go on as before
        rw [hself] at hget
        rw [hself, Table.put_eq_append hget, matchedName, Table.keys, List.map_append, List.filterMap_append,
          List.reverse_append]
        show (List.find? _ (segment :: _)).getD other = _
        rw [List.find?_cons, h]
        by_cases hother : segment = other
        · subst hother
          rw [beq_self_eq_true, hself]
          rfl
        · rw [beq_false_of_ne hother]
          rfl

end Names

/-! ## Reading by matched names -/

/-- What stands at a path of segments, each of which means a name whatever its case. -/
def matched? : Value → List Text → Option Value
  | v, [] => some v
  | v, segment :: path =>
      v.dictEntries?.bind fun es => (es.get? (.text (matchedName es segment))).bind fun w => matched? w path

/-- What stands at a path in entries. -/
def readAt? (es : Entries) (path : List Text) : Option Value := matched? (.map .dict es) path

section Reading

variable {es : Entries} {segment : Text} {p q : List Text}

theorem readAt?_cons (es : Entries) (segment : Text) (p : List Text) :
    readAt? es (segment :: p) = (es.get? (.text (matchedName es segment))).bind fun w => matched? w p := rfl

theorem matched?_dict {kind : MapKind} (hkind : kind.isDict = true) (es : Entries) (hp : p ≠ []) :
    matched? (.map kind es) p = readAt? es p := by
  cases p with
  | nil => exact absurd rfl hp
  | cons segment p =>
      rw [matched?, Value.dictEntries?, hkind]
      rfl

theorem isDict_inner (es : Entries) (name : Text) : (inner es name).1.isDict = true := by
  unfold inner
  split
  · split
    · assumption
    · rfl
  · rfl

/-- What stands further on under a name stands in the dictionary under it. -/
theorem matched?_inner (es : Entries) (name : Text) (hp : p ≠ []) :
    ((es.get? (.text name)).bind fun w => matched? w p) = readAt? (inner es name).2 p := by
  obtain ⟨segment, p, rfl⟩ := List.exists_cons_of_ne_nil hp
  rw [inner]
  cases es.get? (.text name) with
  | none => rfl
  | some w =>
      cases w with
      | map kind below =>
          show matched? (.map kind below) (segment :: p)
            = readAt? (if kind.isDict then (kind, below) else (.dict, [])).2 (segment :: p)
          cases hkind : kind.isDict with
          | true => exact matched?_dict hkind below hp
          | false =>
              rw [matched?, Value.dictEntries?, hkind]
              rfl
      | _ => rfl

/-- Of two paths neither is the other or a beginning of it, whatever the case of the second. -/
def Apart (p q : List Text) : Prop := ¬ p <+: q.map Text.lower ∧ ¬ q.map Text.lower <+: p

instance (p q : List Text) : Decidable (Apart p q) := inferInstanceAs (Decidable (_ ∧ _))

theorem Apart.ne_nil (h : Apart p q) : p ≠ [] ∧ q ≠ [] := by
  constructor
  · rintro rfl
    exact h.1 List.nil_prefix
  · rintro rfl
    exact h.2 List.nil_prefix

/-- All segments of a path are in lower case. -/
def InLowerCase (p : List Text) : Prop := ∀ segment ∈ p, Text.lower segment = segment

/-- **What is set at a path is read there.** -/
theorem readAt?_rebuilt_self (hp : InLowerCase p) (hne : p ≠ []) (es : Entries) (v : Value) :
    readAt? (rebuilt es p v) p = some v := by
  induction p generalizing es with
  | nil => exact absurd rfl hne
  | cons segment p ih =>
      obtain ⟨hsegment, hp⟩ := List.forall_mem_cons.mp hp
      cases p with
      | nil => rw [rebuilt, readAt?_cons, matchedName_put hsegment, Table.get?_put_self]; rfl
      | cons next rest =>
          rw [rebuilt, readAt?_cons, matchedName_put hsegment, Table.get?_put_self, Option.bind_some,
            matched?_dict (isDict_inner es _) _ (List.cons_ne_nil _ _)]
          exact ih hp (List.cons_ne_nil _ _) _

theorem rebuilt_cons (es : Entries) (segment : Text) (p : List Text) (v : Value) :
    ∃ w, rebuilt es (segment :: p) v = es.put (.text (matchedName es segment)) w := by
  cases p with
  | nil => exact ⟨v, rfl⟩
  | cons next rest => exact ⟨_, rfl⟩

/-- **What is read apart from a path** does not change when something is set there. -/
theorem readAt?_rebuilt_of_apart (hp : InLowerCase p) (h : Apart p q) (es : Entries) (v : Value) :
    readAt? (rebuilt es p v) q = readAt? es q := by
  induction p generalizing es q with
  | nil => exact absurd rfl h.ne_nil.1
  | cons segment p ih =>
      obtain ⟨hsegment, hp⟩ := List.forall_mem_cons.mp hp
      cases q with
      | nil => exact absurd rfl h.ne_nil.2
      | cons other q =>
          by_cases hname : matchedName es other = matchedName es segment
          · -- the two segments mean the same name, so the paths part further on
            have hother : Text.lower other = segment := by
              rcases matchedName_cases es other with ⟨-, hlower⟩ | ⟨hself, -⟩
              · rw [← hlower, hname, lower_matchedName hsegment, hsegment]
              · rw [← hself, hname, lower_matchedName hsegment]
            have hrest : Apart p q := by
              obtain ⟨hforth, hback⟩ := h
              rw [List.map_cons, hother] at hforth hback
              exact ⟨fun hpq => hforth ((List.prefix_cons_inj segment).mpr hpq),
                fun hqp => hback ((List.prefix_cons_inj segment).mpr hqp)⟩
            obtain ⟨hpne, hqne⟩ := hrest.ne_nil
            obtain ⟨next, rest, rfl⟩ := List.exists_cons_of_ne_nil hpne
            rw [rebuilt, readAt?_cons, matchedName_put hsegment, hname, Table.get?_put_self, Option.bind_some,
              matched?_dict (isDict_inner es _) _ hqne, ih hp hrest, readAt?_cons, hname, matched?_inner es _ hqne]
          · -- whatever is set is set under another name
            obtain ⟨w, hset⟩ := rebuilt_cons es segment p v
            have hkey : (Key.text (matchedName es segment) == Key.text (matchedName es other)) = false := by
              rw [Key.text_beq_text]
              exact decide_eq_false (Ne.symm hname)
            rw [hset, readAt?_cons, matchedName_put hsegment, Table.get?_put_of_ne es w hkey, readAt?_cons]

end Reading

/-! ## Several changes -/

/-- Changes at paths in lower case that have segments. -/
def Changes.Proper (changes : Changes) : Prop := ∀ c ∈ changes, c.1 ≠ [] ∧ InLowerCase c.1

section Changes

variable {changes : Changes} {es : Entries} {q : List Text}

/-- **What is read apart from all changes** is what was read before them. -/
theorem readAt?_rebuiltAll_of_apart (h : changes.Proper) (hq : ∀ c ∈ changes, Apart c.1 q) :
    readAt? (rebuiltAll es changes) q = readAt? es q := by
  induction changes generalizing es with
  | nil => rfl
  | cons c changes ih =>
      obtain ⟨⟨-, hc⟩, hrest⟩ := List.forall_mem_cons.mp h
      obtain ⟨hcq, hq⟩ := List.forall_mem_cons.mp hq
      -- the later changes leave what the first one left
      show readAt? (rebuiltAll (rebuilt es c.1 c.2) changes) q = _
      rw [ih hrest hq, readAt?_rebuilt_of_apart hc hcq]

/-- **A change that no later one meets** is read at its path. -/
theorem readAt?_rebuiltAll_self {before after : Changes} {p : List Text} {v : Value} (hp : p ≠ [] ∧ InLowerCase p)
    (hafter : Changes.Proper after) (hapart : ∀ c ∈ after, Apart c.1 p) :
    readAt? (rebuiltAll es (before ++ (p, v) :: after)) p = some v := by
  rw [rebuiltAll, List.foldl_append]
  show readAt? (rebuiltAll (rebuilt (rebuiltAll es before) p v) after) p = _
  rw [readAt?_rebuiltAll_of_apart hafter hapart, readAt?_rebuilt_self hp.2 hp.1]

end Changes

/-! ## Variables that override -/

/-- A variable that overrides a setting: it is the engine's but does not name the file, and the rest of its name has
    no empty segment. -/
def Overriding (v : Text) : Prop :=
  variableStem <+: v ∧ v ≠ fileVariable ∧ [] ∉ Variable.segments (v.drop variableStem.length)

instance : DecidablePred Overriding := fun _ => inferInstanceAs (Decidable (_ ∧ _ ∧ _))

/-- The path of a variable: the segments of its name in lower case. -/
def pathOf (v : Text) : List Text := (Variable.segments (v.drop variableStem.length)).map Text.lower

/-- The variables that override settings, in order. -/
def overriding (environment : Table Text Text) : List Text := (Text.sort environment.keys).filter (Overriding ·)

/-- A change is that of a variable: it sets the value of the variable at its path. -/
def IsChangeOf [ReadingLimits] (environment : Table Text Text) (v : Text) (c : List Text × Value) : Prop :=
  c.1 = pathOf v ∧ Variable.value ((environment.get? v).getD []) = .ok c.2

section Variables

variable {environment : Table Text Text} {v : Text} {vs : List Text}

theorem mem_sort {ts : List Text} {t : Text} : t ∈ Text.sort ts ↔ t ∈ ts := (List.mergeSort_perm _ _).mem_iff

theorem Variable.segments_ne_nil (name : Text) : Variable.segments name ≠ [] := by
  unfold Variable.segments
  split
  · fun_cases Text.splitOnTwice '_' name <;> simp
  · fun_cases Text.splitOn '_' name <;> simp

theorem pathOf_ne_nil (v : Text) : pathOf v ≠ [] := by
  intro h
  exact Variable.segments_ne_nil _ (List.map_eq_nil_iff.mp h)

theorem inLowerCase_pathOf (v : Text) : InLowerCase (pathOf v) := by
  intro segment hmem
  obtain ⟨raw, -, rfl⟩ := List.mem_map.mp hmem
  exact Text.lower_lower raw

theorem Variable.path?_eq_some {name : Text} {path : List Text} : Variable.path? name = some path ↔
    [] ∉ Variable.segments name ∧ path = (Variable.segments name).map Text.lower := by
  have hany : (Variable.segments name).any List.isEmpty = true ↔ [] ∈ Variable.segments name := by
    simp [List.any_eq_true]
  unfold Variable.path?
  dsimp only
  split
  · rename_i hempty
    exact ⟨nofun, fun h => absurd (hany.mp hempty) h.1⟩
  · rename_i hempty
    rw [Option.some.injEq, eq_comm]
    exact (and_iff_right fun hmem => hempty (hany.mpr hmem)).symm

theorem settingName?_eq_some {name : Text} : settingName? v = some name ↔
    v ≠ fileVariable ∧ variableStem <+: v ∧ name = v.drop variableStem.length ∧ name ≠ [] := by
  unfold settingName?
  split
  · rename_i hfile
    exact ⟨nofun, fun h => absurd hfile h.1⟩
  · rename_i hfile
    rw [← List.isPrefixOf_iff_prefix]
    split
    · rename_i c cs hstem hrest
      rw [hstem, hrest, Option.some.injEq]
      constructor
      · rintro rfl
        exact ⟨hfile, rfl, rfl, List.cons_ne_nil c cs⟩
      · rintro ⟨-, -, rfl, -⟩
        rfl
    · rename_i hno
      refine ⟨nofun, ?_⟩
      rintro ⟨-, hstem, rfl, hne⟩
      obtain ⟨c, cs, hrest⟩ := List.exists_cons_of_ne_nil hne
      exact absurd hrest (hno c cs hstem)

/-- A variable has a name and a path just if it overrides a setting. -/
theorem setting_iff {path : List Text} :
    (∃ name, settingName? v = some name ∧ Variable.path? name = some path) ↔ Overriding v ∧ path = pathOf v := by
  constructor
  · rintro ⟨name, hname, hpath⟩
    obtain ⟨hfile, hstem, rfl, -⟩ := settingName?_eq_some.mp hname
    obtain ⟨hsegments, rfl⟩ := Variable.path?_eq_some.mp hpath
    exact ⟨⟨hstem, hfile, hsegments⟩, rfl⟩
  · rintro ⟨⟨hstem, hfile, hsegments⟩, rfl⟩
    have hne : v.drop variableStem.length ≠ [] := by
      intro h
      rw [h] at hsegments
      exact hsegments List.mem_cons_self
    exact ⟨_, settingName?_eq_some.mpr ⟨hfile, hstem, rfl, hne⟩, Variable.path?_eq_some.mpr ⟨hsegments, rfl⟩⟩

variable [ReadingLimits]

/-- A variable that overrides nothing is left out. -/
theorem overridesOf_cons_of_not (h : ¬Overriding v) :
    overridesOf false environment (v :: vs) = overridesOf false environment vs := by
  rw [overridesOf]
  cases hname : settingName? v with
  | none => rfl
  | some name =>
      cases hpath : Variable.path? name with
      | none => simp only [Variable.path, hpath]; rfl
      | some path => exact absurd (setting_iff.mp ⟨name, hname, hpath⟩).1 h

/-- A variable that overrides a setting gives a change, or its value is at fault. -/
theorem overridesOf_cons (h : Overriding v) : overridesOf false environment (v :: vs)
    = match Variable.value ((environment.get? v).getD []) with
      | .error fault => ⟨[], some fault⟩
      | .ok x => (overridesOf false environment vs).after (pathOf v) x := by
  obtain ⟨name, hname, hpath⟩ := setting_iff.mpr ⟨h, rfl⟩
  obtain ⟨segment, rest, hcons⟩ := List.exists_cons_of_ne_nil (pathOf_ne_nil v)
  rw [hcons] at hpath ⊢
  cases hvalue : Variable.value ((environment.get? v).getD []) <;>
    simp only [overridesOf, hname, Variable.path, hpath, hvalue]

/-- All values can be read just if those of the variables that override something can. -/
theorem readable_iff : Readable environment ↔
    ∀ v ∈ Table.keys environment, Overriding v → ∃ x, Variable.value ((environment.get? v).getD []) = .ok x := by
  constructor
  · intro h v hv hoverriding
    obtain ⟨name, hname, hpath⟩ := setting_iff.mpr ⟨hoverriding, rfl⟩
    exact h v hv name _ hname hpath
  · intro h v hv name path hname hpath
    exact h v hv (setting_iff.mp ⟨name, hname, hpath⟩).1

/-- The changes are those of variables that override something. -/
theorem proper_overridesOf (environment : Table Text Text) (vs : List Text) :
    (overridesOf false environment vs).changes.Proper := by
  induction vs with
  | nil => exact nofun
  | cons v vs ih =>
      by_cases h : Overriding v
      · rw [overridesOf_cons h]
        cases Variable.value ((environment.get? v).getD []) with
        | error fault => exact nofun
        | ok x => exact List.forall_mem_cons.mpr ⟨⟨pathOf_ne_nil v, inLowerCase_pathOf v⟩, ih⟩
      · rw [overridesOf_cons_of_not h]
        exact ih

/-- **If all values can be read, each variable that overrides something gives a change**, in their order. -/
theorem forall₂_overridesOf
    (h : ∀ v ∈ vs, Overriding v → ∃ x, Variable.value ((environment.get? v).getD []) = .ok x) :
    List.Forall₂ (IsChangeOf environment) (vs.filter (Overriding ·)) (overridesOf false environment vs).changes := by
  induction vs with
  | nil => exact .nil
  | cons v vs ih =>
      obtain ⟨hv, hvs⟩ := List.forall_mem_cons.mp h
      by_cases hoverriding : Overriding v
      · obtain ⟨x, hx⟩ := hv hoverriding
        rw [List.filter_cons_of_pos (p := (Overriding ·)) (decide_eq_true hoverriding), overridesOf_cons hoverriding,
          hx]
        exact .cons ⟨rfl, hx⟩ (ih hvs)
      · rw [List.filter_cons_of_neg (p := (Overriding ·)) (by rwa [decide_eq_true_eq]),
          overridesOf_cons_of_not hoverriding]
        exact ih hvs

theorem forall₂_overrides (h : Readable environment) :
    List.Forall₂ (IsChangeOf environment) (overriding environment) (overrides false environment).changes :=
  forall₂_overridesOf fun v hv => readable_iff.mp h v (mem_sort.mp hv)

/-- If some value cannot be read, the first such value is at fault. -/
theorem fault_of_unreadable {v : Text} (hv : v ∈ vs) (hoverriding : Overriding v)
    (h : ∀ x, Variable.value ((environment.get? v).getD []) ≠ .ok x) :
    ∃ fault, Variable.Refused fault ∧ (overridesOf false environment vs).fault = some fault := by
  induction vs with
  | nil => cases hv
  | cons first vs ih =>
      by_cases hfirst : Overriding first
      · rw [overridesOf_cons hfirst]
        cases hvalue : Variable.value ((environment.get? first).getD []) with
        | error fault => exact ⟨fault, Variable.refused_of_value hvalue, rfl⟩
        | ok x =>
            rcases List.mem_cons.mp hv with rfl | hv
            · exact absurd hvalue (h x)
            · exact ih hv
      · rw [overridesOf_cons_of_not hfirst]
        rcases List.mem_cons.mp hv with rfl | hv
        · exact absurd hoverriding hfirst
        · exact ih hv

end Variables

/-- **Overrides, one after the other.** Let all values of overriding variables be readable. Then there is one change for
    each of these variables, in the order of their names, at the path and with the value of the variable, and the
    changes can be put in effect in any configuration. If no container stands in it twice, a change is read at its path
    if no later one is at that path, at a beginning of it or further on; and what is read apart from all changes is what
    was read before. If some value cannot be read, putting the changes in effect ends with the fault of that value. -/
theorem overrides_compose [ReadingLimits] (environment : Table Text Text) (config : Config) :
    let o := overrides false environment
    (Readable environment →
      List.Forall₂ (IsChangeOf environment) (overriding environment) o.changes ∧
      o.changes.length = (overriding environment).length ∧
      ∃ config', o.applyOn config = .ok config' ∧ (config.Unshared →
        (∀ before p v after, o.changes = before ++ (p, v) :: after → (∀ c ∈ after, Apart c.1 p) →
          readAt? config' p = some v) ∧
        ∀ q, (∀ c ∈ o.changes, Apart c.1 q) → readAt? config' q = readAt? config q)) ∧
    (¬Readable environment → ∃ fault, Variable.Refused fault ∧ o.applyOn config = .error fault) := by
  intro o
  have hproper : o.changes.Proper := proper_overridesOf environment (Text.sort environment.keys)
  constructor
  · intro h
    have hchanges := forall₂_overrides h
    refine ⟨hchanges, hchanges.length_eq.symm, applied config o.changes, ?_, fun hconfig => ?_⟩
    · rw [Overrides.applyOn, Overrides.complete_of_no_fault (overrides_fault_of_readable h)]
      rfl
    · obtain ⟨-, hentries⟩ := hconfig.applied fun c hc => (hproper c hc).1
      rw [hentries]
      refine ⟨?_, fun q hq => readAt?_rebuiltAll_of_apart hproper hq⟩
      intro before p v after hsplit hafter
      -- the changes before it do not matter: it is read whatever it is made in
      rw [hsplit]
      rw [hsplit] at hproper
      obtain ⟨hp, hproper⟩ := List.forall_mem_cons.mp (List.forall_mem_append.mp hproper).2
      exact readAt?_rebuiltAll_self hp hproper hafter
  · intro h
    rw [readable_iff] at h
    push Not at h
    obtain ⟨v, hv, hoverriding, hbad⟩ := h
    obtain ⟨fault, hrefused, hfault⟩ : ∃ fault, Variable.Refused fault ∧ o.fault = some fault :=
      fault_of_unreadable (mem_sort.mpr hv) hoverriding hbad
    refine ⟨fault, hrefused, ?_⟩
    rw [Overrides.applyOn, Overrides.complete_of_fault hfault]
    rfl

/-! ### Overrides that meet -/

/-- A scalar, a value below it, the same path in another spelling, a variable for the file and a malformed name. -/
def meetingVariables : Table Text Text :=
  [("WHISKER_A".toList, ['1']), ("WHISKER_A__B".toList, ['2']), ("WHISKER_CONFIG".toList, ['c']),
   ("WHISKER_X__".toList, ['3']), ("WHISKER_a__b".toList, "True".toList)]

/-- **The last of three overrides that meet is read**, and what is beside them is as before. -/
theorem overrides_compose_meeting :
    (ofMap .dict (.ofNames [("A", .null), ("c", .int 4)])).Unshared ∧ Readable meetingVariables ∧
      (overrides false meetingVariables).changes.length = 3 ∧
      ∃ config', (overrides false meetingVariables).applyOn (ofMap .dict (.ofNames [("A", .null), ("c", .int 4)]))
          = .ok config' ∧
        readAt? config' [['a'], ['b']] = some (.bool true) ∧ readAt? config' [['c']] = some (.int 4) := by
  obtain ⟨hunshared, hentries⟩ := unshared_ofMap .dict (.ofNames [("A", .null), ("c", .int 4)])
  have hreadable : Readable meetingVariables := by
    have hvalues : ∀ v ∈ Table.keys meetingVariables,
        (Variable.value ((meetingVariables.get? v).getD [])).isOk = true := by decide +kernel
    rw [readable_iff]
    intro v hv _
    have hvalue := hvalues v hv
    cases hx : Variable.value ((meetingVariables.get? v).getD []) with
    | ok x => exact ⟨x, rfl⟩
    | error fault =>
        rw [hx] at hvalue
        cases hvalue
  have hchanges : (overrides false meetingVariables).changes
      = [([['a']], .int 1), ([['a'], ['b']], .int 2), ([['a'], ['b']], .bool true)] := by
    rw [overrides_of_sorted (by decide)]
    rfl
  obtain ⟨-, -, config', happly, hlaws⟩ := (overrides_compose meetingVariables (ofMap .dict _)).1 hreadable
  obtain ⟨hread, hapart⟩ := hlaws hunshared
  refine ⟨hunshared, hreadable, ?_, config', happly, ?_, ?_⟩
  · rw [hchanges]
    rfl
  · refine hread [([['a']], .int 1), ([['a'], ['b']], .int 2)] _ _ [] hchanges nofun
  · rw [hapart]
    · rw [hentries]
      rfl
    · rw [hchanges]
      have hpaths : ∀ p ∈ [[['a']], [['a'], ['b']], [['a'], ['b']]], Apart p [['c']] := by decide
      intro c hc
      exact hpaths c.1 (List.mem_map_of_mem hc)

/-- **A value that cannot be read stops the overrides**, though its variable is one that overrides a setting. -/
theorem overrides_of_unreadable :
    overriding [("WHISKER_B".toList, ['\x1c', '5'])] = ["WHISKER_B".toList] ∧
      (overrides false [("WHISKER_B".toList, ['\x1c', '5'])]).applyOn (ofMap .dict []) = .error .badValue := by
  constructor
  · rw [overriding, Text.sort, List.mergeSort_of_pairwise (by decide)]
    decide
  · rw [overrides_of_sorted (by decide)]
    rfl

/-! ### A dictionary that stands in two places -/

/-- A dictionary with one entry, under two names. -/
def sharingConfig (v : Value) : Config :=
  ⟨[.map .dict [(.text ['k'], .leaf v)], .map .dict [(.text ['a'], .held 0), (.text ['b'], .held 0)]], 1⟩

/-- **What is set in a dictionary is read wherever it stands**, also apart from where it was set. -/
theorem overrides_of_shared :
    Apart [['a'], ['k']] [['b'], ['k']] ∧ readAt? (sharingConfig (.int 1)) [['b'], ['k']] = some (.int 1) ∧
      (overrides false [("WHISKER_A__K".toList, ['2'])]).applyOn (sharingConfig (.int 1))
        = .ok (sharingConfig (.int 2)) ∧
      readAt? (sharingConfig (.int 2)) [['b'], ['k']] = some (.int 2) := by
  refine ⟨by decide, rfl, ?_, rfl⟩
  have hoverrides : overrides false [("WHISKER_A__K".toList, ['2'])] = ⟨[([['a'], ['k']], .int 2)], none⟩ := by
    rw [overrides_of_sorted (by decide)]
    rfl
  rw [hoverrides]
  rfl

end Config

end Mustache

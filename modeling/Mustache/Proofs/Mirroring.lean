import Mustache.Proofs.Cells
import Mustache.Proofs.Faults

/-!
# `Mustache.Proofs.Mirroring` — the host with other cells in use

What a host does for a render depends on its cells, and on nothing else that it keeps: neither on the calls nor on the
reports before. With further cells in use before all others, it does the same for lifted values.

* `Mirrors` — a computation does from one state what another one does from a related state, and gives what the other
  gives, translated;
* `Host.Over` — a host with further cells in use before those of another one;
* `HostFunction.call_mirrors`, `Stack.resolve_mirrors`, `coerceItems_mirrors` — **calls, lookups and items over
  further cells**.
-/

namespace Mustache

/-! ## Mirrored computations -/

/-- From related states, the second computation ends with the same fault as the first one or gives what the first one
    gives, translated, and the states are related again. -/
def Mirrors {σ α : Type} (R : σ → σ → Prop) (f : α → α) (x y : ExceptT Fault (StateM σ) α) : Prop :=
  ∀ s t, R s t → (y.run t).1 = (x.run s).1.map f ∧ R (x.run s).2 (y.run t).2

namespace Mirrors

variable {σ α β : Type} {R : σ → σ → Prop} {f : α → α} {g : β → β}

theorem pure {v w : α} (h : w = f v) : Mirrors R f (pure v) (pure w) :=
  fun _ _ hR => ⟨congrArg Except.ok h, hR⟩

theorem throw (fault : Fault) : Mirrors R f (throw fault) (throw fault) := fun _ _ hR => ⟨rfl, hR⟩

theorem bind {x y : ExceptT Fault (StateM σ) α} {k k' : α → ExceptT Fault (StateM σ) β} (hx : Mirrors R f x y)
    (hk : ∀ v, Mirrors R g (k v) (k' (f v))) : Mirrors R g (x >>= k) (y >>= k') := by
  intro s t hR
  obtain ⟨hout, hR'⟩ := hx s t hR
  rw [Fault.run_bind, Fault.run_bind]
  rcases hs : x.run s with ⟨e | v, s'⟩ <;> rcases ht : y.run t with ⟨e' | w, t'⟩ <;> rw [hs, ht] at hout hR' <;>
    cases hout
  · exact ⟨rfl, hR'⟩
  · exact hk v s' t' hR'

/-- With nothing to translate, the outcomes are equal. -/
theorem id_iff {x y : ExceptT Fault (StateM σ) α} :
    Mirrors R id x y ↔ ∀ s t, R s t → (y.run t).1 = (x.run s).1 ∧ R (x.run s).2 (y.run t).2 := by
  unfold Mirrors
  simp only [Except.map_id, id]

end Mirrors

/-! ## Cells -/

/-- A host with further cells in use before those of another host. -/
def Host.Over (base : Tallies) (h h' : Host) : Prop := h'.tallies = base ++ h.tallies

section

variable {base : Tallies}

namespace HostM

theorem tally_mirrors (cell : Nat) : Mirrors (Host.Over base) id (tally cell) (tally (cell + base.size)) := by
  intro h h' hover
  refine ⟨?_, hover⟩
  show Except.ok (h'.tallies.getD (cell + base.size) 0) = Except.ok (h.tallies.getD cell 0)
  rw [hover, Array.getD_eq_getD_getElem?, Array.getElem?_append_right (Nat.le_add_left _ _), Nat.add_sub_cancel,
    Array.getD_eq_getD_getElem?]

theorem setTally_mirrors (cell count : Nat) :
    Mirrors (Host.Over base) id (setTally cell count) (setTally (cell + base.size) count) := by
  intro h h' hover
  refine ⟨rfl, ?_⟩
  show h'.tallies.setIfInBounds (cell + base.size) count = base ++ h.tallies.setIfInBounds cell count
  rw [hover, Array.setIfInBounds_append_right (Nat.le_add_left _ _), Nat.add_sub_cancel]

theorem modify_mirrors {f f' : Host → Host} (hf : ∀ h, (f h).tallies = h.tallies)
    (hf' : ∀ h, (f' h).tallies = h.tallies) : Mirrors (Host.Over base) id (modify f : HostM PUnit) (modify f') := by
  intro h h' hover
  refine ⟨rfl, ?_⟩
  show (f' h').tallies = base ++ (f h).tallies
  rw [hf, hf', hover]

theorem report_mirrors (e : LogEvent) : Mirrors (Host.Over base) id (report e) (report e) :=
  modify_mirrors (fun _ => rfl) fun _ => rfl

theorem renew_mirrors (v : Value) : Mirrors (Host.Over base) (Value.lift base.size) (renew v) (renew v) := by
  have hrun : ∀ h, (renew v).run h
      = (.ok (v.renew.run h.tallies).1, { h with tallies := (v.renew.run h.tallies).2 }) := fun _ => rfl
  intro h h' hover
  have hlater := v.renew_later base h.tallies
  rw [hrun, hrun, hover, hlater]
  exact ⟨rfl, rfl⟩

end HostM

open HostM

/-! ## Calls -/

namespace HostFunction

theorem enter_mirrors (f : HostFunction) (arguments : List Text) (withCallback : Bool) :
    Mirrors (Host.Over base) id (f.enter arguments withCallback) ((f.lift base.size).enter arguments withCallback) := by
  unfold enter
  generalize arguments.length + (if withCallback then 1 else 0) = count
  rw [f.signature_lift, f.tally_lift]
  dsimp only
  split
  · cases f.tally with
    | none => exact modify_mirrors (fun _ => rfl) fun _ => rfl
    | some cell =>
        exact (tally_mirrors cell).bind fun n => (setTally_mirrors cell (n + 1)).bind fun _ =>
          modify_mirrors (fun _ => rfl) fun _ => rfl
  · exact .throw _

theorem callNumber_mirrors (f : HostFunction) :
    Mirrors (Host.Over base) id f.callNumber (f.lift base.size).callNumber := by
  unfold callNumber
  rw [f.tally_lift]
  cases f.tally with
  | none => exact .pure rfl
  | some cell => exact tally_mirrors cell

theorem takeFrom_mirrors (f : HostFunction) (items : List Value) :
    Mirrors (Host.Over base) (Value.lift base.size) (f.takeFrom items)
      ((f.lift base.size).takeFrom (Value.liftList base.size items)) := by
  refine f.callNumber_mirrors.bind fun n => ?_
  rw [id, Value.liftList_eq, ← List.map_reverse, List.getElem?_map]
  cases items.reverse[n - 1]? with
  | none => exact .throw _
  | some v => exact .pure rfl

/-- **Calls over further cells**, in any setting that uses the host. -/
theorem call_mirrors {σ : Type} {R : σ → σ → Prop} {use : {α : Type} → HostM α → ExceptT Fault (StateM σ) α}
    (huse : ∀ {α : Type} {f : α → α} {x y : HostM α}, Mirrors (Host.Over base) f x y → Mirrors R f (use x) (use y))
    (f : HostFunction) (arguments : List Text) {callback callback' : Option (Text → ExceptT Fault (StateM σ) Text)}
    (hsome : callback'.isSome = callback.isSome)
    (hrender : ∀ s, Mirrors R id (callback.getD (fun _ => pure []) s) (callback'.getD (fun _ => pure []) s)) :
    Mirrors R (Value.lift base.size) (f.call use arguments callback)
      ((f.lift base.size).call use arguments callback') := by
  unfold call
  rw [hsome]
  refine (huse (f.enter_mirrors arguments _)).bind fun _ => ?_
  rw [f.outcome_lift]
  cases f.outcome with
  | fails message => exact huse (.throw _)
  | returns v => exact huse (renew_mirrors v)
  | writes parts =>
      have hwrite : Mirrors R id
          (Part.writeAll (arguments.headD []) (use f.callNumber) (callback.getD fun _ => pure []) parts)
          (Part.writeAll (arguments.headD []) (use (f.lift base.size).callNumber) (callback'.getD fun _ => pure [])
            parts) :=
        @Part.writeAll_rel _ _ (fun {_} => Mirrors R id) (fun v => .pure rfl) (fun hx hk => hx.bind hk) _ _ _ _ _
          (huse f.callNumber_mirrors) hrender parts
      exact hwrite.bind fun s => .pure rfl
  | takes items => exact huse (f.takeFrom_mirrors items)

theorem callPlain_mirrors (f : HostFunction) :
    Mirrors (Host.Over base) (Value.lift base.size) f.callPlain (f.lift base.size).callPlain :=
  f.call_mirrors (fun h => h) [] rfl fun _ => .pure rfl

end HostFunction

/-! ## Lookups -/

namespace Value

theorem readUntil_mirrors (name : Text) (v : Value) :
    Mirrors (Host.Over base) id (v.readUntil name) ((v.lift base.size).readUntil name) := by
  cases v with
  | stream cell items =>
      refine (tally_mirrors cell).bind fun done => ?_
      dsimp only [id]
      have hisText : isText name ∘ lift base.size = isText name := funext fun v => isText_lift _ v name
      rw [liftList_eq, List.length_map, ← List.map_drop, List.findIdx?_map, hisText]
      cases (items.drop done).findIdx? (isText name) with
      | none => exact setTally_mirrors cell _
      | some i => exact setTally_mirrors cell _
  | _ => exact .pure rfl

theorem readItems_mirrors (v : Value) :
    Mirrors (Host.Over base) (List.map (lift base.size)) v.readItems (v.lift base.size).readItems := by
  have hitems : (v.lift base.size).items?.getD [] = (v.items?.getD []).map (lift base.size) := by
    rw [items?_lift]
    cases v.items? <;> rfl
  cases v with
  | stream cell items =>
      show Mirrors _ _ _ (do
        let done ← tally (cell + base.size)
        setTally (cell + base.size) (liftList base.size items).length
        return (liftList base.size items).drop done)
      rw [liftList_eq, List.length_map]
      refine (tally_mirrors cell).bind fun done => (setTally_mirrors cell _).bind fun _ => .pure ?_
      exact List.map_drop.symm
  | _ => exact .pure hitems

theorem entry?_mirrors (v : Value) (name : Text) :
    Mirrors (Host.Over base) (Option.map (lift base.size)) ( v.entry? name) ( Value.entry? (v.lift base.size) name) := by
  cases v with
  | map kind es =>
      refine .pure ?_
      rw [liftEntries_eq]
      exact Table.get?_map _ es _
  | _ => exact (readUntil_mirrors name _).bind fun _ => .pure rfl

theorem ownAttributes_lift (k : Nat) (v : Value) :
    (v.lift k).ownAttributes = v.ownAttributes.map (Prod.map id (lift k)) := by
  cases v with
  | moment m => cases m <;> rfl
  | _ => rfl

theorem attribute?_mirrors (v : Value) (name : Text) :
    Mirrors (Host.Over base) (Option.map (lift base.size)) (v.attribute? name)
      ((v.lift base.size).attribute? name) := by
  have hown := ownAttributes_lift base.size v
  cases v with
  | object o =>
      show Mirrors _ _ _ ((Value.object (o.lift base.size)).attribute? name)
      rw [o.lift_eq]
      unfold attribute?
      dsimp only
      rw [Table.get?_map, Table.get?_map]
      split
      · exact .pure rfl
      · cases Table.get? o.attributes name with
        | some v => exact .pure rfl
        | none =>
            cases Table.get? o.methods name with
            | none => exact .pure rfl
            | some f =>
                simp only [Option.map_some, Option.map_none, f.signature_lift]
                split
                · exact f.callPlain_mirrors.bind fun v => .pure rfl
                · exact .pure rfl
  | type es =>
      refine .pure ?_
      rw [liftNames_eq]
      exact Table.get?_map _ es _
  | _ => exact .pure ((congrArg (Table.get? · name) hown).trans (Table.get?_map _ _ _))

end Value

theorem Frame.lookup_mirrors (f : Frame) (name : Text) :
    Mirrors (Host.Over base) (Option.map (Value.lift base.size)) (f.lookup name)
      ((f.lift base.size).lookup name) := by
  obtain ⟨kind, value, names⟩ := f
  cases kind with
  | mapping => exact value.entry?_mirrors name
  | object =>
      show Mirrors _ _ (if isReserved name then _ else _) (if isReserved name then _ else _)
      split
      · exact .pure rfl
      · exact value.attribute?_mirrors name
  | live cell =>
      show Mirrors _ _ (if name = "pop".toList then _ else _) (if name = "pop".toList then _ else _)
      split
      · refine .pure ?_
        have hitems : (value.lift base.size).items?.getD [] = Value.liftList base.size (value.items?.getD []) := by
          rw [value.items?_lift, Value.liftList_eq]
          cases value.items? <;> rfl
        dsimp only [Frame.lift]
        rw [hitems]
        rfl
      · exact .pure rfl
  | scalar => exact .pure rfl
  | upper => exact .pure rfl
  | custom => exact .pure (Table.get?_map _ names name)
  | base => exact .throw _

theorem Frame.current_mirrors (f : Frame) :
    Mirrors (Host.Over base) (Value.lift base.size) f.current (f.lift base.size).current := by
  obtain ⟨kind, value, names⟩ := f
  have hkept : ∀ v : Value, Mirrors (Host.Over base) (Value.lift base.size) (pure v : HostM Value)
      (pure (v.lift base.size)) := fun v => .pure rfl
  cases kind with
  | live cell =>
      cases value with
      | seq kind items =>
          refine (tally_mirrors cell).bind fun off => .pure ?_
          rw [id, Value.lift, Value.liftList_eq, Value.liftList_eq, List.length_map, List.map_take]
      | _ => exact hkept _
  | _ => exact hkept value

/-- A context with all cells moved up. -/
def Stack.lift (k : Nat) (s : Stack) : Stack := s.map (Frame.lift k)

namespace Stack

theorem lift_zero (s : Stack) : s.lift 0 = s := (List.map_congr_left fun f _ => f.lift_zero).trans (List.map_id s)

theorem find?_mirrors (s : Stack) (name : Text) :
    Mirrors (Host.Over base) (Option.map (Value.lift base.size)) (s.find? name) ((s.lift base.size).find? name) := by
  induction s with
  | nil => exact .pure rfl
  | cons f s ih =>
      refine (f.lookup_mirrors name).bind fun found => ?_
      cases found with
      | none => exact ih
      | some v => exact .pure rfl

theorem follow_mirrors (v : Value) (path : List Text) :
    Mirrors (Host.Over base) (Option.map (Value.lift base.size)) (follow v path)
      (follow (v.lift base.size) path) := by
  induction path generalizing v with
  | nil => exact .pure rfl
  | cons segment rest ih =>
      unfold follow
      rw [v.toFrame_lift]
      refine (v.toFrame.lookup_mirrors segment).bind fun found => ?_
      cases found with
      | none => exact .pure rfl
      | some w => exact ih w

/-- **Lookups over further cells.** -/
theorem resolve_mirrors (s : Stack) (path : List Text) :
    Mirrors (Host.Over base) (Option.map (Value.lift base.size)) (s.resolve path)
      ((s.lift base.size).resolve path) := by
  cases path with
  | nil =>
      cases s with
      | nil => exact .pure rfl
      | cons f s => exact f.current_mirrors.bind fun v => .pure rfl
  | cons head rest =>
      refine (s.find?_mirrors head).bind fun found => ?_
      cases found with
      | none => exact .pure rfl
      | some v => exact follow_mirrors v rest

theorem stillHas_mirrors (s : Stack) (path : List Text) (index : Nat) :
    Mirrors (Host.Over base) id (s.stillHas path index) ((s.lift base.size).stillHas path index) := by
  have hkept : Mirrors (Host.Over base) id (pure true : HostM Bool) (pure true) := .pure rfl
  cases path with
  | cons head rest => exact hkept
  | nil =>
      cases s with
      | nil => exact hkept
      | cons f s =>
          obtain ⟨kind, value, names⟩ := f
          cases kind with
          | live cell =>
              cases value with
              | seq kind items =>
                  refine (tally_mirrors cell).bind fun off => .pure ?_
                  rw [id, Value.liftList_eq, List.length_map]
                  rfl
              | _ => exact hkept
          | _ => exact hkept

end Stack

/-- **Items over further cells.** -/
theorem coerceItems_mirrors (found : Option Value) :
    Mirrors (Host.Over base) (List.map (Value.lift base.size)) (coerceItems found)
      (coerceItems (found.map (Value.lift base.size))) := by
  cases found with
  | none => exact .pure rfl
  | some v =>
      unfold coerceItems
      dsimp only [Option.map_some]
      rw [v.isListLike_lift, v.isFrame_lift, v.truthy_lift]
      split
      · exact v.readItems_mirrors
      · split <;> exact .pure rfl

end

end Mustache

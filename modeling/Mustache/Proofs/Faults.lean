import Mustache.Context
import Mustache.Sink

/-!
# `Mustache.Proofs.Faults` — the host and the sink never run out of depth

Only the recursion of a render ends with `Fault.exhausted`. A use of the host that ends with a fault ends with one
of the host's own, and whatever has been reported stays in the log: `HostM.Settles` says so.

* `HostM.Closed` — a property of uses of the host that survives the ways in which they are built; it is enough to
  prove a property closed to have it of calls, lookups and items (`HostM.Closed.resolve`, `HostM.Closed.coerceItems`);
* `Stack.settles_resolve`, `settles_coerceItems` — lookups, and the items of what they find, settle;
* `HostFunction.call_rel` — calls, for every relation that sequences respect: a call is built from uses of the
  host and of the render callback, in any setting;
* `Sink.write_ne_exhausted` — what a sink refuses, it refuses for a reason of its device.
-/

namespace Mustache

/-! ## Computations that can fail -/

/-- Whatever the state, a sequence goes on with what its first part gives, and not after a fault. -/
theorem Fault.run_bind {σ α β : Type} (x : ExceptT Fault (StateM σ) α) (k : α → ExceptT Fault (StateM σ) β) (s : σ) :
    ExceptT.run (x >>= k) s = match ExceptT.run x s with
      | (.ok v, t) => ExceptT.run (k v) t
      | (.error f, t) => (.error f, t) := by
  show (ExceptT.bindCont k (x.run s).1).run (x.run s).2 = _
  rcases x.run s with ⟨_ | _, _⟩ <;> rfl

/-! ## Uses of the host -/

namespace HostM

variable {α β : Type}

/-- However a use of the host ends, it is not for lack of depth, and what was in the log before is in it still. -/
structure Settles (x : HostM α) : Prop where
  ne_exhausted : ∀ h, (x.run h).1 ≠ .error .exhausted
  log_suffix : ∀ h, h.log <:+ (x.run h).2.log

theorem settles_pure (v : α) : Settles (pure v) where
  ne_exhausted _ h := nomatch h
  log_suffix _ := List.suffix_rfl

theorem settles_throw {f : Fault} (hf : f ≠ .exhausted) : Settles (throw f : HostM α) where
  ne_exhausted _ h := hf (Except.error.inj h)
  log_suffix _ := List.suffix_rfl

theorem Settles.bind {x : HostM α} {k : α → HostM β} (hx : x.Settles) (hk : ∀ v, (k v).Settles) :
    (x >>= k).Settles where
  ne_exhausted := by
    intro h
    rw [Fault.run_bind]
    have hne := hx.ne_exhausted h
    rcases hrun : x.run h with ⟨f | v, h'⟩
    · rw [hrun] at hne
      intro heq
      cases heq
      exact hne rfl
    · exact (hk v).ne_exhausted h'
  log_suffix := by
    intro h
    rw [Fault.run_bind]
    have hlog := hx.log_suffix h
    rcases hrun : x.run h with ⟨f | v, h'⟩
    · rwa [hrun] at hlog
    · rw [hrun] at hlog
      exact hlog.trans ((hk v).log_suffix h')

theorem settles_modify {f : Host → Host} (hf : ∀ h, h.log <:+ (f h).log) : Settles (modify f : HostM PUnit) where
  ne_exhausted _ h := nomatch h
  log_suffix := hf

theorem settles_tally (cell : Nat) : (tally cell).Settles where
  ne_exhausted _ h := nomatch h
  log_suffix _ := List.suffix_rfl

theorem settles_setTally (cell count : Nat) : (setTally cell count).Settles := settles_modify fun _ => List.suffix_rfl

theorem settles_report (e : LogEvent) : (report e).Settles := settles_modify fun h => List.suffix_cons e h.log

theorem settles_renew (v : Value) : (renew v).Settles where
  ne_exhausted _ h := nomatch h
  log_suffix _ := List.suffix_rfl

/-- What is true of the ways in which a lookup or a call uses the host, and stays true when one use follows
    another. -/
structure Closed (P : {α : Type} → HostM α → Prop) : Prop where
  ofPure : ∀ {α : Type} (v : α), P (pure v)
  ofBind : ∀ {α β : Type} {x : HostM α} {k : α → HostM β}, P x → (∀ v, P (k v)) → P (x >>= k)
  ofThrow : ∀ {α : Type} {f : Fault}, f ≠ .exhausted → P (throw f : HostM α)
  ofTally : ∀ cell, P (tally cell)
  ofSetTally : ∀ cell count, P (setTally cell count)
  ofRecord : ∀ c : HostCall, P (modify fun h => { h with calls := c :: h.calls } : HostM PUnit)
  ofRenew : ∀ v, P (renew v)

theorem closed_settles : Closed Settles where
  ofPure := settles_pure
  ofBind := .bind
  ofThrow := settles_throw
  ofTally := settles_tally
  ofSetTally := settles_setTally
  ofRecord _ := settles_modify fun _ => List.suffix_rfl
  ofRenew := settles_renew

namespace Closed

variable {P : {α : Type} → HostM α → Prop}

/-! ## Calls -/

theorem enter (C : Closed P) (f : HostFunction) (arguments : List Text) (withCallback : Bool) :
    P (f.enter arguments withCallback) := by
  unfold HostFunction.enter
  -- how many arguments are passed decides only whether they are taken
  generalize arguments.length + (if withCallback then 1 else 0) = count
  dsimp only
  split
  · split
    · exact C.ofBind (C.ofTally _) fun _ => C.ofBind (C.ofSetTally _ _) fun _ => C.ofRecord _
    · exact C.ofRecord _
  · exact C.ofThrow (by simp)

theorem callNumber (C : Closed P) (f : HostFunction) : P f.callNumber := by
  unfold HostFunction.callNumber
  split
  · exact C.ofTally _
  · exact C.ofPure _

mutual

theorem write (C : Closed P) {argument : Text} {number : HostM Nat} (hnumber : P number) (p : Part) :
    P (p.write argument number fun _ => pure []) := by
  cases p with
  | literal | argument => exact C.ofPure _
  | callNumber => exact C.ofBind hnumber fun _ => C.ofPure _
  | upper ps => exact C.ofBind (C.writeAll hnumber ps) fun _ => C.ofPure _
  | rendered ps => exact C.ofBind (C.writeAll hnumber ps) fun _ => C.ofPure _

theorem writeAll (C : Closed P) {argument : Text} {number : HostM Nat} (hnumber : P number) (ps : List Part) :
    P (Part.writeAll argument number (fun _ => pure []) ps) := by
  cases ps with
  | nil => exact C.ofPure _
  | cons p ps => exact C.ofBind (C.write hnumber p) fun _ => C.ofBind (C.writeAll hnumber ps) fun _ => C.ofPure _

end

theorem takeFrom (C : Closed P) (f : HostFunction) (items : List Value) : P (f.takeFrom items) := by
  refine C.ofBind (C.callNumber f) fun n => ?_
  split
  · exact C.ofPure _
  · exact C.ofThrow (by simp)

/-- A call without arguments. -/
theorem callPlain (C : Closed P) (f : HostFunction) : P f.callPlain := by
  refine C.ofBind (C.enter f [] _) fun _ => ?_
  cases f.outcome with
  | fails message => exact C.ofThrow (by simp)
  | returns v => exact C.ofRenew v
  | writes parts => exact C.ofBind (C.writeAll (C.callNumber f) parts) fun _ => C.ofPure _
  | takes items => exact C.takeFrom f items

/-! ## Lookups -/

theorem readUntil (C : Closed P) (v : Value) (name : Text) : P (v.readUntil name) := by
  unfold Value.readUntil
  split
  · refine C.ofBind (C.ofTally _) fun done => ?_
    dsimp only
    split <;> exact C.ofSetTally _ _
  · exact C.ofPure _

theorem readItems (C : Closed P) (v : Value) : P v.readItems := by
  unfold Value.readItems
  split
  · exact C.ofBind (C.ofTally _) fun _ => C.ofBind (C.ofSetTally _ _) fun _ => C.ofPure _
  · exact C.ofPure _

theorem entry? (C : Closed P) (v : Value) (name : Text) : P ( v.entry? name) := by
  unfold Value.entry?
  split
  · exact C.ofPure _
  · exact C.ofBind (C.readUntil v name) fun _ => C.ofPure _

theorem attribute? (C : Closed P) (v : Value) (name : Text) : P (v.attribute? name) := by
  unfold Value.attribute?
  split
  · split
    · exact C.ofPure _
    · split
      · exact C.ofPure _
      · exact C.ofPure _
      · split
        · exact C.ofBind (C.callPlain _) fun _ => C.ofPure _
        · exact C.ofPure _
  · exact C.ofPure _
  · exact C.ofPure _

theorem lookup (C : Closed P) (f : Frame) (name : Text) : P (f.lookup name) := by
  unfold Frame.lookup
  split
  · exact C.entry? f.value name
  · split
    · exact C.ofPure _
    · exact C.attribute? f.value name
  · split <;> exact C.ofPure _
  · exact C.ofPure _
  · exact C.ofPure _
  · exact C.ofPure _
  · exact C.ofThrow (by simp)

theorem current (C : Closed P) (f : Frame) : P f.current := by
  unfold Frame.current
  split
  · exact C.ofBind (C.ofTally _) fun _ => C.ofPure _
  · exact C.ofPure _

theorem find? (C : Closed P) (s : Stack) (name : Text) : P (s.find? name) := by
  induction s with
  | nil => exact C.ofPure _
  | cons f fs ih =>
      refine C.ofBind (C.lookup f name) fun found => ?_
      cases found with
      | none => exact ih
      | some v => exact C.ofPure _

theorem follow (C : Closed P) (v : Value) (path : List Text) : P (Stack.follow v path) := by
  induction path generalizing v with
  | nil => exact C.ofPure _
  | cons segment rest ih =>
      refine C.ofBind (C.lookup v.toFrame segment) fun found => ?_
      cases found with
      | none => exact C.ofPure _
      | some w => exact ih w

/-- **A lookup uses the host in no other way.** -/
theorem resolve (C : Closed P) (s : Stack) (path : List Text) : P (s.resolve path) := by
  cases path with
  | nil =>
      cases s with
      | nil => exact C.ofPure _
      | cons f s => exact C.ofBind (C.current f) fun _ => C.ofPure _
  | cons head rest =>
      refine C.ofBind (C.find? s head) fun found => ?_
      cases found with
      | none => exact C.ofPure _
      | some v => exact C.follow v rest

theorem stillHas (C : Closed P) (s : Stack) (path : List Text) (index : Nat) : P (s.stillHas path index) := by
  unfold Stack.stillHas
  split
  · exact C.ofBind (C.ofTally _) fun _ => C.ofPure _
  · exact C.ofPure _

theorem coerceItems (C : Closed P) (found : Option Value) : P (coerceItems found) := by
  unfold Mustache.coerceItems
  split
  · exact C.ofPure _
  · split
    · exact C.readItems _
    · split <;> exact C.ofPure _

end Closed

end HostM

open HostM

/-! ## Settled uses -/

theorem HostFunction.settles_enter (f : HostFunction) (arguments : List Text) (withCallback : Bool) :
    (f.enter arguments withCallback).Settles :=
  closed_settles.enter f arguments withCallback

theorem HostFunction.settles_callNumber (f : HostFunction) : f.callNumber.Settles := closed_settles.callNumber f

theorem HostFunction.settles_callPlain (f : HostFunction) : f.callPlain.Settles := closed_settles.callPlain f

/-- **A lookup settles.** -/
theorem Stack.settles_resolve (s : Stack) (path : List Text) : (s.resolve path).Settles :=
  closed_settles.resolve s path

theorem Stack.settles_stillHas (s : Stack) (path : List Text) (index : Nat) : (s.stillHas path index).Settles :=
  closed_settles.stillHas s path index

theorem settles_coerceItems (found : Option Value) : (coerceItems found).Settles := closed_settles.coerceItems found

/-! ## Calls side by side -/

section Parts

variable {m : Type → Type} [Monad m] {Rel : {α : Type} → m α → m α → Prop}
  (hpure : ∀ {α : Type} (v : α), Rel (pure v) (pure v))
  (hbind : ∀ {α β : Type} {x y : m α} {k k' : α → m β},
    Rel x y → (∀ v, Rel (k v) (k' v)) → Rel (x >>= k) (y >>= k'))

include hpure hbind

mutual

/-- Parts are written in the same way when they are rendered in the same way. -/
theorem Part.write_rel {argument : Text} {number number' : m Nat} {render render' : Text → m Text}
    (hnumber : Rel number number') (hrender : ∀ s, Rel (render s) (render' s)) (p : Part) :
    Rel (p.write argument number render) (p.write argument number' render') := by
  cases p with
  | literal s => exact hpure s
  | argument => exact hpure argument
  | callNumber => exact hbind hnumber fun n => hpure _
  | upper ps => exact hbind (Part.writeAll_rel hnumber hrender ps) fun s => hpure _
  | rendered ps => exact hbind (Part.writeAll_rel hnumber hrender ps) hrender

theorem Part.writeAll_rel {argument : Text} {number number' : m Nat} {render render' : Text → m Text}
    (hnumber : Rel number number') (hrender : ∀ s, Rel (render s) (render' s)) (ps : List Part) :
    Rel (Part.writeAll argument number render ps) (Part.writeAll argument number' render' ps) := by
  cases ps with
  | nil => exact hpure []
  | cons p ps =>
      exact hbind (Part.write_rel hnumber hrender p) fun s =>
        hbind (Part.writeAll_rel hnumber hrender ps) fun t => hpure _

end

/-- Calls agree when the host is used and the callback renders in the same way. -/
theorem HostFunction.call_rel {use : {α : Type} → HostM α → m α}
    (huse : ∀ {α : Type} (x : HostM α), x.Settles → Rel (use x) (use x)) (f : HostFunction)
    (arguments : List Text) {callback callback' : Option (Text → m Text)}
    (hsome : callback.isSome = callback'.isSome)
    (hrender : ∀ s, Rel (callback.getD (fun _ => pure []) s) (callback'.getD (fun _ => pure []) s)) :
    Rel (f.call use arguments callback) (f.call use arguments callback') := by
  unfold HostFunction.call
  rw [hsome]
  refine hbind (huse _ (f.settles_enter arguments _)) fun _ => ?_
  cases f.outcome with
  | fails message => exact huse _ (settles_throw (by simp))
  | returns v => exact huse _ (settles_renew v)
  | writes parts =>
      exact hbind (Part.writeAll_rel hpure hbind (huse _ f.settles_callNumber) hrender parts) fun s => hpure _
  | takes items => exact huse _ (HostM.closed_settles.takeFrom f items)

end Parts

/-! ## Sinks -/

theorem Device.refusal_ne_exhausted {d : Device} {s : Text} {f : Fault} (h : d.refusal s = some f) :
    f ≠ .exhausted := by
  unfold refusal at h
  rintro rfl
  split at h
  · cases h
  · split at h <;> cases h
  · cases h

theorem Sink.write_ne_exhausted {s : Sink} {c : Chunk} {f : Fault} (h : (s.write c).2 = some f) :
    f ≠ .exhausted := by
  have hdrain : ∀ (chunks : List (Chunk × List Layer)) (d : Device) (layers : List Layer),
      (drain d layers chunks).2 = some f → f ≠ .exhausted := by
    intro chunks
    induction chunks with
    | nil => exact fun _ _ h => nomatch h
    | cons chunk rest ih =>
        intro d layers h
        unfold drain at h
        split at h
        · rename_i hrefusal
          exact Device.refusal_ne_exhausted (hrefusal.trans h)
        · exact ih _ _ h
  exact hdrain _ _ _ h

end Mustache

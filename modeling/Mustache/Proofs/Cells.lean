import Mustache.Context

/-!
# `Mustache.Proofs.Cells` — the same values with other cells

A value that is made when other cells are in use already gets later cells than it would get in a host that has not
been used, and is the same in everything else. Such a value is lifted: each of its cells is moved up by the number of
cells before its own. What a function returns is made anew by each call, so its cells are not moved.

* `Value.lift` — a value with all cells moved up; no law of values but those of streams and tallies can tell the
  difference (`Value.shown?_lift`, `Value.callee?_lift`, `Value.items?_lift`, `Value.toFrame_lift`);
* `Value.renew_later` — **a value that is made later is lifted**;
* `Value.isSteady` — a value that holds nothing that changes while it is used, and `Value.renew_idle` — it needs no
  cells.
-/

namespace Mustache

/-! ## Lifting -/

/-- The kind of a frame with its cell moved up. -/
def FrameKind.lift (k : Nat) : FrameKind → FrameKind
  | .live cell => .live (cell + k)
  | kind => kind

mutual

/-- A value with all cells moved up. -/
def Value.lift (k : Nat) : Value → Value
  | .null => .null
  | .bool b => .bool b
  | .int n => .int n
  | .float x => .float x
  | .text s => .text s
  | .bytes mutable bs => .bytes mutable bs
  | .moment m => .moment m
  | .seq kind items => .seq kind (Value.liftList k items)
  | .range n => .range n
  | .map kind es => .map kind (Value.liftEntries k es)
  | .view kind es => .view kind (Value.liftEntries k es)
  | .stream cell items => .stream (cell + k) (Value.liftList k items)
  | .function f => .function (HostFunction.lift k f)
  | .object o => .object (HostObject.lift k o)
  | .type es => .type (Value.liftNames k es)
  | .closedMap => .closedMap
  | .frame kind v es => .frame (kind.lift k) (v.lift k) (Value.liftNames k es)

def Value.liftList (k : Nat) : List Value → List Value
  | [] => []
  | v :: vs => v.lift k :: Value.liftList k vs

def Value.liftEntries (k : Nat) : List (Key × Value) → List (Key × Value)
  | [] => []
  | (key, v) :: es => (key, v.lift k) :: Value.liftEntries k es

def Value.liftNames (k : Nat) : List (Text × Value) → List (Text × Value)
  | [] => []
  | (name, v) :: es => (name, v.lift k) :: Value.liftNames k es

def Value.liftItems (k : Nat) : Option (List Value) → Option (List Value)
  | none => none
  | some vs => some (Value.liftList k vs)

/-- A function with its cell moved up, and those of the items that it takes from. -/
def HostFunction.lift (k : Nat) : HostFunction → HostFunction
  | ⟨signature, tally, outcome⟩ => ⟨signature, tally.map (· + k), Outcome.lift k outcome⟩

def HostFunction.liftOption (k : Nat) : Option HostFunction → Option HostFunction
  | none => none
  | some f => some (f.lift k)

def HostFunction.liftEntries (k : Nat) : List (Text × HostFunction) → List (Text × HostFunction)
  | [] => []
  | (name, f) :: es => (name, f.lift k) :: HostFunction.liftEntries k es

def Outcome.lift (k : Nat) : Outcome → Outcome
  | .fails message => .fails message
  | .returns v => .returns v
  | .writes parts => .writes parts
  | .takes items => .takes (Value.liftList k items)

/-- An object with all cells moved up. -/
def HostObject.lift (k : Nat) : HostObject → HostObject
  | ⟨label, truthy, items, call, attributes, methods, withheld⟩ =>
      ⟨label, truthy, Value.liftItems k items, HostFunction.liftOption k call, Value.liftNames k attributes,
        HostFunction.liftEntries k methods, withheld⟩

end

namespace HostFunction

variable (k : Nat) (f : HostFunction)

@[simp]
theorem signature_lift : (f.lift k).signature = f.signature := by
  cases f
  rfl

@[simp]
theorem tally_lift : (f.lift k).tally = f.tally.map (· + k) := by
  cases f
  rfl

@[simp]
theorem outcome_lift : (f.lift k).outcome = f.outcome.lift k := by
  cases f
  rfl

theorem liftOption_eq (f : Option HostFunction) : liftOption k f = f.map (lift k) := by
  cases f <;> rfl

theorem liftEntries_eq (es : List (Text × HostFunction)) : liftEntries k es = es.map (Prod.map id (lift k)) := by
  induction es with
  | nil => rfl
  | cons e es ih =>
      rw [liftEntries, ih, List.map_cons]
      rfl

end HostFunction

namespace Value

variable (k : Nat)

theorem liftList_eq (vs : List Value) : liftList k vs = vs.map (lift k) := by
  induction vs with
  | nil => rfl
  | cons v vs ih => rw [liftList, ih, List.map_cons]

theorem liftEntries_eq (es : List (Key × Value)) : liftEntries k es = es.map (Prod.map id (lift k)) := by
  induction es with
  | nil => rfl
  | cons e es ih =>
      rw [liftEntries, ih, List.map_cons]
      rfl

theorem liftNames_eq (es : List (Text × Value)) : liftNames k es = es.map (Prod.map id (lift k)) := by
  induction es with
  | nil => rfl
  | cons e es ih =>
      rw [liftNames, ih, List.map_cons]
      rfl

theorem liftItems_eq (items : Option (List Value)) : liftItems k items = items.map (List.map (lift k)) := by
  cases items with
  | none => rfl
  | some vs => exact congrArg some (liftList_eq k vs)

end Value

/-! ### Nothing moved -/

theorem FrameKind.lift_zero (kind : FrameKind) : kind.lift 0 = kind := by
  cases kind <;> rfl

mutual

theorem Value.lift_zero (v : Value) : v.lift 0 = v := by
  cases v with
  | seq kind items => exact congrArg (Value.seq kind) (Value.liftList_zero items)
  | map kind es => exact congrArg (Value.map kind) (Value.liftEntries_zero es)
  | view kind es => exact congrArg (Value.view kind) (Value.liftEntries_zero es)
  | stream cell items => exact congrArg (Value.stream cell) (Value.liftList_zero items)
  | function f => exact congrArg Value.function (HostFunction.lift_zero f)
  | object o => exact congrArg Value.object (HostObject.lift_zero o)
  | type es => exact congrArg Value.type (Value.liftNames_zero es)
  | frame kind v es => rw [Value.lift, kind.lift_zero, Value.lift_zero v, Value.liftNames_zero es]
  | _ => rfl

theorem Value.liftList_zero (vs : List Value) : Value.liftList 0 vs = vs := by
  cases vs with
  | nil => rfl
  | cons v vs => rw [Value.liftList, Value.lift_zero v, Value.liftList_zero vs]

theorem Value.liftEntries_zero (es : List (Key × Value)) : Value.liftEntries 0 es = es := by
  cases es with
  | nil => rfl
  | cons e es => rw [Value.liftEntries, Value.lift_zero e.2, Value.liftEntries_zero es]

theorem Value.liftNames_zero (es : List (Text × Value)) : Value.liftNames 0 es = es := by
  cases es with
  | nil => rfl
  | cons e es => rw [Value.liftNames, Value.lift_zero e.2, Value.liftNames_zero es]

theorem Value.liftItems_zero (items : Option (List Value)) : Value.liftItems 0 items = items := by
  cases items with
  | none => rfl
  | some vs => exact congrArg some (Value.liftList_zero vs)

theorem HostFunction.lift_zero (f : HostFunction) : f.lift 0 = f := by
  obtain ⟨signature, tally, outcome⟩ := f
  rw [HostFunction.lift, Outcome.lift_zero outcome]
  cases tally <;> rfl

theorem HostFunction.liftOption_zero (f : Option HostFunction) : HostFunction.liftOption 0 f = f := by
  cases f with
  | none => rfl
  | some f => exact congrArg some (HostFunction.lift_zero f)

theorem HostFunction.liftEntries_zero (es : List (Text × HostFunction)) : HostFunction.liftEntries 0 es = es := by
  cases es with
  | nil => rfl
  | cons e es => rw [HostFunction.liftEntries, HostFunction.lift_zero e.2, HostFunction.liftEntries_zero es]

theorem Outcome.lift_zero (o : Outcome) : o.lift 0 = o := by
  cases o with
  | takes items => exact congrArg Outcome.takes (Value.liftList_zero items)
  | _ => rfl

theorem HostObject.lift_zero (o : HostObject) : o.lift 0 = o := by
  obtain ⟨label, truthy, items, call, attributes, methods, withheld⟩ := o
  rw [HostObject.lift, Value.liftItems_zero items, HostFunction.liftOption_zero call, Value.liftNames_zero attributes,
    HostFunction.liftEntries_zero methods]

end

/-! ### What a value is -/

theorem HostObject.lift_eq (k : Nat) (o : HostObject) :
    o.lift k = { o with
      items := o.items.map (List.map (Value.lift k))
      call := o.call.map (HostFunction.lift k)
      attributes := o.attributes.map (Prod.map id (Value.lift k))
      methods := o.methods.map (Prod.map id (HostFunction.lift k)) } := by
  cases o
  rw [HostObject.lift, Value.liftItems_eq, HostFunction.liftOption_eq, Value.liftNames_eq, HostFunction.liftEntries_eq]

mutual

/-- A key has no cells. -/
theorem Key.lift_toValue (k : Nat) (key : Key) : key.toValue.lift k = key.toValue := by
  cases key with
  | tuple items => exact congrArg (Value.seq .tuple) (Key.liftList_toValues k items)
  | _ => rfl

theorem Key.liftList_toValues (k : Nat) (keys : List Key) : Value.liftList k (Key.toValues keys) = Key.toValues keys := by
  cases keys with
  | nil => rfl
  | cons key keys =>
      rw [Key.toValues, Value.liftList, Key.lift_toValue k key, Key.liftList_toValues k keys]

end

mutual

theorem Value.repr_lift (k : Nat) (v : Value) : (v.lift k).repr = v.repr := by
  cases v with
  | seq kind items => exact congrArg kind.write (Value.reprList_lift k items)
  | map kind es => exact congrArg kind.write (Value.reprEntries_lift k es)
  | view kind es => exact congrArg kind.write (Value.reprEntries_lift k es)
  | frame kind v es =>
      have hname : (kind.lift k).name = kind.name := by cases kind <;> rfl
      show (kind.lift k).name ++ '(' :: (v.lift k).repr ++ [')'] = kind.name ++ '(' :: v.repr ++ [')']
      rw [hname, Value.repr_lift k v]
  | object o => exact (congrArg HostObject.label (o.lift_eq k) :)
  | _ => rfl

theorem Value.reprList_lift (k : Nat) (vs : List Value) : Value.reprList (Value.liftList k vs) = Value.reprList vs := by
  cases vs with
  | nil => rfl
  | cons v vs => rw [Value.liftList, Value.reprList, Value.repr_lift k v, Value.reprList_lift k vs, Value.reprList]

theorem Value.reprEntries_lift (k : Nat) (es : List (Key × Value)) :
    Value.reprEntries (Value.liftEntries k es) = Value.reprEntries es := by
  cases es with
  | nil => rfl
  | cons e es =>
      obtain ⟨key, v⟩ := e
      rw [Value.liftEntries, Value.reprEntries, Value.repr_lift k v, Value.reprEntries_lift k es, Value.reprEntries]

end

namespace Value

variable (k : Nat) (v : Value)

theorem shown?_lift : (v.lift k).shown? = v.shown? := by
  have hrepr := repr_lift k v
  cases v with
  | null | bytes => rfl
  | text | moment => rfl
  | _ => exact congrArg some hrepr

theorem callee?_lift : (v.lift k).callee? = v.callee?.map (HostFunction.lift k) := by
  cases v with
  | object o => exact congrArg HostObject.call (o.lift_eq k)
  | _ => rfl

theorem isMapping_lift : (v.lift k).isMapping = v.isMapping := by
  cases v <;> rfl

theorem isFrame_lift : (v.lift k).isFrame = v.isFrame := by
  cases v <;> rfl

theorem isListLike_lift : (v.lift k).isListLike = v.isListLike := by
  cases v with
  | object o =>
      show (o.lift k).items.isSome = o.items.isSome
      rw [o.lift_eq, Option.isSome_map]
  | _ => rfl

theorem isScalar_lift : (v.lift k).isScalar = v.isScalar := by
  have hlist := isListLike_lift k v
  cases v with
  | null | bool | int | float | text | bytes => rfl
  | _ => exact hlist

theorem truthy_lift : (v.lift k).truthy = v.truthy := by
  cases v with
  | seq kind items =>
      show (!(liftList k items).isEmpty) = !items.isEmpty
      rw [liftList_eq, List.isEmpty_map]
  | map kind es | view kind es =>
      show (!(liftEntries k es).isEmpty) = !es.isEmpty
      rw [liftEntries_eq, List.isEmpty_map]
  | object o => exact (congrArg HostObject.truthy (o.lift_eq k) :)
  | _ => rfl

theorem isText_lift (s : Text) : (v.lift k).isText s = v.isText s := by
  cases v <;> rfl

theorem items?_lift : (v.lift k).items? = v.items?.map (List.map (lift k)) := by
  cases v with
  | seq kind items => exact congrArg some (liftList_eq k items)
  | range n =>
      show some _ = some (List.map (lift k) (List.map _ _))
      rw [List.map_map]
      rfl
  | view kind es =>
      show some (viewItems kind (liftEntries k es)) = some ((viewItems kind es).map (lift k))
      rw [liftEntries_eq]
      cases kind with
      | keys => simp [viewItems, Key.lift_toValue]
      | values => simp [viewItems]
  | object o => exact congrArg HostObject.items (o.lift_eq k)
  | _ => rfl

end Value

/-! ### Frames -/

/-- A frame with all cells moved up. -/
def Frame.lift (k : Nat) (f : Frame) : Frame :=
  ⟨f.kind.lift k, f.value.lift k, f.names.map (Prod.map id (Value.lift k))⟩

theorem Value.toFrame_lift (k : Nat) (v : Value) : (v.lift k).toFrame = v.toFrame.lift k := by
  have hmap := isMapping_lift k v
  have hscalar := isScalar_lift k v
  have hplain : ∀ w : Value, w.isFrame = false → w.toFrame =
      if w.isMapping then ⟨.mapping, w, []⟩ else if w.isScalar then ⟨.scalar, w, []⟩ else ⟨.object, w, []⟩ := by
    intro w hw
    cases w with
    | frame => cases hw
    | _ => rfl
  cases hframe : v.isFrame with
  | true =>
      cases v with
      | frame kind v names => exact congrArg (Frame.mk (kind.lift k) (v.lift k)) (liftNames_eq k names)
      | _ => cases hframe
  | false =>
      rw [hplain v hframe, hplain (v.lift k) ((isFrame_lift k v).trans hframe), hmap, hscalar]
      split
      · rfl
      · split <;> rfl

theorem Frame.lift_zero (f : Frame) : f.lift 0 = f := by
  obtain ⟨kind, value, names⟩ := f
  rw [Frame.lift, kind.lift_zero, value.lift_zero, ← Value.liftNames_eq, Value.liftNames_zero]

/-! ## New values -/

/-- With some cells in use before it, the second computation makes what the first one makes, lifted, and the same
    further cells. -/
def Tallies.Later {α : Type} (base : Tallies) (lift : α → α) (x y : StateM Tallies α) : Prop :=
  ∀ ts, y.run (base ++ ts) = (lift (x.run ts).1, base ++ (x.run ts).2)

namespace Tallies.Later

variable {α β : Type} {base : Tallies} {f : α → α} {g : β → β}

theorem pure {v w : α} (h : w = f v) : Later base f (pure v) (pure w) :=
  fun ts => congrArg (·, base ++ ts) h

theorem bind {x y : StateM Tallies α} {k k' : α → StateM Tallies β} (hx : Later base f x y)
    (hk : ∀ v, Later base g (k v) (k' (f v))) : Later base g (x >>= k) (y >>= k') := by
  intro ts
  show (k' (y.run (base ++ ts)).1).run (y.run (base ++ ts)).2 = _
  rw [hx ts]
  exact hk _ _

theorem newCell : Later base (· + base.size) newCell newCell := by
  intro ts
  show ((base ++ ts).size, (base ++ ts).push 0) = (ts.size + base.size, base ++ ts.push 0)
  rw [Array.size_append, Nat.add_comm, Array.append_push]

end Tallies.Later

open Tallies (Later)

section Renewal

variable (base : Tallies)

theorem FrameKind.renew_later (kind : FrameKind) (v : Value) :
    Later base (FrameKind.lift base.size) (kind.renew v) (kind.renew v) := by
  cases kind with
  | live => exact Later.newCell.bind fun cell => .pure rfl
  | object =>
      unfold FrameKind.renew
      split
      · exact Later.newCell.bind fun cell => .pure rfl
      · exact Later.newCell.bind fun cell => .pure rfl
      · exact .pure rfl
  | _ => exact .pure rfl

mutual

/-- **A value that is made later is lifted.** -/
theorem Value.renew_later (base : Tallies) (v : Value) : Later base (Value.lift base.size) v.renew v.renew := by
  cases v with
  | seq kind items => exact (Value.renewList_later base items).bind fun vs => .pure rfl
  | map kind es => exact (Value.renewEntries_later base es).bind fun vs => .pure rfl
  | view kind es => exact (Value.renewEntries_later base es).bind fun vs => .pure rfl
  | stream cell items =>
      exact Later.newCell.bind fun cell => (Value.renewList_later base items).bind fun vs => .pure rfl
  | function f => exact (HostFunction.renew_later base f).bind fun f => .pure rfl
  | object o => exact (HostObject.renew_later base o).bind fun o => .pure rfl
  | type es => exact (Value.renewNames_later base es).bind fun vs => .pure rfl
  | frame kind v es =>
      refine (kind.renew_later base v).bind fun kind => ?_
      exact (Value.renew_later base v).bind fun w => (Value.renewNames_later base es).bind fun vs => .pure rfl
  | _ => exact .pure rfl

theorem Value.renewList_later (base : Tallies) (vs : List Value) :
    Later base (Value.liftList base.size) (Value.renewList vs) (Value.renewList vs) := by
  cases vs with
  | nil => exact .pure rfl
  | cons v vs => exact (Value.renew_later base v).bind fun w => (Value.renewList_later base vs).bind fun ws => .pure rfl

theorem Value.renewEntries_later (base : Tallies) (es : List (Key × Value)) :
    Later base (Value.liftEntries base.size) (Value.renewEntries es) (Value.renewEntries es) := by
  cases es with
  | nil => exact .pure rfl
  | cons e es =>
      exact (Value.renew_later base e.2).bind fun w => (Value.renewEntries_later base es).bind fun ws => .pure rfl

theorem Value.renewNames_later (base : Tallies) (es : List (Text × Value)) :
    Later base (Value.liftNames base.size) (Value.renewNames es) (Value.renewNames es) := by
  cases es with
  | nil => exact .pure rfl
  | cons e es =>
      exact (Value.renew_later base e.2).bind fun w => (Value.renewNames_later base es).bind fun ws => .pure rfl

theorem Value.renewItems_later (base : Tallies) (items : Option (List Value)) :
    Later base (Value.liftItems base.size) (Value.renewItems items) (Value.renewItems items) := by
  cases items with
  | none => exact .pure rfl
  | some vs => exact (Value.renewList_later base vs).bind fun ws => .pure rfl

theorem HostFunction.renew_later (base : Tallies) (f : HostFunction) :
    Later base (HostFunction.lift base.size) f.renew f.renew := by
  obtain ⟨signature, tally, outcome⟩ := f
  refine (Outcome.renew_later base outcome).bind fun outcome => ?_
  have hcounts : (outcome.lift base.size).countsCalls = outcome.countsCalls := by cases outcome <;> rfl
  rw [hcounts]
  split
  · exact Later.newCell.bind fun cell => .pure rfl
  · exact .pure rfl

theorem HostFunction.renewOption_later (base : Tallies) (f : Option HostFunction) :
    Later base (HostFunction.liftOption base.size) (HostFunction.renewOption f) (HostFunction.renewOption f) := by
  cases f with
  | none => exact .pure rfl
  | some f => exact (HostFunction.renew_later base f).bind fun f => .pure rfl

theorem HostFunction.renewEntries_later (base : Tallies) (es : List (Text × HostFunction)) :
    Later base (HostFunction.liftEntries base.size) (HostFunction.renewEntries es) (HostFunction.renewEntries es) := by
  cases es with
  | nil => exact .pure rfl
  | cons e es =>
      exact (HostFunction.renew_later base e.2).bind fun f => (HostFunction.renewEntries_later base es).bind fun fs =>
        .pure rfl

theorem Outcome.renew_later (base : Tallies) (o : Outcome) : Later base (Outcome.lift base.size) o.renew o.renew := by
  cases o with
  | takes items => exact (Value.renewList_later base items).bind fun vs => .pure rfl
  | _ => exact .pure rfl

theorem HostObject.renew_later (base : Tallies) (o : HostObject) :
    Later base (HostObject.lift base.size) o.renew o.renew := by
  obtain ⟨label, truthy, items, call, attributes, methods, withheld⟩ := o
  refine (Value.renewItems_later base items).bind fun items => ?_
  refine (HostFunction.renewOption_later base call).bind fun call => ?_
  refine (Value.renewNames_later base attributes).bind fun attributes => ?_
  exact (HostFunction.renewEntries_later base methods).bind fun methods => .pure rfl

end

end Renewal

/-! ## Values without cells -/

/-- Whether a function does the same at every call. -/
def HostFunction.isSteady (f : HostFunction) : Bool := !f.outcome.countsCalls

/-- Whether a value is a container that has methods which change it. -/
def Value.isChangeable : Value → Bool
  | .seq kind _ => kind = .list || kind = .deque || kind = .userList
  | .bytes mutable _ => mutable
  | .map .. => true
  | _ => false

/-- Whether a frame offers no methods that change its value. -/
def FrameKind.isSteadyAround (kind : FrameKind) (v : Value) : Bool :=
  match kind with
  | .object => !v.isChangeable
  | .live _ => false
  | _ => true

mutual

/-- Whether a value holds no streams, no functions that write how often they have been called, and no object frames
    around containers that can be changed. What a function returns is not held: it is made by each call. -/
def Value.isSteady : Value → Bool
  | .seq _ items => Value.isSteadyList items
  | .map _ es | .view _ es => Value.isSteadyEntries es
  | .stream .. => false
  | .function f => f.isSteady
  | .object o => HostObject.isSteady o
  | .type es => Value.isSteadyNames es
  | .frame kind v es => kind.isSteadyAround v && (v.isSteady && Value.isSteadyNames es)
  | .null | .bool _ | .int _ | .float _ | .text _ | .bytes .. | .moment _ | .range _ | .closedMap => true

def Value.isSteadyList : List Value → Bool
  | [] => true
  | v :: vs => v.isSteady && Value.isSteadyList vs

def Value.isSteadyEntries : List (Key × Value) → Bool
  | [] => true
  | (_, v) :: es => v.isSteady && Value.isSteadyEntries es

def Value.isSteadyNames : List (Text × Value) → Bool
  | [] => true
  | (_, v) :: es => v.isSteady && Value.isSteadyNames es

def Value.isSteadyItems : Option (List Value) → Bool
  | none => true
  | some vs => Value.isSteadyList vs

def HostObject.isSteady : HostObject → Bool
  | ⟨_, _, items, call, attributes, methods, _⟩ =>
      Value.isSteadyItems items && call.all HostFunction.isSteady && Value.isSteadyNames attributes &&
        methods.all fun e => e.2.isSteady

end

/-- A computation that uses no cells, and makes something in which no cells can be moved. -/
def Tallies.Idle {α : Type} (lift : Nat → α → α) (x : StateM Tallies α) : Prop :=
  ∃ v, x = pure v ∧ ∀ k, lift k v = v

namespace Tallies.Idle

variable {α β : Type} {f : Nat → α → α} {g : Nat → β → β}

theorem pure {v : α} (h : ∀ k, f k v = v) : Idle f (pure v) := ⟨v, rfl, h⟩

theorem bind {x : StateM Tallies α} {k : α → StateM Tallies β} (hx : Idle f x)
    (hk : ∀ v, (∀ i, f i v = v) → Idle g (k v)) : Idle g (x >>= k) := by
  obtain ⟨v, rfl, hv⟩ := hx
  rw [pure_bind]
  exact hk v hv

end Tallies.Idle

open Tallies (Idle)

namespace HostFunction

theorem renew_idle {f : HostFunction} (h : f.isSteady = true) : Idle lift f.renew := by
  obtain ⟨signature, tally, outcome⟩ := f
  rw [isSteady, Bool.not_eq_true'] at h
  -- such a function takes nothing off a list, so there is nothing to be made anew
  have hrenew : outcome.renew = pure outcome := by
    cases outcome with
    | takes => cases h
    | _ => rfl
  rw [renew, hrenew, pure_bind, h, if_neg Bool.false_ne_true]
  refine .pure fun k => ?_
  cases outcome with
  | takes => cases h
  | _ => rfl

theorem renewOption_idle {f : Option HostFunction} (h : f.all isSteady = true) :
    Idle liftOption (renewOption f) := by
  cases f with
  | none => exact .pure fun _ => rfl
  | some f => exact (renew_idle h).bind fun f hf => .pure fun k => congrArg some (hf k)

theorem renewEntries_idle {es : List (Text × HostFunction)} (h : es.all (fun e => e.2.isSteady) = true) :
    Idle liftEntries (renewEntries es) := by
  induction es with
  | nil => exact .pure fun _ => rfl
  | cons e es ih =>
      rw [List.all_cons, Bool.and_eq_true] at h
      refine (renew_idle h.1).bind fun f hf => (ih h.2).bind fun fs hfs => .pure fun k => ?_
      rw [liftEntries, hf, hfs]

end HostFunction

theorem FrameKind.renew_idle {kind : FrameKind} {v : Value} (h : kind.isSteadyAround v = true) :
    Idle lift (kind.renew v) := by
  cases kind with
  | live => cases h
  | object =>
      have hobject : renew .object v = pure .object := by
        unfold renew
        split
        · cases h
        · rename_i heq
          cases heq
        · rfl
      rw [hobject]
      exact .pure fun _ => rfl
  | _ => exact .pure fun _ => rfl

mutual

/-- **A value that holds nothing that changes while it is used needs no cells.** -/
theorem Value.renew_idle {v : Value} (h : v.isSteady = true) : Idle Value.lift v.renew := by
  cases v with
  | seq kind items => exact (Value.renewList_idle h).bind fun vs hvs => .pure fun k => congrArg (Value.seq kind) (hvs k)
  | map kind es => exact (Value.renewEntries_idle h).bind fun vs hvs => .pure fun k => congrArg (Value.map kind) (hvs k)
  | view kind es =>
      exact (Value.renewEntries_idle h).bind fun vs hvs => .pure fun k => congrArg (Value.view kind) (hvs k)
  | stream => cases h
  | function f => exact (HostFunction.renew_idle h).bind fun f hf => .pure fun k => congrArg Value.function (hf k)
  | object o => exact (HostObject.renew_idle h).bind fun o ho => .pure fun k => congrArg Value.object (ho k)
  | type es => exact (Value.renewNames_idle h).bind fun vs hvs => .pure fun k => congrArg Value.type (hvs k)
  | frame kind v es =>
      rw [Value.isSteady, Bool.and_eq_true, Bool.and_eq_true] at h
      refine (FrameKind.renew_idle h.1).bind fun kind hkind => ?_
      refine (Value.renew_idle h.2.1).bind fun w hw => (Value.renewNames_idle h.2.2).bind fun vs hvs => .pure fun k => ?_
      rw [Value.lift, hkind, hw, hvs]
  | _ => exact .pure fun _ => rfl

theorem Value.renewList_idle {vs : List Value} (h : Value.isSteadyList vs = true) :
    Idle Value.liftList (Value.renewList vs) := by
  cases vs with
  | nil => exact .pure fun _ => rfl
  | cons v vs =>
      rw [Value.isSteadyList, Bool.and_eq_true] at h
      refine (Value.renew_idle h.1).bind fun w hw => (Value.renewList_idle h.2).bind fun ws hws => .pure fun k => ?_
      rw [Value.liftList, hw, hws]

theorem Value.renewEntries_idle {es : List (Key × Value)} (h : Value.isSteadyEntries es = true) :
    Idle Value.liftEntries (Value.renewEntries es) := by
  cases es with
  | nil => exact .pure fun _ => rfl
  | cons e es =>
      rw [Value.isSteadyEntries, Bool.and_eq_true] at h
      refine (Value.renew_idle h.1).bind fun w hw => (Value.renewEntries_idle h.2).bind fun ws hws => .pure fun k => ?_
      rw [Value.liftEntries, hw, hws]

theorem Value.renewNames_idle {es : List (Text × Value)} (h : Value.isSteadyNames es = true) :
    Idle Value.liftNames (Value.renewNames es) := by
  cases es with
  | nil => exact .pure fun _ => rfl
  | cons e es =>
      rw [Value.isSteadyNames, Bool.and_eq_true] at h
      refine (Value.renew_idle h.1).bind fun w hw => (Value.renewNames_idle h.2).bind fun ws hws => .pure fun k => ?_
      rw [Value.liftNames, hw, hws]

theorem Value.renewItems_idle {items : Option (List Value)} (h : Value.isSteadyItems items = true) :
    Idle Value.liftItems (Value.renewItems items) := by
  cases items with
  | none => exact .pure fun _ => rfl
  | some vs => exact (Value.renewList_idle h).bind fun ws hws => .pure fun k => congrArg some (hws k)

theorem HostObject.renew_idle {o : HostObject} (h : o.isSteady = true) : Idle HostObject.lift o.renew := by
  obtain ⟨label, truthy, items, call, attributes, methods, withheld⟩ := o
  simp only [HostObject.isSteady, Bool.and_eq_true] at h
  obtain ⟨⟨⟨hitems, hcall⟩, hattributes⟩, hmethods⟩ := h
  refine (Value.renewItems_idle hitems).bind fun items hitems => ?_
  refine (HostFunction.renewOption_idle hcall).bind fun call hcall => ?_
  refine (Value.renewNames_idle hattributes).bind fun attributes hattributes => ?_
  refine (HostFunction.renewEntries_idle hmethods).bind fun methods hmethods => .pure fun k => ?_
  rw [HostObject.lift, hitems, hcall, hattributes, hmethods]

end

end Mustache

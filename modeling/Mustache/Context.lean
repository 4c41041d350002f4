import Mustache.Delimiters
import Mustache.Host

/-!
# `Mustache.Context` — the context of a render

The context is a stack of frames. A frame answers for one value; the most local frame comes first.
The first segment of a key is looked up in the frames from the most local one outwards, and the
first frame that offers it decides. Every further segment is looked up in the value found before it
and nowhere else.

## Contents
- **Frames.** `Frame`, `Value.toFrame`, `Frame.lookup`, `Frame.current`.
- **Stacks.** `Stack.ofValues`, `Stack.push`, `Stack.resolve`, `Stack.stillHas`.
- **Items.** `coerceItems`: what a section is rendered for.
-/

namespace Mustache

/-! ## Frames -/

/-- One layer of the context. -/
structure Frame where
  kind : FrameKind
  value : Value
  /-- The names that a custom frame offers. -/
  names : List (Text × Value)

/-- The frame that suits a value. A frame is taken as it is. Only objects, types, functions and
    moments come under object frames in this way; whoever makes such a frame can put any value in
    it, of which it then offers what `Value.attribute?` finds. -/
def Value.toFrame (v : Value) : Frame :=
  match v with
  | .frame kind value names => ⟨kind, value, names⟩
  | v =>
      if v.isMapping then ⟨.mapping, v, []⟩
      else if v.isScalar then ⟨.scalar, v, []⟩
      else ⟨.object, v, []⟩

/-- A frame as a value. -/
def Frame.toValue (f : Frame) : Value := .frame f.kind f.value f.names

/-- The entry of a mapping. Every other value has none, though a stream is read in search of it. -/
def Value.entry? (v : Value) (name : Text) : HostM (Option Value) :=
  match v with
  | .map _ es => return Table.get? es (.text name)
  | v => do
      v.readUntil name
      return none

/-- The attributes of an integer: its parts as a complex number and as a fraction. -/
def integerAttributes (n : Int) : List (Text × Value) :=
  [("real".toList, .int n), ("imag".toList, .int 0), ("numerator".toList, .int n),
   ("denominator".toList, .int 1)]

/-- The attributes of a day, and of a time but for its zone: the numbers that make them. -/
def momentAttributes (m : Moment) : List (Text × Value) :=
  let number (n : Nat) : Value := .int n
  let dayNumbers (d : Date) : List (Text × Value) :=
    [("year".toList, number d.year), ("month".toList, number d.month), ("day".toList, number d.day)]
  match m with
  | .day d => dayNumbers d
  | .time d c _ =>
      dayNumbers d
        ++ [("hour".toList, number c.hour), ("minute".toList, number c.minute),
            ("second".toList, number c.second), ("microsecond".toList, number c.microsecond),
            ("fold".toList, number 0)]

/-- The attributes of a value that is neither an object nor a type, for as far as they are numbers:
    the parts of numbers, ranges, days and times. The methods of such values are left out, but for
    the one that lists under object frames have (`HostFunction.taker`). -/
def Value.ownAttributes : Value → List (Text × Value)
  | .int n => integerAttributes n
  | .bool b => integerAttributes (if b then 1 else 0)
  | .float x => [("real".toList, .float x), ("imag".toList, .float 0)]
  | .range n => [("start".toList, .int 0), ("stop".toList, .int n), ("step".toList, .int 1)]
  | .moment m => momentAttributes m
  | _ => []

/-- The attribute of a value. A method that requires no arguments is called. -/
def Value.attribute? (v : Value) (name : Text) : HostM (Option Value) :=
  match v with
  | .object o =>
      if o.withheld.contains name then
        return none
      else
        match Table.get? o.attributes name, Table.get? o.methods name with
        | some v, _ => return some v
        | none, none => return none
        | none, some f =>
            if f.signature.arity? = some 0 then
              return some (← f.callPlain)
            else
              return some (.function f)
  | .type attributes => return Table.get? attributes name
  | v => return Table.get? v.ownAttributes name

/-- The method of a list that takes its last item off and gives it. It can be told which item to
    take, but no template does. -/
def HostFunction.taker (cell : Nat) (items : List Value) : HostFunction :=
  ⟨⟨0, 1, false, false, true⟩, some cell, .takes items⟩

/-- Whether a name is reserved: it begins with two underscores. -/
def isReserved (name : Text) : Bool := ['_', '_'].isPrefixOf name

namespace Frame

/-- What a frame offers under a name. -/
def lookup (f : Frame) (name : Text) : HostM (Option Value) :=
  match f.kind with
  | .mapping => f.value.entry? name
  | .object => if isReserved name then return none else f.value.attribute? name
  | .live cell =>
      if name = "pop".toList then
        return some (.function (.taker cell (f.value.items?.getD [])))
      else
        return none
  | .scalar => return none
  | .upper => return some (.text (Text.upper name))
  | .custom => return Table.get? f.names name
  | .base => throw .notImplemented

/-- The value of a frame at the moment. Of a list, some of the last items may be off. -/
def current (f : Frame) : HostM Value :=
  match f.kind, f.value with
  | .live cell, .seq kind items => do
      let off ← HostM.tally cell
      return .seq kind (items.take (items.length - off))
  | _, v => return v

end Frame

/-! ## Stacks -/

/-- The context: its frames, the most local one first. -/
abbrev Stack := List Frame

namespace Stack

/-- The stack of some values, of which the least local comes first. -/
def ofValues (values : List Value) : Stack := (values.map Value.toFrame).reverse

/-- The stack with a value on top. -/
def push (s : Stack) (v : Value) : Stack := v.toFrame :: s

/-- The value of the most local frame, as it was at first. -/
def top? : Stack → Option Value
  | [] => none
  | f :: _ => some f.value

/-- What the most local frame that offers a name offers. -/
def find? : Stack → Text → HostM (Option Value)
  | [], _ => return none
  | f :: fs, name => do
      match ← f.lookup name with
      | some v => return some v
      | none => find? fs name

/-- What a value offers under the first segment, and what that offers under the second, and so
    on. -/
def follow (v : Value) : List Text → HostM (Option Value)
  | [] => return some v
  | segment :: rest => do
      match ← v.toFrame.lookup segment with
      | some w => follow w rest
      | none => return none

/-- The value of a path. The empty path is the value of the most local frame. -/
def resolve (s : Stack) : List Text → HostM (Option Value)
  | [] =>
      match s with
      | [] => return none
      | f :: _ => return some (← f.current)
  | head :: rest => do
      match ← find? s head with
      | some v => follow v rest
      | none => return none

/-- Whether the value of a path still has an item at an index, if it had one. Only the list of the
    most local frame can have lost some of its items. -/
def stillHas (s : Stack) (path : List Text) (index : Nat) : HostM Bool :=
  match path, s with
  | [], ⟨.live cell, .seq _ items, _⟩ :: _ => do
      let off ← HostM.tally cell
      return index < items.length - off
  | _, _ => return true

end Stack

/-! ## Items -/

/-- What a section is rendered for: the items of a list-like value, a frame, any other value that
    counts as true, or nothing. -/
def coerceItems : Option Value → HostM (List Value)
  | none => return []
  | some v =>
      if v.isListLike then
        v.readItems
      else if v.isFrame || v.truthy then
        return [v]
      else
        return []

end Mustache

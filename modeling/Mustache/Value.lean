import Mustache.Key
import Mustache.Text.Encoding

/-!
# `Mustache.Value` — values

Data come from a host program: plain values, containers of several kinds, functions, objects and
frames. A configuration holds such values too. Three kinds of value change while they are used: a
stream can be read once, a function may write how often it has been called, and an object frame
around a list offers the list's own methods, of which one takes items off the list. Each such value
has a cell of its own, and the state of all cells is kept apart from the values (`Mustache.Host`).

## Contents
- **Functions.** `Signature`, `Part`.
- **Values.** `Value`, `HostFunction`, `HostObject`.
- **Entries.** `Entries`, the content of a mapping.
- **Kinds of value.** Callable, mapping, list-like, truthy.
- **Fresh cells.** `Value.renew`.
-/

namespace Mustache

/-! ## Functions -/

/-- The parameters of a host function. -/
structure Signature where
  /-- Parameters that a call must fill. -/
  required : Nat
  /-- Further parameters that a call may fill. -/
  optional : Nat
  /-- Whether any number of further arguments is taken. -/
  variadic : Bool
  /-- Whether there is a parameter that must be filled by name, which no call here does. -/
  needsName : Bool
  /-- Whether the parameters can be inspected. -/
  inspectable : Bool
  deriving DecidableEq, Repr, Inhabited

namespace Signature

/-- The number of arguments that a call must pass, if it is known. -/
def arity? (s : Signature) : Option Nat := if s.inspectable then some s.required else none

/-- Whether a call with a number of arguments is accepted. -/
def accepts (s : Signature) (count : Nat) : Bool :=
  !s.needsName && s.required ≤ count && (s.variadic || count ≤ s.required + s.optional)

end Signature

/-- A part of the text that a host function writes. -/
inductive Part where
  | literal (s : Text)
  /-- The first argument. -/
  | argument
  /-- The number of calls so far, this one included. -/
  | callNumber
  | upper (parts : List Part)
  /-- What the render callback, the second argument, makes of some text. -/
  | rendered (parts : List Part)
  deriving Repr, Inhabited

/-! ## Values -/

/-- Containers of items in an order. -/
inductive SeqKind where
  | list
  | tuple
  | deque
  | userList
  | frozenSet
  deriving DecidableEq, Repr

/-- Containers of values under keys. -/
inductive MapKind where
  | dict
  | ordered
  | userDict
  | chain
  deriving DecidableEq, Repr

/-- What a live view of a mapping shows. -/
inductive ViewKind where
  | keys
  | values
  deriving DecidableEq, Repr

/-- How a frame answers when it is asked for a name. -/
inductive FrameKind where
  /-- With the entries of a mapping. -/
  | mapping
  /-- With the attributes of an object. -/
  | object
  /-- With the method of a list that takes its last item off. The cell counts the items that are
      off. -/
  | live (cell : Nat)
  /-- With nothing. -/
  | scalar
  /-- With the name itself in upper case. -/
  | upper
  /-- With names of its own. -/
  | custom
  /-- Not at all: it fails. -/
  | base
  deriving DecidableEq, Repr

mutual

/-- A value of the host. -/
inductive Value where
  | null
  | bool (b : Bool)
  | int (n : Int)
  | float (x : Float)
  | text (s : Text)
  | bytes (mutable : Bool) (data : Bytes)
  | moment (m : Moment)
  | seq (kind : SeqKind) (items : List Value)
  /-- The integers from zero up to a limit. -/
  | range (stop : Int)
  | map (kind : MapKind) (entries : List (Key × Value))
  | view (kind : ViewKind) (entries : List (Key × Value))
  /-- A stream of items that can be read once. The cell counts the items read. -/
  | stream (cell : Nat) (items : List Value)
  | function (f : HostFunction)
  | object (o : HostObject)
  /-- A type with attributes. -/
  | type (attributes : List (Text × Value))
  /-- A mapping that cannot be asked for a name. -/
  | closedMap
  | frame (kind : FrameKind) (value : Value) (names : List (Text × Value))

/-- A function of the host. -/
structure HostFunction where
  signature : Signature
  /-- The cell that counts the calls, if the function writes their number. -/
  tally : Option Nat
  outcome : Outcome

/-- What a host function does when it is called. -/
inductive Outcome where
  | fails (message : Text)
  /-- A value, with cells of its own for every call. -/
  | returns (v : Value)
  | writes (parts : List Part)
  /-- The last of some items at the first call, the one before it at the second, and so on. -/
  | takes (items : List Value)

/-- An object of the host. -/
structure HostObject where
  /-- The text of the object. -/
  label : Text
  truthy : Bool
  /-- The items of an object that can be iterated over. -/
  items : Option (List Value)
  /-- The function of an object that can be called. -/
  call : Option HostFunction
  attributes : List (Text × Value)
  methods : List (Text × HostFunction)
  /-- Names that the object fails to give. -/
  withheld : List Text

end

instance : Inhabited Value := ⟨.null⟩

instance : Inhabited Outcome := ⟨.writes []⟩

instance : Inhabited HostFunction := ⟨⟨default, none, default⟩⟩

instance : Inhabited HostObject := ⟨⟨[], true, none, none, [], [], []⟩⟩

/-! ## Entries -/

/-- The content of a mapping. -/
abbrev Entries := Table Key Value

/-- Entries under constant names. -/
def Entries.ofNames (es : List (String × Value)) : Entries :=
  es.map fun e => (.text e.1.toList, e.2)

namespace Key

mutual

/-- A key as a value. -/
def toValue : Key → Value
  | .null => .null
  | .bool b => .bool b
  | .int n => .int n
  | .float x => .float x
  | .text s => .text s
  | .bytes bs => .bytes false bs
  | .moment m => .moment m
  | .tuple items => .seq .tuple (toValues items)
  | .object label => .object ⟨label, true, none, none, [], [], []⟩

/-- Keys as values. -/
def toValues : List Key → List Value
  | [] => []
  | k :: ks => toValue k :: toValues ks

end

end Key

/-! ## Kinds of value -/

/-- Whether containers of a kind are dictionaries proper, with entries in place. -/
def MapKind.isDict : MapKind → Bool
  | .dict | .ordered => true
  | .userDict | .chain => false

namespace Value

/-- A text constant. -/
def ofString (s : String) : Value := .text s.toList

/-- A dictionary under constant names. -/
def ofNames (es : List (String × Value)) : Value := .map .dict (Entries.ofNames es)

/-- The entries of a mapping. -/
def entries? : Value → Option Entries
  | .map _ es => some es
  | _ => none

/-- The entries of a dictionary proper. -/
def dictEntries? : Value → Option Entries
  | .map kind es => if kind.isDict then some es else none
  | _ => none

/-- The function that a call of a value reaches. Types and frames are not called. -/
def callee? : Value → Option HostFunction
  | .function f => some f
  | .object o => o.call
  | _ => none

/-- Whether a value is a function for the purposes of a template. -/
def isCallable (v : Value) : Bool := v.callee?.isSome

/-- The number of arguments that a value requires when it is called. -/
def arity? : Value → Option Nat
  | .type _ => some 0
  | v => v.callee?.bind fun f => f.signature.arity?

/-- Whether a value is a mapping. -/
def isMapping : Value → Bool
  | .map .. | .closedMap => true
  | _ => false

/-- Whether a value is a frame. -/
def isFrame : Value → Bool
  | .frame .. => true
  | _ => false

/-- Whether a value counts as a list: everything with items that is no text, bytes, mapping or
    frame. -/
def isListLike : Value → Bool
  | .seq .. | .range _ | .view .. | .stream .. => true
  | .object o => o.items.isSome
  | _ => false

/-- Whether a value holds no names: it is plain or list-like. -/
def isScalar (v : Value) : Bool :=
  match v with
  | .null | .bool _ | .int _ | .float _ | .text _ | .bytes .. => true
  | v => v.isListLike

/-- Whether a value counts as true. -/
def truthy : Value → Bool
  | .null => false
  | .bool b => b
  | .int n => n != 0
  | .float x => !(x == 0)
  | .text s => !s.isEmpty
  | .bytes _ bs => !bs.isEmpty
  | .seq _ items => !items.isEmpty
  | .range n => 0 < n
  | .map _ es | .view _ es => !es.isEmpty
  | .object o => o.truthy
  | .moment _ | .stream .. | .function _ | .type _ | .closedMap | .frame .. => true

/-- The items of a view. -/
def viewItems : ViewKind → List (Key × Value) → List Value
  | .keys, es => es.map fun e => e.1.toValue
  | .values, es => es.map Prod.snd

/-- The items of a value that has some at all times. -/
def items? : Value → Option (List Value)
  | .seq _ items => some items
  | .range n => some ((List.range n.toNat).map fun (i : Nat) => .int i)
  | .view kind es => some (viewItems kind es)
  | .object o => o.items
  | _ => none

end Value

/-! ## Fresh cells -/

/-- How often each cell has been used. -/
abbrev Tallies := Array Nat

/-- A cell that has not been used. -/
def Tallies.newCell : StateM Tallies Nat := fun ts => (ts.size, ts.push 0)

mutual

/-- Whether a part of a text writes the number of the call. -/
def Part.writesCallNumber : Part → Bool
  | .callNumber => true
  | .upper ps | .rendered ps => Part.anyWritesCallNumber ps
  | .literal _ | .argument => false

def Part.anyWritesCallNumber : List Part → Bool
  | [] => false
  | p :: ps => p.writesCallNumber || Part.anyWritesCallNumber ps

end

/-- Whether what a function does depends on the number of the call. -/
def Outcome.countsCalls : Outcome → Bool
  | .writes parts => Part.anyWritesCallNumber parts
  | .takes _ => true
  | .fails _ | .returns _ => false

/-- The kind of a frame around a value. An object frame around a list has a fresh cell. -/
def FrameKind.renew (kind : FrameKind) (v : Value) : StateM Tallies FrameKind :=
  match kind, v with
  | .object, .seq .list _ | .live _, _ => do
      let cell ← Tallies.newCell
      return .live cell
  | kind, _ => return kind

mutual

/-- A value with fresh cells for its streams, functions and frames, as if it were just made. -/
def Value.renew : Value → StateM Tallies Value
  | .seq kind items => return .seq kind (← Value.renewList items)
  | .map kind es => return .map kind (← Value.renewEntries es)
  | .view kind es => return .view kind (← Value.renewEntries es)
  | .stream _ items => return .stream (← Tallies.newCell) (← Value.renewList items)
  | .function f => return .function (← f.renew)
  | .object o => return .object (← HostObject.renew o)
  | .type es => return .type (← Value.renewNames es)
  | .frame kind v es =>
      return .frame (← kind.renew v) (← v.renew) (← Value.renewNames es)
  | v => return v

def Value.renewList : List Value → StateM Tallies (List Value)
  | [] => return []
  | v :: vs => return (← v.renew) :: (← Value.renewList vs)

def Value.renewEntries : List (Key × Value) → StateM Tallies (List (Key × Value))
  | [] => return []
  | (k, v) :: es => return (k, ← v.renew) :: (← Value.renewEntries es)

def Value.renewNames : List (Text × Value) → StateM Tallies (List (Text × Value))
  | [] => return []
  | (k, v) :: es => return (k, ← v.renew) :: (← Value.renewNames es)

def Value.renewItems : Option (List Value) → StateM Tallies (Option (List Value))
  | none => return none
  | some vs => return some (← Value.renewList vs)

/-- A function with a fresh tally, if what it does depends on the number of the call. -/
def HostFunction.renew : HostFunction → StateM Tallies HostFunction
  | ⟨signature, _, outcome⟩ => do
      let outcome ← Outcome.renew outcome
      if outcome.countsCalls then do
        let cell ← Tallies.newCell
        return ⟨signature, some cell, outcome⟩
      else
        return ⟨signature, none, outcome⟩

def HostFunction.renewOption : Option HostFunction → StateM Tallies (Option HostFunction)
  | none => return none
  | some f => return some (← f.renew)

def HostFunction.renewEntries :
    List (Text × HostFunction) → StateM Tallies (List (Text × HostFunction))
  | [] => return []
  | (k, f) :: es => return (k, ← f.renew) :: (← HostFunction.renewEntries es)

def Outcome.renew : Outcome → StateM Tallies Outcome
  | .takes items => return .takes (← Value.renewList items)
  | o => return o

/-- An object with fresh cells. -/
def HostObject.renew : HostObject → StateM Tallies HostObject
  | ⟨label, truthy, items, call, attributes, methods, withheld⟩ => do
      let items ← Value.renewItems items
      let call ← HostFunction.renewOption call
      let attributes ← Value.renewNames attributes
      let methods ← HostFunction.renewEntries methods
      return ⟨label, truthy, items, call, attributes, methods, withheld⟩

end

end Mustache

import Mustache.Error
import Mustache.Log
import Mustache.Value.Display
import Mustache.Text.Case

/-!
# `Mustache.Host` — the host program while it is used

Looking up and rendering call functions of the host, read its streams and report events. `Host` is
everything that such a use changes; `HostM` is a computation that uses a host and may end with a
fault, in which case what was done before the fault remains done.

## Contents
- **State.** `Host`, `HostM`, cells and reports.
- **Calls.** `HostFunction.call`.
- **Streams.** `Value.readItems`, `Value.readUntil`.
-/

namespace Mustache

/-! ## State -/

/-- A call of a host function. -/
structure HostCall where
  function : HostFunction
  /-- The arguments that are texts. -/
  arguments : List Text
  /-- Whether the render callback was passed after them. -/
  withCallback : Bool

/-- What a use of the host changes. -/
structure Host where
  tallies : Tallies
  /-- The accepted calls, the latest first. -/
  calls : List HostCall
  /-- The reports, the latest first. -/
  log : List LogEvent

/-- A host that has not been used. -/
def Host.fresh : Host := ⟨#[], [], []⟩

/-- A computation that uses a host. -/
abbrev HostM := ExceptT Fault (StateM Host)

namespace HostM

/-- The use count of a cell. -/
def tally (cell : Nat) : HostM Nat := return (← get).tallies.getD cell 0

/-- A new use count of a cell. -/
def setTally (cell count : Nat) : HostM Unit :=
  modify fun h => { h with tallies := h.tallies.setIfInBounds cell count }

/-- A report. -/
def report (e : LogEvent) : HostM Unit := modify fun h => { h with log := e :: h.log }

/-- A value with cells of its own. -/
def renew (v : Value) : HostM Value := do
  let (v, tallies) := v.renew.run (← get).tallies
  modify fun h => { h with tallies := tallies }
  return v

end HostM

/-! ## Calls -/

mutual

/-- The text that a part of a body writes, given the first argument of the call, a way to read the
    number of the call and the render callback. -/
def Part.write {m : Type → Type} [Monad m] (argument : Text) (number : m Nat)
    (render : Text → m Text) : Part → m Text
  | .literal s => pure s
  | .argument => pure argument
  | .callNumber => do
      let n ← number
      pure (Text.ofNat n)
  | .upper ps => do
      let s ← Part.writeAll argument number render ps
      pure (Text.upper s)
  | .rendered ps => do
      let s ← Part.writeAll argument number render ps
      render s

/-- The text that the parts of a body write. -/
def Part.writeAll {m : Type → Type} [Monad m] (argument : Text) (number : m Nat)
    (render : Text → m Text) : List Part → m Text
  | [] => pure []
  | p :: ps => do
      let s ← p.write argument number render
      let t ← Part.writeAll argument number render ps
      pure (s ++ t)

end

namespace HostFunction

/-- The number of the latest call. -/
def callNumber (f : HostFunction) : HostM Nat :=
  match f.tally with
  | some cell => HostM.tally cell
  | none => pure 0

/-- Passes arguments to a function. A function that does not take them is not called. -/
def enter (f : HostFunction) (arguments : List Text) (withCallback : Bool) : HostM Unit := do
  let count := arguments.length + if withCallback then 1 else 0
  if f.signature.accepts count then
    match f.tally with
    | some cell => HostM.setTally cell ((← HostM.tally cell) + 1)
    | none => pure ()
    modify fun h => { h with calls := ⟨f, arguments, withCallback⟩ :: h.calls }
  else
    throw .badType

/-- The last of some items that the calls before the latest one have left. -/
def takeFrom (f : HostFunction) (items : List Value) : HostM Value := do
  let n ← f.callNumber
  match items.reverse[n - 1]? with
  | some v => return v
  | none => throw .noElement

/-- What a call of a function gives, in any setting in which the host can be used. Without a
    callback, whatever the function would render is nothing. -/
def call {m : Type → Type} [Monad m] (use : {α : Type} → HostM α → m α) (f : HostFunction)
    (arguments : List Text) (callback : Option (Text → m Text)) : m Value := do
  use (f.enter arguments callback.isSome)
  match f.outcome with
  | .fails message => use (throw (.host message))
  | .returns v => use (HostM.renew v)
  | .writes parts => do
      let render := callback.getD fun _ => pure []
      let s ← Part.writeAll (arguments.headD []) (use f.callNumber) render parts
      pure (.text s)
  | .takes items => use (f.takeFrom items)

/-- What a call without arguments gives. -/
def callPlain (f : HostFunction) : HostM Value := f.call (fun x => x) [] none

end HostFunction

/-! ## Streams -/

namespace Value

/-- The items of a list-like value. A stream gives what is left of it and is read to its end. -/
def readItems : Value → HostM (List Value)
  | .stream cell items => do
      let done ← HostM.tally cell
      HostM.setTally cell items.length
      return items.drop done
  | v => return v.items?.getD []

/-- Whether a value is a given text. -/
def isText (s : Text) : Value → Bool
  | .text t => s == t
  | _ => false

/-- Searches a list-like value for a text. A stream is read up to the place where the text is
    found. -/
def readUntil (name : Text) : Value → HostM Unit
  | .stream cell items => do
      let done ← HostM.tally cell
      let left := items.drop done
      match left.findIdx? (isText name) with
      | some i => HostM.setTally cell (done + i + 1)
      | none => HostM.setTally cell items.length
  | _ => pure ()

end Value

end Mustache

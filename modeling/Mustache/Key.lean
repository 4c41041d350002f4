import Mustache.Decimal.Shortest
import Mustache.Moment
import Mustache.Table
import Mustache.Text.Quoted

/-!
# `Mustache.Key` — the keys of mappings

Most keys are texts. A mapping that was read from a file or made from pairs may also have plain
values, moments and tuples of keys as keys. Two keys are the same if their values are equal, however
they are written: the integer one, the float one and the boolean true are one key.

## Contents
- **Keys.** `Key`.
- **Sameness.** `Key.identity`; `==` compares identities, so it is an equivalence.
-/

namespace Mustache

/-! ## Keys -/

/-- A key of a mapping. -/
inductive Key where
  | null
  | bool (b : Bool)
  | int (n : Int)
  | float (x : Float)
  | text (s : Text)
  | bytes (data : Bytes)
  | moment (m : Moment)
  | tuple (items : List Key)
  /-- Something else that keeps its value, known by its text. -/
  | object (label : Text)
  deriving Repr, Inhabited

/-! ## Sameness -/

/-- A part of what makes two keys the same. -/
inductive KeyMark where
  | null
  | integer (n : Int)
  /-- A float that is no integer. -/
  | float (x : FloatValue)
  | text (s : Text)
  | bytes (data : Bytes)
  | moment (m : MomentIdentity)
  | object (label : Text)
  /-- The beginning of a tuple. -/
  | opening
  /-- The end of a tuple. -/
  | closing
  deriving DecidableEq, Repr

/-- The mark of a float. An integral float is an integer. -/
def KeyMark.ofFloat (x : Float) : KeyMark :=
  let v := FloatValue.ofFloat x
  match v.isInteger, v.truncate? with
  | true, some n => .integer n
  | _, _ => .float v

namespace Key

mutual

/-- What makes two keys the same. -/
def identity : Key → List KeyMark
  | .null => [.null]
  | .bool b => [.integer (if b then 1 else 0)]
  | .int n => [.integer n]
  | .float x => [.ofFloat x]
  | .text s => [.text s]
  | .bytes bs => [.bytes bs]
  | .moment m => [.moment m.identity]
  | .tuple items => .opening :: identities items
  | .object label => [.object label]

/-- What makes two tuples the same, after their beginning. -/
def identities : List Key → List KeyMark
  | [] => [.closing]
  | k :: ks => identity k ++ identities ks

end

instance : BEq Key := ⟨fun k l => k.identity == l.identity⟩

theorem beq_iff {k l : Key} : (k == l) = true ↔ k.identity = l.identity := by
  show (k.identity == l.identity) = true ↔ _
  simp

instance : EquivBEq Key where
  rfl := beq_iff.mpr rfl
  symm h := beq_iff.mpr (beq_iff.mp h).symm
  trans h h' := beq_iff.mpr ((beq_iff.mp h).trans (beq_iff.mp h'))

/-- Keys that are texts are the same only if the texts are. -/
theorem text_beq_text (s t : Text) : (Key.text s == Key.text t) = decide (s = t) := by
  rw [Bool.eq_iff_iff, beq_iff]
  simp [identity]

/-- The text of a key that is a text. -/
def text? : Key → Option Text
  | .text s => some s
  | _ => none

end Key

end Mustache

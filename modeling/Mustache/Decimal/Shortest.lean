/-!
# `Mustache.Decimal.Shortest` — the fewest digits that read back

A finite floating-point number is `m · 2^q`. Reading rounds to the nearest such number, ties to an
even `m`, so the reals that read back as it form an interval around it. `shortest` tries the decimal
grids of one, two, up to seventeen significant digits and takes the first that has a point in the
interval; of two points it takes the nearer.

## Contents
- **Powers.** `pow2`, `pow10`.
- **The value of a float.** `FloatValue`, read off the bits.
- **The grid.** `Grid.nearest?` finds a grid point that reads back.
- **The digits.** `shortest`.
-/

namespace Mustache

namespace Decimal

/-- A power of two. -/
abbrev pow2 (n : Nat) : Nat := Nat.pow 2 n

/-- A power of ten. -/
abbrev pow10 (n : Nat) : Nat := Nat.pow 10 n

end Decimal

open Decimal (pow2 pow10)

/-- What a float stands for. -/
inductive FloatValue where
  | nan
  | infinite (negative : Bool)
  /-- The number `m · 2^q`, with a sign that also zero has. -/
  | finite (negative : Bool) (m : Nat) (q : Int)
  deriving DecidableEq, Repr

namespace FloatValue

/-- The value of a float, from its sign, exponent and fraction bits. -/
def ofFloat (x : Float) : FloatValue :=
  let bits := x.toBits.toNat
  let negative := bits ≥ pow2 63
  let exponent : Nat := bits / pow2 52 % pow2 11
  let fraction := bits % pow2 52
  if exponent = 2047 then
    if fraction = 0 then .infinite negative else .nan
  else if exponent = 0 then
    .finite negative fraction (-1074)
  else
    .finite negative (pow2 52 + fraction) ((exponent : Int) - 1075)

/-- Zero of either sign. -/
def isZero : FloatValue → Bool
  | .finite _ m _ => m == 0
  | _ => false

/-- The integer part, toward zero. -/
def truncate? : FloatValue → Option Int
  | .finite negative m q =>
      let n := if 0 ≤ q then m * pow2 q.toNat else m / pow2 (-q).toNat
      some (if negative then -n else n)
  | _ => none

/-- Whether the value is an integer. -/
def isInteger : FloatValue → Bool
  | .finite _ m q => 0 ≤ q || m % pow2 (-q).toNat == 0
  | _ => false

end FloatValue

namespace Decimal

/-- The numbers that read back as `m · 2^q`, in units of `2^(q-2)`: from `low` to `high`, the ends
    included when `m` is even. Below a power of two the neighbour is half as far. -/
structure Rounding where
  low : Nat
  value : Nat
  high : Nat
  closed : Bool

/-- The interval of `m · 2^q`. -/
def Rounding.of (m : Nat) (q : Int) : Rounding where
  low := if m = pow2 52 ∧ -1074 < q then 4 * m - 1 else 4 * m - 2
  value := 4 * m
  high := 4 * m + 2
  closed := m % 2 == 0

/-- A decimal grid: its points are the multiples of `den / num` units. -/
structure Grid where
  num : Nat
  den : Nat

/-- The grid of multiples of `10^t`, in units of `2^u`. -/
def Grid.ofPowers (u t : Int) : Grid where
  num := pow2 u.toNat * pow10 (-t).toNat
  den := pow2 (-u).toNat * pow10 t.toNat

/-- Whether the `c`-th grid point reads back. -/
def Grid.reads (g : Grid) (r : Rounding) (c : Nat) : Bool :=
  let p := c * g.den
  if r.closed then
    r.low * g.num ≤ p && p ≤ r.high * g.num
  else
    r.low * g.num < p && p < r.high * g.num

/-- The grid point that reads back and lies nearest to the value. A tie goes to the even point. -/
def Grid.nearest? (g : Grid) (r : Rounding) : Option Nat :=
  let p := r.value * g.num
  let below := p / g.den
  let above := below + 1
  let down := g.reads r below
  let up := g.reads r above
  if down && up then
    let toBelow := p - below * g.den
    let toAbove := above * g.den - p
    if toBelow < toAbove || (toBelow == toAbove && below % 2 == 0) then some below else some above
  else if down then some below
  else if up then some above
  else none

/-- The exponent `k` with `10^k ≤ n / d < 10^(k+1)`, for positive `n` and `d`. -/
def magnitude (n d : Nat) : Int :=
  if d ≤ n then
    ((Nat.toDigits 10 (n / d)).length : Int) - 1
  else
    match (List.range 400).find? fun j => d ≤ n * pow10 j with
    | some j => -j
    | none => 0

/-- Without the zeros at its end, and how many there were. -/
def dropZeros : Nat → Nat → Nat × Nat
  | 0, n => (n, 0)
  | fuel + 1, n =>
      if n ≠ 0 ∧ n % 10 = 0 then
        let (digits, count) := dropZeros fuel (n / 10)
        (digits, count + 1)
      else
        (n, 0)

/-- The shortest decimal `c · 10^t` that reads back as `m · 2^q`, for positive `m`. -/
def shortest (m : Nat) (q : Int) : Nat × Int :=
  let r := Rounding.of m q
  let u := q - 2
  let k := magnitude (r.value * pow2 u.toNat) (pow2 (-u).toNat)
  let found := (List.range 17).findSome? fun i =>
    let t := k - (i : Nat)
    ((Grid.ofPowers u t).nearest? r).map fun c => (c, t)
  match found with
  | some (c, t) =>
      let (digits, zeros) := dropZeros 20 c
      (digits, t + zeros)
  | none => (m, q)

end Decimal

end Mustache

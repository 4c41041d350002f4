import Mustache.Decimal.Numeral
import Mustache.Value

/-!
# `Mustache.Json` — reading JSON

A setting that begins and ends like a JSON list or object is read as one. Besides JSON the reader
takes the numbers `NaN`, `Infinity` and `-Infinity`. Of two members with one name the later gives
the value. A text with anything wrong in it is not read at all; what is wrong first decides why.

Every function returns what it read and the rest of the text.

## Contents
- **Texts.** `units?` reads the code units of a text, `ofUnits` joins surrogates.
- **Numbers.** `number?`.
- **Refusals.** `Refusal`.
- **Values.** `value`, `items`, `members`, and `read` for a whole text.
-/

namespace Mustache.Json

/-- White space between the tokens. -/
def isSpace (c : Char) : Bool := c == ' ' || c == '\t' || c == '\n' || c == '\r'

/-- Without the white space at the beginning. -/
def skip (s : Text) : Text := s.dropWhile isSpace

/-! ## Texts -/

/-- The value of a hexadecimal digit. -/
def hexDigit? (c : Char) : Option Nat :=
  if '0' ≤ c ∧ c ≤ '9' then some (c.toNat - '0'.toNat)
  else if 'a' ≤ c ∧ c ≤ 'f' then some (c.toNat - 'a'.toNat + 10)
  else if 'A' ≤ c ∧ c ≤ 'F' then some (c.toNat - 'A'.toNat + 10)
  else none

/-- The number that hexadecimal digits write. -/
def hexNumber? (digits : Text) : Option Nat :=
  digits.foldlM (fun n c => (hexDigit? c).map (16 * n + ·)) 0

/-- What a character stands for after a backslash. -/
def escape? : Char → Option Nat
  | '"' => some 0x22
  | '\\' => some 0x5c
  | '/' => some 0x2f
  | 'b' => some 0x08
  | 'f' => some 0x0c
  | 'n' => some 0x0a
  | 'r' => some 0x0d
  | 't' => some 0x09
  | _ => none

/-- The code units of a text up to its closing quote. A written character counts as one unit. -/
def units? : Text → Option (List Nat × Text)
  | [] => none
  | '"' :: s => some ([], s)
  | '\\' :: 'u' :: a :: b :: c :: d :: s => do
      let n ← hexNumber? [a, b, c, d]
      let (us, rest) ← units? s
      return (n :: us, rest)
  | '\\' :: c :: s => do
      let n ← escape? c
      let (us, rest) ← units? s
      return (n :: us, rest)
  | c :: s => do
      if c < ' ' then none
      let (us, rest) ← units? s
      return (c.toNat :: us, rest)

/-- The character of a code unit. Half of a pair has none and is replaced. -/
def unitChar (n : Nat) : Char := if n.isValidChar then Char.ofNat n else '\uFFFD'

/-- The text of some code units. A high surrogate and a low one after it are one character. -/
def ofUnits : List Nat → Text
  | [] => []
  | high :: low :: us =>
      if 0xd800 ≤ high ∧ high < 0xdc00 ∧ 0xdc00 ≤ low ∧ low < 0xe000 then
        Char.ofNat (0x10000 + (high - 0xd800) * 0x400 + (low - 0xdc00)) :: ofUnits us
      else
        unitChar high :: ofUnits (low :: us)
  | [n] => [unitChar n]

/-- A text after its opening quote. -/
def text? (s : Text) : Option (Text × Text) := (units? s).map fun (us, rest) => (ofUnits us, rest)

/-! ## Numbers -/

/-- The number of some decimal digits. -/
def decimal (digits : Text) : Nat := digits.foldl (fun n c => 10 * n + (c.toNat - '0'.toNat)) 0

/-- The digits at the beginning of a text. -/
def cutDigits (s : Text) : Text × Text := (s.takeWhile Char.isDigit, s.dropWhile Char.isDigit)

/-- The digits before the point: a zero, or digits that do not begin with one. -/
def whole? (s : Text) : Option (Text × Text) :=
  match s with
  | '0' :: rest => some (['0'], rest)
  | s =>
      let (digits, rest) := cutDigits s
      if digits.isEmpty then none else some (digits, rest)

/-- The digits after a point, if there are any. -/
def fraction (s : Text) : Text × Text :=
  match s with
  | '.' :: rest =>
      let (digits, rest) := cutDigits rest
      if digits.isEmpty then ([], s) else (digits, rest)
  | s => ([], s)

/-- The digits of an exponent with its sign. -/
def signedDigits? (s : Text) : Option (Int × Text) :=
  let (negative, body) :=
    match s with
    | '-' :: body => (true, body)
    | '+' :: body => (false, body)
    | body => (false, body)
  let (digits, rest) := cutDigits body
  if digits.isEmpty then
    none
  else
    some (if negative then -(decimal digits : Int) else decimal digits, rest)

/-- An exponent. -/
def exponent? (s : Text) : Option (Int × Text) :=
  match s with
  | c :: rest => if c = 'e' ∨ c = 'E' then signedDigits? rest else none
  | [] => none

/-- A number without its sign: an integer, or a float if it has a point or an exponent. -/
def unsigned? (negative : Bool) (s : Text) : Option (Value × Text) := do
  let (digits, rest) ← whole? s
  let (places, rest) := fraction rest
  match exponent? rest with
  | some (e, rest) =>
      let x := Decimal.nearestFloat negative (decimal (digits ++ places)) (e - places.length)
      return (.float x, rest)
  | none =>
      if places.isEmpty then
        let n : Int := decimal digits
        return (.int (if negative then -n else n), rest)
      else
        let x := Decimal.nearestFloat negative (decimal (digits ++ places)) (-places.length)
        return (.float x, rest)

/-- A number. -/
def number? : Text → Option (Value × Text)
  | '-' :: s => unsigned? true s
  | s => unsigned? false s

/-! ## Refusals -/

/-- Why a text is not read. -/
inductive Refusal where
  /-- It is no JSON. -/
  | malformed
  /-- An integer has too many digits. -/
  | tooLong
  /-- Too many lists and objects are open. -/
  | tooDeep
  deriving DecidableEq, Repr

/-- What was read, or why nothing was. -/
abbrev Reads := Except Refusal

/-- What was read if anything was. -/
def orMalformed {α : Type} : Option α → Reads α
  | some a => .ok a
  | none => .error .malformed

/-! ## Values -/

/-- The words that stand for a value. -/
def words : List (Text × Value) :=
  [("null".toList, .null), ("true".toList, .bool true), ("false".toList, .bool false),
   ("NaN".toList, .float (0.0 / 0.0)), ("Infinity".toList, .float (1.0 / 0.0)),
   ("-Infinity".toList, .float (-1.0 / 0.0))]

/-- After a character that must come next. -/
def expect? (c : Char) : Text → Option Text
  | [] => none
  | d :: s => if c = d then some s else none

section Values

variable [ReadingLimits]

/-- A number, which must not have too many digits if it is an integer. -/
def number (s : Text) : Reads (Value × Text) :=
  match number? s with
  | some (.int n, rest) =>
      let digits := (s.take (s.length - rest.length)).countP Char.isDigit
      if ReadingLimits.allowsDigits digits then .ok (.int n, rest) else .error .tooLong
  | found => orMalformed found

/-- A value that has no parts. -/
def scalar (s : Text) : Reads (Value × Text) :=
  match words.find? fun w => w.1.isPrefixOf s with
  | some (word, v) => .ok (v, s.drop word.length)
  | none => number s

mutual

/-- A value in some number of lists and objects, given a bound on the number of steps. -/
def value : Nat → Nat → Text → Reads (Value × Text)
  | 0, _, _ => .error .malformed
  | fuel + 1, depth, s =>
      match s with
      | '"' :: s => (orMalformed (text? s)).map fun (t, rest) => (.text t, rest)
      | '[' :: s =>
          if ReadingLimits.allowsOpening depth then
            match skip s with
            | ']' :: rest => .ok (.seq .list [], rest)
            | s => (items fuel (depth + 1) s).map fun (vs, rest) => (.seq .list vs, rest)
          else
            .error .tooDeep
      | '{' :: s =>
          if ReadingLimits.allowsOpening depth then
            match skip s with
            | '}' :: rest => .ok (.map .dict [], rest)
            | s =>
                (members fuel (depth + 1) s).map fun (es, rest) => (.map .dict (Table.ofList es), rest)
          else
            .error .tooDeep
      | s => scalar s

/-- The items of a list up to its end. -/
def items : Nat → Nat → Text → Reads (List Value × Text)
  | 0, _, _ => .error .malformed
  | fuel + 1, depth, s => do
      let (v, s) ← value fuel depth s
      match skip s with
      | ']' :: rest => return ([v], rest)
      | ',' :: s =>
          let (vs, rest) ← items fuel depth (skip s)
          return (v :: vs, rest)
      | _ => .error .malformed

/-- The members of an object up to its end. -/
def members : Nat → Nat → Text → Reads (List (Key × Value) × Text)
  | 0, _, _ => .error .malformed
  | fuel + 1, depth, s => do
      let (name, s) ← orMalformed (expect? '"' s >>= text?)
      let s ← orMalformed (expect? ':' (skip s))
      let (v, s) ← value fuel depth (skip s)
      match skip s with
      | '}' :: rest => return ([(.text name, v)], rest)
      | ',' :: s =>
          let (es, rest) ← members fuel depth (skip s)
          return ((.text name, v) :: es, rest)
      | _ => .error .malformed

end

/-- A number of steps that suffices: at most two for each character. -/
def stepBound (s : Text) : Nat := 2 * s.length + 2

/-- The value that a text writes. -/
def read (s : Text) : Reads Value := do
  let (v, rest) ← value (stepBound s) 0 (skip s)
  if (skip rest).isEmpty then return v else .error .malformed

end Values

end Mustache.Json

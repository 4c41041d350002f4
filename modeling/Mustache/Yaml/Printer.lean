import Mustache.Yaml.Document

/-!
# `Mustache.Yaml.Printer` — writing YAML

Values are written in block style, mappings in the order of their keys. A text is written without
quotes where it reads back as that text, else between single quotes if it is one line of printable
ASCII characters, and else between double quotes with escapes. Whatever is no plain value, list or
mapping is written as null.

## Contents
- **Scalars.** `scalarText`.
- **Collections.** `entryLines` and `itemLines`, `print` for a document.
-/

namespace Mustache.Yaml

/-! ## Scalars -/

/-- Printable ASCII characters. -/
def isAscii (c : Char) : Bool := ' ' ≤ c && c ≤ '~'

/-- Whether a text has a comment or the colon of a key in it. -/
def hasMark : Text → Bool
  | [] => false
  | [c] => c == ':'
  | c :: d :: s => (c == ':' && d == ' ') || (c == ' ' && d == '#') || hasMark (d :: s)

/-- Whether a text can begin without quotes. -/
def beginsPlain : Text → Bool
  | [] => false
  | c :: s =>
      if c == '-' || c == '?' then !isGap s.head? else !isIndicator c && c != ' '

/-- Whether a text can be written without quotes. -/
def isPlain (s : Text) : Bool :=
  let readsAsText := match Plain.ofText s with
    | .value (.text _) => true
    | _ => false
  readsAsText && beginsPlain s && !hasMark s && !atMarker s && s.all isAscii
    && s.getLast? != some ' '

/-- Hexadecimal digits in upper case. -/
def upperHex (width n : Nat) : Text := (Text.hex width n).map Char.toUpper

/-- A character between double quotes. -/
def escapedChar (c : Char) : Text :=
  let named := "0abtnvfre\"\\N_LP".toList.find? fun e => escaped? e == some c
  match named with
  | some e => ['\\', e]
  | none =>
      let n := c.toNat
      if isAscii c then [c]
      else if n < 0x100 then '\\' :: 'x' :: upperHex 2 n
      else if n < 0x10000 then '\\' :: 'u' :: upperHex 4 n
      else '\\' :: 'U' :: upperHex 8 n

/-- A text. -/
def textText (s : Text) : Text :=
  if isPlain s then
    s
  else if s.all isAscii then
    '\'' :: s.flatMap (fun c => if c == '\'' then ['\'', '\''] else [c]) ++ ['\'']
  else
    '"' :: s.flatMap escapedChar ++ ['"']

/-- A float, which always has a point. -/
def floatText (x : Float) : Text :=
  match FloatValue.ofFloat x with
  | .nan => ".nan".toList
  | .infinite negative => if negative then "-.inf".toList else ".inf".toList
  | .finite .. =>
      let s := Decimal.floatText x
      if s.contains '.' then s
      else s.flatMap fun c => if c == 'e' then ".0e".toList else [c]

/-- A value on one line, unless it has parts. -/
def scalarText? : Value → Option Text
  | .bool b => some (if b then "true".toList else "false".toList)
  | .int n => some (Text.ofInt n)
  | .float x => some (floatText x)
  | .text s => some (textText s)
  | .moment m => some m.str
  | .seq _ (_ :: _) | .map _ (_ :: _) => none
  | .seq _ [] => some "[]".toList
  | .map _ [] => some "\x7b\x7d".toList
  | _ => some "null".toList

/-- A key. -/
def keyText (k : Key) : Text := (scalarText? k.toValue).getD []

/-! ## Collections -/

/-- A line break. -/
def newline : Text := ['\n']

/-- Entries in the order of their keys. -/
def sorted (blocks : List (Text × Text)) : Text :=
  (blocks.mergeSort fun a b => Text.precedes a.1 b.1).flatMap Prod.snd

mutual

/-- A value as a block that begins at a column, after spaces up to that column. -/
def block (col : Nat) (v : Value) : Text :=
  match v with
  | .seq _ (w :: ws) => itemLines col (w :: ws)
  | .map _ (e :: es) => sorted (entryLines col (e :: es))
  | v => List.replicate col ' ' ++ (scalarText? v).getD [] ++ newline

/-- The items of a sequence. -/
def itemLines (col : Nat) : List Value → Text
  | [] => []
  | v :: vs =>
      List.replicate col ' ' ++ "- ".toList ++ (block (col + 2) v).drop (col + 2)
        ++ itemLines col vs

/-- The entries of a mapping, each with the text of its key. -/
def entryLines (col : Nat) : List (Key × Value) → List (Text × Text)
  | [] => []
  | (k, v) :: es =>
      let lead := List.replicate col ' ' ++ keyText k ++ [':']
      let body := match scalarText? v, v with
        | some s, _ => ' ' :: s ++ newline
        | none, .seq _ vs => newline ++ itemLines col vs
        | none, v => newline ++ block (col + 2) v
      (k.str, lead ++ body) :: entryLines col es

end

/-- A document. A scalar without quotes needs a marker after it. -/
def print (v : Value) : Text :=
  let isQuoted := match v with
    | .text s => !isPlain s
    | .seq .. | .map .. => true
    | _ => false
  block 0 v ++ (if isQuoted then [] else "...\n".toList)

end Mustache.Yaml

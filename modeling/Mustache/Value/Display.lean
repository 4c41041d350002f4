import Mustache.Value
import Mustache.Decimal.FloatText

/-!
# `Mustache.Value.Display` — the text of a value

A text is shown as it is, and within a container between quotes. Containers show their kind and
their items. An interpolated null shows nothing, and interpolated bytes show the text that they
encode.

## Contents
- **Within containers.** `Key.repr`, `Value.repr`.
- **At the top.** `Key.str`, `Value.str`, and `Value.shown?` for interpolation.
- **Types.** `Value.typeName`.
-/

namespace Mustache

/-! ## Within containers -/

/-- The name of a boolean. -/
def boolText (b : Bool) : Text := if b then "True".toList else "False".toList

/-- Bytes within a container. -/
def bytesText (mutable : Bool) (bs : Bytes) : Text := if mutable then bs.quotedBuffer else bs.quoted

/-- Items in brackets. -/
def bracketed (left : String) (items : List Text) (right : String) : Text :=
  left.toList ++ Text.join ", ".toList items ++ right.toList

/-- A container of items. -/
def SeqKind.write (kind : SeqKind) (items : List Text) : Text :=
  match kind, items with
  | .list, _ | .userList, _ => bracketed "[" items "]"
  | .tuple, [item] => '(' :: item ++ ",)".toList
  | .tuple, _ => bracketed "(" items ")"
  | .deque, _ => bracketed "deque([" items "])"
  | .frozenSet, [] => "frozenset()".toList
  | .frozenSet, _ => bracketed "frozenset(\x7b" items "\x7d)"

/-- An entry of a mapping. -/
def writeEntry (e : Text × Text) : Text := e.1 ++ ": ".toList ++ e.2

/-- An entry of a mapping as a pair. -/
def writePair (e : Text × Text) : Text := '(' :: e.1 ++ ", ".toList ++ e.2 ++ [')']

/-- A container of entries, of which keys and values are written. -/
def MapKind.write (kind : MapKind) (entries : List (Text × Text)) : Text :=
  match kind, entries with
  | .dict, _ | .userDict, _ => bracketed "\x7b" (entries.map writeEntry) "\x7d"
  | .chain, _ => bracketed "ChainMap(\x7b" (entries.map writeEntry) "\x7d)"
  | .ordered, [] => "OrderedDict()".toList
  | .ordered, _ => bracketed "OrderedDict([" (entries.map writePair) "])"

/-- A view of entries, of which keys and values are written. -/
def ViewKind.write (kind : ViewKind) (entries : List (Text × Text)) : Text :=
  match kind with
  | .keys => bracketed "dict_keys([" (entries.map Prod.fst) "])"
  | .values => bracketed "dict_values([" (entries.map Prod.snd) "])"

/-- The name of the class of a frame. -/
def FrameKind.name : FrameKind → Text
  | .mapping => "MappingFrame".toList
  | .object | .live _ => "ObjectFrame".toList
  | .scalar => "ScalarFrame".toList
  | .upper => "UpperFrame".toList
  | .custom => "CustomFrame".toList
  | .base => "ContextFrame".toList

mutual

/-- The text of a key within a container. -/
def Key.repr : Key → Text
  | .null => "None".toList
  | .bool b => boolText b
  | .int n => Text.ofInt n
  | .float x => Decimal.floatText x
  | .text s => Text.quoted s
  | .bytes bs => bs.quoted
  | .moment m => m.repr
  | .tuple items => SeqKind.tuple.write (Key.reprs items)
  | .object label => label

def Key.reprs : List Key → List Text
  | [] => []
  | k :: ks => k.repr :: Key.reprs ks

end

mutual

/-- The text of a value within a container. -/
def Value.repr : Value → Text
  | .null => "None".toList
  | .bool b => boolText b
  | .int n => Text.ofInt n
  | .float x => Decimal.floatText x
  | .text s => Text.quoted s
  | .bytes mutable bs => bytesText mutable bs
  | .moment m => m.repr
  | .seq kind items => kind.write (Value.reprList items)
  | .range n => "range(0, ".toList ++ Text.ofInt n ++ [')']
  | .map kind es => kind.write (Value.reprEntries es)
  | .view kind es => kind.write (Value.reprEntries es)
  | .stream .. => "<iterator>".toList
  | .function _ => "<function>".toList
  | .object o => o.label
  | .type _ => "<class>".toList
  | .closedMap => "badmap".toList
  | .frame kind v _ => kind.name ++ '(' :: v.repr ++ [')']

def Value.reprList : List Value → List Text
  | [] => []
  | v :: vs => v.repr :: Value.reprList vs

def Value.reprEntries : List (Key × Value) → List (Text × Text)
  | [] => []
  | (k, v) :: es => (k.repr, v.repr) :: Value.reprEntries es

end

/-! ## At the top -/

/-- The text of a key. -/
def Key.str : Key → Text
  | .text s => s
  | .moment m => m.str
  | k => k.repr

/-- The text of a value. -/
def Value.str : Value → Text
  | .text s => s
  | .moment m => m.str
  | v => v.repr

/-- The text of an interpolated value, if there is one: bytes may encode none. -/
def Value.shown? : Value → Option Text
  | .null => some []
  | .bytes _ bs => Encoding.utf8.decode? bs
  | v => some v.str

/-! ## Types -/

/-- The name of the type of a value in a report. Values that no file can hold are objects. -/
def Value.typeName : Value → Text
  | .null => "NoneType".toList
  | .bool _ => "bool".toList
  | .int _ => "int".toList
  | .float _ => "float".toList
  | .text _ => "str".toList
  | .moment m => m.typeName
  | .seq .list _ => "list".toList
  | .map .dict _ => "dict".toList
  | _ => "object".toList

end Mustache

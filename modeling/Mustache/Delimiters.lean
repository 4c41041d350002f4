import Mustache.Text

/-!
# `Mustache.Delimiters` — the markers of a tag, and keys

A tag stands between an opening and a closing delimiter. Its key names a value: a dotted key is
resolved segment by segment, and the key `.` is the value at hand.
-/

namespace Mustache

/-- The markers around a tag. -/
structure Delimiters where
  opening : Text
  closing : Text
  deriving DecidableEq, Repr, Inhabited

/-- Double braces, the delimiters of a template that declares none. -/
def Delimiters.braces : Delimiters where
  opening := "\x7b\x7b".toList
  closing := "\x7d\x7d".toList

/-- The segments of a key. The key `.` has none. -/
def keyPath (key : Text) : List Text :=
  if key = ['.'] then [] else Text.splitOn '.' key

end Mustache

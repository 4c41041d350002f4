import Mustache.Text
import Mustache.Text.Printable

/-!
# `Mustache.Text.Quoted` — text and bytes between quotes

Messages and containers show a text between quotes. The single quote is taken unless the text holds
one and no double quote; backslashes, the quote itself and everything unprintable are escaped, so
the quoted form is on one line and shows every character.
-/

namespace Mustache

/-- A sequence of bytes. -/
abbrev Bytes := List UInt8

namespace Text

/-- The quote that needs the fewest escapes. -/
def quoteFor (hasSingle hasDouble : Bool) : Char := if hasSingle && !hasDouble then '"' else '\''

/-- The escape that stands for a character between the given quotes. -/
def escapeQuoted (quote c : Char) : Text :=
  let n := c.toNat
  if c = quote ∨ c = '\\' then ['\\', c]
  else if c = '\n' then "\\n".toList
  else if c = '\r' then "\\r".toList
  else if c = '\t' then "\\t".toList
  else if isPrintable c then [c]
  else if n < 0x100 then "\\x".toList ++ hex 2 n
  else if n < 0x10000 then "\\u".toList ++ hex 4 n
  else "\\U".toList ++ hex 8 n

/-- A text between quotes. -/
def quoted (s : Text) : Text :=
  let quote := quoteFor (s.contains '\'') (s.contains '"')
  quote :: s.flatMap (escapeQuoted quote) ++ [quote]

end Text

namespace Bytes

/-- The escape that stands for a byte, given the characters that need a backslash. -/
def escapeQuoted (needsBackslash : Char → Bool) (b : UInt8) : Text :=
  let n := b.toNat
  if n < 0x20 ∨ 0x7f ≤ n then
    if n = 0x0a then "\\n".toList
    else if n = 0x0d then "\\r".toList
    else if n = 0x09 then "\\t".toList
    else "\\x".toList ++ Text.hex 2 n
  else
    let c := Char.ofNat n
    if needsBackslash c then ['\\', c] else [c]

/-- The quote of a sequence of bytes. -/
def quote (bs : Bytes) : Char := Text.quoteFor (bs.contains 0x27) (bs.contains 0x22)

/-- A sequence of bytes between quotes, marked by a leading `b`. -/
def quoted (bs : Bytes) : Text :=
  let needsBackslash (c : Char) : Bool := c == bs.quote || c == '\\'
  'b' :: bs.quote :: bs.flatMap (escapeQuoted needsBackslash) ++ [bs.quote]

/-- A sequence of bytes that can change. Every single quote in it is escaped, also between double
    quotes. -/
def quotedBuffer (bs : Bytes) : Text :=
  let needsBackslash (c : Char) : Bool := c == '\'' || c == '\\'
  "bytearray(b".toList
    ++ bs.quote :: bs.flatMap (escapeQuoted needsBackslash) ++ [bs.quote, ')']

end Bytes

end Mustache

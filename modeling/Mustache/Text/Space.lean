import Mustache.Text

/-!
# `Mustache.Text.Space` — white space

The class of characters that ends a key, separates two delimiters and surrounds a setting: the
characters with the Unicode property White_Space, and the four information separators
`U+001C` to `U+001F`.
-/

namespace Mustache

/-- White space in keys, delimiter declarations and settings. -/
def Text.isSpace (c : Char) : Bool :=
  let n := c.toNat
  (0x09 ≤ n && n ≤ 0x0d) || (0x1c ≤ n && n ≤ 0x20) || n == 0x85 || n == 0xa0 || n == 0x1680
    || (0x2000 ≤ n && n ≤ 0x200a) || n == 0x2028 || n == 0x2029 || n == 0x202f || n == 0x205f
    || n == 0x3000

namespace Text

/-- Without the white space at its beginning. -/
def stripLeft (s : Text) : Text := s.dropWhile isSpace

/-- Without the white space at its end. -/
def stripRight (s : Text) : Text := (s.reverse.dropWhile isSpace).reverse

/-- Without the white space at both ends. -/
def strip (s : Text) : Text := stripRight (stripLeft s)

/-- The maximal runs of characters that are not white space. -/
def words : Text → List Text
  | [] => []
  | c :: cs =>
      if isSpace c then
        words cs
      else
        match cs with
        | [] => [[c]]
        | d :: _ =>
            if isSpace d then
              [c] :: words cs
            else
              match words cs with
              | [] => [[c]]
              | w :: ws => (c :: w) :: ws

end Text

end Mustache

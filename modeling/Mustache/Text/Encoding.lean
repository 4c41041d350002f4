import Mustache.Text.Quoted

/-!
# `Mustache.Text.Encoding` — text as bytes

The two encodings in which templates are stored. UTF-8 is strict: bytes that encode no text are
refused. Latin-1 reads every byte as the character of that code point.
-/

namespace Mustache

/-- How bytes stand for text. -/
inductive Encoding where
  | utf8
  | latin1
  deriving DecidableEq, Repr

/-- The UTF-8 encoding of a text. -/
def Text.utf8 (s : Text) : Bytes := s.flatMap String.utf8EncodeChar

/-- The text that a sequence of bytes encodes. -/
def Encoding.decode? : Encoding → Bytes → Option Text
  | .utf8, bs => (String.fromUTF8? ⟨bs.toArray⟩).map String.toList
  | .latin1, bs => some (bs.map fun b => Char.ofNat b.toNat)

/-- The bytes of a text decode to the text. -/
theorem Encoding.decode?_utf8 (s : Text) : Encoding.utf8.decode? (Text.utf8 s) = some s := by
  have hbytes : (⟨(Text.utf8 s).toArray⟩ : ByteArray) = (String.ofList s).toByteArray := by
    rw [String.toByteArray_ofList]
    exact ByteArray.ext List.data_toByteArray.symm
  show (String.fromUTF8? ⟨(Text.utf8 s).toArray⟩).map String.toList = some s
  rw [hbytes, String.fromUTF8?, dif_pos (String.ofList s).isValidUTF8]
  exact congrArg some String.toList_ofList

/-- The text of a file: decoded, with every line ending read as a newline. -/
def Encoding.readText? (e : Encoding) (bs : Bytes) : Option Text :=
  (e.decode? bs).map Text.unifyNewlines

end Mustache

import Mustache.Tag

/-!
# `Mustache.Token` — a template as static text and tags

A template is static text and tags in turn. A run is a tag with the static text that leads up to it,
so a scan is a list of runs and the static text after the last one. Under the delimiters in effect a
tag begins at their first occurrence; a tag that declares delimiters puts them in effect for the
text after it. The first tag that cannot be read ends the scan.

## Contents
- **Scanning.** `Scan.after`, `Scan.ofText`.
- **Tokens.** `Scan.tokens` lists the static texts that are not empty and the tags, with offsets.
-/

namespace Mustache

/-- A tag and the static text before it, back to the tag before or to the beginning. -/
structure Run where
  lead : Text
  tag : Tag
  deriving DecidableEq, Repr

/-- All characters of a run. -/
def Run.source (r : Run) : Text := r.lead ++ r.tag.source

/-- A template taken apart. -/
structure Scan where
  runs : List Run
  /-- The static text after the last tag that was read. -/
  tail : Text
  /-- Why the scan ended before the end of the text. -/
  failure : Option SyntaxError
  deriving DecidableEq, Repr

namespace Scan

/-! ## Scanning -/

/-- The scan with a run before it. -/
def cons (r : Run) (s : Scan) : Scan := { s with runs := r :: s.runs }

/-- What follows the first tag of a text is shorter than the text. -/
theorem length_rest_lt {d : Delimiters} {s lead inner rest : Text} {t : TagText}
    (hcut : Text.breakOn d.opening s = some (lead, inner))
    (htag : TagText.read d inner = .ok (t, rest)) : rest.length < s.length := by
  have hs := Text.eq_of_breakOn hcut
  have hlt := TagText.length_lt_of_read htag
  simp only [hs, List.length_append]
  omega

/-- The scan of the rest of a text, from a place on and with the delimiters in effect there. -/
def after (d : Delimiters) (c : Cursor) (s : Text) : Scan :=
  if s.isEmpty then
    ⟨[], [], none⟩
  else
    match hcut : Text.breakOn d.opening s with
    | none => ⟨[], s, none⟩
    | some (lead, inner) =>
        let here := c.advance lead
        match htag : TagText.read d inner with
        | .error fault => ⟨[], lead, some (fault.report here.row here.col)⟩
        | .ok (t, rest) =>
            have _shorter := length_rest_lt hcut htag
            let tag := Tag.place d here t rest
            cons ⟨lead, tag⟩ (Scan.after tag.delimitersAfter (here.advance tag.source) rest)
termination_by s.length

/-- The scan of a text. -/
def ofText (d : Delimiters) (s : Text) : Scan := Scan.after d Cursor.start s

/-! ## Tokens -/

end Scan

/-- A piece of a template with its place. -/
inductive Token where
  /-- Static text between two offsets. -/
  | text (start stop : Nat)
  | tag (t : Tag)
  deriving DecidableEq, Repr

namespace Scan

/-- Static text at an offset, unless it is empty. -/
def textToken (start : Nat) (s : Text) : List Token :=
  if s.isEmpty then [] else [.text start (start + s.length)]

/-- The tokens of some runs and the text after them, from an offset on. -/
def tokensFrom (offset : Nat) : List Run → Text → List Token
  | [], tail => textToken offset tail
  | r :: rs, tail =>
      textToken offset r.lead ++ .tag r.tag :: tokensFrom (offset + r.source.length) rs tail

/-- The tokens of a scan in the order of the text. -/
def tokens (s : Scan) : List Token := tokensFrom 0 s.runs s.tail

end Scan

end Mustache

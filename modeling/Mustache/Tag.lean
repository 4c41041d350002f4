import Mustache.Delimiters
import Mustache.SyntaxError

/-!
# `Mustache.Tag` — tags

A tag begins with the opening delimiter. The character after it, the sigil, selects the kind of the
tag; without a sigil the tag is an escaped interpolation. A tag ends at the first place where its
closing text occurs: the closing delimiter, with a brace before it after the sigil `{` and an equals
sign before it after the sigil `=`.

## Contents
- **Kinds.** `TagKind`, the sigil of each, and which kinds can stand alone on a line.
- **Reading.** `TagText.read` takes a tag from the text after an opening delimiter; it consumes at
  least one character.
- **Placing.** A tag in its template: `Tag`, with the margins of the line that it has for itself.
-/

namespace Mustache

/-! ## Kinds -/

/-- What a tag asks for. -/
inductive TagKind where
  | escaped
  | raw
  | normalSection
  | invertedSection
  | close
  | partialUse
  | parent
  | block
  | comment
  | delimiters
  deriving DecidableEq, Repr

namespace TagKind

/-- The kind that a sigil selects. -/
def ofSigil? : Char → Option TagKind
  | '#' => some .normalSection
  | '^' => some .invertedSection
  | '/' => some .close
  | '>' => some .partialUse
  | '<' => some .parent
  | '$' => some .block
  | '!' => some .comment
  | '&' => some .raw
  | '{' => some .raw
  | '=' => some .delimiters
  | _ => none

/-- The kind of the tag whose text follows the opening delimiter. -/
def ofText : Text → TagKind
  | [] => .escaped
  | c :: _ => (ofSigil? c).getD .escaped

/-- Whether a tag of this kind takes its line with it when it stands alone there. Interpolations
    never do. -/
def standsAlone : TagKind → Bool
  | .escaped | .raw => false
  | _ => true

/-- Whether a tag of this kind waits for a close tag. -/
def opens : TagKind → Bool
  | .normalSection | .invertedSection | .parent | .block => true
  | _ => false

/-- Whether the margin of a tag of this kind indents what replaces the tag. -/
def indents : TagKind → Bool
  | .partialUse | .parent | .block => true
  | _ => false

/-- The sigil in the report of a tag that is never closed. -/
def sigil : TagKind → Char
  | .invertedSection => '^'
  | .parent => '<'
  | .block => '$'
  | _ => '#'

end TagKind

/-! ## Reading -/

/-- A tag as it is written, wherever it stands. -/
structure TagText where
  kind : TagKind
  /-- The content without the white space around it; of a comment the remark. -/
  key : Text
  /-- The characters after the opening delimiter, up to the end of the tag. -/
  source : Text
  /-- The delimiters that the tag declares. -/
  replacement : Option Delimiters
  deriving DecidableEq, Repr

namespace TagText

/-- The text that ends a tag, by the characters after its opening delimiter. -/
def closingFor (d : Delimiters) : Text → Text
  | '{' :: _ => '}' :: d.closing
  | '=' :: _ => '=' :: d.closing
  | _ => d.closing

/-- The delimiters that the content of a declaration names: two words without an equals sign. -/
def declared? (content : Text) : Option Delimiters :=
  match Text.words content with
  | [o, c] => if o.contains '=' || c.contains '=' then none else some ⟨o, c⟩
  | _ => none

/-- The tag with a kind and a content, if the content suits the kind. A comment may hold anything, a
    declaration holds two delimiters, and every other tag holds a key: some characters, none of them
    white space. -/
def ofContent (kind : TagKind) (source content : Text) : Except SyntaxFault TagText :=
  let key := Text.strip content
  match kind with
  | .comment => .ok ⟨kind, key, source, none⟩
  | .delimiters =>
      match declared? content with
      | some d => .ok ⟨kind, key, source, some d⟩
      | none => .error (.invalidDeclaration content)
  | _ =>
      if key.isEmpty then .error .emptyKey
      else if key.any Text.isSpace then .error (.invalidKey content)
      else .ok ⟨kind, key, source, none⟩

/-- The tag at the beginning of the text after an opening delimiter, and the text after the tag. -/
def read (d : Delimiters) (inner : Text) : Except SyntaxFault (TagText × Text) :=
  let kind := TagKind.ofText inner
  let closing := closingFor d inner
  let sigil := if kind = .escaped then [] else inner.take 1
  match Text.breakOn closing (inner.drop sigil.length) with
  | none => .error (.unterminated closing d.opening)
  | some (content, rest) =>
      match ofContent kind (sigil ++ content ++ closing) content with
      | .error fault => .error fault
      | .ok tag => .ok (tag, rest)

theorem source_of_ofContent {kind : TagKind} {source content : Text} {t : TagText}
    (h : ofContent kind source content = .ok t) : t.source = source := by
  unfold ofContent at h
  dsimp only at h
  split at h
  · cases h; rfl
  · split at h
    · cases h; rfl
    · cases h
  · split at h
    · cases h
    · split at h
      · cases h
      · cases h; rfl

theorem content_ne_nil_of_ofContent {source content : Text} {t : TagText}
    (h : ofContent .escaped source content = .ok t) : content ≠ [] := by
  rintro rfl
  simp [ofContent, Text.strip, Text.stripLeft, Text.stripRight] at h

/-- Reading a tag loses nothing. -/
theorem eq_of_read {d : Delimiters} {inner rest : Text} {t : TagText}
    (h : read d inner = .ok (t, rest)) : inner = t.source ++ rest := by
  unfold read at h
  dsimp only at h
  split at h
  · cases h
  · rename_i content rest' hcut
    split at h
    · cases h
    · rename_i tag hok
      cases h
      rw [source_of_ofContent hok]
      have hinner := Text.eq_of_breakOn hcut
      by_cases hk : TagKind.ofText inner = .escaped
      · simpa [hk] using hinner
      · cases inner with
        | nil => simp [TagKind.ofText] at hk
        | cons c cs => simpa [hk] using hinner

/-- Reading a tag consumes at least one character. -/
theorem length_lt_of_read {d : Delimiters} {inner rest : Text} {t : TagText}
    (h : read d inner = .ok (t, rest)) : rest.length < inner.length := by
  have hinner := eq_of_read h
  have hsource : t.source ≠ [] := by
    unfold read at h
    dsimp only at h
    split at h
    · cases h
    · split at h
      · cases h
      · rename_i content rest' hcut _ tag hok
        cases h
        rw [source_of_ofContent hok]
        by_cases hk : TagKind.ofText inner = .escaped
        · rw [hk] at hok
          simp [hk, content_ne_nil_of_ofContent hok]
        · cases inner with
          | nil => simp [TagKind.ofText] at hk
          | cons c cs => simp [hk]
  have hpos := List.length_pos_iff.mpr hsource
  rw [hinner, List.length_append]
  omega

end TagText

/-! ## Placing -/

/-- The blank text around a tag that has its line for itself. -/
structure Margins where
  /-- From the beginning of the line to the tag. -/
  leading : Text
  /-- From the tag to the end of the line, with the line ending. -/
  trailing : Text
  deriving DecidableEq, Repr

/-- The rest of a line after a tag, if it is blank: spaces and tabs, then `\n` or `\r\n` or the end
    of the text, before which a `\r` may stand too. -/
def Margins.trailing? (after : Text) : Option Text :=
  let line := after.takeWhile (· != '\n')
  let blank := if line.getLast? = some '\r' then line.dropLast else line
  if Text.isBlank blank then
    some (line ++ (after.dropWhile (· != '\n')).take 1)
  else
    none

/-- The margins of a tag between the beginning of its line and the text after it. -/
def Margins.around? (before after : Text) : Option Margins :=
  if Text.isBlank before then
    (trailing? after).map fun trailing => ⟨before, trailing⟩
  else
    none

/-- A tag in a template. -/
structure Tag where
  kind : TagKind
  key : Text
  /-- The characters of the tag, delimiters included. -/
  source : Text
  /-- The number of characters before the tag. -/
  start : Nat
  row : Nat
  col : Nat
  /-- The delimiters between which the tag stands. -/
  delimiters : Delimiters
  /-- The delimiters that hold after the tag, if it declares them. -/
  replacement : Option Delimiters
  /-- The margins of a tag that stands alone on its line. -/
  margins : Option Margins
  deriving DecidableEq, Repr

namespace Tag

/-- A tag at a place in a template, before the rest of the text. -/
def place (d : Delimiters) (here : Cursor) (t : TagText) (rest : Text) : Tag where
  kind := t.kind
  key := t.key
  source := d.opening ++ t.source
  start := here.offset
  row := here.row
  col := here.col
  delimiters := d
  replacement := t.replacement
  margins := if t.kind.standsAlone then Margins.around? here.linePrefix rest else none

/-- The number of characters up to the end of the tag. -/
def stop (t : Tag) : Nat := t.start + t.source.length

/-- Whether the tag is alone on its line. -/
def standalone (t : Tag) : Bool := t.margins.isSome

/-- The delimiters that hold after the tag. -/
def delimitersAfter (t : Tag) : Delimiters := t.replacement.getD t.delimiters

/-- The indentation that a tag gives to what replaces it. -/
def indent (t : Tag) : Option Text :=
  if t.kind.indents then t.margins.map Margins.leading else none

/-- The report of a fault at the tag. -/
def report (t : Tag) (f : SyntaxFault) : SyntaxError := f.report t.row t.col

end Tag

end Mustache

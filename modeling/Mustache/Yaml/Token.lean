import Mustache.Yaml.Scalar

/-!
# `Mustache.Yaml.Token` — a YAML text as tokens

Indentation and line breaks mean something in YAML. The lexer turns them into tokens that open and
close block collections, so that what is left is a grammar of tokens. A mapping key is recognised by
the colon after it; until then every token that could begin one is a candidate, and the colon puts a
key token in front of it.

The lexer knows block and flow collections, plain and quoted scalars, comments, directives and
document markers. Where a text goes on with anything else, its last token says why it was refused.

## Contents
- **Refusals.** `Refusal`, `Reads`.
- **Characters.** Line breaks, blanks, document markers.
- **Scalars.** `plainScalar`, `quotedScalar`.
- **State.** `Lexer`, its open blocks and its key candidates.
- **Tokens.** `Lexer.next` reads one token, `tokens` reads a text.
-/

namespace Mustache.Yaml

/-! ## Refusals -/

/-- Why a text cannot be read. -/
inductive Refusal where
  | malformed
  /-- Something is written like a value that does not exist. -/
  | badValue
  /-- The number of a character is beyond all limits. -/
  | outOfRange
  deriving DecidableEq, Repr

/-- A reading that may be refused. -/
abbrev Reads := Except Refusal

/-! ## Characters -/

/-- Characters that end a line. -/
def isBreak (c : Char) : Bool :=
  c == '\n' || c == '\r' || c == '\x85' || c == '\u2028' || c == '\u2029'

/-- A line break in the text of a scalar. -/
def breakText (c : Char) : Char := if c == '\u2028' || c == '\u2029' then c else '\n'

/-- A blank, a line break or the end of the text. -/
def isGap : Option Char → Bool
  | none => true
  | some c => c == ' ' || c == '\t' || isBreak c

/-- Whether a line begins with a document marker made of a character. -/
def isMarker (c : Char) : Text → Bool
  | a :: b :: d :: s => a == c && b == c && d == c && isGap s.head?
  | _ => false

/-- Whether a line begins with a marker that ends what is before it. -/
def atMarker (s : Text) : Bool := isMarker '-' s || isMarker '.' s

/-- Characters that may stand in a YAML text. -/
def isPrintable (c : Char) : Bool :=
  let n := c.toNat
  n == 0x09 || n == 0x0a || n == 0x0d || (0x20 ≤ n && n ≤ 0x7e) || n == 0x85
    || (0xa0 ≤ n && n ≤ 0xfffd) || 0x10000 ≤ n

/-- The brackets and the comma of flow collections. -/
def isFlowMark (c : Char) : Bool := ",[]\x7b\x7d".toList.contains c

/-- Characters that mean something at the beginning of a token. -/
def isIndicator (c : Char) : Bool := "-?:,[]\x7b\x7d#&*!|>'\"%@`".toList.contains c

/-- A place in a text. Lines and columns count from zero. -/
structure Place where
  offset : Nat
  line : Nat
  col : Nat

/-- The place after a character. A byte order mark takes no column. -/
def Place.after (p : Place) (c : Char) : Place where
  offset := p.offset + 1
  line := if isBreak c then p.line + 1 else p.line
  col := if isBreak c then 0 else if c == '\uFEFF' then p.col else p.col + 1

/-- The place after several characters. -/
def Place.advance (p : Place) (s : Text) : Place := s.foldl Place.after p

/-! ## Scalars -/

/-- What was read of a scalar, and where that ends. -/
structure Reading where
  text : Text
  rest : Text
  place : Place

/-- The beginning of a text up to a gap, to the colon of a key or, in a flow collection, to one of
    its marks. -/
def plainWord (inFlow : Bool) : Text → Text × Text
  | [] => ([], [])
  | c :: s =>
      let colon := c == ':' && (isGap s.head? || (inFlow && s.head?.any isFlowMark))
      let mark := inFlow && (isFlowMark c || c == '?')
      if isGap (some c) || colon || mark then
        ([], c :: s)
      else
        let (word, rest) := plainWord inFlow s
        (c :: word, rest)

/-- Line breaks and the spaces between them. Reading stops at a document marker, which is told. -/
def plainBreaks (p : Place) : Text → Reading × Bool
  | [] => (⟨[], [], p⟩, false)
  | c :: s =>
      if c == ' ' then
        plainBreaks (p.after c) s
      else if isBreak c then
        if atMarker s then
          (⟨[breakText c], s, p.after c⟩, true)
        else
          let (r, stopped) := plainBreaks (p.after c) s
          ({ r with text := breakText c :: r.text }, stopped)
      else
        (⟨[], c :: s, p⟩, false)

/-- A line break and the breaks after it in the text of a scalar: a single newline is a space. -/
def folded (first : Char) (others : Text) : Text :=
  if breakText first != '\n' then breakText first :: others
  else if others.isEmpty then [' ']
  else others

/-- What stands between two words of a plain scalar, and whether there is a line break in it. It is
    empty before a document marker. -/
def plainGap (p : Place) (s : Text) : Reading × Bool :=
  let spaces := s.takeWhile (· == ' ')
  let rest := s.drop spaces.length
  let p := p.advance spaces
  match rest with
  | c :: after =>
      if isBreak c then
        if atMarker after then
          (⟨[], after, p.after c⟩, true)
        else
          let (r, stopped) := plainBreaks (p.after c) after
          ({ r with text := if stopped then [] else folded c r.text }, true)
      else
        (⟨spaces, rest, p⟩, false)
  | [] => (⟨spaces, [], p⟩, false)

/-- The words of a plain scalar from a place on, with what stands between them. A scalar goes on as
    long as its lines are indented. The flag tells whether a line break came last. -/
def plainWords (inFlow : Bool) (indent : Int) : Nat → Place → Text → Bool → Reading × Bool
  | 0, p, s, broken => (⟨[], s, p⟩, broken)
  | fuel + 1, p, s, broken =>
      let (word, rest) := plainWord inFlow s
      if s.head? == some '#' || word.isEmpty then
        (⟨[], s, p⟩, broken)
      else
        let (gap, newLine) := plainGap (p.advance word) rest
        let ends := gap.text.isEmpty || gap.rest.head? == some '#'
          || (!inFlow && (gap.place.col : Int) < indent)
        if ends then
          (⟨word, gap.rest, gap.place⟩, newLine)
        else
          let (more, broken) := plainWords inFlow indent fuel gap.place gap.rest newLine
          let text := if more.text.isEmpty then word else word ++ gap.text ++ more.text
          ({ more with text := text }, broken)

/-- A plain scalar. -/
def plainScalar (inFlow : Bool) (indent : Int) (p : Place) (s : Text) : Reading × Bool :=
  plainWords inFlow indent (s.length + 1) p s false

/-- The breaks after a line break in a quoted scalar, with the blanks that begin the lines. A
    document marker must not stand there. -/
def quotedBreaks (lineStart : Bool) (p : Place) : Text → Reads Reading
  | [] => .ok ⟨[], [], p⟩
  | c :: s =>
      if lineStart && atMarker (c :: s) then
        .error .malformed
      else if c == ' ' || c == '\t' then
        quotedBreaks false (p.after c) s
      else if isBreak c then
        (quotedBreaks true (p.after c) s).map fun r => { r with text := breakText c :: r.text }
      else
        .ok ⟨[], c :: s, p⟩

/-- What a character stands for after a backslash. -/
def escaped? : Char → Option Char
  | '0' => some '\x00'
  | 'a' => some '\x07'
  | 'b' => some '\x08'
  | 't' | '\t' => some '\t'
  | 'n' => some '\n'
  | 'v' => some '\x0b'
  | 'f' => some '\x0c'
  | 'r' => some '\r'
  | 'e' => some '\x1b'
  | ' ' => some ' '
  | '"' => some '"'
  | '\\' => some '\\'
  | '/' => some '/'
  | 'N' => some '\x85'
  | '_' => some '\xa0'
  | 'L' => some '\u2028'
  | 'P' => some '\u2029'
  | _ => none

/-- The number of hexadecimal digits that follow a character after a backslash. -/
def codeLength? : Char → Option Nat
  | 'x' => some 2
  | 'u' => some 4
  | 'U' => some 8
  | _ => none

/-- The number that hexadecimal digits write after a character that tells how many there are, and
    the text after them. -/
def escapedCode? : Text → Option (Nat × Text)
  | [] => none
  | c :: s => do
      let length ← codeLength? c
      let digits := s.take length
      if digits.length == length then
        return (← Json.hexNumber? digits, s.drop length)
      else
        none

/-- The second half of a pair of surrogates that are escaped one after the other. -/
def escapedHalf? (first : Nat) (s : Text) : Option (Nat × Text) := do
  let (second, rest) ← match s with
    | '\\' :: s => escapedCode? s
    | _ => none
  if 0xd800 ≤ first ∧ first < 0xdc00 ∧ 0xdc00 ≤ second ∧ second < 0xe000 then
    return (second, rest)
  else
    none

/-- The characters of a number, of which there is one. Numbers must fit into 31 bits, and not all
    that do have a character. -/
def charsOf (code : Nat) : Reads Text :=
  if 0x7fffffff < code then .error .outOfRange
  else if 0x10ffff < code then .error .badValue
  else .ok (Json.ofUnits [code])

/-- What a backslash and the text after it stand for. -/
def escapeSequence (p : Place) : Text → Reads Reading
  | [] => .error .malformed
  | c :: s =>
      let reading (text rest : Text) : Reading :=
        ⟨text, rest, p.advance ((c :: s).take (s.length + 1 - rest.length))⟩
      match escaped? c, codeLength? c, escapedCode? (c :: s) with
      | some d, _, _ => .ok (reading [d] s)
      | none, some _, some (code, rest) =>
          match escapedHalf? code rest with
          | some (second, rest) => .ok (reading (Json.ofUnits [code, second]) rest)
          | none => (charsOf code).map fun text => reading text rest
      | none, some _, none => .error .malformed
      | none, none, _ => if isBreak c then quotedBreaks true (p.after c) s else .error .malformed

/-- A piece of a quoted scalar: a character, an escape, blanks or line breaks. Nothing is left to
    read at the closing quote. -/
def quotedPiece (quote : Char) (p : Place) : Text → Reads Reading
  | [] => .error .malformed
  | c :: s =>
      if c == quote then
        if quote == '\'' && s.head? == some '\'' then
          .ok ⟨['\''], s.drop 1, (p.after c).after c⟩
        else
          .ok ⟨[], c :: s, p⟩
      else if quote == '"' && c == '\\' then
        escapeSequence (p.after c) s
      else if isGap (some c) then
        let blanks := (c :: s).takeWhile fun d => d == ' ' || d == '\t'
        let p := p.advance blanks
        match (c :: s).drop blanks.length with
        | [] => .error .malformed
        | d :: rest =>
            if isBreak d then
              (quotedBreaks true (p.after d) rest).map fun r => { r with text := folded d r.text }
            else
              .ok ⟨blanks, d :: rest, p⟩
      else
        .ok ⟨[c], s, p.after c⟩

/-- A quoted scalar after its opening quote. -/
def quotedRest (quote : Char) : Nat → Place → Text → Reads Reading
  | 0, _, _ => .error .malformed
  | fuel + 1, p, s => do
      let piece ← quotedPiece quote p s
      if piece.text.isEmpty && piece.place.offset == p.offset then
        return ⟨[], piece.rest.drop 1, piece.place.after quote⟩
      else
        let more ← quotedRest quote fuel piece.place piece.rest
        return { more with text := piece.text ++ more.text }

/-- A quoted scalar. -/
def quotedScalar (quote : Char) (p : Place) (s : Text) : Reads Reading :=
  quotedRest quote (s.length + 1) p s

/-! ## State -/

/-- A token. -/
inductive Token where
  | directive
  | documentStart
  | documentEnd
  | blockSequence
  | blockMapping
  | blockEnd
  | flowSequence
  | flowSequenceEnd
  | flowMapping
  | flowMappingEnd
  /-- The dash before an item. -/
  | item
  /-- The comma between parts of a flow collection. -/
  | comma
  | key
  | value
  | scalar (plain : Bool) (text : Text)
  | streamEnd
  /-- What comes next is no token. -/
  | refused (why : Refusal)
  deriving DecidableEq, Repr

/-- A token that may turn out to begin a mapping key. -/
structure Candidate where
  /-- The number of tokens before it. -/
  index : Nat
  /-- Whether it must be a key, because it stands where its block does. -/
  required : Bool
  place : Place

/-- The state of a lexer. -/
structure Lexer where
  rest : Text
  place : Place
  /-- The key candidate of the block context and of each open flow collection, innermost first. -/
  candidates : List (Option Candidate)
  /-- The columns of the open blocks, innermost first. -/
  indents : List Nat
  /-- Whether a key may begin here. -/
  keyAllowed : Bool
  tokens : Array Token

namespace Lexer

/-- The lexer before a text. -/
def start (s : Text) : Lexer where
  rest := s
  place := ⟨0, 0, 0⟩
  candidates := [none]
  indents := []
  keyAllowed := true
  tokens := #[]

/-- Whether a flow collection is open. -/
def inFlow (l : Lexer) : Bool := 1 < l.candidates.length

/-- The column of the innermost open block, or one column before the first. -/
def indent (l : Lexer) : Int :=
  match l.indents with
  | [] => -1
  | i :: _ => i

/-- The lexer with a further token. -/
def push (l : Lexer) (t : Token) : Lexer := { l with tokens := l.tokens.push t }

/-- The lexer after some characters. -/
def skip (l : Lexer) (n : Nat) : Lexer :=
  { l with rest := l.rest.drop n, place := l.place.advance (l.rest.take n) }

/-- The place and the text after spaces, comments and line breaks, and whether there was a line
    break. -/
def gap (comment : Bool) (p : Place) : Text → Text × Place × Bool
  | [] => ([], p, false)
  | c :: s =>
      if isBreak c then
        let (rest, p, _) := gap false (p.after c) s
        (rest, p, true)
      else if comment || c == ' ' then
        gap comment (p.after c) s
      else if c == '#' then
        gap true (p.after c) s
      else
        (c :: s, p, false)

/-- The lexer before the next token. A new line allows a key, except in a flow collection. -/
def toToken (l : Lexer) : Lexer :=
  let (rest, p, newLine) := gap false l.place l.rest
  { l with rest := rest, place := p, keyAllowed := l.keyAllowed || (newLine && !l.inFlow) }

/-- Whether a candidate is too far away to be a key. A key and its colon stand on one line. -/
def isStale (l : Lexer) (k : Candidate) : Bool :=
  k.place.line != l.place.line || 1024 < l.place.offset - k.place.offset

/-- Without the candidates that are too far away, none of which may be required. -/
def dropStale (l : Lexer) : Reads Lexer :=
  let stale := l.candidates.filter fun k => k.any l.isStale
  if stale.any fun k => k.any Candidate.required then
    .error .malformed
  else
    .ok { l with candidates := l.candidates.map fun k => k.filter fun k => !l.isStale k }

/-- Without the candidate of the innermost collection, which may not be required. -/
def dropCandidate (l : Lexer) : Reads Lexer :=
  match l.candidates with
  | some k :: outer =>
      if k.required then .error .malformed else .ok { l with candidates := none :: outer }
  | _ => .ok l

/-- With the next token as a candidate, if a key is allowed. -/
def addCandidate (l : Lexer) : Reads Lexer :=
  if l.keyAllowed then do
    let l ← l.dropCandidate
    let k := Candidate.mk l.tokens.size (!l.inFlow && l.indent == l.place.col) l.place
    return { l with candidates := some k :: l.candidates.drop 1 }
  else
    .ok l

/-- Closes the blocks that are indented further than a column. -/
def unwind (l : Lexer) (col : Int) : Lexer :=
  if l.inFlow then
    l
  else
    let closed := l.indents.takeWhile fun (i : Nat) => col < i
    { l with
      indents := l.indents.drop closed.length
      tokens := l.tokens ++ (closed.map fun _ => Token.blockEnd).toArray }

/-- Opens a block at a column, unless one is open there. The token that opens it is put before the
    tokens from a place on. -/
def openBlock (l : Lexer) (t : Token) (col index : Nat) : Lexer :=
  if !l.inFlow && l.indent < col then
    { l with indents := col :: l.indents, tokens := l.tokens.insertIdxIfInBounds index t }
  else
    l

/-! ## Tokens -/

/-- The end of the text. -/
def atEnd (l : Lexer) : Reads Lexer := do
  let l ← (l.unwind (-1)).dropCandidate
  return l.push .streamEnd

/-- A token of the block context that stands alone at the beginning of a line. -/
def lineToken (l : Lexer) (t : Token) (length : Nat) : Reads Lexer := do
  let l ← (l.unwind (-1)).dropCandidate
  return ({ l with keyAllowed := false }.skip length).push t

/-- A directive, to the end of its line. -/
def directive (l : Lexer) : Reads Lexer :=
  l.lineToken .directive (l.rest.takeWhile fun c => !isBreak c).length

/-- The opening bracket of a flow collection. -/
def openFlow (l : Lexer) (t : Token) : Reads Lexer := do
  let l ← l.addCandidate
  return ({ l with candidates := none :: l.candidates, keyAllowed := true }.skip 1).push t

/-- The closing bracket of a flow collection. -/
def closeFlow (l : Lexer) (t : Token) : Reads Lexer := do
  let l ← l.dropCandidate
  if l.inFlow then
    return ({ l with candidates := l.candidates.drop 1, keyAllowed := false }.skip 1).push t
  else
    .error .malformed

/-- A comma. -/
def comma (l : Lexer) : Reads Lexer := do
  let l ← l.dropCandidate
  return ({ l with keyAllowed := true }.skip 1).push .comma

/-- The dash of an item, which may open a sequence. -/
def item (l : Lexer) : Reads Lexer := do
  if !l.inFlow && !l.keyAllowed then throw .malformed
  let l := l.openBlock .blockSequence l.place.col l.tokens.size
  let l ← l.dropCandidate
  return ({ l with keyAllowed := true }.skip 1).push .item

/-- A question mark before a key. -/
def explicitKey (l : Lexer) : Reads Lexer := do
  if !l.inFlow && !l.keyAllowed then throw .malformed
  let l := l.openBlock .blockMapping l.place.col l.tokens.size
  let l ← l.dropCandidate
  return ({ l with keyAllowed := !l.inFlow }.skip 1).push .key

/-- The colon after a key. The candidate before it becomes the key. -/
def value (l : Lexer) : Reads Lexer := do
  match l.candidates with
  | some k :: outer =>
      let l := { l with
        candidates := none :: outer
        keyAllowed := false
        tokens := l.tokens.insertIdxIfInBounds k.index .key }
      return ((l.openBlock .blockMapping k.place.col k.index).skip 1).push .value
  | _ =>
      if !l.inFlow && !l.keyAllowed then throw .malformed
      let l := l.openBlock .blockMapping l.place.col l.tokens.size
      return ({ l with keyAllowed := !l.inFlow }.skip 1).push .value

/-- A quoted scalar. -/
def quoted (l : Lexer) (quote : Char) : Reads Lexer := do
  let l ← l.addCandidate
  let l := l.skip 1
  let r ← quotedScalar quote l.place l.rest
  return { l with rest := r.rest, place := r.place, keyAllowed := false }.push
    (.scalar false r.text)

/-- A plain scalar. -/
def plain (l : Lexer) : Reads Lexer := do
  let l ← l.addCandidate
  let (r, broken) := plainScalar l.inFlow (l.indent + 1) l.place l.rest
  return { l with rest := r.rest, place := r.place, keyAllowed := broken }.push
    (.scalar true r.text)

/-- Whether a plain scalar begins with a character before another. -/
def beginsPlain (l : Lexer) (c : Char) (next : Option Char) : Bool :=
  !(isGap (some c) || isIndicator c)
    || (!isGap next && (c == '-' || (!l.inFlow && (c == '?' || c == ':'))))

/-- The token at hand. -/
def token (l : Lexer) (c : Char) (next : Option Char) : Reads Lexer :=
  let lineStart := l.place.col == 0
  if lineStart && c == '%' then l.directive
  else if lineStart && isMarker '-' l.rest then l.lineToken .documentStart 3
  else if lineStart && isMarker '.' l.rest then l.lineToken .documentEnd 3
  else if c == '[' then l.openFlow .flowSequence
  else if c == '{' then l.openFlow .flowMapping
  else if c == ']' then l.closeFlow .flowSequenceEnd
  else if c == '}' then l.closeFlow .flowMappingEnd
  else if c == ',' then l.comma
  else if c == '-' && isGap next then l.item
  else if c == '?' && (l.inFlow || isGap next) then l.explicitKey
  else if c == ':' && (l.inFlow || isGap next) then l.value
  else if c == '\'' || c == '"' then l.quoted c
  else if l.beginsPlain c next then l.plain
  else .error .malformed

/-- The lexer after the next token. -/
def next (l : Lexer) : Reads Lexer := do
  let l ← l.toToken.dropStale
  let l := l.unwind l.place.col
  match l.rest with
  | [] => l.atEnd
  | c :: s => l.token c s.head?

/-- The tokens from a state on, given a bound on their number. -/
def all : Nat → Lexer → List Token
  | 0, l => (l.push (.refused .malformed)).tokens.toList
  | fuel + 1, l =>
      match l.next with
      | .ok l => if l.tokens.back? == some .streamEnd then l.tokens.toList else all fuel l
      | .error why => (l.push (.refused why)).tokens.toList

end Lexer

/-- The tokens of a text, of which the last is its end or says why there are no more. A byte order
    mark at the beginning does not count. -/
def tokens (s : Text) : List Token :=
  let body := if s.head? == some '\uFEFF' then s.drop 1 else s
  if s.all isPrintable then
    (Lexer.start body).all (body.length + 1)
  else
    [.refused .malformed]

end Mustache.Yaml

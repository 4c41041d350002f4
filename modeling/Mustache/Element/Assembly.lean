import Mustache.Element
import Mustache.Piece

/-!
# `Mustache.Element.Assembly` — from pieces to elements

Open and close tags are matched on a stack. The siblings collected so far belong to the innermost
open tag; a close tag turns them into the children of one element, which becomes the next sibling
one level further out.

## Contents
- **State.** `Assembly`, and how static text and elements are added to it.
- **Tags.** `Assembly.open`, `Assembly.close`, `Assembly.step`.
- **Templates.** `Element.parse` reads the elements of a text.
-/

namespace Mustache

/-! ## State -/

/-- A tag that waits for its close tag. -/
structure OpenTag where
  tag : Tag
  /-- The siblings before the tag, the last one first. -/
  siblings : List Element
  /-- The source since the open tag around it, the last character first. -/
  raw : Text

/-- The elements read so far. -/
structure Assembly where
  /-- The open tags, the innermost first. -/
  stack : List OpenTag
  /-- The siblings inside the innermost open tag, the last one first. -/
  siblings : List Element
  /-- The source since the innermost open tag, the last character first. -/
  raw : Text

namespace Assembly

/-- Nothing read. -/
def empty : Assembly := ⟨[], [], []⟩

/-- The source since the innermost open tag. -/
def rawBody (a : Assembly) : Text := a.raw.reverse

/-- More source since the innermost open tag. -/
def addSource (a : Assembly) (source : Text) : Assembly :=
  { a with raw := source.reverseAux a.raw }

/-- Static text, of which only some is kept, after the siblings. -/
def addText (a : Assembly) (lead kept : Text) : Assembly :=
  { a.addSource lead with
    siblings := if kept.isEmpty then a.siblings else Element.push (.text kept) a.siblings }

/-- An element with some source after the siblings. -/
def add (a : Assembly) (source : Text) (e : Element) : Assembly :=
  { a.addSource source with siblings := Element.push e a.siblings }

/-! ## Tags -/

/-- The element of an open tag whose children and raw body are known. Of the children of a parent
    only blocks count. -/
def enclose (t : Tag) (children : List Element) (raw : Text) : Element :=
  match t.kind with
  | .parent => .parentTag t.key (children.filter Element.isBlock) t.indent
  | .block => .blockTag t.key children t.indent
  | kind => .sectionTag t.key (kind == .invertedSection) children raw t.delimiters

/-- After an open tag. -/
def enter (a : Assembly) (t : Tag) : Assembly :=
  ⟨⟨t, a.siblings, a.raw⟩ :: a.stack, [], []⟩

/-- After a close tag, which must name the key of the innermost open tag. -/
def leave (a : Assembly) (t : Tag) : Except SyntaxError Assembly :=
  match a.stack with
  | [] => .error (t.report (.unexpectedClose t.key))
  | o :: stack =>
      if o.tag.key = t.key then
        let outer : Assembly := ⟨stack, o.siblings, o.raw⟩
        .ok (outer.add (o.tag.source ++ a.rawBody ++ t.source)
          (enclose o.tag a.siblings.reverse a.rawBody))
      else
        .error (t.report (.mismatched o.tag.key t.key))

/-- After a tag. Comments and declarations leave nothing in the tree. -/
def addTag (a : Assembly) (t : Tag) : Except SyntaxError Assembly :=
  match t.kind with
  | .escaped => .ok (a.add t.source (.interpolation t.key true))
  | .raw => .ok (a.add t.source (.interpolation t.key false))
  | .partialUse => .ok (a.add t.source (.partialTag t.key t.indent))
  | .normalSection | .invertedSection | .parent | .block => .ok (a.enter t)
  | .close => a.leave t
  | .comment | .delimiters => .ok (a.addSource t.source)

/-- After a piece. -/
def step (a : Assembly) (p : Piece) : Except SyntaxError Assembly :=
  (a.addText p.lead p.kept).addTag p.tag

/-- The elements read, at the end of the text. -/
def finish (a : Assembly) : Except SyntaxError (List Element) :=
  match a.stack with
  | [] => .ok a.siblings.reverse
  | o :: _ => .error (o.tag.report (.unclosed o.tag.kind.sigil o.tag.key))

/-- The elements of a template without margins. -/
def run (t : Trimmed) : Except SyntaxError (List Element) := do
  let a ← t.pieces.foldlM step empty
  (a.addText t.tail t.keptTail).finish

end Assembly

/-! ## Templates -/

/-- The elements of a template text, or what is wrong with it. A fault of a single tag is reported
    before any fault of the structure. -/
def Element.parse (d : Delimiters) (s : Text) : Except SyntaxError (List Element) :=
  let scan := Scan.ofText d s
  match scan.failure with
  | some e => .error e
  | none => Assembly.run (Trimmed.ofScan scan)

end Mustache

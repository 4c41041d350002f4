import Mustache.Error
import Mustache.Text.Encoding

/-!
# `Mustache.Sink` — where output goes

Output is static template text and interpolated values. It passes through layers of indentation, the
outermost first, and ends at a device. A layer puts its indentation before the first thing written
on a line; only static text ends a line, so a value with newlines in it is never indented inside.
The indentation waits for something to indent, and thus never stands at the end of what a layer
writes. A layer may also remove a margin from the static text that begins a line.

## Contents
- **Devices.** `Device`: what it takes, what it refuses, and what has been written to it.
- **Layers.** `Layer.put` turns one chunk into the chunks that the layer passes on. Each goes with
  the state in which the layer remains if that chunk is refused.
- **Sinks.** `Sink.write`: a device under any number of layers.
-/

namespace Mustache

/-! ## Devices -/

/-- What a device takes: characters, or their UTF-8 encoding. -/
inductive Medium where
  | characters
  | bytes
  deriving DecidableEq, Repr

/-- What a device is given in one write. -/
inductive Packet where
  | characters (s : Text)
  | bytes (bs : Bytes)
  deriving DecidableEq, Repr

/-- A text as it is given to a device. -/
def Medium.pack : Medium → Text → Packet
  | .characters, s => .characters s
  | .bytes, s => .bytes (Text.utf8 s)

/-- The number of characters or of bytes. -/
def Packet.size : Packet → Nat
  | .characters s => s.length
  | .bytes bs => bs.length

/-- The text of a packet. -/
def Packet.text : Packet → Text
  | .characters s => s
  | .bytes bs => (Encoding.utf8.decode? bs).getD []

/-- Whether a device can be written to, and for how long. -/
inductive Endurance where
  | endless
  /-- Every write after a number of writes is refused. -/
  | limited (writes : Nat)
  /-- The device does not know how to write. -/
  | unwritable
  deriving DecidableEq, Repr

/-- The end of a sink. -/
structure Device where
  medium : Medium
  endurance : Endurance
  /-- What has been written, the latest first. -/
  packets : List Packet
  /-- The size of what has been written. -/
  written : Nat
  /-- The number of writes that were refused. -/
  refusals : Nat
  deriving DecidableEq, Repr

namespace Device

/-- A device to which nothing has been written. -/
def new (medium : Medium) (endurance : Endurance) : Device := ⟨medium, endurance, [], 0, 0⟩

/-- A buffer in memory. -/
def buffer : Device := new .characters .endless

/-- The number of writes. -/
def writes (d : Device) : Nat := d.packets.length

/-- All that has been written. -/
def text (d : Device) : Text := d.packets.reverse.flatMap Packet.text

/-- Whether bytes have been written. -/
def hasBytes (d : Device) : Bool :=
  d.packets.any fun p => match p with
    | .bytes _ => true
    | .characters _ => false

/-- Why the next write of some text fails. Nothing is written of an empty text, so it fails only on
    a device that does not know how to write. -/
def refusal (d : Device) (s : Text) : Option Fault :=
  match d.endurance with
  | .endless => none
  | .limited k => if s.isEmpty || d.writes < k then none else some .streamFailed
  | .unwritable => some .notImplemented

/-- After a text has been written. -/
def accept (d : Device) (s : Text) : Device :=
  if s.isEmpty then
    d
  else
    let p := d.medium.pack s
    { d with packets := p :: d.packets, written := d.written + p.size }

/-- After a write has been refused. -/
def refuse (d : Device) : Device := { d with refusals := d.refusals + 1 }

end Device

/-! ## Layers -/

/-- The two kinds of output. -/
inductive ChunkKind where
  /-- Template text. -/
  | static
  /-- The text of a value. -/
  | value
  deriving DecidableEq, Repr

/-- A piece of output. -/
structure Chunk where
  kind : ChunkKind
  text : Text
  deriving DecidableEq, Repr

/-- A layer of indentation. -/
structure Layer where
  indent : Text
  /-- The margin that is removed from static text at the beginning of a line. -/
  dedent : Text
  /-- Whether nothing has been written on the current line. -/
  atLineStart : Bool
  /-- What of the margin may still be removed. -/
  pending : Text
  deriving DecidableEq, Repr

namespace Layer

/-- A layer to which nothing has been written. -/
def new (indent dedent : Text) : Layer := ⟨indent, dedent, true, dedent⟩

/-- A margin taken from the beginning of a text as far as the two agree: what is left of the margin,
    if the text ends within it, and what is left of the text. -/
def takeMargin : Text → Text → Text × Text
  | [], s => ([], s)
  | margin, [] => (margin, [])
  | m :: ms, c :: cs => if m = c then takeMargin ms cs else ([], c :: cs)

/-- The layer on a line that has begun. -/
def begun (l : Layer) : Layer := { l with atLineStart := false, pending := [] }

/-- The layer after a newline. -/
def newLine (l : Layer) : Layer := { l with atLineStart := true, pending := l.dedent }

/-- The indentation, where it is due, and then a chunk on the same line. -/
def emit (l : Layer) (c : Chunk) : List (Chunk × Layer) :=
  let waiting := { l with pending := [] }
  (if l.atLineStart && !l.indent.isEmpty then [(⟨.static, l.indent⟩, waiting)] else [])
    ++ [(c, l.begun)]

/-- One line of static text, or a part of it. -/
def putLine (l : Layer) (line : Text) : List (Chunk × Layer) × Layer :=
  let (pending, left) := takeMargin l.pending line
  if left.isEmpty then
    ([], { l with pending := pending })
  else
    (l.emit ⟨.static, left⟩, if Text.endsLine left then l.newLine else l.begun)

/-- Several lines of static text. -/
def putLines (l : Layer) : List Text → List (Chunk × Layer) × Layer
  | [] => ([], l)
  | line :: rest =>
      let (first, l) := l.putLine line
      let (others, l) := l.putLines rest
      (first ++ others, l)

/-- What a layer passes on of a chunk, each piece with the layer that remains if the piece is
    refused, and the layer that remains if none is. -/
def put (l : Layer) (c : Chunk) : List (Chunk × Layer) × Layer :=
  if c.text.isEmpty then
    ([], l)
  else
    match c.kind with
    | .value => (l.emit c, l.begun)
    | .static => l.putLines (Text.lines c.text)

end Layer

/-! ## Sinks -/

namespace Layer

/-- What a layer passes on of some chunks. A chunk comes with the states of the layers outside if it
    is refused, and goes with the state of this layer after them. -/
def pass (l : Layer) : List (Chunk × List Layer) → List (Chunk × List Layer) × Layer
  | [] => ([], l)
  | (c, outer) :: rest =>
      let (first, l) := l.put c
      let (others, l) := l.pass rest
      (first.map (fun (c, here) => (c, outer ++ [here])) ++ others, l)

/-- What several layers pass on of some chunks, the outermost layer first. -/
def passAll : List Layer → List (Chunk × List Layer) → List (Chunk × List Layer) × List Layer
  | [], chunks => (chunks, [])
  | l :: inner, chunks =>
      let (chunks, l) := l.pass chunks
      let (chunks, inner) := passAll inner chunks
      (chunks, l :: inner)

end Layer

/-- A device under layers of indentation. -/
structure Sink where
  /-- The layers, the outermost first. -/
  layers : List Layer
  device : Device
  deriving DecidableEq, Repr

namespace Sink

/-- A device without layers. -/
def bare (d : Device) : Sink := ⟨[], d⟩

/-- The sink inside a new layer. -/
def indented (s : Sink) (l : Layer) : Sink := { s with layers := l :: s.layers }

/-- The sink without its outermost layer. -/
def unindented (s : Sink) : Sink := { s with layers := s.layers.tail }

/-- Chunks written to a device one after the other, as far as it takes them, and the layers that are
    left. -/
def drain (d : Device) (layers : List Layer) : List (Chunk × List Layer) → Sink × Option Fault
  | [] => (⟨layers, d⟩, none)
  | (c, refused) :: rest =>
      match d.refusal c.text with
      | some fault => (⟨refused, d.refuse⟩, some fault)
      | none => drain (d.accept c.text) layers rest

/-- The sink after a chunk, and why the chunk was not written in full. -/
def write (s : Sink) (c : Chunk) : Sink × Option Fault :=
  let (chunks, layers) := Layer.passAll s.layers [(c, [])]
  drain s.device layers chunks

end Sink

end Mustache

import Mustache.Yaml.Node
import Mustache.Yaml.Reader

/-!
# `Mustache.Yaml.Document` — reading YAML

A text is read as tokens, the tokens as the nodes of one document, and these as a value. A text with
anything wrong in it is not read at all. Anchors, tags and block scalars count as wrong, so no parts
of a document are shared.

Every function returns what it read and the rest of the tokens.

## Contents
- **Nodes.** `node` and the collections: `items`, `entries`, `flowItems`, `flowEntries`.
- **Documents.** `read`, and `plainReader`, the reader that it makes.
-/

namespace Mustache.Yaml

/-- The nodes that may stand at a place. -/
inductive Position where
  /-- Flow collections and scalars. -/
  | flow
  /-- Block collections too. -/
  | block
  /-- Also a sequence that is not indented further than its key. -/
  | entry
  deriving DecidableEq, Repr

namespace Token

/-- Tokens before which a part of a block mapping is empty. -/
def endsEntry : Token → Bool
  | .key | .value | .blockEnd => true
  | _ => false

/-- Tokens before which an item of a block sequence is empty. -/
def endsItem : Token → Bool
  | .item | .blockEnd => true
  | _ => false

/-- Tokens before which an item of a sequence that is not indented is empty. -/
def endsPlainItem : Token → Bool
  | .item | .key | .value | .blockEnd => true
  | _ => false

/-- Tokens before which a name in a flow collection is empty. -/
def endsFlowName (close : Token) (t : Token) : Bool := t == .value || t == .comma || t == close

/-- Tokens before which a value in a flow collection is empty. -/
def endsFlowValue (close : Token) (t : Token) : Bool := t == .comma || t == close

/-- Tokens before which a document is empty. -/
def endsDocument : Token → Bool
  | .directive | .documentStart | .documentEnd | .streamEnd => true
  | _ => false

end Token

/-! ## Nodes -/

/-- Why tokens cannot be read on. A refused token knows the reason. -/
def unexpected {α : Type} : List Token → Reads α
  | .refused why :: _ => .error why
  | _ => .error .malformed

/-- After a token that must come next. -/
def expect (t : Token) : List Token → Reads (List Token)
  | [] => .error .malformed
  | u :: rest => if u = t then .ok rest else unexpected (u :: rest)

mutual

/-- A node, given a bound on the number of steps. -/
def node : Nat → Position → List Token → Reads (Node × List Token)
  | 0, _, ts => unexpected ts
  | fuel + 1, position, ts =>
      match ts with
      | .scalar plain s :: rest => .ok (.scalar plain s, rest)
      | .flowSequence :: rest =>
          (flowItems fuel true rest).map fun (ns, rest) => (.sequence ns, rest)
      | .flowMapping :: rest =>
          (flowEntries fuel true rest).map fun (es, rest) => (.mapping es, rest)
      | .item :: _ =>
          if position = .entry then
            (plainItems fuel ts).map fun (ns, rest) => (.sequence ns, rest)
          else
            .error .malformed
      | .blockSequence :: rest =>
          if position = .flow then .error .malformed
          else (items fuel rest).map fun (ns, rest) => (.sequence ns, rest)
      | .blockMapping :: rest =>
          if position = .flow then .error .malformed
          else (entries fuel rest).map fun (es, rest) => (.mapping es, rest)
      | ts => unexpected ts

/-- A node, or the empty one where there is none. -/
def optional : Nat → Position → (Token → Bool) → List Token → Reads (Node × List Token)
  | 0, _, _, ts => unexpected ts
  | fuel + 1, position, ends, ts =>
      match ts with
      | [] => .error .malformed
      | t :: rest => if ends t then .ok (.empty, t :: rest) else node fuel position (t :: rest)

/-- The items of a block sequence. -/
def items : Nat → List Token → Reads (List Node × List Token)
  | 0, ts => unexpected ts
  | fuel + 1, ts =>
      match ts with
      | .item :: rest => do
          let (n, rest) ← optional fuel .block Token.endsItem rest
          let (ns, rest) ← items fuel rest
          return (n :: ns, rest)
      | .blockEnd :: rest => .ok ([], rest)
      | ts => unexpected ts

/-- The items of a sequence that is not indented further than its key. -/
def plainItems : Nat → List Token → Reads (List Node × List Token)
  | 0, ts => unexpected ts
  | fuel + 1, ts =>
      match ts with
      | .item :: rest => do
          let (n, rest) ← optional fuel .block Token.endsPlainItem rest
          let (ns, rest) ← plainItems fuel rest
          return (n :: ns, rest)
      | ts => .ok ([], ts)

/-- The entries of a block mapping. -/
def entries : Nat → List Token → Reads (List (Node × Node) × List Token)
  | 0, ts => unexpected ts
  | fuel + 1, ts =>
      match ts with
      | .blockEnd :: rest => .ok ([], rest)
      | .key :: rest => do
          let (key, rest) ← optional fuel .entry Token.endsEntry rest
          let (n, rest) ← entryValue fuel rest
          let (es, rest) ← entries fuel rest
          return ((key, n) :: es, rest)
      | ts => unexpected ts

/-- The value of an entry of a block mapping. -/
def entryValue : Nat → List Token → Reads (Node × List Token)
  | 0, ts => unexpected ts
  | fuel + 1, ts =>
      match ts with
      | .value :: rest => optional fuel .entry Token.endsEntry rest
      | ts => .ok (.empty, ts)

/-- The items of a flow sequence. A key among them makes an item of one entry. -/
def flowItems : Nat → Bool → List Token → Reads (List Node × List Token)
  | 0, _, ts => unexpected ts
  | fuel + 1, first, ts =>
      match ts with
      | .flowSequenceEnd :: rest => .ok ([], rest)
      | ts => do
          let ts ← if first then .ok ts else expect .comma ts
          match ts with
          | .flowSequenceEnd :: rest => return ([], rest)
          | .key :: rest =>
              let (e, rest) ← flowEntry fuel .flowSequenceEnd rest
              let (ns, rest) ← flowItems fuel false rest
              return (.mapping [e] :: ns, rest)
          | ts =>
              let (n, rest) ← node fuel .flow ts
              let (ns, rest) ← flowItems fuel false rest
              return (n :: ns, rest)

/-- The entries of a flow mapping. A node without a key token is a key without a value. -/
def flowEntries : Nat → Bool → List Token → Reads (List (Node × Node) × List Token)
  | 0, _, ts => unexpected ts
  | fuel + 1, first, ts =>
      match ts with
      | .flowMappingEnd :: rest => .ok ([], rest)
      | ts => do
          let ts ← if first then .ok ts else expect .comma ts
          match ts with
          | .flowMappingEnd :: rest => return ([], rest)
          | .key :: rest =>
              let (e, rest) ← flowEntry fuel .flowMappingEnd rest
              let (es, rest) ← flowEntries fuel false rest
              return (e :: es, rest)
          | ts =>
              let (key, rest) ← node fuel .flow ts
              let (es, rest) ← flowEntries fuel false rest
              return ((key, .empty) :: es, rest)

/-- An entry in a flow collection after its key token. -/
def flowEntry : Nat → Token → List Token → Reads ((Node × Node) × List Token)
  | 0, _, ts => unexpected ts
  | fuel + 1, close, ts => do
      let (key, rest) ← optional fuel .flow (Token.endsFlowName close) ts
      let (n, rest) ←
        match rest with
        | .value :: rest => optional fuel .flow (Token.endsFlowValue close) rest
        | rest => .ok (.empty, rest)
      return ((key, n), rest)

end

/-! ## Documents -/

/-- Without the tokens of a kind at the beginning. -/
def dropAll (t : Token) (ts : List Token) : List Token := ts.dropWhile (· == t)

/-- A number of steps that suffices: at most three for each token. -/
def stepBound (ts : List Token) : Nat := 3 * ts.length + 3

/-- The node of a document, after which only the end of the document and of the text may follow. -/
def document (ts : List Token) : Reads Node := do
  let (n, rest) ← optional (stepBound ts) .block Token.endsDocument ts
  let _ ← expect .streamEnd (dropAll .documentEnd rest)
  return n

/-- The document of some tokens. Directives need a marker after them. -/
def ofTokens (ts : List Token) : Reads Node :=
  match ts with
  | [.streamEnd] => .ok .empty
  | .directive :: _ => do document (← expect .documentStart (dropAll .directive ts))
  | .documentStart :: rest => document rest
  | .documentEnd :: _ => .error .malformed
  | ts => document ts

/-- The value that a text writes. A text without a document writes null. -/
def read (s : Text) : Reads Value := do (← ofTokens (tokens s)).read

/-- Why there is no document, as a reader reports it. -/
def Refusal.failure : Refusal → Failure
  | .malformed => .malformed none
  | .badValue => .unreadable .badValue
  | .outOfRange => .unreadable .outOfRange

/-- The reader of plain documents. -/
instance plainReader : Reader where
  read s :=
    match read s with
    | .ok v => .ok (.ofValue v)
    | .error why => .error why.failure

end Mustache.Yaml

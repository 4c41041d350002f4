import Mustache.Position
import Mustache.Text.Quoted
import Mustache.Text.Space

/-!
# `Mustache.SyntaxError` — what can be wrong with a template

A fault is a cause with the texts that explain it. A syntax error is what is reported of a fault:
its kind, the position of the tag at fault and a sentence of detail. The first fault ends the
reading of a template.
-/

namespace Mustache

/-- The kinds of syntax error. -/
inductive SyntaxErrorKind where
  | unterminatedTag
  | invalidDelimiterDeclaration
  | emptyOrInvalidKey
  | mismatchedTag
  | unclosedTag
  | unexpectedCloseTag
  deriving DecidableEq, Repr

namespace SyntaxErrorKind

/-- The name under which a kind is reported. -/
def name : SyntaxErrorKind → Text
  | .unterminatedTag => "UnterminatedTag".toList
  | .invalidDelimiterDeclaration => "InvalidDelimiterDeclaration".toList
  | .emptyOrInvalidKey => "EmptyOrInvalidKey".toList
  | .mismatchedTag => "MismatchedTag".toList
  | .unclosedTag => "UnclosedTag".toList
  | .unexpectedCloseTag => "UnexpectedCloseTag".toList

/-- Every kind. -/
def all : List SyntaxErrorKind :=
  [.unterminatedTag, .invalidDelimiterDeclaration, .emptyOrInvalidKey, .mismatchedTag, .unclosedTag,
   .unexpectedCloseTag]

/-- The kind of a name. -/
def ofName? (s : Text) : Option SyntaxErrorKind := all.find? fun k => k.name = s

end SyntaxErrorKind

/-- A syntax error as it is reported. Rows and columns count from one. -/
structure SyntaxError where
  kind : SyntaxErrorKind
  row : Nat
  col : Nat
  detail : Option Text
  deriving DecidableEq, Repr

/-- The cause of a syntax error. -/
inductive SyntaxFault where
  /-- The text that would end the tag does not occur. -/
  | unterminated (closing opening : Text)
  /-- A tag that needs a key holds only white space. -/
  | emptyKey
  /-- The key has white space inside. The whole content of the tag is reported. -/
  | invalidKey (content : Text)
  /-- A declaration of delimiters does not hold two words without an equals sign. -/
  | invalidDeclaration (content : Text)
  /-- A close tag names another key than the innermost open tag. -/
  | mismatched (expected found : Text)
  /-- The text ends while a tag is open. -/
  | unclosed (sigil : Char) (key : Text)
  /-- A close tag stands where nothing is open. -/
  | unexpectedClose (key : Text)
  deriving DecidableEq, Repr

namespace SyntaxFault

/-- The kind under which a fault is reported. -/
def kind : SyntaxFault → SyntaxErrorKind
  | .unterminated .. => .unterminatedTag
  | .emptyKey => .emptyOrInvalidKey
  | .invalidKey _ => .emptyOrInvalidKey
  | .invalidDeclaration _ => .invalidDelimiterDeclaration
  | .mismatched .. => .mismatchedTag
  | .unclosed .. => .unclosedTag
  | .unexpectedClose _ => .unexpectedCloseTag

/-- The sentence that explains a fault. -/
def detail : SyntaxFault → Text
  | .unterminated closing opening =>
      "missing '".toList ++ closing ++ "' for tag opened with '".toList ++ opening ++ ['\'']
  | .emptyKey => "empty key".toList
  | .invalidKey content => "invalid key ".toList ++ Text.quoted content
  | .invalidDeclaration content =>
      "expected two whitespace-separated delimiters, got ".toList
        ++ Text.quoted (Text.strip content)
  | .mismatched expected found =>
      "expected '/".toList ++ expected ++ "', found '/".toList ++ found ++ ['\'']
  | .unclosed sigil key => '\'' :: sigil :: key ++ "' is never closed".toList
  | .unexpectedClose key => "'/".toList ++ key ++ "' has no matching open tag".toList

/-- The report of a fault at a row and a column. -/
def report (f : SyntaxFault) (row col : Nat) : SyntaxError where
  kind := f.kind
  row := row
  col := col
  detail := some f.detail

end SyntaxFault

end Mustache

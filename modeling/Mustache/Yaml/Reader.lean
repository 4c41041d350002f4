import Mustache.Error
import Mustache.Value.Graph

/-!
# `Mustache.Yaml.Reader` — readers of YAML

How the text of a file is read is not decided here: whoever loads files is given a reader. It gives
the document of a text, in which aliases stand for the parts that they name, or says why there is
none.
-/

namespace Mustache.Yaml

/-- Why a reader gives no document. -/
inductive Failure where
  /-- The text is no YAML. The reader may say what is wrong and where. -/
  | malformed (problem : Option Text)
  /-- The text has a value in it that cannot be made. -/
  | unreadable (fault : Fault)

/-- A reader of YAML. A text without a document gives null. -/
class Reader where
  read : Text → Except Failure Graph

end Mustache.Yaml

import Mustache.Config.Graph
import Mustache.Config.Settings
import Mustache.Files
import Mustache.Yaml.Reader

/-!
# `Mustache.Config.Load` — putting a configuration together

A configuration is made of three layers: the defaults, a file, and the environment, each over the
one before. The file is given by the caller or named by an environment variable; there need not be
one.

## Contents
- **Surroundings.** `Surroundings`: the files and the environment.
- **The file.** `Given`, and `Surroundings.configFile?`, the file that is read.
- **Layers.** `Config.ofFile`, `Config.assemble`.
- **Loading.** `Config.load` reports what it loaded and checks it if that is asked.
-/

namespace Mustache

/-! ## Surroundings -/

/-- What a configuration is read from. -/
structure Surroundings where
  files : Files
  /-- The environment variables. -/
  environment : Table Text Text

namespace Surroundings

/-- The home directory of a user. That of the user at work can be set by a variable. -/
def homeOf (w : Surroundings) (user : Text) : Path :=
  match user, w.environment.get? "HOME".toList with
  | [], some [] => ⟨[Path.rootPart]⟩
  | [], some directory => .ofText directory
  | user, _ => w.files.home user

/-- The path with a home directory in place of a tilde at its beginning. -/
def expanded (w : Surroundings) (p : Path) : Path :=
  match p.parts with
  | ('~' :: user) :: rest => (w.homeOf user).below rest
  | _ => p

/-- Where a path leads that may begin with a tilde. -/
def resolve (w : Surroundings) (p : Path) : Path := w.files.locate (w.expanded p)

/-- The configuration file that the environment names. -/
def namedFile? (w : Surroundings) : Option Path :=
  match w.environment.get? Config.fileVariable with
  | some (c :: cs) => some (.ofText (c :: cs))
  | _ => none

end Surroundings

/-! ## The file -/

/-- What a caller says about the configuration file. -/
inductive Given where
  /-- Nothing: the environment may name one. -/
  | unset
  /-- An empty text: there is none, whatever the environment says. -/
  | blank
  | path (p : Path)
  deriving DecidableEq

namespace Given

/-- A path, or nothing. -/
def ofPath? : Option Path → Given
  | none => unset
  | some p => path p

instance : Coe (Option Path) Given := ⟨ofPath?⟩

instance {α : Type} : CoeDep (Option α) none Given := ⟨unset⟩

/-- The path, if there is one. -/
def path? : Given → Option Path
  | path p => some p
  | unset | blank => none

end Given

/-- The configuration file: the one that is given, or else, if nothing is said, the one that the
    environment names. -/
def Surroundings.configFile? (w : Surroundings) : Given → Option Path
  | .path p => some p
  | .blank => none
  | .unset => w.namedFile?

namespace Config

/-! ## Layers -/

/-- How a report names the default configuration. -/
def defaultsName : Text := "<defaults>".toList

/-- How a report names a configuration file, if there is one. -/
def sourceName (file : Option Path) : Text :=
  match file with
  | some p => p.toText
  | none => defaultsName

/-- Why a file whose text is refused holds no configuration. -/
def refusal (p : Path) : Yaml.Failure → Fault
  | .malformed problem => .configuration (.malformedYaml p.toText problem)
  | .unreadable fault => fault

/-- The type of what a document shows. -/
def typeOf (document : Graph) : Text := (document.store.value 1 document.root).typeName

section Reading

variable [Yaml.Reader]

/-- The document of a file, which must be a dictionary. An empty file holds an empty one. -/
def ofFile (fs : Files) (p : Path) : Except Fault Graph :=
  match fs.file? p with
  | none => .error (.configuration (.fileNotFound p.toText))
  | some f =>
      match Encoding.utf8.readText? f.bytes with
      | none => .error .undecodable
      | some s =>
          match Yaml.Reader.read s with
          | .error why => .error (refusal p why)
          | .ok ⟨_, .leaf .null, _, _⟩ => .ok (.ofValue (.map .dict []))
          | .ok document =>
              match document.store.dict? document.root with
              | some _ => .ok document
              | none => .error (.configuration (.notAMapping p.toText (typeOf document)))

/-- The defaults alone. -/
def ofDefaults : Config := ofMap .dict defaults

/-- A document over the defaults. -/
def ofDocument (document : Graph) : Config :=
  match document.store.overlay (.map .dict defaults) document.root with
  | (st, .held place) => ⟨st, place⟩
  | (_, .leaf _) => ofDefaults

/-- The configuration of a file over the defaults, or the defaults alone. -/
def withFile (fs : Files) (file : Option Path) : Except Fault Config :=
  match file with
  | none => .ok ofDefaults
  | some p => (ofFile fs p).map ofDocument

/-- A configuration and what it was made of. -/
structure Assembled where
  config : Config
  sources : List Text

/-- How a report names a number of overrides. -/
def overridesName (count : Nat) : Text :=
  Text.ofNat count ++ ' ' :: variableStem ++ "* override(s)".toList

/-- The sources of a configuration as a report names them. -/
def sourceNames (file : Option Path) (count : Nat) : List Text :=
  defaultsName :: (file.map Path.toText).toList
    ++ if count = 0 then [] else [overridesName count]

/-- All layers of a configuration. A malformed name of a variable is an error if names are
    checked. -/
def assemble [ReadingLimits] (w : Surroundings) (file : Option Path) (strict : Bool) :
    Except Fault Assembled := do
  let config ← withFile w.files file
  let changes ← (overrides strict w.environment).complete
  return ⟨applied config changes, sourceNames file changes.length⟩

/-! ## Loading -/

/-- A configuration must fit the schema. -/
def checked [Schema.Validator] (file : Option Path) (config : Config) : Except Fault Unit :=
  match check (sourceName file) config.toValue with
  | .ok () => .ok ()
  | .error fault => .error (.configuration fault)

/-- The configuration of a file that is given or named by the environment. It is checked, and the
    names of variables with it, if that is asked. -/
def load [ReadingLimits] [Schema.Validator] (w : Surroundings) (given : Given) (validate : Bool) :
    HostM Config := do
  let file := w.configFile? given
  match assemble w file validate with
  | .error fault => throw fault
  | .ok a => do
      HostM.report (.configurationLoaded a.sources)
      match if validate then checked file a.config else .ok () with
      | .error fault => throw fault
      | .ok () => return a.config

end Reading

end Config

end Mustache

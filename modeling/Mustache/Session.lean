import Mustache.Config.Load
import Mustache.Config.Validation
import Mustache.Template.File
import Mustache.Yaml.Document

/-!
# `Mustache.Session` — rendering with settings from the configuration

A session lasts while files and environment change around it. It keeps the configurations that it
loaded, each under a key that says which file was asked for, in what state that file was, and what
the environment said. A configuration is loaded anew when its key changes. If no file is asked for,
the key says nothing of the one that the environment names.

## Contents
- **Sessions.** `Session`, `SessionM`.
- **Keys.** `CacheKey.of`.
- **Configurations.** `cachedConfig`, `loadConfig`, `freshConfig`, `setting`, `clearCaches`.
- **Settings in use.** `renderConfig` and `parseConfig` keep the configuration used last.
- **Rendering.** `renderer`, `render`, `renderTo`, `renderText`.
-/

namespace Mustache

/-! ## Keys -/

/-- What a cached configuration depends on. -/
structure CacheKey where
  file : Option Path
  /-- The state of the file. -/
  stamp : Option Stamp
  /-- The environment variables of the engine, in the order of their names. -/
  environment : List (Text × Text)
  deriving DecidableEq, Repr

/-- The environment variables of the engine, in the order of their names. -/
def Surroundings.engineVariables (w : Surroundings) : List (Text × Text) :=
  let own := w.environment.filter fun e => variableStem.isPrefixOf e.1
  own.mergeSort fun a b => Text.precedes a.1 b.1

/-- The key of the configuration of a file. -/
def CacheKey.of (w : Surroundings) (file : Option Path) : CacheKey where
  file := file.map w.resolve
  stamp := file.map fun p => w.files.stamp (w.resolve p)
  environment := w.engineVariables

/-! ## Sessions -/

/-- What a session knows. -/
structure Session where
  surroundings : Surroundings
  configs : List (CacheKey × Config)
  /-- The configuration that was used last for rendering. -/
  forRendering : Option (CacheKey × Config)
  /-- The configuration that was used last for parsing. -/
  forParsing : Option (CacheKey × Config)
  host : Host

/-- A step of a session. -/
abbrev SessionM := ExceptT Fault (StateM Session)

namespace SessionM

/-- A use of the host. -/
def host {α : Type} (x : HostM α) : SessionM α :=
  ExceptT.mk fun s =>
    let (result, h) := x.run s.host
    (result, { s with host := h })

/-- Something that can fail. -/
def lift {α : Type} : Except Fault α → SessionM α
  | .ok a => return a
  | .error fault => throw fault

end SessionM

namespace Session

/-- A session that has loaded nothing. -/
def fresh (w : Surroundings) : Session := ⟨w, [], none, none, .fresh⟩

section

variable [ReadingLimits] [Yaml.Reader] [Schema.Validator]

/-! ## Configurations -/

/-- The configuration that is kept under a key. -/
def kept? (s : Session) (key : CacheKey) : Option Config :=
  (s.configs.find? fun e => e.1 == key).map Prod.snd

/-- The configuration of a file, as it is kept or else newly loaded. If no file is given, a load
    looks for the one that the environment names. A new configuration is checked if that is asked,
    and kept if nothing is wrong with it. -/
def cachedConfig (given : Given) (validate : Bool) : SessionM Config := do
  let s ← get
  let file := given.path?
  let key := CacheKey.of s.surroundings file
  match s.kept? key with
  | some config => return config
  | none => do
      let config ← SessionM.host
        (Config.load s.surroundings (.ofPath? (file.map s.surroundings.resolve)) validate)
      modify fun s => { s with configs := (key, config) :: s.configs }
      return config

/-- The configuration of a file that is given or named by the environment. Names of variables and
    the configuration are checked if that is asked. -/
def loadConfig (given : Given) (validate : Bool) : SessionM Config := do
  let w := (← get).surroundings
  let file := w.configFile? given
  let config ← cachedConfig (.ofPath? file) false
  if validate then
    let _ ← SessionM.lift (Config.overrides true w.environment).complete
    SessionM.lift (Config.checked file config)
  return config

/-- A configuration that is loaded whatever is kept, and not kept. -/
def freshConfig (given : Given) (validate : Bool) : SessionM Config := do
  SessionM.host (Config.load (← get).surroundings given validate)

/-- What stands under a dotted key of a configuration. -/
def setting (given : Given) (key : Text) : SessionM (Option Value) := do
  return Config.dotted? (← loadConfig given false) key

/-- Whether the configuration of a file is kept. -/
def isCached (s : Session) (given : Given) : Bool :=
  (s.kept? (CacheKey.of s.surroundings given.path?)).isSome

/-- A session that has forgotten all configurations. -/
def clearCaches (s : Session) : Session :=
  { s with configs := [], forRendering := none, forParsing := none }

/-! ## Settings in use -/

/-- The key of the configuration that the environment names. -/
def currentKey (s : Session) : CacheKey := CacheKey.of s.surroundings s.surroundings.namedFile?

/-- A configuration under its key, if that is the key asked for. -/
def underKey (key : CacheKey) (slot : Option (CacheKey × Config)) : Option Config :=
  slot.bind fun e => if e.1 = key then some e.2 else none

/-- The configuration for rendering. -/
def renderConfig : SessionM Config := do
  let s ← get
  let key := s.currentKey
  match underKey key s.forRendering with
  | some config => return config
  | none => do
      let config ← loadConfig .unset true
      modify fun s => { s with forRendering := some (key, config) }
      return config

/-- The configuration for parsing. -/
def parseConfig : SessionM Config := do
  let s ← get
  let key := s.currentKey
  match underKey key s.forParsing with
  | some config => return config
  | none => do
      let config ← loadConfig .unset true
      modify fun s => { s with forParsing := some (key, config) }
      return config

/-! ## Rendering -/

/-- What a caller decides about a render. Whatever is left open comes from the configuration. -/
structure Choices where
  partials : Option (Table Text PartialSource)
  escape : EscapePolicy
  delimiters : Option Delimiters

/-- The delimiters with which templates begin. -/
def chosenDelimiters (c : Choices) : SessionM Delimiters :=
  match c.delimiters with
  | some d => return d
  | none => do
      let options ← SessionM.lift (ParseSettings.options (← parseConfig).toValue)
      return options.1

/-- A renderer with the settings of a configuration. -/
def rendererOf (partials : Partials) (escape : EscapePolicy) (config : Value) :
    Except Fault Renderer := do
  let policy ← match escape with
    | .unset => do pure (.named (← RenderSettings.escape config))
    | p => pure p
  let maxDepth ← RenderSettings.maxDepth config
  Renderer.ofPolicy partials .standard policy maxDepth

/-- A renderer with a caller's choices. -/
def renderer (c : Choices) : SessionM Renderer := do
  let config ← renderConfig
  let d ← chosenDelimiters c
  let partials ← SessionM.host (Partials.ofSources? d c.partials)
  SessionM.lift (rendererOf partials c.escape config.toValue)

/-- The output of a template. -/
def render (c : Choices) (t : Template) (stack : Stack) : SessionM Text := do
  let r ← renderer c
  SessionM.host (r.render t stack)

/-- The render of a template to a device: its outcome, and the device after it. Nothing is written
    if there is no renderer. -/
def renderTo (c : Choices) (d : Device) (t : Template) (stack : Stack) :
    StateM Session (Except Fault Unit × Device) := do
  match ← (renderer c).run with
  | .error fault => return (.error fault, d)
  | .ok r => fun s =>
      let (result, h) := r.renderTo d t stack s.host
      (result, { s with host := h })

/-- The output of the template that a text writes. -/
def renderText (c : Choices) (text : Text) (stack : Stack) : SessionM Text := do
  let d ← chosenDelimiters c
  let t ← SessionM.host (Template.ofText d none text)
  render { c with delimiters := some d } t stack

end

end Session

end Mustache

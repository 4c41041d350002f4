import Mustache.Proofs.CheckedLoads

/-!
# `Mustache.Proofs.Provenance` — where kept configurations come from

Whoever asks a session for the configuration of a file is given what is kept under its key. Whatever happens in the
session, and whatever becomes of the files and the variables around it, what is kept under a key is what a load came to
at a moment at which the key was the same. A key says all that a load depends on if a file is given: where the file
is, its state and the variables. It also does if no file is given and none is named by the environment. If none is given
and the environment names one, the load reads that file, of which the key says nothing but the name; so what is kept
may be what the file said once.

* `Session.reloaded` — what a load without a cache comes to, and `Session.freshConfig_run`;
* `Session.reloaded_congr` — **under equal keys that know the file that is read, such loads come to the same**;
* `Session.Traced` — whatever is kept is what a load came to at some moment, and `Session.Keeps` — steps of a session
  keep that so;
* `Turn.traced_after`, `Turn.traced_afterAll` — one turn of a session, and any number of turns;
* `cachedConfig_current` — **a configuration that is asked for by its file is never stale**.
-/

namespace Mustache

namespace Session

section Traces

variable [ReadingLimits] [Yaml.Reader]

/-! ## Loads without a cache -/

/-- What a load of a file comes to when nothing is kept. With no file it is the one that the environment names, if there
    is one. -/
def reloaded (w : Surroundings) (file : Option Path) : Except Fault Config :=
  (Config.assemble w (w.configFile? (.ofPath? (file.map w.resolve))) false).map Config.Assembled.config

theorem freshConfig_run [Schema.Validator] (s : Session) (file : Option Path) :
    ((freshConfig (.ofPath? (file.map s.surroundings.resolve)) false).run s).1 = reloaded s.surroundings file := by
  obtain ⟨h', -, hrun⟩ := Config.load_run s.surroundings (.ofPath? (file.map s.surroundings.resolve)) s.host
  show ((Config.load s.surroundings (.ofPath? (file.map s.surroundings.resolve)) false).run s.host).1 = _
  rw [hrun]
  rfl

/-- A load with checks gives nothing that a load without checks would not give. -/
theorem reloaded_of_load [Schema.Validator] {w : Surroundings} {file : Option Path} {validate : Bool} {h : Host}
    {config : Config} (hload : ((Config.load w (.ofPath? (file.map w.resolve)) validate).run h).1 = .ok config) :
    reloaded w file = .ok config := by
  cases validate with
  | false =>
      obtain ⟨h', -, hrun⟩ := Config.load_run w (.ofPath? (file.map w.resolve)) h
      rw [hrun] at hload
      exact hload
  | true =>
      rw [Config.load_checked_run] at hload
      unfold reloaded Config.assemble
      cases hbelow : Config.withFile w.files (w.configFile? (.ofPath? (file.map w.resolve))) with
      | error fault =>
          rw [hbelow] at hload
          cases hload
      | ok below =>
          rw [hbelow] at hload
          rcases Config.overrides_cases w.environment with heq | ⟨name, hname⟩
          · rw [heq] at hload
            cases hchanges : (Config.overrides false w.environment).complete with
            | error fault =>
                rw [hchanges] at hload
                cases hload
            | ok changes =>
                rw [hchanges] at hload
                exact congrArg Except.ok (Config.eq_of_checkedWith hload)
          · rw [Config.Overrides.complete_of_fault hname] at hload
            cases hload

section Keys

variable {W : List Surroundings} {w w' : Surroundings} {file file' : Option Path}

theorem reloaded_of_settled (h : w.Settled file) : reloaded w file = assembled w file := by
  unfold reloaded assembled
  rw [h.configFile?]

/-- **Under equal keys, loads of files that the keys know come to the same.** -/
theorem reloaded_congr (hW : Surroundings.Telling W) (hw : w ∈ W) (hw' : w' ∈ W) (h : w.Settled file)
    (hkey : CacheKey.of w file = CacheKey.of w' file') : reloaded w file = reloaded w' file' := by
  rw [reloaded_of_settled h, reloaded_of_settled (settled_congr hkey h)]
  exact assembled_congr hW hw hw' hkey

end Keys

/-! ## What is kept -/

/-- Every configuration that is kept is what a load under its key came to in some surroundings. -/
def Traced (W : List Surroundings) (s : Session) : Prop :=
  ∀ e ∈ s.configs, ∃ v ∈ W, ∃ file, CacheKey.of v file = e.1 ∧ reloaded v file = .ok e.2

section Asking

variable {W : List Surroundings} {s : Session} {config : Config}

/-- What is kept was found under its key. -/
theorem Traced.of_kept (hs : Traced W s) {key : CacheKey} (h : s.kept? key = some config) :
    ∃ v ∈ W, ∃ file, CacheKey.of v file = key ∧ reloaded v file = .ok config := by
  obtain ⟨e, hfind, rfl⟩ := Option.map_eq_some_iff.mp h
  have hkey : e.1 = key := eq_of_beq (List.find?_some (p := fun e : CacheKey × Config => e.1 == key) hfind)
  rw [← hkey]
  exact hs e (List.mem_of_find?_eq_some hfind)

/-- **What is given** to whoever asks is what a load came to at some moment at which the key was the same. -/
theorem Traced.cachedConfig [Schema.Validator] (hs : Traced W s) (hhere : s.surroundings ∈ W) (given : Given) :
    ∃ v ∈ W, ∃ file, CacheKey.of v file = CacheKey.of s.surroundings given.path? ∧
      ((Session.cachedConfig given false).run s).1 = reloaded v file := by
  rw [cachedConfig_run]
  cases hkept : s.kept? (CacheKey.of s.surroundings given.path?) with
  | some config =>
      obtain ⟨v, hv, file, hkey, hload⟩ := hs.of_kept hkept
      exact ⟨v, hv, file, hkey, hload.symm⟩
  | none =>
      refine ⟨s.surroundings, hhere, given.path?, rfl, ?_⟩
      rw [← freshConfig_run]
      show _ = ((Config.load s.surroundings (.ofPath? (given.path?.map s.surroundings.resolve)) false).run s.host).1
      generalize (Config.load s.surroundings (.ofPath? (given.path?.map s.surroundings.resolve)) false).run s.host = r
      rcases r with ⟨fault | config, h'⟩ <;> rfl

end Asking

/-! ## Steps of a session -/

/-- A session in some surroundings in which whatever is kept can be traced. -/
structure Kept (W : List Surroundings) (s : Session) : Prop where
  here : s.surroundings ∈ W
  traced : Traced W s

/-- A step that leaves everything traced. -/
def Keeps {α : Type} (W : List Surroundings) (x : SessionM α) : Prop := ∀ s, Kept W s → Kept W (x.run s).2

section Steps

variable {W : List Surroundings} {α β : Type}

namespace Keeps

theorem pure (v : α) : Keeps W (pure v) := fun _ hs => hs

theorem lift (o : Except Fault α) : Keeps W (SessionM.lift o) := by
  cases o with
  | error fault => exact fun _ hs => hs
  | ok v => exact .pure v

theorem host (x : HostM α) : Keeps W (SessionM.host x) := fun _ hs => ⟨hs.here, hs.traced⟩

theorem get {k : Session → SessionM α} (h : ∀ s, Keeps W (k s)) : Keeps W (get >>= k) := fun s hs => h s s hs

theorem modify {f : Session → Session} (h : ∀ s, Kept W s → Kept W (f s)) :
    Keeps W (modify f : SessionM PUnit) := h

theorem bind {x : SessionM α} {k : α → SessionM β} (hx : Keeps W x) (hk : ∀ v, Keeps W (k v)) :
    Keeps W (x >>= k) := by
  intro s hs
  have hx := hx s hs
  rw [Fault.run_bind]
  rcases hrun : x.run s with ⟨fault | v, t⟩
  · rw [hrun] at hx
    exact hx
  · rw [hrun] at hx
    exact hk v t hx

end Keeps

variable [Schema.Validator]

/-- **What is loaded can be traced** to the surroundings in which it is. -/
theorem cachedConfig_keeps (given : Given) (validate : Bool) : Keeps W (cachedConfig given validate) := by
  intro s hs
  rw [cachedConfig_run]
  cases s.kept? (CacheKey.of s.surroundings given.path?) with
  | some config => exact hs
  | none =>
      dsimp only
      rcases hload : (Config.load s.surroundings (.ofPath? (given.path?.map s.surroundings.resolve)) validate).run
        s.host with ⟨fault | config, h'⟩
      · exact ⟨hs.here, hs.traced⟩
      · have hreloaded : reloaded s.surroundings given.path? = .ok config := reloaded_of_load (congrArg Prod.fst hload)
        refine ⟨hs.here, ?_⟩
        intro e he
        rcases List.mem_cons.mp he with rfl | he
        · exact ⟨s.surroundings, hs.here, given.path?, rfl, hreloaded⟩
        · exact hs.traced e he

theorem loadConfig_keeps (given : Given) (validate : Bool) : Keeps W (loadConfig given validate) := by
  apply Keeps.get
  intro s
  apply (cachedConfig_keeps _ _).bind
  intro config
  cases validate with
  | false => exact .pure config
  | true => exact (Keeps.lift _).bind fun _ => (Keeps.lift _).bind fun _ => .pure config

/-- To put the settings that were found in use is to keep no further configuration. -/
theorem settings_keeps (slot : Session → Option (CacheKey × Config)) (keep : CacheKey × Config → Session → Session)
    (hkeep : ∀ e s, Kept W s → Kept W (keep e s)) :
    Keeps W (do
      let s ← get
      match underKey s.currentKey (slot s) with
      | some config => return config
      | none => do
          let config ← loadConfig .unset true
          modify (keep (s.currentKey, config))
          return config) := by
  apply Keeps.get
  intro s
  cases underKey s.currentKey (slot s) with
  | some config => exact .pure config
  | none =>
      apply (loadConfig_keeps .unset true).bind
      intro config
      exact (Keeps.modify (hkeep _)).bind fun _ => .pure config

theorem renderConfig_keeps : Keeps W renderConfig :=
  settings_keeps forRendering (fun e s => { s with forRendering := some e }) fun _ _ hs => ⟨hs.here, hs.traced⟩

theorem parseConfig_keeps : Keeps W parseConfig :=
  settings_keeps forParsing (fun e s => { s with forParsing := some e }) fun _ _ hs => ⟨hs.here, hs.traced⟩

theorem chosenDelimiters_keeps (c : Choices) : Keeps W (chosenDelimiters c) := by
  unfold chosenDelimiters
  cases c.delimiters with
  | some d => exact .pure d
  | none => exact parseConfig_keeps.bind fun _ => (Keeps.lift _).bind fun _ => .pure _

theorem renderer_keeps (c : Choices) : Keeps W (renderer c) := by
  apply renderConfig_keeps.bind
  intro config
  apply (chosenDelimiters_keeps c).bind
  intro d
  exact (Keeps.host _).bind fun _ => .lift _

theorem render_keeps (c : Choices) (t : Template) (stack : Stack) : Keeps W (render c t stack) :=
  (renderer_keeps c).bind fun _ => .host _

theorem renderText_keeps (c : Choices) (text : Text) (stack : Stack) : Keeps W (renderText c text stack) := by
  apply (chosenDelimiters_keeps c).bind
  intro d
  exact (Keeps.host _).bind fun t => render_keeps _ t stack

end Steps

end Traces

end Session

section Turns

variable [ReadingLimits] [Yaml.Reader] [Schema.Validator]

theorem Action.answer_keeps {W : List Surroundings} (a : Action) : Session.Keeps W a.answer := by
  cases a with
  | clearCaches =>
      apply Session.Keeps.bind (Session.Keeps.modify ?_) fun _ => .pure _
      intro s hs
      exact ⟨hs.here, fun _ he => nomatch he⟩
  | load given validate => exact (Session.loadConfig_keeps given validate).bind fun _ => .pure _
  | setting given key => exact ((Session.loadConfig_keeps given false).bind fun _ => .pure _).bind fun _ => .pure _
  | renderText c text stack => exact (Session.renderText_keeps c text stack).bind fun _ => .pure _
  | render c t stack => exact (Session.render_keeps c t stack).bind fun _ => .pure _
  | _ => exact .pure _

/-! ## Turns -/

/-- What happens in a session or around it, or that someone asks for a configuration by its file. -/
inductive Turn where
  | act (a : Action)
  | ask (given : Given) (validate : Bool)

namespace Turn

/-- The session after a turn. -/
def after (s : Session) : Turn → Session
  | act a => (a.run.run s).2
  | ask given validate => ((Session.cachedConfig given validate).run s).2

/-- The session after some turns. -/
def afterAll (s : Session) (ts : List Turn) : Session := ts.foldl after s

/-- The surroundings between some turns, from the first ones on. -/
def worlds (s : Session) : List Turn → List Surroundings
  | [] => [s.surroundings]
  | t :: ts => s.surroundings :: worlds (t.after s) ts

variable {W : List Surroundings} {s : Session}

/-- **One turn.** -/
theorem traced_after (hs : Session.Kept W s) (t : Turn) : Session.Traced W (t.after s) := by
  cases t with
  | act a => exact (a.answer_keeps s hs).traced
  | ask given validate => exact (Session.cachedConfig_keeps given validate s hs).traced

/-- **Any number of turns**: whatever is kept can be traced to surroundings that there were. -/
theorem traced_afterAll (ts : List Turn) (hs : Session.Traced W s) (hworlds : ∀ v ∈ worlds s ts, v ∈ W) :
    Session.Kept W (afterAll s ts) := by
  induction ts generalizing s with
  | nil => exact ⟨hworlds _ List.mem_cons_self, hs⟩
  | cons t ts ih =>
      obtain ⟨hhere, hrest⟩ := List.forall_mem_cons.mp hworlds
      exact ih (traced_after ⟨hhere, hs⟩ t) hrest

end Turn

/-- **A configuration that is asked for by its file is never stale.** Begin with any session that keeps nothing and let
    there be any turns. If in all surroundings that occur the stamps of files tell their contents apart, then whoever
    asks for the configuration of a file is given what a load without a cache would give at that moment of where the path
    leads, be it a configuration or a fault; so is whoever asks without a file, or with an empty text, while the
    environment names none. Whoever asks in this way while the environment names one is given what such a load came to
    at some moment at which the variables of the engine were the same. -/
theorem cachedConfig_current (s₀ : Session) (turns : List Turn)
    (hW : Surroundings.Telling (Turn.worlds s₀.clearCaches turns)) :
    let s := Turn.afterAll s₀.clearCaches turns
    (∀ given : Given, (given.path? = none → s.surroundings.namedFile? = none) →
      ((Session.cachedConfig given false).run s).1
        = ((Session.freshConfig (.ofPath? (given.path?.map s.surroundings.resolve)) false).run s).1) ∧
    ∀ given : Given, given.path? = none →
      ∃ v ∈ Turn.worlds s₀.clearCaches turns, v.engineVariables = s.surroundings.engineVariables ∧
        ((Session.cachedConfig given false).run s).1
          = ((Session.freshConfig .unset false).run { s with surroundings := v }).1 := by
  intro s
  have hs : Session.Kept (Turn.worlds s₀.clearCaches turns) s :=
    Turn.traced_afterAll turns (fun _ he => nomatch he) fun _ hv => hv
  constructor
  · intro given hsettled
    obtain ⟨v, hv, file, hkey, hgiven⟩ := hs.traced.cachedConfig hs.here given
    -- what is given comes from a moment with the same key, and the key knows the file: nothing has changed since then
    rw [hgiven, Session.freshConfig_run]
    exact (Session.reloaded_congr hW hs.here hv hsettled hkey.symm).symm
  · intro given hnone
    obtain ⟨v, hv, file, hkey, hgiven⟩ := hs.traced.cachedConfig hs.here given
    obtain ⟨hfile, -, henvironment⟩ := CacheKey.mk.inj hkey
    -- of the file that the environment names, the key has the name at most
    rw [hnone] at hfile
    obtain rfl : file = none := Option.map_eq_none_iff.mp hfile
    refine ⟨v, hv, henvironment, ?_⟩
    rw [hgiven]
    exact (Session.freshConfig_run { s with surroundings := v } none).symm

end Turns

/-! ### A file that the environment names is written anew -/

/-- A file is named, and it is written anew after someone has asked for a configuration. -/
def askedThenRewritten (given : Given) : List Turn :=
  [.act (.writeFile ⟨[['c']]⟩ (settingFile "escape: none".toList 0)), .act (.setVariable Config.fileVariable ['c']),
    .ask given false, .act (.writeFile ⟨[['c']]⟩ (settingFile "escape: html".toList 1))]

/-- The escaping policy of a configuration, if there is one. -/
def policyOf (o : Except Fault Config) : Option Text :=
  o.toOption.bind fun config => (config.dotted? "render.escape".toList).map Value.str

/-- Asked for by its name, the file is read anew. -/
theorem cachedConfig_current_rewritten :
    let c : Path := ⟨[['c']]⟩
    Surroundings.Telling (Turn.worlds (Session.fresh ⟨.empty, []⟩).clearCaches (askedThenRewritten (.path c))) ∧
    (let s := Turn.afterAll (Session.fresh ⟨.empty, []⟩).clearCaches (askedThenRewritten (.path c));
      ((Given.path c).path? = none → s.surroundings.namedFile? = none) ∧
      s.configs.map (fun e => policyOf (.ok e.2)) = [some "none".toList] ∧
      ((Session.cachedConfig (.path c) false).run s).1
        = ((Session.freshConfig (.ofPath? (some (s.surroundings.resolve c))) false).run s).1 ∧
      policyOf ((Session.cachedConfig (.path c) false).run s).1 = some "html".toList) := by
  intro c
  have htelling : Surroundings.Telling
      (Turn.worlds (Session.fresh ⟨.empty, []⟩).clearCaches (askedThenRewritten (.path c))) :=
    Surroundings.telling_of_stamps
      [settingFile "escape: none".toList 0, settingFile "escape: html".toList 1] (by decide +kernel) (by decide +kernel)
  have hcurrent := (cachedConfig_current (Session.fresh ⟨.empty, []⟩) _ htelling).1
  exact ⟨htelling, nofun, by decide +kernel, hcurrent (.path c) nofun, by decide +kernel⟩

/-- **Asked for without its name, a file that the environment names is not read anew** when it has changed. -/
theorem cachedConfig_stale_of_named :
    let s := Turn.afterAll (Session.fresh ⟨.empty, []⟩) (askedThenRewritten .unset)
    s.surroundings.files.stamp ⟨[['c']]⟩ = .present 1 22 ∧
      policyOf ((Session.cachedConfig .unset false).run s).1 = some "none".toList ∧
      policyOf ((Session.freshConfig .unset false).run s).1 = some "html".toList := by
  decide +kernel

end Mustache

import Mustache.Proofs.Environment
import Mustache.Proofs.Isolation

/-!
# `Mustache.Proofs.Freshness` — kept configurations are never stale

A session keeps configurations in three places: every configuration that was loaded from a file, and the ones that
were used last for rendering and for parsing. Each is kept under a key, and whatever a configuration depends on has
left its mark in the key: the file, its state and the variables of the engine. So what is kept under the key of the
present surroundings is what would be loaded now, whichever surroundings it was loaded in, and also if the load that
kept it found it invalid. One way of asking has left no such mark: whoever rules out a file by an empty text gets the
file that the environment names all the same, under a key that says nothing of it.

* `Session.loaded` — what a load comes to in some surroundings when nothing is kept;
* `Surroundings.Telling` — the stamps of files tell their contents apart, and `Session.assembled_congr`,
  `Session.loaded_congr` — **equal keys then mean equal configurations**;
* `Session.Sound` — all that is kept is what would be loaded, and `Session.loadConfig_reads`,
  `Session.renderConfig_reads`, `Session.parseConfig_reads` — **loads keep a session sound and give what would be
  loaded**;
* `Action` — what happens in a session and around it, `Action.runAll_alike` — sessions that differ in what they keep
  give the same answers, and `answers_never_stale` — **nothing that a session gives is stale**, but for that one way
  (`answers_stale_of_blank`).
-/

namespace Mustache

/-! ## Surroundings -/

namespace Surroundings

/-- The stamps of the files at a path tell their contents apart, and whether there is a file. -/
def Telling (W : List Surroundings) : Prop :=
  ∀ w ∈ W, ∀ w' ∈ W, ∀ p : Path, w.files.stamp p = w'.files.stamp p →
    (w.files.file? p).map FileContent.bytes = (w'.files.file? p).map FileContent.bytes

/-- Stamps tell contents apart if they do so for all files that there ever are. -/
theorem telling_of_stamps {W : List Surroundings} (contents : List FileContent)
    (hcontents : ∀ w ∈ W, ∀ e ∈ w.files.files, e.2 ∈ contents)
    (hstamps : ∀ f ∈ contents, ∀ f' ∈ contents,
      f.changed = f'.changed → f.bytes.length = f'.bytes.length → f.bytes = f'.bytes) : Telling W := by
  have hmem : ∀ w ∈ W, ∀ p f, w.files.file? p = some f → f ∈ contents := by
    intro w hw p f hfile
    unfold Files.file? at hfile
    split at hfile
    · obtain ⟨e, hfind, rfl⟩ := Option.map_eq_some_iff.mp hfile
      exact hcontents w hw e (List.mem_of_find?_eq_some hfind)
    · cases hfile
  intro w hw w' hw' p hstamp
  unfold Files.stamp at hstamp
  cases hf : w.files.file? p with
  | none =>
      rw [hf] at hstamp
      cases hf' : w'.files.file? p with
      | none => rfl
      | some f' =>
          rw [hf'] at hstamp
          cases hstamp
  | some f =>
      rw [hf] at hstamp
      cases hf' : w'.files.file? p with
      | none =>
          rw [hf'] at hstamp
          cases hstamp
      | some f' =>
          rw [hf'] at hstamp
          obtain ⟨hchanged, hlength⟩ := Stamp.present.inj hstamp
          exact congrArg some (hstamps f (hmem w hw p f hf) f' (hmem w' hw' p f' hf') hchanged hlength)

/-- Whoever loads the configuration of a file, or of none, reads that file. Without a file the one is read that the
    environment names, so there must be none. -/
def Settled (w : Surroundings) (file : Option Path) : Prop := file = none → w.namedFile? = none

/-- What a caller says about the file settles it, unless it is an empty text. -/
theorem settled_configFile? {w : Surroundings} {given : Given} (h : given = .blank → w.namedFile? = none) :
    w.Settled (w.configFile? given) := by
  cases given with
  | path p => exact nofun
  | blank => exact fun _ => h rfl
  | unset => exact id

/-- A file that is settled is read where it leads to. -/
theorem Settled.configFile? {w : Surroundings} {file : Option Path} (h : w.Settled file) :
    w.configFile? (.ofPath? (file.map w.resolve)) = file.map w.resolve := by
  cases file with
  | some p => rfl
  | none => exact h rfl

end Surroundings

theorem Config.ofFile_congr [Yaml.Reader] {fs fs' : Files} {p : Path}
    (h : (fs.file? p).map FileContent.bytes = (fs'.file? p).map FileContent.bytes) :
    ofFile fs p = ofFile fs' p := by
  unfold ofFile
  cases hf : fs.file? p with
  | none =>
      rw [hf] at h
      rw [Option.map_eq_none_iff.mp h.symm]
  | some f =>
      rw [hf] at h
      obtain ⟨f', hf', hbytes⟩ := Option.map_eq_some_iff.mp h.symm
      rw [hf']
      dsimp only
      rw [hbytes]

@[simp]
theorem Given.path?_ofPath? (file : Option Path) : (ofPath? file).path? = file := by cases file <;> rfl

/-- A load without checks comes to what is put together, and reports no more than that. -/
theorem Config.load_run [ReadingLimits] [Yaml.Reader] [Schema.Validator] (w : Surroundings) (given : Given) (h : Host) :
    ∃ h' : Host, h'.tallies = h.tallies ∧
      (load w given false).run h = ((assemble w (w.configFile? given) false).map Assembled.config, h') := by
  unfold load
  dsimp only
  cases assemble w (w.configFile? given) false with
  | error fault => exact ⟨h, rfl, rfl⟩
  | ok a => exact ⟨{ h with log := .configurationLoaded a.sources :: h.log }, rfl, rfl⟩

theorem SessionM.run_host {α : Type} (x : HostM α) (s : Session) :
    (SessionM.host x).run s = ((x.run s.host).1, { s with host := (x.run s.host).2 }) := rfl

namespace Session

/-! ## Loads -/

/-- What is asked for is given as it is kept, or loaded and then kept. -/
theorem cachedConfig_run [ReadingLimits] [Yaml.Reader] [Schema.Validator] (s : Session) (given : Given)
    (validate : Bool) :
    (cachedConfig given validate).run s =
      match s.kept? (CacheKey.of s.surroundings given.path?) with
      | some config => (.ok config, s)
      | none =>
          match (Config.load s.surroundings (.ofPath? (given.path?.map s.surroundings.resolve)) validate).run
              s.host with
          | (.ok config, h') =>
              (.ok config,
                { s with host := h', configs := (CacheKey.of s.surroundings given.path?, config) :: s.configs })
          | (.error fault, h') => (.error fault, { s with host := h' }) := by
  have hget : ∀ k : Session → SessionM Config, (get >>= k).run s = (k s).run s := fun _ => rfl
  unfold cachedConfig
  rw [hget]
  dsimp only
  cases s.kept? (CacheKey.of s.surroundings given.path?) with
  | some config => rfl
  | none =>
      dsimp only
      rw [Fault.run_bind, SessionM.run_host]
      generalize (Config.load s.surroundings (.ofPath? (given.path?.map s.surroundings.resolve)) validate).run s.host
        = r
      rcases r with ⟨fault | config, h'⟩ <;> rfl

/-- The configuration of a file, or of none, put together without checks. -/
def assembled [ReadingLimits] [Yaml.Reader] (w : Surroundings) (file : Option Path) : Except Fault Config :=
  (Config.assemble w (file.map w.resolve) false).map Config.Assembled.config

/-- What a load comes to when nothing is kept. -/
def loaded [ReadingLimits] [Yaml.Reader] [Schema.Validator] (w : Surroundings) (given : Given) (validate : Bool) :
    Except Fault Config := do
  let config ← assembled w (w.configFile? given)
  if validate then
    let _ ← (Config.overrides true w.environment).complete
    Config.checked (w.configFile? given) config
  return config

section Keys

variable {W : List Surroundings} {w w' : Surroundings}

/-- Of two files under one key, both are settled or none is. -/
theorem settled_congr {file file' : Option Path} (hkey : CacheKey.of w file = CacheKey.of w' file')
    (h : w.Settled file) : w'.Settled file' := by
  obtain ⟨hfile, -, henvironment⟩ := CacheKey.mk.inj hkey
  rintro rfl
  rw [← Surroundings.namedFile?_congr henvironment]
  exact h (Option.map_eq_none_iff.mp hfile)

variable [ReadingLimits] [Yaml.Reader]

/-- **Under equal keys the same configuration is put together.** -/
theorem assembled_congr (hW : Surroundings.Telling W) (hw : w ∈ W) (hw' : w' ∈ W) {file file' : Option Path}
    (hkey : CacheKey.of w file = CacheKey.of w' file') : assembled w file = assembled w' file' := by
  obtain ⟨hfile, hstamp, henvironment⟩ := CacheKey.mk.inj hkey
  -- the key says where the file is, and its stamp what is in it
  have hlayer : Config.withFile w.files (file.map w.resolve)
      = Config.withFile w'.files (file'.map w'.resolve) := by
    cases file with
    | none =>
        cases file' with
        | none => rfl
        | some p' => cases hfile
    | some p =>
        cases file' with
        | none => cases hfile
        | some p' =>
            have hp : w.resolve p = w'.resolve p' := Option.some.inj hfile
            have hstamps : w.files.stamp (w.resolve p) = w'.files.stamp (w'.resolve p') := Option.some.inj hstamp
            rw [← hp] at hstamps
            show (Config.ofFile w.files (w.resolve p)).map _ = (Config.ofFile w'.files (w'.resolve p')).map _
            rw [← hp, Config.ofFile_congr (hW w hw w' hw' (w.resolve p) hstamps)]
  unfold assembled Config.assemble
  rw [hlayer, Config.overrides_congr henvironment, hfile]

/-- **Under equal keys of the file that the environment names, a load comes to the same.** -/
theorem loaded_congr [Schema.Validator] (hW : Surroundings.Telling W) (hw : w ∈ W) (hw' : w' ∈ W)
    (hkey : CacheKey.of w w.namedFile? = CacheKey.of w' w'.namedFile?) (validate : Bool) :
    loaded w .unset validate = loaded w' .unset validate := by
  obtain ⟨-, -, henvironment⟩ := CacheKey.mk.inj hkey
  have hnamed := Surroundings.namedFile?_congr henvironment
  unfold loaded
  rw [show w.configFile? .unset = w.namedFile? from rfl, show w'.configFile? .unset = w'.namedFile? from rfl,
    assembled_congr hW hw hw' hkey, hnamed, Config.overrides_congr henvironment]

end Keys

/-! ## Sound sessions -/

section

variable [ReadingLimits] [Yaml.Reader] [Schema.Validator]

/-- The settings in use are what a checked load comes to, wherever the file that the environment names has their
    key. -/
def InUse (W : List Surroundings) (e : CacheKey × Config) : Prop :=
  ∀ v ∈ W, CacheKey.of v v.namedFile? = e.1 → loaded v .unset true = .ok e.2

/-- A session in some surroundings in which every configuration is kept rightly: it is what would be loaded wherever its
    key comes up, be it in surroundings of the past or of the future. Nothing is said of keys without a file where the
    environment names one. -/
structure Sound (W : List Surroundings) (w : Surroundings) (s : Session) : Prop where
  surroundings : s.surroundings = w
  configs : ∀ e ∈ s.configs, ∀ v ∈ W, ∀ file, v.Settled file → CacheKey.of v file = e.1 → assembled v file = .ok e.2
  forRendering : ∀ e ∈ s.forRendering, InUse W e
  forParsing : ∀ e ∈ s.forParsing, InUse W e

namespace Sound

variable {W : List Surroundings} {w : Surroundings} {s : Session}

theorem of_fresh (w : Surroundings) (h : Host) : Sound W w { fresh w with host := h } :=
  ⟨rfl, fun _ h => (nomatch h), fun _ h => (nomatch h), fun _ h => (nomatch h)⟩

theorem clearCaches (hs : Sound W w s) : Sound W w s.clearCaches := hs.surroundings ▸ of_fresh _ s.host

theorem withHost (hs : Sound W w s) (h : Host) : Sound W w { s with host := h } :=
  ⟨hs.surroundings, hs.configs, hs.forRendering, hs.forParsing⟩

/-- What is kept rightly stays so when the surroundings change. -/
theorem move (hs : Sound W w s) (w' : Surroundings) : Sound W w' { s with surroundings := w' } :=
  ⟨rfl, hs.configs, hs.forRendering, hs.forParsing⟩

end Sound

/-- A computation leaves a sound session sound and the cells of the host as they are. -/
def Leaves {α : Type} (W : List Surroundings) (w : Surroundings) (x : SessionM α) : Prop :=
  ∀ s, Sound W w s → Sound W w (x.run s).2 ∧ (x.run s).2.host.tallies = s.host.tallies

/-- In a sound session a computation comes to some outcome. It leaves the session sound and the cells of the host as
    they are. -/
def Reads {α : Type} (W : List Surroundings) (w : Surroundings) (outcome : Except Fault α) (x : SessionM α) : Prop :=
  ∀ s, Sound W w s →
    (x.run s).1 = outcome ∧ Sound W w (x.run s).2 ∧ (x.run s).2.host.tallies = s.host.tallies

section Soundness

variable {W : List Surroundings} {w : Surroundings} {α β : Type} {o : Except Fault α}

namespace Leaves

theorem pure (v : α) : Leaves W w (pure v) := fun _ hs => ⟨hs, rfl⟩

theorem lift (o : Except Fault α) : Leaves W w (SessionM.lift o) := by
  cases o with
  | error fault => exact fun _ hs => ⟨hs, rfl⟩
  | ok v => exact .pure v

theorem get {k : Session → SessionM α} (h : ∀ s, Sound W w s → Leaves W w (k s)) : Leaves W w (get >>= k) :=
  fun s hs => h s hs s hs

theorem bind {x : SessionM α} {k : α → SessionM β} (hx : Leaves W w x) (hk : ∀ v, Leaves W w (k v)) :
    Leaves W w (x >>= k) := by
  intro s hs
  obtain ⟨hsound, htallies⟩ := hx s hs
  rw [Fault.run_bind]
  rcases hrun : x.run s with ⟨fault | v, s'⟩ <;> rw [hrun] at hsound htallies
  · exact ⟨hsound, htallies⟩
  · obtain ⟨hsound', htallies'⟩ := hk v s' hsound
    exact ⟨hsound', htallies'.trans htallies⟩

end Leaves

namespace Reads

theorem pure (v : α) : Reads W w (.ok v) (pure v) := fun _ hs => ⟨rfl, hs, rfl⟩

theorem lift (o : Except Fault α) : Reads W w o (SessionM.lift o) := by
  cases o with
  | error fault => exact fun _ hs => ⟨rfl, hs, rfl⟩
  | ok v => exact .pure v

theorem get {k : Session → SessionM α} (h : ∀ s, Sound W w s → Reads W w o (k s)) : Reads W w o (get >>= k) :=
  fun s hs => h s hs s hs

theorem bind {x : SessionM α} {k : α → SessionM β} {g : α → Except Fault β} (hx : Reads W w o x)
    (hk : ∀ v, o = .ok v → Reads W w (g v) (k v)) : Reads W w (o >>= g) (x >>= k) := by
  intro s hs
  obtain ⟨hout, hsound, htallies⟩ := hx s hs
  rw [Fault.run_bind]
  rcases hrun : x.run s with ⟨fault | v, s'⟩ <;> rw [hrun] at hout hsound htallies <;> subst hout
  · exact ⟨rfl, hsound, htallies⟩
  · obtain ⟨hout', hsound', htallies'⟩ := hk v rfl s' hsound
    exact ⟨hout', hsound', htallies'.trans htallies⟩

/-- What a computation gives may be kept if the session stays sound with it. -/
theorem keep {x : SessionM α} {f : α → Session → Session} (hx : Reads W w o x)
    (hsound : ∀ v, o = .ok v → ∀ s, Sound W w s → Sound W w (f v s))
    (htallies : ∀ v s, (f v s).host.tallies = s.host.tallies) :
    Reads W w o (do
      let v ← x
      modify (f v)
      return v) := by
  rw [← bind_pure o]
  refine hx.bind fun v hv => ?_
  have hmodify : Reads W w (.ok ()) (modify (f v) : SessionM PUnit) := by
    intro s hs
    exact ⟨rfl, hsound v hv s hs, htallies v s⟩
  exact hmodify.bind fun _ _ => .pure v

end Reads

variable (hW : Surroundings.Telling W) (hw : w ∈ W)
include hW hw

/-- What is put together for a file can be kept: wherever its key comes up, the same would be put together. -/
theorem cachedConfig_leaves (file : Option Path) : Leaves W w (cachedConfig (.ofPath? file) false) := by
  intro s hs
  obtain ⟨h', htallies, hrun⟩ := Config.load_run w (.ofPath? (file.map w.resolve)) s.host
  rw [cachedConfig_run, hs.surroundings, Given.path?_ofPath?, hrun]
  cases s.kept? (CacheKey.of w file) with
  | some config => exact ⟨hs, rfl⟩
  | none =>
      dsimp only
      cases hload : (Config.assemble w (w.configFile? (.ofPath? (file.map w.resolve))) false).map
          Config.Assembled.config with
      | error fault => exact ⟨⟨rfl, hs.configs, hs.forRendering, hs.forParsing⟩, htallies⟩
      | ok config =>
          refine ⟨⟨rfl, List.forall_mem_cons.mpr ⟨?_, hs.configs⟩, hs.forRendering, hs.forParsing⟩, htallies⟩
          intro v hv file' hsettled hkey
          rw [assembled_congr hW hv hw hkey]
          rwa [(settled_congr hkey hsettled).configFile?] at hload

/-- What is kept for a file is what would be put together. -/
theorem cachedConfig_reads {file : Option Path} (hfile : w.Settled file) :
    Reads W w (assembled w file) (cachedConfig (.ofPath? file) false) := by
  intro s hs
  refine ⟨?_, cachedConfig_leaves hW hw file s hs⟩
  obtain ⟨h', -, hrun⟩ := Config.load_run w (.ofPath? (file.map w.resolve)) s.host
  rw [hfile.configFile?] at hrun
  rw [cachedConfig_run, hs.surroundings, Given.path?_ofPath?, hrun]
  cases hkept : s.kept? (CacheKey.of w file) with
  | some config =>
      obtain ⟨e, hfind, rfl⟩ := Option.map_eq_some_iff.mp hkept
      -- the entry may come from other surroundings, in which it had the same key
      have hkey : e.1 = CacheKey.of w file :=
        eq_of_beq (List.find?_some (p := fun e : CacheKey × Config => e.1 == CacheKey.of w file) hfind)
      exact (hs.configs e (List.mem_of_find?_eq_some hfind) w hw file hfile hkey.symm).symm
  | none =>
      show _ = assembled w file
      unfold assembled
      cases (Config.assemble w (file.map w.resolve) false).map Config.Assembled.config <;> rfl

/-- A load leaves a session sound, also if its key does not know the file. -/
theorem loadConfig_leaves (given : Given) (validate : Bool) : Leaves W w (loadConfig given validate) := by
  refine .get fun s hs => ?_
  dsimp only
  refine (cachedConfig_leaves hW hw _).bind fun config => ?_
  cases validate with
  | false => exact .pure config
  | true => exact (Leaves.lift _).bind fun _ => (Leaves.lift _).bind fun _ => .pure config

/-- **A load gives what it would come to if nothing were kept.** -/
theorem loadConfig_reads (given : Given) (hgiven : given = .blank → w.namedFile? = none) (validate : Bool) :
    Reads W w (loaded w given validate) (loadConfig given validate) := by
  refine .get fun s hs => ?_
  dsimp only
  rw [hs.surroundings]
  refine (cachedConfig_reads hW hw (Surroundings.settled_configFile? hgiven)).bind fun config _ => ?_
  cases validate with
  | false => exact .pure config
  | true => exact (Reads.lift _).bind fun _ _ => (Reads.lift _).bind fun _ _ => .pure config

/-- The settings in use, kept in a slot of the session. -/
theorem settings_reads (slot : Session → Option (CacheKey × Config)) (keep : CacheKey × Config → Session → Session)
    (hslot : ∀ s, Sound W w s → ∀ e ∈ slot s, InUse W e)
    (hkeep : ∀ e, InUse W e → ∀ s, Sound W w s → Sound W w (keep e s))
    (htallies : ∀ e s, (keep e s).host.tallies = s.host.tallies) :
    Reads W w (loaded w .unset true) (do
      let s ← get
      match underKey s.currentKey (slot s) with
      | some config => return config
      | none => do
          let config ← loadConfig .unset true
          modify (keep (s.currentKey, config))
          return config) := by
  refine .get fun s hs => ?_
  have hcurrent : s.currentKey = CacheKey.of w w.namedFile? := by rw [currentKey, hs.surroundings]
  rw [hcurrent]
  cases hunder : underKey (CacheKey.of w w.namedFile?) (slot s) with
  | some config =>
      obtain ⟨e, he, hmatch⟩ := Option.bind_eq_some_iff.mp hunder
      obtain ⟨hkey, rfl⟩ : e.1 = CacheKey.of w w.namedFile? ∧ e.2 = config := by
        split at hmatch
        case isTrue hkey => exact ⟨hkey, Option.some.inj hmatch⟩
        case isFalse => cases hmatch
      rw [hslot s hs e he w hw hkey.symm]
      exact .pure e.2
  | none =>
      refine (loadConfig_reads hW hw .unset nofun true).keep (fun config hconfig s hs => ?_) fun _ _ => htallies _ _
      refine hkeep _ (fun v hv hkey => ?_) s hs
      rw [loaded_congr hW hv hw hkey true, hconfig]

/-- **The configuration for rendering is never stale.** -/
theorem renderConfig_reads : Reads W w (loaded w .unset true) renderConfig :=
  settings_reads hW hw forRendering (fun e s => { s with forRendering := some e })
    (fun _ hs => hs.forRendering)
    (fun _ he _ hs => ⟨hs.surroundings, hs.configs, fun _ h => Option.some.inj h ▸ he, hs.forParsing⟩)
    fun _ _ => rfl

/-- **The configuration for parsing is never stale.** -/
theorem parseConfig_reads : Reads W w (loaded w .unset true) parseConfig :=
  settings_reads hW hw forParsing (fun e s => { s with forParsing := some e })
    (fun _ hs => hs.forParsing)
    (fun _ he _ hs => ⟨hs.surroundings, hs.configs, hs.forRendering, fun _ h => Option.some.inj h ▸ he⟩)
    fun _ _ => rfl

end Soundness

/-! ## Sessions side by side -/

/-- Two sound sessions in the same surroundings with the same cells in use. What they keep may differ. -/
structure Alike (W : List Surroundings) (w : Surroundings) (s t : Session) : Prop where
  first : Sound W w s
  second : Sound W w t
  cells : Host.Over #[] s.host t.host

section SideBySide

variable {W : List Surroundings} {w : Surroundings} {α : Type} {o : Except Fault α} {s t : Session}

theorem Sound.alike (hs : Sound W w s) (ht : Sound W w t) (h : t.host.tallies = s.host.tallies) : Alike W w s t :=
  ⟨hs, ht, h.trans (Array.empty_append).symm⟩

theorem Reads.mirrors {x : SessionM α} (h : Reads W w o x) : Mirrors (Alike W w) id x x := by
  refine Mirrors.id_iff.mpr ?_
  rintro s t ⟨hs, ht, hcells⟩
  obtain ⟨hout, hsound, htallies⟩ := h s hs
  obtain ⟨hout', hsound', htallies'⟩ := h t ht
  refine ⟨hout'.trans hout.symm, hsound, hsound', ?_⟩
  rw [Host.Over, htallies, htallies']
  exact hcells

theorem host_mirrors {f : α → α} {x y : HostM α} (h : Mirrors (Host.Over #[]) f x y) :
    Mirrors (Alike W w) f (SessionM.host x) (SessionM.host y) := by
  rintro s t ⟨hs, ht, hcells⟩
  obtain ⟨hout, hcells'⟩ := h s.host t.host hcells
  exact ⟨hout, hs.withHost _, ht.withHost _, hcells'⟩

theorem lift_mirrors (o : Except Fault α) : Mirrors (Alike W w) id (SessionM.lift o) (SessionM.lift o) := by
  cases o with
  | error fault => exact .throw fault
  | ok v => exact .pure rfl

variable (hW : Surroundings.Telling W) (hw : w ∈ W)
include hW hw

theorem chosenDelimiters_mirrors (c : Choices) : Mirrors (Alike W w) id (chosenDelimiters c) (chosenDelimiters c) := by
  unfold chosenDelimiters
  cases c.delimiters with
  | some d => exact .pure rfl
  | none => exact (parseConfig_reads hW hw).mirrors.bind fun _ => (lift_mirrors _).bind fun _ => .pure rfl

theorem renderer_mirrors (c : Choices) : Mirrors (Alike W w) id (renderer c) (renderer c) := by
  refine (renderConfig_reads hW hw).mirrors.bind fun config => ?_
  refine (chosenDelimiters_mirrors hW hw c).bind fun d => ?_
  exact (host_mirrors (Partials.ofSources?_mirrors d c.partials)).bind fun _ => lift_mirrors _

theorem render_mirrors (c : Choices) (template : Template) (stack : Stack) :
    Mirrors (Alike W w) id (render c template stack) (render c template stack) := by
  refine (renderer_mirrors hW hw c).bind fun r => host_mirrors ?_
  have hrender : Mirrors (Host.Over #[]) id (r.render template stack) (r.render template (stack.lift 0)) :=
    r.render_mirrors template stack
  rwa [stack.lift_zero] at hrender

theorem renderText_mirrors (c : Choices) (text : Text) (stack : Stack) :
    Mirrors (Alike W w) id (renderText c text stack) (renderText c text stack) := by
  refine (chosenDelimiters_mirrors hW hw c).bind fun d => ?_
  exact (host_mirrors (Template.ofText_mirrors d none text)).bind fun template => render_mirrors hW hw _ template stack

end SideBySide

end

end Session

/-! ## Steps of a session -/

/-- What happens in a session or around it. A file is written with the moment at which it was changed. -/
inductive Action where
  | setVariable (name value : Text)
  | unsetVariable (name : Text)
  | writeFile (p : Path) (f : FileContent)
  | remove (p : Path)
  | clearCaches
  | load (given : Given) (validate : Bool)
  | setting (given : Given) (key : Text)
  | renderText (c : Session.Choices) (text : Text) (stack : Stack)
  | render (c : Session.Choices) (t : Template) (stack : Stack)

/-- What an action gives. -/
inductive Answer where
  | done
  | config (config : Config)
  | setting (value : Option Value)
  | output (s : Text)

namespace Action

/-- What an action does to the surroundings. -/
def change : Action → Surroundings → Surroundings
  | setVariable name value, w => { w with environment := w.environment.put name value }
  | unsetVariable name, w => { w with environment := w.environment.erase name }
  | writeFile p f, w => { w with files := w.files.write p f }
  | remove p, w => { w with files := w.files.remove p }
  | _, w => w

/-- What an action says about the file of the configuration that it asks for. -/
def given? : Action → Option Given
  | load given _ | setting given _ => some given
  | _ => none

/-- An action does not rule out a file, by an empty text, while the environment names one. -/
def Settled (w : Surroundings) (a : Action) : Prop := a.given? = some .blank → w.namedFile? = none

/-- No action rules out a file while the environment names one. -/
def AllSettled (w : Surroundings) : List Action → Prop
  | [] => True
  | a :: as => a.Settled w ∧ AllSettled (a.change w) as

/-- The surroundings between some actions, from the first ones on. -/
def worlds (w : Surroundings) : List Action → List Surroundings
  | [] => [w]
  | a :: as => w :: worlds (a.change w) as

theorem head_mem_worlds (w : Surroundings) (as : List Action) : w ∈ worlds w as := by
  cases as <;> exact List.mem_cons_self

theorem worlds_append (w : Surroundings) (before later : List Action) :
    (∀ v ∈ worlds w before, v ∈ worlds w (before ++ later)) ∧
      ∀ v ∈ worlds (before.foldl (fun w a => a.change w) w) later, v ∈ worlds w (before ++ later) := by
  induction before generalizing w with
  | nil => exact ⟨fun v hv => List.mem_singleton.mp hv ▸ head_mem_worlds w later, fun _ hv => hv⟩
  | cons a before ih =>
      obtain ⟨hbefore, hlater⟩ := ih (a.change w)
      refine ⟨List.forall_mem_cons.mpr ⟨List.mem_cons_self, fun v hv => ?_⟩, fun v hv => ?_⟩
      · exact List.mem_cons_of_mem w (hbefore v hv)
      · exact List.mem_cons_of_mem w (hlater v hv)

section

variable [ReadingLimits] [Yaml.Reader] [Schema.Validator]

/-- What an action does in the session. -/
def answer : Action → SessionM Answer
  | clearCaches => do
      modify Session.clearCaches
      return .done
  | load given validate => return .config (← Session.loadConfig given validate)
  | setting given key => return .setting (← Session.setting given key)
  | renderText c text stack => return .output (← Session.renderText c text stack)
  | render c t stack => return .output (← Session.render c t stack)
  | _ => return .done

/-- An action. -/
def run (a : Action) : StateM Session (Except Fault Answer) := do
  let answer ← a.answer.run
  modify fun s => { s with surroundings := a.change s.surroundings }
  return answer

/-- Actions one after the other, of which each gives an answer or a fault. -/
def runAll : List Action → StateM Session (List (Except Fault Answer))
  | [] => return []
  | a :: as => return (← a.run) :: (← runAll as)

variable {W : List Surroundings} {w : Surroundings} {s t : Session}

/-- An action gives the same in sessions that are alike. -/
theorem answer_mirrors (hW : Surroundings.Telling W) (hw : w ∈ W) {a : Action} (ha : a.Settled w) :
    Mirrors (Session.Alike W w) id a.answer a.answer := by
  cases a with
  | clearCaches =>
      rintro s t ⟨hs, ht, hcells⟩
      exact ⟨rfl, hs.clearCaches, ht.clearCaches, hcells⟩
  | load given validate =>
      have hgiven : given = .blank → w.namedFile? = none := fun h => ha (congrArg some h)
      exact (Session.loadConfig_reads hW hw given hgiven validate).mirrors.bind fun _ => .pure rfl
  | setting given key =>
      have hgiven : given = .blank → w.namedFile? = none := fun h => ha (congrArg some h)
      have hsetting : Mirrors (Session.Alike W w) id (Session.setting given key) (Session.setting given key) :=
        (Session.loadConfig_reads hW hw given hgiven false).mirrors.bind fun _ => .pure rfl
      exact hsetting.bind fun _ => .pure rfl
  | renderText c text stack => exact (Session.renderText_mirrors hW hw c text stack).bind fun _ => .pure rfl
  | render c t stack => exact (Session.render_mirrors hW hw c t stack).bind fun _ => .pure rfl
  | _ => exact .pure rfl

theorem run_run (a : Action) (s : Session) : a.run.run s = ((a.answer.run s).1,
    { (a.answer.run s).2 with surroundings := a.change (a.answer.run s).2.surroundings }) := rfl

/-- Sessions that are alike are alike after every action. -/
theorem run_alike (hW : Surroundings.Telling W) (hw : w ∈ W) {a : Action} (ha : a.Settled w)
    (h : Session.Alike W w s t) :
    (a.run.run t).1 = (a.run.run s).1 ∧ Session.Alike W (a.change w) (a.run.run s).2 (a.run.run t).2 := by
  obtain ⟨hout, hs, ht, hcells⟩ := Mirrors.id_iff.mp (answer_mirrors hW hw ha) s t h
  -- the surroundings change in the same way whatever the answer was
  rw [run_run, run_run, hs.surroundings, ht.surroundings]
  exact ⟨hout, hs.move _, ht.move _, hcells⟩

/-- A session stays sound, whatever an action asks for. -/
theorem run_sound (hW : Surroundings.Telling W) (hw : w ∈ W) (a : Action) (hs : Session.Sound W w s) :
    Session.Sound W (a.change w) (a.run.run s).2 := by
  have hanswer : Session.Sound W w (a.answer.run s).2 := by
    by_cases ha : a.Settled w
    · exact (Mirrors.id_iff.mp (answer_mirrors hW hw ha) s s (hs.alike hs rfl)).2.first
    · -- the answer need not be what would be loaded, but it comes from a load
      cases a with
      | load given validate =>
          exact (((Session.loadConfig_leaves hW hw given validate).bind fun _ => .pure _) s hs).1
      | setting given key =>
          have hsetting : Session.Leaves W w (Session.setting given key) :=
            (Session.loadConfig_leaves hW hw given false).bind fun _ => .pure _
          exact ((hsetting.bind fun _ => .pure _) s hs).1
      | _ => exact absurd nofun ha
  rw [run_run, hanswer.surroundings]
  exact hanswer.move _

theorem runAll_sound (hW : Surroundings.Telling W) (as : List Action) (hworlds : ∀ v ∈ worlds w as, v ∈ W)
    (hs : Session.Sound W w s) :
    Session.Sound W (as.foldl (fun w a => a.change w) w) ((runAll as).run s).2 := by
  induction as generalizing w s with
  | nil => exact hs
  | cons a as ih =>
      obtain ⟨hw, hrest⟩ := List.forall_mem_cons.mp hworlds
      exact ih hrest (run_sound hW hw a hs)

/-- **Sessions that are alike give the same answers** to any actions, one after the other, and are alike in the end. -/
theorem runAll_alike (hW : Surroundings.Telling W) (as : List Action) (hworlds : ∀ v ∈ worlds w as, v ∈ W)
    (has : AllSettled w as) (h : Session.Alike W w s t) :
    ((runAll as).run t).1 = ((runAll as).run s).1 ∧
      Session.Alike W (as.foldl (fun w a => a.change w) w) ((runAll as).run s).2 ((runAll as).run t).2 := by
  induction as generalizing w s t with
  | nil => exact ⟨rfl, h⟩
  | cons a as ih =>
      obtain ⟨hw, hrest⟩ := List.forall_mem_cons.mp hworlds
      obtain ⟨hout, hafter⟩ := run_alike hW hw has.1 h
      obtain ⟨houts, hend⟩ := ih hrest has.2 hafter
      have hrun : ∀ s, (runAll (a :: as)).run s = ((a.run.run s).1 :: ((runAll as).run (a.run.run s).2).1,
          ((runAll as).run (a.run.run s).2).2) := fun _ => rfl
      rw [hrun, hrun, hout, houts]
      exact ⟨rfl, hend⟩

end

end Action

/-- **What a session gives is not stale**, but for configurations without a file where the environment names one. Begin
    a session in any surroundings, with any host, and let there be any actions before and after. If in all surroundings
    that occur the stamps of files tell their contents apart, then every further action gives what it gives if all that
    is kept is cleared at that moment, be it an answer or a fault; and a load between the actions, whether it succeeds or
    not, makes no difference to the later ones. This is so unless the action, or one of the later ones, rules out a file
    by an empty text while the environment names one. -/
theorem answers_never_stale [ReadingLimits] [Yaml.Reader] [Schema.Validator] (w : Surroundings) (h : Host)
    (before later : List Action) (hW : Surroundings.Telling (Action.worlds w (before ++ later))) :
    let s := ((Action.runAll before).run { Session.fresh w with host := h }).2
    (∀ a : Action, a.Settled s.surroundings → (a.run.run s).1 = (a.run.run s.clearCaches).1) ∧
      (Action.AllSettled s.surroundings later → ∀ given validate,
        ((Action.runAll later).run ((Session.loadConfig given validate).run s).2).1
          = ((Action.runAll later).run s).1) := by
  intro s
  -- all that is kept at any time is tied to its key in all surroundings that occur at any time
  obtain ⟨hbefore, hlater⟩ := Action.worlds_append w before later
  generalize Action.worlds w (before ++ later) = W at hW hbefore hlater
  generalize hend : before.foldl (fun w a => a.change w) w = w' at hlater
  have hw' : w' ∈ W := hlater w' (Action.head_mem_worlds w' later)
  have hs : Session.Sound W w' s := hend ▸ Action.runAll_sound hW before hbefore (Session.Sound.of_fresh w h)
  rw [hs.surroundings]
  constructor
  · intro a ha
    exact (Action.run_alike hW hw' ha (hs.clearCaches.alike hs rfl)).1
  · intro hsettled given validate
    obtain ⟨hloaded, htallies⟩ := Session.loadConfig_leaves hW hw' given validate s hs
    exact (Action.runAll_alike hW later hlater hsettled (hs.alike hloaded htallies)).1

/-! ### A configuration that is invalid at first -/

/-- A file with one setting for rendering, changed at some moment. -/
def settingFile (setting : Text) (changed : Int) : FileContent :=
  ⟨Text.utf8 ("render: \x7b".toList ++ setting ++ ['\x7d']), changed⟩

/-- A render of the current item, which is a character to be escaped. -/
def renderAngle : Action := .renderText ⟨none, .unset, none⟩ "\x7b\x7b.\x7d\x7d".toList [⟨.scalar, .text ['<'], []⟩]

/-- A file with an invalid depth is named, loaded, and loaded without checks. -/
def invalidFirst : List Action :=
  [.writeFile ⟨[['c']]⟩ (settingFile "max_partial_depth: 0".toList 0), .setVariable Config.fileVariable ['c'],
    .load .unset true, .setting .unset "render.max_partial_depth".toList]

/-- Nothing can be rendered with it; then a valid file comes in its place, and then no file is named. -/
def validLater : List Action :=
  [renderAngle, .writeFile ⟨[['c']]⟩ (settingFile "escape: none".toList 1), renderAngle,
    .unsetVariable Config.fileVariable, renderAngle]

/-- The text that an answer shows. -/
def Answer.shown : Answer → Text
  | .done => []
  | .config _ => []
  | .setting v => (v.map Value.str).getD []
  | .output s => s

/-- The invalid configuration is kept, but neither its use nor that of the one after it depends on this. -/
theorem answers_never_stale_invalid :
    Surroundings.Telling (Action.worlds ⟨.empty, []⟩ (invalidFirst ++ validLater)) ∧
    (let s := ((Action.runAll invalidFirst).run { Session.fresh ⟨.empty, []⟩ with host := .fresh }).2;
      s.configs.length = 1 ∧ renderAngle.Settled s.surroundings ∧ Action.AllSettled s.surroundings validLater ∧
      (renderAngle.run.run s).1 = (renderAngle.run.run s.clearCaches).1 ∧
        ∀ given validate,
          ((Action.runAll validLater).run ((Session.loadConfig given validate).run s).2).1
            = ((Action.runAll validLater).run s).1) ∧
    ((Action.runAll (invalidFirst ++ validLater)).run (Session.fresh ⟨.empty, []⟩)).1.map
        (fun r => r.toOption.map Answer.shown)
      = [some [], some [], none, some ['0'], none, some [], some ['<'], some [], some "&lt;".toList] := by
  have htelling : Surroundings.Telling (Action.worlds ⟨.empty, []⟩ (invalidFirst ++ validLater)) :=
    Surroundings.telling_of_stamps
      [settingFile "max_partial_depth: 0".toList 0, settingFile "escape: none".toList 1]
      (by decide +kernel) (by decide +kernel)
  obtain ⟨hanswer, hlater⟩ := answers_never_stale ⟨.empty, []⟩ .fresh invalidFirst validLater htelling
  have hsettled : ∀ w, Action.AllSettled w validLater := fun _ => ⟨nofun, nofun, nofun, nofun, nofun, trivial⟩
  exact ⟨htelling, ⟨by decide +kernel, nofun, hsettled _, hanswer renderAngle nofun, hlater (hsettled _)⟩,
    by decide +kernel⟩

/-- A file is named, asked for a setting in the presence of an empty text, and written anew. -/
def ruledOutThenRewritten : List Action :=
  [.writeFile ⟨[['c']]⟩ (settingFile "escape: none".toList 0), .setVariable Config.fileVariable ['c'],
    .setting .blank "render.escape".toList, .writeFile ⟨[['c']]⟩ (settingFile "escape: html".toList 1)]

/-- **With an empty text for the file, a setting can be stale.** The file that the environment names is read all the
    same, but not again after it has changed. -/
theorem answers_stale_of_blank :
    let s := ((Action.runAll ruledOutThenRewritten).run (Session.fresh ⟨.empty, []⟩)).2
    let a : Action := .setting .blank "render.escape".toList
    Surroundings.Telling (Action.worlds ⟨.empty, []⟩ ruledOutThenRewritten) ∧
      (a.run.run s).1.toOption.map Answer.shown = some "none".toList ∧
      (a.run.run s.clearCaches).1.toOption.map Answer.shown = some "html".toList := by
  refine ⟨?_, by decide +kernel, by decide +kernel⟩
  exact Surroundings.telling_of_stamps
    [settingFile "escape: none".toList 0, settingFile "escape: html".toList 1] (by decide +kernel) (by decide +kernel)

end Mustache

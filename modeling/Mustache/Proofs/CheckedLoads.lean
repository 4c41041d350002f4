import Mustache.Proofs.Freshness

/-!
# `Mustache.Proofs.CheckedLoads` — checked loads with and without a cache

A configuration can be loaded with checks in two ways. Without a cache, the names of the variables are checked while
the layers are put together. With a cache, the layers are put together without checks, so that what is kept serves
loads of either kind; the names are gone through once more afterwards. Both go through the variables in the same order,
so they meet the same faults in the same order, with one exception: a value that cannot be read ends the unchecked
reading at once, even if the name of a variable before it is malformed.

* `Config.overridesOf_cases` — the overrides with and without checks of names are the same, or a malformed name is
  the fault of the checked ones;
* `Config.Variable.Refused` — the faults of values that cannot be read, and `Config.Readable` — all values of overriding
  variables can be read;
* `Config.load_checked_run` — what a checked load without a cache comes to;
* `Session.loadConfig_cleared_run` — what a checked load with an empty cache comes to;
* `checked_loads_agree` — **with and without a cache, checked loads come to the same**, unless a value cannot be read.
-/

namespace Mustache

namespace Config

/-! ## Overrides with and without checks of names -/

section Overrides

theorem Overrides.complete_of_fault {o : Overrides} {fault : Fault} (h : o.fault = some fault) :
    o.complete = .error fault := by
  rw [complete, h]

theorem Overrides.complete_of_no_fault {o : Overrides} (h : o.fault = none) : o.complete = .ok o.changes := by
  rw [complete, h]

/-- The faults of values that cannot be read: an integer that is written wrongly or has too many digits, and lists in
    each other that are too many. -/
def Variable.Refused (fault : Fault) : Prop := fault = .badValue ∨ fault = .exhausted

variable [ReadingLimits] {environment : Table Text Text} {vs : List Text} {strict : Bool} {fault : Fault}

theorem Variable.refused_of_json {s : Text} (h : json? s = .error fault) : Refused fault := by
  unfold json? at h
  split at h
  · split at h
    · cases h
    · cases h
    · exact Or.inl (Except.error.inj h).symm
    · exact Or.inr (Except.error.inj h).symm
  · cases h

/-- A value cannot be read only if it is bad or limits are not kept. -/
theorem Variable.refused_of_value {s : Text} (h : value s = .error fault) : Refused fault := by
  unfold value at h
  dsimp only at h
  split at h
  · cases h
  · split at h
    · split at h
      · cases h
      · exact Or.inl (Except.error.inj h).symm
    · split at h
      · cases h
      · cases hjson : json? (Text.strip s) with
        | ok v =>
            rw [hjson] at h
            cases h
        | error e =>
            rw [hjson] at h
            exact Except.error.inj h ▸ refused_of_json hjson

/-- Checks of names make a difference only if they find a malformed one. -/
theorem overridesOf_cases (environment : Table Text Text) (vs : List Text) :
    overridesOf true environment vs = overridesOf false environment vs ∨
      ∃ name, (overridesOf true environment vs).fault = some (.configuration (.malformedVariable name)) := by
  induction vs with
  | nil => exact Or.inl rfl
  | cons v vs ih =>
      rw [overridesOf, overridesOf]
      cases settingName? v with
      | none => exact ih
      | some name =>
          dsimp only
          cases hpath : Variable.path? name with
          | none =>
              -- the checked reading ends here, the other one leaves the variable out
              apply Or.inr
              refine ⟨name, ?_⟩
              simp [Variable.path, hpath]
          | some path =>
              have hboth : ∀ strict, Variable.path strict name = .ok path := by
                intro strict
                simp [Variable.path, hpath]
              rw [hboth true, hboth false]
              cases path with
              | nil => exact ih
              | cons segment rest =>
                  dsimp only
                  cases Variable.value ((environment.get? v).getD []) with
                  | error fault => exact Or.inl rfl
                  | ok x =>
                      rcases ih with heq | ⟨name, hname⟩
                      · exact Or.inl (congrArg (fun o => Overrides.after o (segment :: rest) x) heq)
                      · exact Or.inr ⟨name, hname⟩

/-- Unless names are checked, only a value can be at fault. -/
theorem refused_of_fault (h : (overridesOf false environment vs).fault = some fault) : Variable.Refused fault := by
  induction vs with
  | nil => cases h
  | cons v vs ih =>
      rw [overridesOf] at h
      split at h
      · exact ih h
      · split at h
        · -- no name is a fault here
          rename_i hpath
          unfold Variable.path at hpath
          split at hpath <;> simp at hpath
        · exact ih h
        · split at h
          · rename_i hvalue
            obtain rfl := Option.some.inj h
            exact Variable.refused_of_value hvalue
          · exact ih h

/-- Every variable that overrides something has a value that can be read. -/
def Readable (environment : Table Text Text) : Prop :=
  ∀ v ∈ environment.keys, ∀ name path, settingName? v = some name → Variable.path? name = some path →
    ∃ x, Variable.value ((environment.get? v).getD []) = .ok x

/-- If all values can be read, nothing is wrong unless names are checked. -/
theorem fault_of_readable (h : Readable environment) (hvs : ∀ v ∈ vs, v ∈ environment.keys) :
    (overridesOf false environment vs).fault = none := by
  induction vs with
  | nil => rfl
  | cons v vs ih =>
      obtain ⟨hv, hrest⟩ := List.forall_mem_cons.mp hvs
      rw [overridesOf]
      cases hname : settingName? v with
      | none => exact ih hrest
      | some name =>
          dsimp only
          cases hpath : Variable.path? name with
          | none =>
              simp only [Variable.path, hpath]
              exact ih hrest
          | some path =>
              obtain ⟨x, hx⟩ := h v hv name path hname hpath
              simp only [Variable.path, hpath, hx]
              cases path with
              | nil => exact ih hrest
              | cons segment rest => exact ih hrest

theorem overrides_cases (environment : Table Text Text) :
    overrides true environment = overrides false environment ∨
      ∃ name, (overrides true environment).fault = some (.configuration (.malformedVariable name)) :=
  overridesOf_cases environment (Text.sort environment.keys)

theorem overrides_fault_of_readable (h : Readable environment) : (overrides false environment).fault = none := by
  apply fault_of_readable h
  intro v hv
  exact (List.mergeSort_perm _ _).mem_iff.mp hv

/-- Variables that are in order are gone through as they come. -/
theorem overrides_of_sorted (h : environment.keys.Pairwise fun s t => Text.precedes s t = true) :
    overrides strict environment = overridesOf strict environment environment.keys := by
  rw [overrides, Text.sort, List.mergeSort_of_pairwise h]

end Overrides

/-! ## Checked loads -/

section Checks

variable [Schema.Validator]

/-- The overrides in effect over the layers below them, checked against the schema. -/
def checkedWith (file : Option Path) (below : Config) (changes : Changes) : Except Fault Config :=
  (checked file (applied below changes)).map fun _ => applied below changes

/-- If a check fails, the configuration is at fault. -/
theorem exists_of_checkedWith {file : Option Path} {below : Config} {changes : Changes} {fault : Fault}
    (h : checkedWith file below changes = .error fault) : ∃ f, fault = .configuration f := by
  unfold checkedWith checked at h
  split at h
  · cases h
  · exact ⟨_, (Except.error.inj h).symm⟩

theorem eq_of_checkedWith {file : Option Path} {below config : Config} {changes : Changes}
    (h : checkedWith file below changes = .ok config) : applied below changes = config := by
  unfold checkedWith checked at h
  split at h
  · exact Except.ok.inj h
  · cases h

end Checks

section Loads

variable [Yaml.Reader]

/-- The text of a file is at fault for a reason of its own: it is no text, or it has a value in it that its reader cannot
    make. -/
def TextAtFault (fs : Files) (file : Option Path) (fault : Fault) : Prop :=
  ∃ p ∈ file, ∃ f, fs.file? p = some f ∧
    (Encoding.utf8.readText? f.bytes = none ∧ fault = .undecodable ∨
      ∃ s, Encoding.utf8.readText? f.bytes = some s ∧ Yaml.Reader.read s = .error (.unreadable fault))

/-- If a file holds no configuration, the configuration is at fault, or its text for a reason of its own. -/
theorem exists_of_withFile {fs : Files} {file : Option Path} {fault : Fault} (h : withFile fs file = .error fault) :
    (∃ f, fault = .configuration f) ∨ TextAtFault fs file fault := by
  cases file with
  | none => cases h
  | some p =>
      rw [withFile] at h
      cases hdocument : ofFile fs p with
      | ok document =>
          rw [hdocument] at h
          cases h
      | error e =>
          rw [hdocument] at h
          obtain rfl : e = fault := Except.error.inj h
          unfold ofFile at hdocument
          split at hdocument
          · exact Or.inl ⟨_, (Except.error.inj hdocument).symm⟩
          · rename_i f hf
            split at hdocument
            · rename_i hdecode
              exact Or.inr ⟨p, rfl, f, hf, Or.inl ⟨hdecode, (Except.error.inj hdocument).symm⟩⟩
            · rename_i s hdecode
              split at hdocument
              · rename_i why hread
                cases why with
                | malformed problem => exact Or.inl ⟨_, (Except.error.inj hdocument).symm⟩
                | unreadable fault =>
                    obtain rfl : fault = e := Except.error.inj hdocument
                    exact Or.inr ⟨p, rfl, f, hf, Or.inr ⟨s, hdecode, hread⟩⟩
              · cases hdocument
              · split at hdocument
                · cases hdocument
                · exact Or.inl ⟨_, (Except.error.inj hdocument).symm⟩

variable [ReadingLimits] [Schema.Validator]

/-- **A checked load** goes through the file, then the variables with their names, then the schema. -/
theorem load_checked_run (w : Surroundings) (given : Given) (h : Host) :
    ((load w given true).run h).1 = (do
      let below ← withFile w.files (w.configFile? given)
      let changes ← (overrides true w.environment).complete
      checkedWith (w.configFile? given) below changes) := by
  unfold load assemble
  dsimp only
  cases withFile w.files (w.configFile? given) with
  | error fault => rfl
  | ok below =>
      cases (overrides true w.environment).complete with
      | error fault => rfl
      | ok changes =>
          show (ExceptT.run (HostM.report _ >>= _) h).1 = checkedWith (w.configFile? given) below changes
          rw [checkedWith, Fault.run_bind]
          dsimp only
          cases checked (w.configFile? given) (applied below changes) <;> rfl

/-- If all values can be read, the configuration is at fault, or the text of the file for a reason of its own. -/
theorem exists_of_load_checked {w : Surroundings} {given : Given} {h : Host} {fault : Fault}
    (hreadable : Readable w.environment) (hload : ((load w given true).run h).1 = .error fault) :
    (∃ f, fault = .configuration f) ∨ TextAtFault w.files (w.configFile? given) fault := by
  rw [load_checked_run] at hload
  cases hbelow : withFile w.files (w.configFile? given) with
  | error e =>
      rw [hbelow] at hload
      exact exists_of_withFile (hbelow.trans hload)
  | ok below =>
      rw [hbelow] at hload
      apply Or.inl
      rcases overrides_cases w.environment with heq | ⟨name, hname⟩
      · rw [heq, Overrides.complete_of_no_fault (overrides_fault_of_readable hreadable)] at hload
        exact exists_of_checkedWith hload
      · rw [Overrides.complete_of_fault hname] at hload
        exact ⟨_, (Except.error.inj hload).symm⟩

end Loads

end Config

section Agreement

variable [ReadingLimits] [Yaml.Reader] [Schema.Validator]

namespace Session

/-- A checked load when nothing is kept comes to what a load comes to then. -/
theorem loadConfig_cleared (s : Session) (given : Given) (hgiven : given = .blank → s.surroundings.namedFile? = none) :
    ((loadConfig given true).run s.clearCaches).1 = loaded s.surroundings given true := by
  have htelling : Surroundings.Telling [s.surroundings] := by
    intro w hw w' hw' p _
    rw [List.mem_singleton.mp hw, List.mem_singleton.mp hw']
  have hsound : Sound [s.surroundings] s.surroundings s.clearCaches := Sound.of_fresh s.surroundings s.host
  exact (loadConfig_reads htelling (List.mem_singleton_self s.surroundings) given hgiven true s.clearCaches hsound).1

/-- **A checked load when nothing is kept** goes through the file, then the variables without their names, then the
    variables with their names, then the schema. -/
theorem loadConfig_cleared_run (s : Session) (given : Given)
    (hgiven : given = .blank → s.surroundings.namedFile? = none)
    (hfile : ∀ p ∈ s.surroundings.configFile? given, s.surroundings.resolve p = p) :
    ((loadConfig given true).run s.clearCaches).1 = (do
      let below ← Config.withFile s.surroundings.files (s.surroundings.configFile? given)
      let changes ← (Config.overrides false s.surroundings.environment).complete
      let _ ← (Config.overrides true s.surroundings.environment).complete
      Config.checkedWith (s.surroundings.configFile? given) below changes) := by
  rw [loadConfig_cleared s given hgiven]
  have hresolve : (s.surroundings.configFile? given).map s.surroundings.resolve
      = s.surroundings.configFile? given := by
    cases hconfig : s.surroundings.configFile? given with
    | none => rfl
    | some p => exact congrArg some (hfile p hconfig)
  unfold loaded assembled Config.assemble
  rw [hresolve]
  cases Config.withFile s.surroundings.files (s.surroundings.configFile? given) with
  | error fault => rfl
  | ok below =>
      cases (Config.overrides false s.surroundings.environment).complete with
      | error fault => rfl
      | ok changes =>
          cases (Config.overrides true s.surroundings.environment).complete with
          | error fault => rfl
          | ok strictChanges =>
              show (do
                Config.checked _ (Config.applied below changes)
                return Config.applied below changes : Except Fault Config) = Config.checkedWith _ below changes
              rw [Config.checkedWith]
              cases Config.checked (s.surroundings.configFile? given) (Config.applied below changes) <;> rfl

end Session

/-- A checked load without a cache comes to what it comes to with one, or a malformed name stands before a value that
    cannot be read. -/
theorem Session.checked_cases (s : Session) {given : Given}
    (hgiven : given = .blank → s.surroundings.namedFile? = none)
    (hfile : ∀ p ∈ s.surroundings.configFile? given, s.surroundings.resolve p = p) :
    ((loadConfig given true).run s.clearCaches).1 = ((freshConfig given true).run s).1 ∨
      ∃ fault, (Config.overrides false s.surroundings.environment).fault = some fault ∧
        ((loadConfig given true).run s.clearCaches).1 = .error fault ∧
        ∃ name, ((freshConfig given true).run s).1 = .error (.configuration (.malformedVariable name)) := by
  have hfresh : ((freshConfig given true).run s).1 = ((Config.load s.surroundings given true).run s.host).1 := rfl
  rw [hfresh, loadConfig_cleared_run s given hgiven hfile, Config.load_checked_run]
  cases Config.withFile s.surroundings.files (s.surroundings.configFile? given) with
  | error fault => exact Or.inl rfl
  | ok below =>
      rcases Config.overrides_cases s.surroundings.environment with heq | ⟨name, hname⟩
      · -- the two readings of the variables give the same, so the second one finds nothing that the first one missed
        apply Or.inl
        rw [heq]
        cases (Config.overrides false s.surroundings.environment).complete <;> rfl
      · rw [Config.Overrides.complete_of_fault hname]
        cases hfault : (Config.overrides false s.surroundings.environment).fault with
        | none =>
            rw [Config.Overrides.complete_of_no_fault hfault]
            exact Or.inl rfl
        | some fault =>
            rw [Config.Overrides.complete_of_fault hfault]
            exact Or.inr ⟨fault, rfl, rfl, name, rfl⟩

/-- **With and without a cache, checked loads agree.** Let a configuration file be given or nothing be said about it, let
    the file that is given or named lead where its path says, without a tilde, a working directory or a detour, and let
    nothing be kept. If the values of all overriding variables can be read, then the two ways to load a configuration
    with checks give the same configuration or end with the same fault. It is a fault of the configuration unless the
    text of the file is at fault for a reason of its own. If a value cannot be read, the two differ at most in that the
    load with a cache reports the value and the other one a malformed name. -/
theorem checked_loads_agree (s : Session) (given : Option Path)
    (hfile : ∀ p ∈ s.surroundings.configFile? given, s.surroundings.resolve p = p) :
    let w := s.surroundings
    let cached := ((Session.loadConfig given true).run s.clearCaches).1
    let uncached := ((Session.freshConfig given true).run s).1
    (Config.Readable w.environment →
      cached = uncached ∧
        ∀ fault, uncached = .error fault →
          (∃ f, fault = .configuration f) ∨ Config.TextAtFault w.files (w.configFile? given) fault) ∧
    (cached ≠ uncached →
      ∃ fault, Config.Variable.Refused fault ∧ cached = .error fault ∧
        ∃ name, uncached = .error (.configuration (.malformedVariable name))) := by
  intro w cached uncached
  have hgiven : Given.ofPath? given = .blank → w.namedFile? = none := by cases given <;> exact nofun
  have hcases := Session.checked_cases s hgiven hfile
  constructor
  · intro hreadable
    constructor
    · rcases hcases with heq | ⟨fault, hbad, -⟩
      · exact heq
      · rw [Config.overrides_fault_of_readable hreadable] at hbad
        cases hbad
    · intro fault huncached
      exact Config.exists_of_load_checked hreadable huncached
  · intro hne
    rcases hcases with heq | ⟨fault, hbad, hcached, huncached⟩
    · exact absurd heq hne
    · exact ⟨fault, Config.refused_of_fault hbad, hcached, huncached⟩

end Agreement

/-! ### Several faults at once -/

/-- A file with an invalid depth, and a variable with an empty segment in its name. -/
def invalidAndMalformed : Surroundings :=
  ⟨Files.empty.write ⟨[['c']]⟩ (settingFile "max_partial_depth: 0".toList 0), [("WHISKER_A__".toList, ['x'])]⟩

/-- **Of two faults, both loads report the name** and not what the schema says about the file. -/
theorem checked_loads_agree_malformed :
    let s := Session.fresh invalidAndMalformed
    let given : Option Path := some ⟨[['c']]⟩
    (∀ p ∈ s.surroundings.configFile? given, s.surroundings.resolve p = p) ∧
      Config.Readable s.surroundings.environment ∧
      ((Session.loadConfig given true).run s.clearCaches).1 = ((Session.freshConfig given true).run s).1 ∧
      (match ((Session.freshConfig given true).run s).1 with
        | .error (.engine e) => e.message
        | _ => []) = "Malformed WHISKER_* key: empty segment in 'A__'".toList := by
  intro s given
  have hfile : ∀ p ∈ s.surroundings.configFile? given, s.surroundings.resolve p = p := by
    intro p hp
    obtain rfl : p = ⟨[['c']]⟩ := (Option.some.inj hp).symm
    decide
  have hreadable : Config.Readable s.surroundings.environment := by
    intro v hv name path hname hpath
    obtain rfl : v = "WHISKER_A__".toList := List.mem_singleton.mp hv
    obtain rfl : name = "A__".toList := (Option.some.inj hname).symm
    cases hpath
  exact ⟨hfile, hreadable, ((checked_loads_agree s given hfile).1 hreadable).1, by decide +kernel⟩

/-- A variable with an empty segment in its name, and a variable with an information separator before its digit. -/
def separatorBeforeDigit : Surroundings :=
  ⟨.empty, [("WHISKER_A__".toList, ['x']), ("WHISKER_B".toList, ['\x1f', '5'])]⟩

/-- **Of a bad value and a malformed name before it, the load with a cache reports the value.** The other one reports
    the name. -/
theorem checked_loads_differ :
    ((Session.loadConfig .unset true).run (Session.fresh separatorBeforeDigit).clearCaches).1 = .error .badValue ∧
      ((Session.freshConfig .unset true).run (Session.fresh separatorBeforeDigit)).1
        = .error (.configuration (.malformedVariable "A__".toList)) := by
  have hlenient : (Config.overrides false separatorBeforeDigit.environment).fault = some .badValue := by
    rw [Config.overrides_of_sorted (by decide)]
    rfl
  have hstrict : (Config.overrides true separatorBeforeDigit.environment).fault
      = some (.configuration (.malformedVariable "A__".toList)) := by
    rw [Config.overrides_of_sorted (by decide)]
    rfl
  have hfile : separatorBeforeDigit.configFile? .unset = none := by decide
  constructor
  · rw [Session.loadConfig_cleared_run _ .unset nofun]
    · show (do
        let below ← Config.withFile .empty (separatorBeforeDigit.configFile? .unset)
        let changes ← (Config.overrides false separatorBeforeDigit.environment).complete
        let _ ← (Config.overrides true separatorBeforeDigit.environment).complete
        Config.checkedWith (separatorBeforeDigit.configFile? .unset) below changes) = _
      rw [hfile, Config.Overrides.complete_of_fault hlenient]
      rfl
    · intro p hp
      replace hp : p ∈ separatorBeforeDigit.configFile? .unset := hp
      rw [hfile] at hp
      cases hp
  · show ((Config.load separatorBeforeDigit .unset true).run Host.fresh).1 = _
    rw [Config.load_checked_run, hfile, Config.Overrides.complete_of_fault hstrict]
    rfl

/-! ### A file in the home directory -/

/-- A file in the home directory of the user at work, which the environment names with a tilde. -/
def underHome : Surroundings :=
  ⟨Files.empty.write (.ofText "/h/c".toList) (settingFile "escape: none".toList 0),
    [("HOME".toList, "/h".toList), (Config.fileVariable, "~/c".toList)]⟩

/-- **A file that is named with a tilde is found by the load with a cache only**, which first follows the path to where
    it leads. -/
theorem checked_loads_differ_of_home :
    ((Session.loadConfig .unset true).run (Session.fresh underHome).clearCaches).1.toOption.isSome = true ∧
      ((Session.freshConfig .unset true).run (Session.fresh underHome)).1
        = .error (.configuration (.fileNotFound "~/c".toList)) := by
  have hnamed : underHome.configFile? .unset = some (.ofText "~/c".toList) := by decide
  have hplain (strict : Bool) : (Config.overrides strict underHome.environment).complete = .ok [] := by
    rw [Config.overrides_of_sorted (by decide)]
    cases strict <;> rfl
  constructor
  · rw [Session.loadConfig_cleared (Session.fresh underHome) .unset nofun]
    show (Session.loaded underHome .unset true).toOption.isSome = true
    rw [Session.loaded, Session.assembled, Config.assemble, hplain, hplain, hnamed]
    decide +kernel
  · have hfile : Config.withFile underHome.files (some (.ofText "~/c".toList))
        = .error (.configuration (.fileNotFound "~/c".toList)) := by
      have hnone : underHome.files.file? (.ofText "~/c".toList) = none := by decide +kernel
      rw [Config.withFile, Config.ofFile, hnone]
      rfl
    show ((Config.load underHome .unset true).run Host.fresh).1 = _
    rw [Config.load_checked_run, hnamed, hfile]
    rfl
end Mustache

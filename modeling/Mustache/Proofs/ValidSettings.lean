import Mustache.Proofs.Faults
import Mustache.Proofs.Reading
import Mustache.Session

/-!
# `Mustache.Proofs.ValidSettings` — what a checked configuration holds

A configuration that passes the check has the shape that the schema describes, if the validator goes by the schema. What
the schema says is said here of the values alone. Of the settings, the delimiters matter most, as nothing else checks
them before templates are parsed with them. The pattern that they must match looks for the end of a line, and so lets a
newline stand at the end of a delimiter.

* `Schema.Accepts` — which values fit, and `Schema.Validator.Lawful` — a validator that reports something exactly of the
  values that do not;
* `Schema.violations_eq_nil_iff` — **the validator that collects violations is lawful**;
* `Text.Marker` — what can stand for a delimiter, and `TagText.exists_declared?_iff` — **a tag can declare two
  delimiters exactly if both are markers**;
* `Schema.delimiterPattern_occurs_iff` — the texts that match the pattern of delimiters;
* `ParseSettings.delimiters_of_accepts` — the delimiters of a configuration that fits;
* `delimiters_of_checked` — **the delimiters of a configuration that was loaded with checks** are there, and they are
  markers but for a newline at the end.
-/

namespace Mustache

/-! ## Markers -/

namespace Text

/-- Some characters, none of them white space or an equals sign. -/
def Marker (s : Text) : Prop := s ≠ [] ∧ Solid s ∧ '=' ∉ s

instance (s : Text) : Decidable (Marker s) := inferInstanceAs (Decidable (_ ∧ _ ∧ _))

variable {o s : Text} {x y : Char}

theorem words_cons_of_isSpace (hx : isSpace x = true) (s : Text) : words (x :: s) = words s := by
  rw [words.eq_def]
  simp only [hx, if_true]

theorem words_cons_of_end (hx : isSpace x = false) (hy : isSpace y = true) (s : Text) :
    words (x :: y :: s) = [x] :: words s := by
  rw [words.eq_def]
  simp only [hx, hy, words_cons_of_isSpace hy, Bool.false_eq_true, if_true, if_false]

theorem words_cons_of_inside {w : Text} {ws : List Text} (hx : isSpace x = false) (hy : isSpace y = false)
    (h : words (y :: s) = w :: ws) : words (x :: y :: s) = (x :: w) :: ws := by
  rw [words.eq_def]
  simp only [hx, hy, h, Bool.false_eq_true, if_false]

/-- A word is there before a space. -/
theorem words_append_space (hne : o ≠ []) (ho : Solid o) (s : Text) : words (o ++ ' ' :: s) = o :: words s := by
  induction o with
  | nil => exact absurd rfl hne
  | cons x xs ih =>
      have hx : isSpace x = false := ho x List.mem_cons_self
      have hxs : Solid xs := fun y hy => ho y (List.mem_cons_of_mem x hy)
      cases xs with
      | nil => exact words_cons_of_end hx rfl s
      | cons y ys => exact words_cons_of_inside hx (hxs y List.mem_cons_self) (ih (List.cons_ne_nil y ys) hxs)

/-- A word is there at the end of a text. -/
theorem words_of_solid (hne : o ≠ []) (ho : Solid o) : words o = [o] := by
  induction o with
  | nil => exact absurd rfl hne
  | cons x xs ih =>
      have hx : isSpace x = false := ho x List.mem_cons_self
      have hxs : Solid xs := fun y hy => ho y (List.mem_cons_of_mem x hy)
      cases xs with
      | nil =>
          unfold words
          simp only [hx, Bool.false_eq_true, if_false]
      | cons y ys => exact words_cons_of_inside hx (hxs y List.mem_cons_self) (ih (List.cons_ne_nil y ys) hxs)

end Text

/-- **A tag can declare two delimiters exactly if both are markers.** -/
theorem TagText.exists_declared?_iff {d : Delimiters} :
    (∃ content, declared? content = some d) ↔ Text.Marker d.opening ∧ Text.Marker d.closing := by
  constructor
  · rintro ⟨content, h⟩
    have husable : d.Usable := usable_of_declared h
    unfold declared? at h
    split at h
    · split at h
      · cases h
      · rename_i hequals
        obtain rfl := Option.some.inj h
        simp only [Bool.or_eq_true, List.contains_eq_mem, decide_eq_true_eq, not_or] at hequals
        exact ⟨⟨husable.opening_ne, husable.opening_solid, hequals.1⟩,
          ⟨husable.closing_ne, husable.closing_solid, hequals.2⟩⟩
    · cases h
  · rintro ⟨⟨hone, ho, hoeq⟩, hcne, hc, hceq⟩
    refine ⟨d.opening ++ ' ' :: d.closing, ?_⟩
    rw [declared?, Text.words_append_space hone ho, Text.words_of_solid hcne hc]
    simp [hoeq, hceq]

/-! ## Values that fit -/

namespace Text

theorem endsLine_iff {s : Text} : endsLine s = true ↔ ∃ line, s = line ++ ['\n'] := by
  simp [endsLine, List.getLast?_eq_some_iff]

theorem Marker.endsLine {m : Text} (h : Marker m) : endsLine m = false := by
  rw [Bool.eq_false_iff, Ne, endsLine_iff]
  rintro ⟨line, rfl⟩
  have hspace : isSpace '\n' = false := h.2.1 '\n' (by simp)
  cases hspace

/-- A marker, possibly with a newline after it. -/
def MarkerLine (s : Text) : Prop := ∃ m, Marker m ∧ (s = m ∨ s = m ++ ['\n'])

theorem MarkerLine.marker_iff {s : Text} (h : MarkerLine s) : Marker s ↔ endsLine s = false := by
  constructor
  · exact Marker.endsLine
  · intro hend
    obtain ⟨m, hm, rfl | rfl⟩ := h
    · exact hm
    · rw [Bool.eq_false_iff, Ne, endsLine_iff] at hend
      exact absurd ⟨m, rfl⟩ hend

end Text

theorem Pattern.isOutside_iff {c : Char} :
    isOutside [.space, .only '='] c = true ↔ Text.isSpace c = false ∧ c ≠ '=' := by
  simp [isOutside, CharClass.contains]

/-- **The texts that match the pattern of delimiters** are markers, possibly with a newline after them. -/
theorem Schema.delimiterPattern_occurs_iff {s : Text} : delimiterPattern.Occurs s ↔ Text.MarkerLine s := by
  constructor
  · rintro ⟨before, found, after, hs, first, rest, hfound, ⟨rfl, rfl⟩, m, last, rfl, ⟨hne, hall⟩, finish, nothing, rfl,
      ⟨rfl, hend⟩, rfl⟩
    obtain rfl : found = m := by simpa using hfound
    obtain rfl : s = found ++ after := by simpa using hs
    have hm : Text.Marker found := by
      refine ⟨hne, fun c hc => (Pattern.isOutside_iff.mp (hall c hc)).1, fun hmem => ?_⟩
      exact (Pattern.isOutside_iff.mp (hall '=' hmem)).2 rfl
    rcases hend with rfl | rfl
    · exact ⟨found, hm, Or.inl (List.append_nil found)⟩
    · exact ⟨found, hm, Or.inr rfl⟩
  · rintro ⟨m, ⟨hne, hsolid, hequals⟩, hs⟩
    have hall : ∀ c ∈ m, Pattern.isOutside [.space, .only '='] c = true := by
      intro c hc
      refine Pattern.isOutside_iff.mpr ⟨hsolid c hc, ?_⟩
      rintro rfl
      exact hequals hc
    obtain ⟨after, hafter, rfl⟩ : ∃ after : Text, (after = [] ∨ after = ['\n']) ∧ s = m ++ after := by
      rcases hs with rfl | rfl
      · exact ⟨[], Or.inl rfl, (List.append_nil s).symm⟩
      · exact ⟨['\n'], Or.inr rfl, rfl⟩
    refine ⟨[], m, after, rfl, [], m, rfl, ⟨rfl, rfl⟩, m, [], (List.append_nil m).symm, ⟨hne, hall⟩, [], [], rfl, ?_, rfl⟩
    exact ⟨rfl, hafter⟩

namespace Schema

mutual

/-- Whether a value fits a schema. -/
def Accepts : Schema → Value → Prop
  | .object required properties, v =>
      ∃ es, v.dictEntries? = some es ∧
        (∀ k ∈ es.keys, isProperty properties k = true) ∧
        (∀ name ∈ required, es.contains (.text name) = true) ∧
        AcceptsEach properties es
  | .text nonEmpty pattern?, v =>
      ∃ s, v = .text s ∧ (nonEmpty = true → s ≠ []) ∧ ∀ p : Pattern, pattern? = some p → p.Occurs s
  | .boolean, v => ∃ b, v = .bool b
  | .integer least, v => v.isInteger = true ∧ ∀ n ∈ least, v.isBelow n = false

/-- Whether all that is there under the names of properties fits. -/
def AcceptsEach : List (Text × Schema) → Entries → Prop
  | [], _ => True
  | (name, s) :: rest, es => (∀ v, es.get? (.text name) = some v → Accepts s v) ∧ AcceptsEach rest es

end

theorem violationIf_eq_nil_iff {condition : Bool} {path : List Text} {message : Text} :
    violationIf condition path message = [] ↔ condition = false := by
  cases condition <;> simp [violationIf]

theorem unknownKeys_eq_nil_iff {properties : List (Text × Schema)} {path : List Text} {es : Entries} :
    unknownKeys properties path es = [] ↔ ∀ k ∈ es.keys, isProperty properties k = true := by
  unfold unknownKeys
  dsimp only
  rw [violationIf_eq_nil_iff, Bool.not_eq_false', List.isEmpty_iff, ← List.length_eq_zero_iff, List.length_mergeSort,
    List.length_eq_zero_iff]
  simp

theorem missingNames_eq_nil_iff {required : List Text} {path : List Text} {es : Entries} :
    missingNames required path es = [] ↔ ∀ name ∈ required, es.contains (.text name) = true := by
  unfold missingNames
  rw [List.flatMap_eq_nil_iff]
  simp only [violationIf_eq_nil_iff, Bool.not_eq_false']

theorem emptyText_eq_nil_iff {path : List Text} {s : Text} : emptyText path s = [] ↔ s ≠ [] := by
  unfold emptyText
  rw [violationIf_eq_nil_iff, List.isEmpty_eq_false_iff]

theorem unmatched_eq_nil_iff {p : Pattern} {path : List Text} {s : Text} : unmatched p path s = [] ↔ p.Occurs s := by
  unfold unmatched
  rw [violationIf_eq_nil_iff, Bool.not_eq_false', Pattern.search_iff]

mutual

/-- **A value has no violations exactly if it fits.** -/
theorem violations_eq_nil_iff (path : List Text) (v : Value) : ∀ s : Schema, violations path v s = [] ↔ Accepts s v
  | .object required properties => by
      rw [violations.eq_def, Accepts]
      cases v.dictEntries? with
      | none => simp
      | some es =>
          simp only [List.append_eq_nil_iff, unknownKeys_eq_nil_iff, missingNames_eq_nil_iff,
            propertyViolations_eq_nil_iff path es properties, Option.some.injEq, exists_eq_left', and_assoc]
  | .text nonEmpty pattern? => by
      rw [violations.eq_def, Accepts]
      cases v with
      | text s => cases nonEmpty <;> cases pattern? <;> simp [emptyText_eq_nil_iff, unmatched_eq_nil_iff]
      | _ => simp
  | .boolean => by
      rw [violations.eq_def, Accepts]
      cases v <;> simp
  | .integer least => by
      rw [violations.eq_def, Accepts]
      cases least with
      | none => simp
      | some n => simp [violationIf_eq_nil_iff]

theorem propertyViolations_eq_nil_iff (path : List Text) (es : Entries) :
    ∀ properties : List (Text × Schema), propertyViolations path es properties = [] ↔ AcceptsEach properties es
  | [] => by simp [propertyViolations, AcceptsEach]
  | (name, s) :: rest => by
      rw [propertyViolations, AcceptsEach, List.append_eq_nil_iff, propertyViolations_eq_nil_iff path es rest]
      cases hget : es.get? (.text name) with
      | none => simp
      | some v => simp [violations_eq_nil_iff (path ++ [name]) v s]

end

end Schema

theorem Violation.worst?_eq_none_iff {vs : List Violation} : worst? vs = none ↔ vs = [] := by
  cases vs <;> simp [worst?]

/-- A validator that reports something exactly of the values that do not fit. -/
class Schema.Validator.Lawful [Schema.Validator] : Prop where
  rejection?_eq_none_iff : ∀ (s : Schema) (v : Value), rejection? s v = none ↔ s.Accepts v

/-- **The validator that collects violations is lawful.** -/
instance : Schema.Validator.Lawful where
  rejection?_eq_none_iff s v := by
    rw [← Schema.violations_eq_nil_iff [], ← Violation.worst?_eq_none_iff]
    exact Option.map_eq_none_iff

/-- **A configuration passes the check exactly if it fits the schema.** -/
theorem Config.checked_eq_ok_iff [Schema.Validator] [Schema.Validator.Lawful] {file : Option Path} {config : Config} :
    Config.checked file config = .ok () ↔ Schema.configuration.Accepts config.toValue := by
  rw [← Schema.Validator.Lawful.rejection?_eq_none_iff]
  unfold Config.checked Config.check
  cases Schema.Validator.rejection? Schema.configuration config.toValue <;> simp

/-! ## Settings of a configuration that fits -/

theorem Value.eq_map_of_dictEntries? {v : Value} {es : Entries} (h : v.dictEntries? = some es) :
    ∃ kind, v = .map kind es := by
  cases v with
  | map kind entries =>
      rw [dictEntries?, Option.ite_none_right_eq_some] at h
      exact ⟨kind, congrArg (Value.map kind) (Option.some.inj h.2)⟩
  | _ => cases h

namespace Config

/-- The entries of a section or a group of settings. There are none where it is absent. -/
def entriesOf (o : Option Value) : Entries := (o.bind Value.dictEntries?).getD []

/-- A setting in a group that is a dictionary if it is there. -/
theorem setting?_orEmpty {o : Option Value} (h : ∀ v, o = some v → ∃ es, v.dictEntries? = some es) (name : String) :
    setting? name (orEmpty o) = .ok ((entriesOf o).get? (.text name.toList)) := by
  cases o with
  | none => rfl
  | some v =>
      obtain ⟨es, hes⟩ := h v rfl
      have hentries : entriesOf (some v) = es := by simp [entriesOf, hes]
      rw [hentries]
      obtain ⟨kind, rfl⟩ := Value.eq_map_of_dictEntries? hes
      cases es with
      | nil => rfl
      | cons e es => rfl

end Config

namespace Schema

variable {required : List Text} {properties : List (Text × Schema)} {name : Text} {s : Schema} {es : Entries} {v : Value}

theorem AcceptsEach.of_mem (h : AcceptsEach properties es) (hmem : (name, s) ∈ properties)
    (hv : es.get? (.text name) = some v) : s.Accepts v := by
  induction properties with
  | nil => cases hmem
  | cons p rest ih =>
      obtain ⟨hp, hrest⟩ := h
      rcases List.mem_cons.mp hmem with heq | hmem
      · obtain ⟨rfl, rfl⟩ := Prod.mk.inj heq
        exact hp v hv
      · exact ih hrest hmem

/-- What is in a group of settings fits, whether the group is there or not. -/
theorem accepts_of_group {o : Option Value} (h : ∀ v, o = some v → (object required properties).Accepts v)
    (hmem : (name, s) ∈ properties) (hv : (Config.entriesOf o).get? (.text name) = some v) : s.Accepts v := by
  cases o with
  | none => cases hv
  | some group =>
      obtain ⟨es, hes, -, -, heach⟩ := h group rfl
      have hentries : Config.entriesOf (some group) = es := by simp [Config.entriesOf, hes]
      rw [hentries] at hv
      exact heach.of_mem hmem hv

theorem dictEntries?_of_accepts (h : (object required properties).Accepts v) : ∃ es, v.dictEntries? = some es := by
  obtain ⟨es, hes, -⟩ := h
  exact ⟨es, hes⟩

end Schema

/-- A delimiter that fits or else is the default one. -/
theorem Text.markerLine_of_accepts {o : Option Value} {default : Text}
    (h : ∀ v, o = some v → Schema.delimiter.Accepts v) (hdefault : Text.Marker default) :
    Text.MarkerLine ((o.map Value.str).getD default) := by
  cases o with
  | none => exact ⟨default, hdefault, Or.inl rfl⟩
  | some v =>
      obtain ⟨s, rfl, -, hpattern⟩ := h v rfl
      exact Schema.delimiterPattern_occurs_iff.mp (hpattern _ rfl)

namespace ParseSettings

/-- The section for parsing, if it is there. -/
def section? (config : Value) : Option Value := (Config.entriesOf (some config)).get? (.text "template".toList)

/-- The group of the delimiters, if it is there. -/
def group? (config : Value) : Option Value := (Config.entriesOf (section? config)).get? (.text "delimiters".toList)

/-- Where configuration, section and group are dictionaries, as far as they are there, the delimiters are read off the
    entries of the group. -/
theorem delimiters_eq {config : Value} (hconfig : ∃ es, config.dictEntries? = some es)
    (hsection : ∀ v, section? config = some v → ∃ es, v.dictEntries? = some es)
    (hgroup : ∀ v, group? config = some v → ∃ es, v.dictEntries? = some es) :
    delimiters config = .ok
      ⟨(((Config.entriesOf (group? config)).get? (.text "open".toList)).map Value.str).getD Delimiters.braces.opening,
        (((Config.entriesOf (group? config)).get? (.text "close".toList)).map Value.str).getD
          Delimiters.braces.closing⟩ := by
  have hpart : part config = .ok (Config.orEmpty (section? config)) := by
    obtain ⟨es, hes⟩ := hconfig
    obtain ⟨kind, rfl⟩ := Value.eq_map_of_dictEntries? hes
    rw [part, section?, Config.entriesOf, Option.bind_some, hes]
    rfl
  have hpair : Config.setting? "delimiters" (Config.orEmpty (section? config)) = .ok (group? config) :=
    Config.setting?_orEmpty hsection "delimiters"
  unfold delimiters
  rw [hpart]
  show (do
    let v ← Config.setting? "delimiters" (Config.orEmpty (section? config))
    let opening ← Config.setting? "open" (Config.orEmpty v)
    let closing ← Config.setting? "close" (Config.orEmpty v)
    return ⟨(opening.map Value.str).getD Delimiters.braces.opening,
      (closing.map Value.str).getD Delimiters.braces.closing⟩ : Except Fault Delimiters) = _
  rw [hpair]
  show (do
    let opening ← Config.setting? "open" (Config.orEmpty (group? config))
    let closing ← Config.setting? "close" (Config.orEmpty (group? config))
    return ⟨(opening.map Value.str).getD Delimiters.braces.opening,
      (closing.map Value.str).getD Delimiters.braces.closing⟩ : Except Fault Delimiters) = _
  rw [Config.setting?_orEmpty hgroup, Config.setting?_orEmpty hgroup]
  rfl

/-- **The delimiters of a configuration that fits** are there, and each is a marker, possibly with a newline. -/
theorem delimiters_of_accepts {config : Value} (h : Schema.configuration.Accepts config) :
    ∃ d, delimiters config = .ok d ∧ Text.MarkerLine d.opening ∧ Text.MarkerLine d.closing := by
  have hconfig : ∀ v, some config = some v → Schema.configuration.Accepts v := fun v hv => Option.some.inj hv ▸ h
  have hsection := fun v (hv : section? config = some v) => Schema.accepts_of_group hconfig List.mem_cons_self hv
  have hgroup := fun v (hv : group? config = some v) => Schema.accepts_of_group hsection List.mem_cons_self hv
  refine ⟨_, delimiters_eq (Schema.dictEntries?_of_accepts h) (fun v hv => Schema.dictEntries?_of_accepts (hsection v hv))
    (fun v hv => Schema.dictEntries?_of_accepts (hgroup v hv)), ?_, ?_⟩
  · apply Text.markerLine_of_accepts ?_ (by decide)
    intro v hv
    exact Schema.accepts_of_group hgroup List.mem_cons_self hv
  · apply Text.markerLine_of_accepts ?_ (by decide)
    intro v hv
    exact Schema.accepts_of_group hgroup (List.mem_cons_of_mem _ List.mem_cons_self) hv

end ParseSettings

/-! ## Checked loads -/

section Loads

variable [ReadingLimits] [Yaml.Reader] [Schema.Validator]

/-- What a load with checks gives has passed the check, wherever it was kept before. -/
theorem Session.checked_of_loadConfig {s : Session} {given : Given} {config : Config}
    (h : ((loadConfig given true).run s).1 = .ok config) :
    Config.checked (s.surroundings.configFile? given) config = .ok () := by
  have hrun : (loadConfig given true).run s = ExceptT.run (do
      let config ← cachedConfig (.ofPath? (s.surroundings.configFile? given)) false
      let _ ← SessionM.lift (Config.overrides true s.surroundings.environment).complete
      SessionM.lift (Config.checked (s.surroundings.configFile? given) config)
      return config : SessionM Config) s := rfl
  rw [hrun, Fault.run_bind] at h
  rcases hcached : (cachedConfig (.ofPath? (s.surroundings.configFile? given)) false).run s with ⟨fault | found, t⟩
  · rw [hcached] at h
    cases h
  · rw [hcached] at h
    dsimp only at h
    rw [Fault.run_bind] at h
    cases hnames : (Config.overrides true s.surroundings.environment).complete with
    | error fault =>
        rw [hnames] at h
        cases h
    | ok changes =>
        rw [hnames] at h
        cases hchecked : Config.checked (s.surroundings.configFile? given) found with
        | error fault =>
            rw [hchecked] at h
            cases h
        | ok u =>
            rw [hchecked] at h
            obtain rfl : found = config := Except.ok.inj h
            exact hchecked

/-- **The delimiters of a configuration that was loaded with checks.** Let the validator report something exactly of the
    values that do not fit. Whatever the environment and the files, whatever reads them, and whatever the session keeps:
    if a load with checks gives a configuration, then its delimiters are there, and each is a marker, possibly with a
    newline after it. If no newline is after either of them, both are markers, and a tag can declare them. -/
theorem delimiters_of_checked [Schema.Validator.Lawful] (s : Session) (given : Given) {config : Config}
    (h : ((Session.loadConfig given true).run s).1 = .ok config) :
    ∃ d, ParseSettings.delimiters config.toValue = .ok d ∧
      Text.MarkerLine d.opening ∧ Text.MarkerLine d.closing ∧
      (Text.endsLine d.opening = false → Text.endsLine d.closing = false →
        Text.Marker d.opening ∧ Text.Marker d.closing ∧ ∃ content, TagText.declared? content = some d) := by
  have hfits : Schema.configuration.Accepts config.toValue :=
    Config.checked_eq_ok_iff.mp (Session.checked_of_loadConfig h)
  obtain ⟨d, hd, hopening, hclosing⟩ := ParseSettings.delimiters_of_accepts hfits
  refine ⟨d, hd, hopening, hclosing, ?_⟩
  intro hopen hclose
  have ho : Text.Marker d.opening := hopening.marker_iff.mpr hopen
  have hc : Text.Marker d.closing := hclosing.marker_iff.mpr hclose
  exact ⟨ho, hc, TagText.exists_declared?_iff.mpr ⟨ho, hc⟩⟩

end Loads

/-! ### Delimiters in a variable -/

/-- A variable that sets both delimiters at once. -/
def delimitersVariable (json : Text) : Surroundings := ⟨.empty, [("WHISKER_TEMPLATE__DELIMITERS".toList, json)]⟩

/-- The delimiters that a load with checks gives, if it gives any. -/
def checkedDelimiters? (w : Surroundings) : Option Delimiters :=
  ((Session.loadConfig .unset true).run (Session.fresh w)).1.toOption.bind fun config =>
    (ParseSettings.delimiters config.toValue).toOption

theorem eq_ok_of_toOption {ε α : Type} {o : Except ε α} {v : α} (h : o.toOption = some v) : o = .ok v := by
  cases o with
  | error e => cases h
  | ok w => exact congrArg Except.ok (Option.some.inj h)

/-- Delimiters that a variable sets in place of the default ones. -/
theorem delimiters_of_checked_variable :
    ∃ config,
      ((Session.loadConfig .unset true).run
        (Session.fresh (delimitersVariable "\x7b\"open\": \"<%\", \"close\": \"%>\"\x7d".toList))).1 = .ok config ∧
      ∃ d, ParseSettings.delimiters config.toValue = .ok d ∧ d = ⟨"<%".toList, "%>".toList⟩ ∧
        Text.MarkerLine d.opening ∧ Text.MarkerLine d.closing ∧
        Text.endsLine d.opening = false ∧ Text.endsLine d.closing = false ∧
        (Text.Marker d.opening ∧ Text.Marker d.closing ∧ ∃ content, TagText.declared? content = some d) := by
  have hgiven : checkedDelimiters? (delimitersVariable "\x7b\"open\": \"<%\", \"close\": \"%>\"\x7d".toList)
      = some ⟨"<%".toList, "%>".toList⟩ := by
    decide +kernel
  obtain ⟨config, hconfig, hdelimiters⟩ := Option.bind_eq_some_iff.mp hgiven
  have hload := eq_ok_of_toOption hconfig
  obtain ⟨d, hd, hopening, hclosing, husable⟩ := delimiters_of_checked _ .unset hload
  obtain rfl : d = ⟨"<%".toList, "%>".toList⟩ := Except.ok.inj (hd.symm.trans (eq_ok_of_toOption hdelimiters))
  exact ⟨config, hload, _, hd, rfl, hopening, hclosing, by decide, by decide, husable (by decide) (by decide)⟩

/-- **A newline at the end of a delimiter passes the check**, though it is white space. -/
theorem delimiters_with_newline :
    checkedDelimiters? (delimitersVariable "\x7b\"open\": \"<%\\n\", \"close\": \"%>\"\x7d".toList)
        = some ⟨"<%\n".toList, "%>".toList⟩ ∧
      ¬ Text.Marker "<%\n".toList := by
  decide +kernel

end Mustache

import Mustache.Proofs.Directory
import Mustache.Proofs.Layers
import Mustache.Proofs.Search
import Mustache.Proofs.Spelling

/-!
# `Mustache.Proofs.Priority` — the environment over the file

A variable names a path in upper case with underscores, and a dotted key names a path as it is. Between the two, the
variable is split, its segments are put in lower case, names are matched to them, and a dotted key is looked up by
names alone.

* `Text.splitOnTwice_join` — the segments of a name are found again between its double underscores;
* `Config.overriding_variableOf` — the variable of a path overrides what stands at that path;
* `Config.spelling_of_speltAlike` — the names on the way are the segments themselves if none differs in case only;
* `Config.changes_of_only` — what there is to change if one variable only overrides a setting;
* `environment_prevails` — **what the environment says is what is read**, if no dictionary comes twice on the way, and
  no name differs from its segment in case only.
-/

namespace Mustache

/-! ## Names of variables -/

namespace Text

variable {sep : Char} {s t : Text} {ts : List Text}

theorem splitOnTwice_of_clear (h : ¬ [sep, sep] <:+: s) : splitOnTwice sep s = [s] := by
  induction s with
  | nil => rfl
  | cons c s ih =>
      cases s with
      | nil => rfl
      | cons d s =>
          have hne : ¬(c = sep ∧ d = sep) := by
            rintro ⟨hc, hd⟩
            rw [hc, hd] at h
            exact h (List.prefix_append [sep, sep] s).isInfix
          rw [splitOnTwice, if_neg hne, ih fun hs => h (hs.trans (List.infix_cons List.infix_rfl))]

/-- A part that neither has two separators in a row nor ends with one is the first part. -/
theorem splitOnTwice_append (h : ¬ [sep, sep] <:+: s ++ [sep]) (t : Text) :
    splitOnTwice sep (s ++ sep :: sep :: t) = s :: splitOnTwice sep t := by
  induction s with
  | nil => rw [List.nil_append, splitOnTwice, if_pos ⟨rfl, rfl⟩]
  | cons c s ih =>
      have hrest := ih fun hs => h (hs.trans (List.infix_cons List.infix_rfl))
      cases s with
      | nil =>
          have hne : ¬(c = sep ∧ sep = sep) := by
            rintro ⟨hc, -⟩
            rw [hc] at h
            exact h List.infix_rfl
          rw [List.nil_append] at hrest
          rw [List.singleton_append, splitOnTwice, if_neg hne, hrest]
      | cons d s =>
          have hne : ¬(c = sep ∧ d = sep) := by
            rintro ⟨hc, hd⟩
            rw [hc, hd] at h
            exact h (List.prefix_append [sep, sep] (s ++ [sep])).isInfix
          rw [List.cons_append] at hrest
          rw [List.cons_append, List.cons_append, splitOnTwice, if_neg hne, hrest]

/-- **Parts joined by two separators are found again**, if none of them has two in a row or ends with one. -/
theorem splitOnTwice_join (hne : ts ≠ []) (h : ∀ t ∈ ts, ¬ [sep, sep] <:+: t ++ [sep]) :
    splitOnTwice sep (join [sep, sep] ts) = ts := by
  induction ts with
  | nil => exact absurd rfl hne
  | cons t ts ih =>
      obtain ⟨ht, hts⟩ := List.forall_mem_cons.mp h
      cases ts with
      | nil => exact splitOnTwice_of_clear fun hs => ht (hs.trans (List.prefix_append t [sep]).isInfix)
      | cons u us =>
          have hrest := ih (List.cons_ne_nil u us) hts
          rw [join, List.append_assoc]
          show splitOnTwice sep (t ++ sep :: sep :: join [sep, sep] (u :: us)) = _
          rw [splitOnTwice_append ht, hrest]

/-- If no part but the first is empty, no two separators stand in a row and none ends the text. -/
theorem clear_of_splitOn (h : [] ∉ (splitOn sep s).tail) : ¬ [sep, sep] <:+: s ++ [sep] := by
  induction s with
  | nil => exact fun hinside => absurd hinside.length_le (Nat.not_succ_le_self 1)
  | cons c s ih =>
      rw [List.cons_append, List.infix_cons_iff, List.cons_prefix_cons]
      by_cases hc : c = sep
      · rw [splitOn, if_pos hc, List.tail_cons] at h
        rintro (⟨-, hnext⟩ | hinside)
        · -- after a separator there would be an empty part
          cases s with
          | nil => exact h List.mem_cons_self
          | cons d s =>
              obtain ⟨hd, -⟩ := List.cons_prefix_cons.mp hnext
              rw [splitOn, if_pos hd.symm] at h
              exact h List.mem_cons_self
        · exact ih (fun hmem => h (List.mem_of_mem_tail hmem)) hinside
      · rintro (⟨hsep, -⟩ | hinside)
        · exact hc hsep.symm
        · refine ih (fun hmem => h ?_) hinside
          rw [splitOn, if_neg hc]
          split
          · rename_i hnil
            rw [hnil] at hmem
            cases hmem
          · rename_i hparts
            rwa [hparts] at hmem

/-- The separator of several parts is found. -/
theorem breakOn_join_isSome {pat : Text} (h : 2 ≤ ts.length) : (breakOn pat (join pat ts)).isSome = true := by
  match ts, h with
  | t :: u :: us, _ =>
      rw [join, Option.isSome_iff_ne_none]
      intro hnone
      obtain ⟨hne, hclear⟩ := breakOn_eq_none_iff.mp hnone
      have hhere := (clear_append.mp (clear_append.mp hclear).1).2
      rw [List.append_nil] at hhere
      refine hhere 0 (List.length_pos_of_ne_nil hne) ?_
      exact List.prefix_append pat _

end Text

namespace Config

/-- A segment of a path: letters and digits of ASCII in lower case, with single underscores between them. -/
def Segment (s : Text) : Prop :=
  (s.all fun c => c.isLower || c.isDigit || c == '_') = true ∧ [] ∉ Text.splitOn '_' s

instance (s : Text) : Decidable (Segment s) := inferInstanceAs (Decidable (_ ∧ _))

/-- The variable that sets what stands at a path. -/
def variableOf (path : List Text) : Text := variableStem ++ Text.join ['_', '_'] (path.map Text.upper)

section Variables

variable {s : Text} {path : List Text}

theorem Segment.ascii (h : Segment s) : ∀ c ∈ s, c.toNat < 0x80 ∧ c.isUpper = false := by
  intro c hc
  have hascii : c.toNat < 0x80 := by
    have hbound {last : Char} (hlast : last.toNat < 0x80) (hle : decide (c.val ≤ last.val) = true) : c.toNat < 0x80 :=
      Nat.lt_of_le_of_lt (UInt32.le_iff_toNat_le.mp (of_decide_eq_true hle)) hlast
    have hall := List.all_eq_true.mp h.1 c hc
    rw [Bool.or_eq_true, Bool.or_eq_true, beq_iff_eq] at hall
    rcases hall with (hlower | hdigit) | rfl
    · exact hbound (by decide) (Bool.and_eq_true_iff.mp hlower).2
    · exact hbound (by decide) (Bool.and_eq_true_iff.mp hdigit).2
    · decide
  have hupper : ∀ n < 0x80, ((Char.ofNat n).isLower || (Char.ofNat n).isDigit || Char.ofNat n == '_') = true →
      (Char.ofNat n).isUpper = false := by
    decide
  exact ⟨hascii, Text.forall_ascii (P := fun c => (c.isLower || c.isDigit || c == '_') = true → c.isUpper = false)
    hupper hascii (List.all_eq_true.mp h.1 c hc)⟩

theorem Segment.lower_upper (h : Segment s) : Text.lower (Text.upper s) = s := Text.lower_upper h.ascii

theorem Segment.lower (h : Segment s) : Text.lower s = s := by
  rw [← h.lower_upper, Text.lower_lower]

theorem Segment.ne_nil (h : Segment s) : s ≠ [] := by
  rintro rfl
  exact h.2 List.mem_cons_self

theorem Segment.not_mem_dot (h : Segment s) : '.' ∉ s := by
  intro hmem
  exact absurd (List.all_eq_true.mp h.1 '.' hmem) (by decide)

theorem Segment.upper_eq_map (h : Segment s) : Text.upper s = s.map Char.toUpper := by
  rw [Text.upper, List.map_eq_flatMap]
  apply List.flatMap_congr
  intro c hc
  rw [Text.upperChar, if_pos (h.ascii c hc).1]

/-- Upper case makes no underscores. -/
theorem Segment.upper_clear (h : Segment s) : ¬ ['_', '_'] <:+: Text.upper s ++ ['_'] := by
  have hchar : ∀ n < 0x80, (Char.ofNat n).toUpper = '_' → Char.ofNat n = '_' := by decide
  have hunderscore : ∀ c ∈ s ++ ['_'], c.toUpper = '_' → c = '_' := by
    intro c hc
    rcases List.mem_append.mp hc with hc | hc
    · exact Text.forall_ascii (P := fun c => c.toUpper = '_' → c = '_') hchar (h.ascii c hc).1
    · exact fun _ => List.mem_singleton.mp hc
  have hmap : Text.upper s ++ ['_'] = (s ++ ['_']).map Char.toUpper := by
    rw [h.upper_eq_map, List.map_append]
    rfl
  rw [hmap]
  -- two underscores in a row in upper case come from two underscores in a row in the segment
  rintro ⟨before, after, heq⟩
  obtain ⟨l, l', hl, hpair, -⟩ := List.map_eq_append_iff.mp heq.symm
  obtain ⟨l'', pair, rfl, -, hpair⟩ := List.map_eq_append_iff.mp hpair
  have hinside : pair <:+: s ++ ['_'] := ⟨l'', l', hl.symm⟩
  obtain ⟨c, ds, rfl, hc, hpair⟩ := List.map_eq_cons_iff.mp hpair
  obtain ⟨d, es, rfl, hd, hnil⟩ := List.map_eq_cons_iff.mp hpair
  obtain rfl := List.map_eq_nil_iff.mp hnil
  obtain rfl := hunderscore c (hinside.subset List.mem_cons_self) hc
  obtain rfl := hunderscore d (hinside.subset (List.mem_cons_of_mem _ List.mem_cons_self)) hd
  exact Text.clear_of_splitOn (fun hmem => h.2 (List.mem_of_mem_tail hmem)) hinside

theorem Segment.upper_ne_nil (h : Segment s) : Text.upper s ≠ [] := by
  intro hnil
  apply h.ne_nil
  rw [← h.lower_upper, hnil]
  rfl

/-- **The variable of a path** overrides what stands at that path. -/
theorem overriding_variableOf (hlength : 2 ≤ path.length) (h : ∀ s ∈ path, Segment s) :
    Overriding (variableOf path) ∧ pathOf (variableOf path) = path := by
  have hne : path.map Text.upper ≠ [] := by
    intro hnil
    rw [List.map_eq_nil_iff.mp hnil] at hlength
    exact absurd hlength (by decide)
  have hdrop : (variableOf path).drop variableStem.length = Text.join ['_', '_'] (path.map Text.upper) :=
    List.drop_left
  have hclear : ∀ t ∈ path.map Text.upper, ¬ ['_', '_'] <:+: t ++ ['_'] := by
    intro t ht
    obtain ⟨s, hs, rfl⟩ := List.mem_map.mp ht
    exact (h s hs).upper_clear
  have hsegments : Variable.segments ((variableOf path).drop variableStem.length) = path.map Text.upper := by
    rw [hdrop, Variable.segments, Text.splitOnTwice_join hne hclear, if_pos]
    exact Text.breakOn_join_isSome (by simpa using hlength)
  refine ⟨⟨List.prefix_append _ _, ?_, ?_⟩, ?_⟩
  · -- the name of the variable for the file has one segment only
    intro hfile
    have hone : Variable.segments (fileVariable.drop variableStem.length) = ["CONFIG".toList] := by decide
    rw [hfile, hone] at hsegments
    have hcount := congrArg List.length hsegments
    rw [List.length_map] at hcount
    exact absurd (hcount ▸ hlength) (by decide)
  · rw [hsegments]
    intro hmem
    obtain ⟨s, hs, hnil⟩ := List.mem_map.mp hmem
    exact (h s hs).upper_ne_nil hnil
  · rw [pathOf, hsegments, List.map_map, List.map_congr_left (g := id), List.map_id]
    exact fun s hs => (h s hs).lower_upper

end Variables

/-! ## Names on the way -/

/-- No name on the way along a path differs from its segment in case only. -/
def SpeltAlike (st : Graph.Store) : Graph.Place → List Text → Prop
  | _, [] => True
  | place, segment :: path =>
      (∀ name ∈ (Table.keys (st.entries place)).filterMap Key.text?, Text.lower name = segment → name = segment) ∧
        ∀ within ∈ within? st place segment, SpeltAlike st within path

instance decidableSpeltAlike (st : Graph.Store) :
    (place : Graph.Place) → (path : List Text) → Decidable (SpeltAlike st place path)
  | _, [] => isTrue trivial
  | _, _ :: path =>
      have := fun within => decidableSpeltAlike st within path
      inferInstanceAs (Decidable (_ ∧ _))

section Spelling

variable {st : Graph.Store} {place : Graph.Place} {path : List Text}

theorem spelling_of_speltAlike (h : SpeltAlike st place path) : spelling st place path = path := by
  induction path generalizing place with
  | nil => rfl
  | cons segment path ih =>
      obtain ⟨hnames, hrest⟩ := h
      have hname : matchedName (st.entries place) segment = segment := by
        rcases matchedName_cases (st.entries place) segment with ⟨hmem, hlower⟩ | ⟨hself, -⟩
        · exact hnames _ (List.mem_filterMap.mpr ⟨_, hmem, rfl⟩) hlower
        · exact hself
      cases hin : within? st place segment with
      | none => rw [spelling_of_no_within hin, hname]
      | some within => rw [spelling_of_within hin, hname, ih (hrest within hin)]

theorem lower_spelling (h : InLowerCase path) : (spelling st place path).map Text.lower = path := by
  induction path generalizing place with
  | nil => rfl
  | cons segment path ih =>
      obtain ⟨hsegment, hrest⟩ := List.forall_mem_cons.mp h
      cases hin : within? st place segment with
      | none =>
          rw [spelling_of_no_within hin, List.map_cons, lower_matchedName hsegment, List.map_congr_left hrest,
            List.map_id']
      | some within => rw [spelling_of_within hin, List.map_cons, lower_matchedName hsegment, ih hrest]

end Spelling

/-! ## Dotted keys -/

/-- Parts without points are found again in a dotted key. -/
theorem dotted?_join {path : List Text} (hne : path ≠ []) (h : ∀ s ∈ path, '.' ∉ s) (config : Config) :
    config.dotted? (Text.join ['.'] path) = config.at? path := by
  rw [dotted?, Text.splitOn_join hne h]

/-- Names that are segments but for their case have no points. -/
theorem not_mem_dot_of_lower {names path : List Text} (h : ∀ s ∈ path, Segment s)
    (hnames : names.map Text.lower = path) : ∀ name ∈ names, '.' ∉ name := by
  intro name hname hdot
  have hlower : Text.lower name ∈ path := hnames ▸ List.mem_map_of_mem hname
  exact (h _ hlower).not_mem_dot (Text.mem_lower_of_mem (by decide) hdot)

/-! ## One override -/

theorem mem_keys_of_get? {environment : Table Text Text} {name text : Text} (h : environment.get? name = some text) :
    name ∈ Table.keys environment := by
  rw [Table.get?_eq_find?] at h
  obtain ⟨e, hfind, -⟩ := Option.map_eq_some_iff.mp h
  have hname : e.1 = name := eq_of_beq (List.find?_some hfind :)
  exact hname ▸ List.mem_map_of_mem (List.mem_of_find?_eq_some hfind)

/-- If one variable only overrides a setting, all changes are that of this variable, and there is one. -/
theorem changes_of_only [ReadingLimits] {environment : Table Text Text} {name text : Text} {v : Value}
    (hname : Overriding name) (hget : environment.get? name = some text) (hvalue : Variable.value text = .ok v)
    (honly : ∀ n ∈ Table.keys environment, Overriding n → n = name) :
    ∃ changes, (overrides false environment).complete = .ok changes ∧ changes ≠ [] ∧
      ∀ c ∈ changes, c = (pathOf name, v) := by
  have hread : Variable.value ((environment.get? name).getD []) = .ok v := by rw [hget, Option.getD_some, hvalue]
  have hreadable : Readable environment := by
    rw [readable_iff]
    intro n hn hoverriding
    exact ⟨v, honly n hn hoverriding ▸ hread⟩
  have hchanges := forall₂_overrides hreadable
  have hmem : name ∈ overriding environment :=
    List.mem_filter.mpr ⟨mem_sort.mpr (mem_keys_of_get? hget), decide_eq_true hname⟩
  refine ⟨_, Overrides.complete_of_no_fault (overrides_fault_of_readable hreadable), ?_, ?_⟩
  · intro hnil
    have hlength := hchanges.length_eq
    rw [hnil, List.length_nil] at hlength
    rw [List.eq_nil_of_length_eq_zero hlength] at hmem
    cases hmem
  · -- changes and variables stand one against the other, and all these variables are the one
    intro c hc
    obtain ⟨i, hi, rfl⟩ := List.getElem_of_mem hc
    have hi' : i < (overriding environment).length := hchanges.length_eq ▸ hi
    obtain ⟨hpath, hchange⟩ := hchanges.get hi' hi
    obtain ⟨hn, hoverriding⟩ := List.mem_filter.mp (List.get_mem (overriding environment) ⟨i, hi'⟩)
    rw [honly _ (mem_sort.mp hn) (of_decide_eq_true hoverriding)] at hpath hchange
    exact Prod.ext hpath (Except.ok.inj (hchange.symm.trans hread))

end Config

/-! ## The environment over the file -/

section Sessions

variable [ReadingLimits] [Yaml.Reader] [Schema.Validator]

/-- In a sound session a setting is looked up in what would be loaded. -/
theorem Session.setting_reads {W : List Surroundings} {w : Surroundings} (hW : Surroundings.Telling W) (hw : w ∈ W)
    (given : Given) (hgiven : given = .blank → w.namedFile? = none) (key : Text) :
    Reads W w (do return Config.dotted? (← loaded w given false) key) (setting given key) :=
  (loadConfig_reads hW hw given hgiven false).bind fun _ _ => .pure _

/-- The layers with one override on top. -/
theorem Session.loaded_of_only {w : Surroundings} {given : Given} {below : Config} {changes : Config.Changes}
    (hfile : Config.withFile w.files ((w.configFile? given).map w.resolve) = .ok below)
    (hchanges : (Config.overrides false w.environment).complete = .ok changes) :
    loaded w given false = .ok (Config.applied below changes) := by
  rw [loaded, assembled, Config.assemble, hfile, hchanges]
  rfl

/-- After any actions a session is sound in the surroundings that it has come to. -/
theorem Session.sound_after {w : Surroundings} {h : Host} {before : List Action} {s : Session}
    (hs : ((Action.runAll before).run { fresh w with host := h }).2 = s)
    (hW : Surroundings.Telling (Action.worlds w before)) :
    s.surroundings ∈ Action.worlds w before ∧ Sound (Action.worlds w before) s.surroundings s := by
  have hfresh : Sound (Action.worlds w before) w { fresh w with host := h } := .of_fresh w h
  have hafter := Action.runAll_sound hW before (fun _ hv => hv) hfresh
  have hlast := (Action.worlds_append w before []).2
  rw [hs] at hafter
  rw [List.append_nil, ← hafter.surroundings] at hlast
  rw [← hafter.surroundings] at hafter
  exact ⟨hlast _ (Action.head_mem_worlds _ []), hafter⟩

/-- **The environment has the highest priority**, but for the case of names. Let any actions have been taken in a
    session, with files whose stamps tell their contents apart. Let there be one variable only that overrides a setting,
    let its path have at least two segments, and let its value be readable and the file load, if there is one, without a
    dictionary that comes twice on the way. Then the value is what stands under the dotted key of the names that the
    segments mean. These are the segments in some case, and they are the segments themselves if no name on the way
    differs from its segment in case only. -/
theorem environment_prevails {w : Surroundings} {h : Host} {before : List Action} {s : Session}
    (hs : ((Action.runAll before).run { Session.fresh w with host := h }).2 = s)
    (hW : Surroundings.Telling (Action.worlds w before)) {path : List Text} (hlength : 2 ≤ path.length)
    (hpath : ∀ segment ∈ path, Config.Segment segment) {text : Text}
    (hget : s.surroundings.environment.get? (Config.variableOf path) = some text)
    (honly : ∀ name ∈ Table.keys s.surroundings.environment,
      Config.Overriding name → name = Config.variableOf path)
    {v : Value} (hvalue : Config.Variable.value text = .ok v) {given : Given}
    (hgiven : given = .blank → s.surroundings.namedFile? = none) {below : Config}
    (hfile : Config.withFile s.surroundings.files
      ((s.surroundings.configFile? given).map s.surroundings.resolve) = .ok below)
    (hway : (Config.way below.store below.root path).Nodup) :
    let names := Config.spelling below.store below.root path
    names.map Text.lower = path ∧
      ((Session.setting given (Text.join ['.'] names)).run s).1 = .ok (some v) ∧
      (Config.SpeltAlike below.store below.root path →
        ((Session.setting given (Text.join ['.'] path)).run s).1 = .ok (some v)) := by
  intro names
  obtain ⟨hnow, hsound⟩ := Session.sound_after hs hW
  obtain ⟨hname, hpathOf⟩ := Config.overriding_variableOf hlength hpath
  obtain ⟨changes, hcomplete, hsome, hall⟩ := Config.changes_of_only hname hget hvalue honly
  rw [hpathOf] at hall
  have hlower : Config.InLowerCase path := fun segment hsegment => (hpath segment hsegment).lower
  have hne : path ≠ [] := by
    rintro rfl
    exact absurd hlength (by decide)
  have hspelt : names.map Text.lower = path := Config.lower_spelling hlower
  have hread : ((Session.setting given (Text.join ['.'] names)).run s).1 = .ok (some v) := by
    rw [(Session.setting_reads hW hnow given hgiven _ s hsound).1, Session.loaded_of_only hfile hcomplete]
    have hnames : names ≠ [] := by
      intro hnil
      rw [hnil] at hspelt
      exact hne hspelt.symm
    obtain ⟨hclosed, hdict⟩ := Config.closed_of_withFile hfile
    have hdotted := Config.dotted?_join hnames (Config.not_mem_dot_of_lower hpath hspelt) (Config.applied below changes)
    rw [Config.at?_applied_spelling ⟨hclosed, hdict, hway⟩ hlower hne hall hsome] at hdotted
    exact congrArg Except.ok hdotted
  refine ⟨hspelt, hread, fun halike => ?_⟩
  have hsame : names = path := Config.spelling_of_speltAlike halike
  rwa [hsame] at hread

end Sessions

/-! ### Files on the way -/

/-- A file with some text is given and read, and then the escape policy is overridden. -/
def overriddenAfter (text : String) : List Action :=
  [.writeFile ⟨[['c']]⟩ ⟨Text.utf8 text.toList, 0⟩, .setting (.path ⟨[['c']]⟩) ['a'],
    .setVariable "WHISKER_RENDER__ESCAPE".toList "latex".toList]

/-- The path of the escape policy. -/
def escapePath : List Text := ["render".toList, "escape".toList]

/-- **Over a scalar on the way** the policy of the environment is read. -/
theorem environment_prevails_scalar :
    ∃ s below,
      ((Action.runAll (overriddenAfter "render: 5")).run { Session.fresh ⟨.empty, []⟩ with host := .fresh }).2 = s ∧
      Surroundings.Telling (Action.worlds ⟨.empty, []⟩ (overriddenAfter "render: 5")) ∧
      s.surroundings.environment.get? (Config.variableOf escapePath) = some "latex".toList ∧
      (∀ name ∈ Table.keys s.surroundings.environment,
        Config.Overriding name → name = Config.variableOf escapePath) ∧
      Config.withFile s.surroundings.files
        ((s.surroundings.configFile? (.path ⟨[['c']]⟩)).map s.surroundings.resolve) = .ok below ∧
      (Config.way below.store below.root escapePath).Nodup ∧
      Config.SpeltAlike below.store below.root escapePath ∧
      ((Session.setting (.path ⟨[['c']]⟩) (Text.join ['.'] escapePath)).run s).1
        = .ok (some (.text "latex".toList)) := by
  obtain ⟨s, hs⟩ : ∃ s,
      ((Action.runAll (overriddenAfter "render: 5")).run { Session.fresh ⟨.empty, []⟩ with host := .fresh }).2 = s :=
    ⟨_, rfl⟩
  have hW : Surroundings.Telling (Action.worlds ⟨.empty, []⟩ (overriddenAfter "render: 5")) :=
    Surroundings.telling_of_stamps [⟨Text.utf8 "render: 5".toList, 0⟩] (by decide +kernel) (by decide +kernel)
  have hget : s.surroundings.environment.get? (Config.variableOf escapePath) = some "latex".toList := by
    rw [← hs]
    decide +kernel
  have honly : ∀ name ∈ Table.keys s.surroundings.environment,
      Config.Overriding name → name = Config.variableOf escapePath := by
    rw [← hs]
    decide +kernel
  have hfile : (Config.withFile s.surroundings.files
      ((s.surroundings.configFile? (.path ⟨[['c']]⟩)).map s.surroundings.resolve)).toOption.any
        (fun below => (Config.way below.store below.root escapePath).Nodup ∧
          Config.SpeltAlike below.store below.root escapePath) = true := by
    rw [← hs]
    decide +kernel
  obtain ⟨below, hbelow, hgood⟩ := (Option.any_eq_true _ _).mp hfile
  replace hfile := eq_ok_of_toOption hbelow
  obtain ⟨hway, halike⟩ := of_decide_eq_true hgood
  have hlength : 2 ≤ escapePath.length := by decide
  have hvalue : Config.Variable.value "latex".toList = .ok (.text "latex".toList) := rfl
  have hgiven : Given.path ⟨[['c']]⟩ = .blank → s.surroundings.namedFile? = none := nofun
  have hread :=
    (environment_prevails hs hW hlength (by decide +kernel) hget honly hvalue hgiven hfile hway).2.2 halike
  exact ⟨s, below, hs, hW, hget, honly, hfile, hway, halike, hread⟩

/-- **Under a name in another case** the policy of the environment is not read: it stands beside the one that is. -/
theorem environment_beside_other_case :
    let s := ((Action.runAll (overriddenAfter "Render: \x7bescape: none\x7d")).run (Session.fresh ⟨.empty, []⟩)).2
    (∀ segment ∈ escapePath, Config.Segment segment) ∧
      s.surroundings.environment = [(Config.variableOf escapePath, "latex".toList)] ∧
      (Config.withFile s.surroundings.files (some ⟨[['c']]⟩)).isOk = true ∧
      ((Session.setting (.path ⟨[['c']]⟩) "render.escape".toList).run s).1.toOption.map (fun v => v.map Value.str)
        = some (some "html".toList) ∧
      ((Session.setting (.path ⟨[['c']]⟩) "Render.escape".toList).run s).1.toOption.map (fun v => v.map Value.str)
        = some (some "latex".toList) := by
  decide +kernel

end Mustache

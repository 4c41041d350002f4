import Mathlib.Data.List.Forall2
import Mathlib.Data.List.Nodup
import Mustache.Template.File
import Mustache.Proofs.ValidSettings

/-!
# `Mustache.Proofs.Directory` — the partials in a directory

Partials are called by the path of their file without the suffix. A path is written with slashes between its parts, so
that the writing determines the parts as long as these have no slashes; and a path ends with whatever its last part ends
with. So no two files get one name, and nothing that is in a directory gets lost when it is loaded. Only an empty suffix
does not tell files from each other: then nothing is left of any path.

* `Text.splitOn_join` and `Path.joined_injective` — paths are determined by how they are written;
* `Glob.findsByEnding_of_plain` — **a suffix without wildcards stands for the files whose names end with it**;
* `Partials.partialName_append` and `Partials.partialName_injective` — names are paths without the suffix, and different
  files have different names;
* `Partials.loadFiles_run` — what the loading of some files adds to a table;
* `Partials.ofDirectory_covers` — **a directory is loaded in full**: each file becomes one partial, with its own name
  and its own template, and there are no others;
* `Partials.ofDirectory_without_suffix_run` — with an empty suffix, one partial comes of all files, and
  `Schema.accepts_partialSuffix` — any text is a suffix by the schema.
-/

namespace Mustache

/-! ## Paths and how they are written -/

namespace Text

variable {sep : Char} {s : Text} {ts : List Text}

theorem splitOn_of_not_mem (h : sep ∉ s) : splitOn sep s = [s] := by
  induction s with
  | nil => rfl
  | cons c s ih =>
      obtain ⟨hc, hs⟩ := not_or.mp (mt List.mem_cons.mpr h)
      rw [splitOn, if_neg (Ne.symm hc), ih hs]

theorem splitOn_append_cons (h : sep ∉ s) (t : Text) : splitOn sep (s ++ sep :: t) = s :: splitOn sep t := by
  induction s with
  | nil => rw [List.nil_append, splitOn, if_pos rfl]
  | cons c s ih =>
      obtain ⟨hc, hs⟩ := not_or.mp (mt List.mem_cons.mpr h)
      rw [List.cons_append, splitOn, if_neg (Ne.symm hc), ih hs]

/-- Texts without the separator are what is found between the separators when they are joined. -/
theorem splitOn_join (hne : ts ≠ []) (h : ∀ t ∈ ts, sep ∉ t) : splitOn sep (join [sep] ts) = ts := by
  induction ts with
  | nil => exact absurd rfl hne
  | cons t ts ih =>
      have ht : sep ∉ t := h t List.mem_cons_self
      cases ts with
      | nil => exact splitOn_of_not_mem ht
      | cons u us =>
          have hrest := ih (List.cons_ne_nil u us) fun v hv => h v (List.mem_cons_of_mem t hv)
          rw [join, List.append_assoc, List.singleton_append, splitOn_append_cons ht, hrest]

end Text

namespace Path

variable {p root : Path} {parts parts' : List Text} {suffix last : Text}

/-- No part of a path has a slash. -/
def Slashless (parts : List Text) : Prop := ∀ part ∈ parts, '/' ∉ part

/-- The last part of a path ends with a suffix. -/
def EndsWith (suffix : Text) (parts : List Text) : Prop := ∃ last ∈ parts.getLast?, suffix <:+ last

instance (suffix : Text) (parts : List Text) : Decidable (EndsWith suffix parts) :=
  inferInstanceAs (Decidable (∃ last ∈ parts.getLast?, suffix <:+ last))

theorem EndsWith.ne_nil (h : EndsWith suffix parts) : parts ≠ [] := by
  rintro rfl
  obtain ⟨last, hlast, -⟩ := h
  cases hlast

theorem joined_injective (hs : Slashless parts) (hs' : Slashless parts') (hne : parts ≠ []) (hne' : parts' ≠ [])
    (h : joined parts = joined parts') : parts = parts' := by
  have hsplit : Text.splitOn '/' (joined parts) = parts := Text.splitOn_join hne hs
  have hsplit' : Text.splitOn '/' (joined parts') = parts' := Text.splitOn_join hne' hs'
  rw [← hsplit, h, hsplit']

/-- The last part of a path is what its writing ends with. -/
theorem suffix_joined (h : parts.getLast? = some last) : last <:+ joined parts := by
  induction parts with
  | nil => cases h
  | cons part parts ih =>
      cases parts with
      | nil =>
          obtain rfl : part = last := Option.some.inj h
          exact List.suffix_rfl
      | cons next rest =>
          have hrest : last <:+ joined (next :: rest) := ih (by rw [← h, List.getLast?_cons_cons])
          exact hrest.trans (List.suffix_append _ _)

theorem EndsWith.suffix_joined (h : EndsWith suffix parts) : suffix <:+ joined parts := by
  obtain ⟨last, hlast, hsuffix⟩ := h
  exact hsuffix.trans (Path.suffix_joined hlast)

theorem relativeTo?_eq_some_iff : p.relativeTo? root = some parts ↔ p = root.below parts := by
  unfold relativeTo? below
  rw [Option.ite_none_right_eq_some, List.isPrefixOf_iff_prefix, Option.some.injEq]
  constructor
  · rintro ⟨hlead, rfl⟩
    obtain ⟨rest, hrest⟩ := hlead
    rw [← hrest, List.drop_left, hrest]
  · rintro rfl
    exact ⟨List.prefix_append _ _, List.drop_left⟩

end Path

/-! ## The files of a tree -/

namespace Files

variable {fs : Files} {root : Path} {suffix : Text} {file : List Text × FileContent}

/-- Files that form a tree below a directory: no two are at one path, and what leads to them from the directory are
    names without slashes. -/
structure TreeBelow (fs : Files) (root : Path) : Prop where
  nodup : (fs.files.map Prod.fst).Nodup
  slashless : ∀ file ∈ fs.files, ∀ parts ∈ file.1.relativeTo? (fs.locate root), Path.Slashless parts

theorem treeBelow_empty (root : Path) : TreeBelow empty root where
  nodup := List.nodup_nil
  slashless _ h := nomatch h

/-- Writing a file keeps a tree a tree: the file takes the place of one that was at its path. -/
theorem TreeBelow.write (h : fs.TreeBelow root) (p : Path) (f : FileContent)
    (hp : ∀ parts ∈ (fs.locate p).relativeTo? (fs.locate root), Path.Slashless parts) : (fs.write p f).TreeBelow root where
  nodup := by
    show (fs.locate p :: (fs.files.filter fun e => e.1 != fs.locate p).map Prod.fst).Nodup
    refine List.nodup_cons.mpr ⟨?_, ?_⟩
    · intro hmem
      obtain ⟨e, he, heq⟩ := List.mem_map.mp hmem
      have hother := (List.mem_filter.mp he).2
      rw [heq, bne_self_eq_false] at hother
      cases hother
    · exact h.nodup.sublist (List.filter_sublist.map _)
  slashless := by
    intro e he
    rcases List.mem_cons.mp he with rfl | he
    · exact hp
    · exact h.slashless e (List.mem_filter.mp he).1

/-- A file below a directory, given by its path from there, that has a suffix. -/
def HasBelow (fs : Files) (root : Path) (suffix : Text) (file : List Text × FileContent) : Prop :=
  ((fs.locate root).below file.1, file.2) ∈ fs.files ∧ Path.EndsWith suffix file.1

theorem mem_filesBelow : file ∈ fs.filesBelow root ↔ ((fs.locate root).below file.1, file.2) ∈ fs.files := by
  unfold filesBelow
  rw [List.mem_mergeSort, List.mem_filterMap]
  constructor
  · rintro ⟨e, he, hparts⟩
    obtain ⟨parts, hrelative, rfl⟩ := Option.map_eq_some_iff.mp hparts
    rw [← Path.relativeTo?_eq_some_iff.mp hrelative]
    exact he
  · intro h
    refine ⟨_, h, ?_⟩
    rw [Path.relativeTo?_eq_some_iff.mpr rfl]
    rfl

theorem TreeBelow.slashless_of_mem (h : fs.TreeBelow root) (hfile : file ∈ fs.filesBelow root) :
    Path.Slashless file.1 :=
  h.slashless _ (mem_filesBelow.mp hfile) _ (Path.relativeTo?_eq_some_iff.mpr rfl)

/-- The files of a tree have different paths below a directory. -/
theorem TreeBelow.nodup_filesBelow (h : fs.TreeBelow root) : ((fs.filesBelow root).map Prod.fst).Nodup := by
  unfold filesBelow
  -- sorting does not matter for this; what matters is that a path below the directory determines the whole path
  rw [((List.mergeSort_perm _ _).map Prod.fst).nodup_iff, List.nodup_iff_pairwise_ne, List.pairwise_map]
  have hpaths : fs.files.Pairwise fun e e' => e.1 ≠ e'.1 := List.pairwise_map.mp h.nodup
  refine hpaths.filterMap _ fun e e' hne b hb b' hb' heq => ?_
  obtain ⟨parts, hparts, rfl⟩ := Option.map_eq_some_iff.mp hb
  obtain ⟨parts', hparts', rfl⟩ := Option.map_eq_some_iff.mp hb'
  obtain rfl : parts = parts' := heq
  exact hne ((Path.relativeTo?_eq_some_iff.mp hparts).trans (Path.relativeTo?_eq_some_iff.mp hparts').symm)

end Files

/-! ## What a suffix stands for -/

namespace Wildcard

variable {s t suffix : Text}

/-- A text without the characters of patterns. -/
def Plain (s : Text) : Prop := ∀ c ∈ s, c ≠ '?' ∧ c ≠ '*' ∧ c ≠ '['

instance (s : Text) : Decidable (Plain s) := List.decidableBAll _ s

theorem anyEnd_iff {p : Text → Bool} : anyEnd p s = true ↔ ∃ t, t <:+ s ∧ p t = true := by
  induction s with
  | nil => simp [anyEnd]
  | cons c s ih =>
      rw [anyEnd, Bool.or_eq_true, ih]
      constructor
      · rintro (h | ⟨t, ht, hp⟩)
        · exact ⟨_, List.suffix_rfl, h⟩
        · exact ⟨t, ht.trans (List.suffix_cons c s), hp⟩
      · rintro ⟨t, ht, hp⟩
        rcases List.suffix_cons_iff.mp ht with rfl | ht
        · exact .inl hp
        · exact .inr ⟨t, ht, hp⟩

/-- Characters stand for themselves. -/
theorem matchesName_chars : matchesName (t.map .char) s = true ↔ s = t := by
  induction t generalizing s with
  | nil => cases s <;> simp [matchesName]
  | cons c t ih =>
      cases s with
      | nil => simp [matchesName]
      | cons d s =>
          rw [List.map_cons, matchesName, Bool.and_eq_true, ih, accepts, beq_iff_eq, List.cons.injEq, eq_comm]
          simp

theorem matchesName_ending : matchesName (.anyText :: suffix.map .char) s = true ↔ suffix <:+ s := by
  rw [matchesName, anyEnd_iff]
  constructor
  · rintro ⟨t, ht, hmatch⟩
    exact matchesName_chars.mp hmatch ▸ ht
  · intro h
    exact ⟨suffix, h, matchesName_chars.mpr rfl⟩

theorem partsOf_of_plain (h : Plain s) : partsOf s.length s = s.map .char := by
  induction s with
  | nil => rfl
  | cons c s ih =>
      obtain ⟨hany, htext, hset⟩ := h c List.mem_cons_self
      rw [List.length_cons, partsOf, if_neg hany, if_neg htext, if_neg hset,
        ih fun d hd => h d (List.mem_cons_of_mem c hd), List.map_cons]

theorem ofText_ending (h : Plain suffix) : ofText ('*' :: suffix) = .anyText :: suffix.map .char := by
  rw [ofText, List.length_cons, partsOf, if_neg (by decide), if_pos rfl, partsOf_of_plain h]

end Wildcard

namespace Glob

variable {fs : Files} {root : Path} {suffix : Text} {parts : List Text}

theorem anyProperEnd_iff {p : List Text → Bool} :
    anyProperEnd p parts = true ↔ ∃ rest, rest ≠ [] ∧ rest <:+ parts ∧ p rest = true := by
  induction parts with
  | nil =>
      constructor
      · intro h
        cases h
      · rintro ⟨rest, hne, hsuffix, -⟩
        exact absurd (List.suffix_nil.mp hsuffix) hne
  | cons part parts ih =>
      rw [anyProperEnd, Bool.or_eq_true, ih]
      constructor
      · rintro (h | ⟨rest, hne, hsuffix, hp⟩)
        · exact ⟨_, List.cons_ne_nil part parts, List.suffix_rfl, h⟩
        · exact ⟨rest, hne, hsuffix.trans (List.suffix_cons part parts), hp⟩
      · rintro ⟨rest, hne, hsuffix, hp⟩
        rcases List.suffix_cons_iff.mp hsuffix with rfl | hsuffix
        · exact .inl hp
        · exact .inr ⟨rest, hne, hsuffix, hp⟩

/-- A pattern for names at any depth looks at the last part of a path alone. -/
theorem matchesPath_name {pattern : List Wildcard} :
    matchesPath [.directories, .name pattern] parts = true
      ↔ ∃ last ∈ parts.getLast?, Wildcard.matchesName pattern last = true := by
  rw [matchesPath, anyProperEnd_iff]
  constructor
  · rintro ⟨rest, hne, ⟨lead, rfl⟩, hmatch⟩
    cases rest with
    | nil => exact absurd rfl hne
    | cons last rest =>
        simp only [matchesPath, Bool.and_eq_true, List.isEmpty_iff] at hmatch
        obtain ⟨hlast, rfl⟩ := hmatch
        exact ⟨last, List.getLast?_concat, hlast⟩
  · rintro ⟨last, hlast, hmatch⟩
    obtain ⟨lead, rfl⟩ := List.getLast?_eq_some_iff.mp hlast
    refine ⟨[last], List.cons_ne_nil last [], List.suffix_append _ _, ?_⟩
    simp [matchesPath, hmatch]

/-- Searching below a directory for a suffix finds the files whose names end with it, and only those. -/
def FindsByEnding (fs : Files) (root : Path) (suffix : Text) : Prop :=
  ∃ pattern, ofText? ('*' :: suffix) = some pattern ∧
    ∀ file ∈ fs.filesBelow root, matchesPath pattern file.1 = true ↔ Path.EndsWith suffix file.1

/-- What is searched for and found are the files that have the suffix. -/
theorem FindsByEnding.exists_found (h : FindsByEnding fs root suffix) :
    ∃ pattern, ofText? ('*' :: suffix) = some pattern ∧
      ∀ file, file ∈ (fs.filesBelow root).filter (fun e => matchesPath pattern e.1) ↔
        fs.HasBelow root suffix file := by
  obtain ⟨pattern, hpattern, hends⟩ := h
  refine ⟨pattern, hpattern, fun file => ?_⟩
  rw [List.mem_filter, Files.HasBelow, ← Files.mem_filesBelow]
  exact and_congr_right fun hmem => hends file hmem

theorem partOf?_ending (h : Wildcard.Plain suffix) :
    partOf? ('*' :: suffix) = some (.name (.anyText :: suffix.map .char)) := by
  have hone : ('*' :: suffix).count '*' = 1 := by
    rw [List.count_cons_self, List.count_eq_zero.mpr fun hmem => (h '*' hmem).2.1 rfl]
  have hne : '*' :: suffix ≠ doubleAsterisk := by
    intro heq
    rw [heq] at hone
    exact absurd hone (by decide)
  -- two asterisks in a row would be two asterisks
  have hbreak : Text.breakOn doubleAsterisk ('*' :: suffix) = none := by
    rw [← Option.not_isSome_iff_eq_none]
    intro hsome
    obtain ⟨cut, hcut⟩ := Option.isSome_iff_exists.mp hsome
    have htwo : doubleAsterisk.count '*' = 2 := by decide
    rw [Text.eq_of_breakOn hcut, List.count_append, List.count_append, htwo] at hone
    omega
  rw [partOf?, if_neg hne, hbreak, if_neg (by simp), Wildcard.ofText_ending h]

theorem ofText?_ending (h : Wildcard.Plain suffix) (hslash : '/' ∉ suffix) :
    ofText? ('*' :: suffix) = some [.directories, .name (.anyText :: suffix.map .char)] := by
  have hslash' : '/' ∉ '*' :: suffix := by simpa using hslash
  have hparts : (Path.ofText ('*' :: suffix)).parts = ['*' :: suffix] := by
    simp [Path.ofText, Text.splitOn_of_not_mem hslash']
  have hfile : (('*' :: suffix).getLast? == some '/') = false := by
    apply beq_false_of_ne
    intro h
    exact hslash' (List.mem_of_getLast? h)
  simp [ofText?, hparts, partOf?_ending h, hfile]

/-- **A suffix without wildcards stands for the files whose names end with it**, wherever they are below a directory. -/
theorem findsByEnding_of_plain (fs : Files) (root : Path) (h : Wildcard.Plain suffix) (hslash : '/' ∉ suffix) :
    FindsByEnding fs root suffix := by
  refine ⟨_, ofText?_ending h hslash, fun file _ => ?_⟩
  rw [matchesPath_name]
  simp only [Wildcard.matchesName_ending, Path.EndsWith]

end Glob

/-! ## Loading -/

/-- Of lists that are related one by one, every item of the first is related to one of the second. -/
theorem exists_of_forall₂ {α β : Type} {R : α → β → Prop} {as : List α} {bs : List β} (h : List.Forall₂ R as bs)
    {a : α} (ha : a ∈ as) : ∃ b ∈ bs, R a b := by
  induction h with
  | nil => cases ha
  | @cons a' b as bs hR _ ih =>
      rcases List.mem_cons.mp ha with rfl | ha
      · exact ⟨b, List.mem_cons_self, hR⟩
      · obtain ⟨b', hb', hR'⟩ := ih ha
        exact ⟨b', List.mem_cons_of_mem b hb', hR'⟩

/-- Setting a new key puts its entry at the end. -/
theorem Table.put_of_not_mem {κ α : Type} [BEq κ] [LawfulBEq κ] {t : Table κ α} {key : κ} (value : α)
    (h : key ∉ t.keys) : t.put key value = t ++ [(key, value)] := by
  induction t with
  | nil => rfl
  | cons e t ih =>
      obtain ⟨hne, hrest⟩ := not_or.mp (mt List.mem_cons.mpr h)
      have hkey : (e.1 == key) = false := beq_false_of_ne (Ne.symm hne)
      rw [put, hkey, ih hrest]
      rfl

/-- The template of a text that parses. -/
theorem Template.ofText_run {d : Delimiters} {name : Option Text} {s : Text} {t : Template}
    (h : parse d name s = .ok t) (host : Host) :
    (ofText d name s).run host = (.ok t, { host with log := event name (.ok t) :: host.log }) := by
  simp only [ofText, h]
  rfl

namespace Partials

variable {fs : Files} {root : Path} {d : Delimiters} {suffix : Text} {file file' : List Text × FileContent}
  {entry entry' : Text × Template} {parts parts' : List Text}

/-- A file holds text, and the text parses. -/
def Parses (d : Delimiters) (f : FileContent) : Prop :=
  ∃ s es, Encoding.utf8.readText? f.bytes = some s ∧ Element.parse d s = .ok es

/-- A partial that a file holds: its name is the path of the file without the suffix, its template that of the text. -/
structure Holds (d : Delimiters) (suffix : Text) (file : List Text × FileContent) (entry : Text × Template) :
    Prop where
  path : Path.joined file.1 = entry.1 ++ suffix
  template : ∃ s, Encoding.utf8.readText? file.2.bytes = some s ∧ Template.parse d (some entry.1) s = .ok entry.2

/-- A name is a path without the suffix. -/
theorem partialName_append (hne : suffix ≠ []) (h : Path.EndsWith suffix parts) :
    partialName suffix parts ++ suffix = Path.joined parts := by
  obtain ⟨lead, hlead⟩ := h.suffix_joined
  have hempty : suffix.isEmpty = false := by simpa using hne
  rw [partialName, hempty, ← hlead]
  simp

/-- Different files have different names. -/
theorem partialName_injective (hne : suffix ≠ []) (hs : Path.Slashless parts) (hs' : Path.Slashless parts')
    (h : Path.EndsWith suffix parts) (h' : Path.EndsWith suffix parts')
    (heq : partialName suffix parts = partialName suffix parts') : parts = parts' := by
  refine Path.joined_injective hs hs' h.ne_nil h'.ne_nil ?_
  rw [← partialName_append hne h, heq, partialName_append hne h']

theorem Holds.name_eq (hne : suffix ≠ []) (h : Path.EndsWith suffix file.1) (hholds : Holds d suffix file entry) :
    entry.1 = partialName suffix file.1 :=
  List.append_cancel_right (hholds.path.symm.trans (partialName_append hne h).symm)

/-- A file holds one partial at most. -/
theorem Holds.unique (h : Holds d suffix file entry) (h' : Holds d suffix file entry') : entry = entry' := by
  obtain ⟨name, t⟩ := entry
  obtain ⟨name', t'⟩ := entry'
  obtain rfl : name = name' := List.append_cancel_right (h.path.symm.trans h'.path)
  obtain ⟨s, hs, ht⟩ := h.template
  obtain ⟨s', hs', ht'⟩ := h'.template
  obtain rfl : s = s' := Option.some.inj (hs.symm.trans hs')
  obtain rfl : t = t' := Except.ok.inj (ht.symm.trans ht')
  rfl

theorem Parses.exists_template {f : FileContent} (h : Parses d f) (name : Text) :
    ∃ s t, Encoding.utf8.readText? f.bytes = some s ∧ Template.parse d (some name) s = .ok t := by
  obtain ⟨s, es, hs, hes⟩ := h
  refine ⟨s, ⟨es, some name⟩, hs, ?_⟩
  rw [Template.parse, hes]
  rfl

/-- Loading a file that parses goes on with its template set. -/
theorem loadFiles_cons_run {s : Text} {t : Template} (hs : Encoding.utf8.readText? file.2.bytes = some s)
    (ht : Template.parse d (some (partialName suffix file.1)) s = .ok t) (rest : List (List Text × FileContent))
    (loaded : Table Text Template) (host : Host) :
    ∃ host', (loadFiles d suffix (file :: rest) loaded).run host
      = (loadFiles d suffix rest (loaded.put (partialName suffix file.1) t)).run host' := by
  have hread : file.2.readText .utf8 = pure s := by rw [FileContent.readText, hs]
  refine ⟨{ host with log := Template.event (some (partialName suffix file.1)) (.ok t) :: host.log }, ?_⟩
  rw [loadFiles, hread, pure_bind, Fault.run_bind, Template.ofText_run ht]

/-- Loading some files, whose names are new and differ, puts one partial for each at the end of a table. -/
theorem loadFiles_run (hne : suffix ≠ []) (files : List (List Text × FileContent))
    (hfiles : ∀ file ∈ files, Path.EndsWith suffix file.1 ∧ Parses d file.2) (loaded : Table Text Template)
    (hnames : (loaded.keys ++ files.map fun file => partialName suffix file.1).Nodup) (host : Host) :
    ∃ entries host', (loadFiles d suffix files loaded).run host = (.ok (loaded ++ entries), host') ∧
      List.Forall₂ (Holds d suffix) files entries := by
  induction files generalizing loaded host with
  | nil => exact ⟨[], host, by rw [List.append_nil]; rfl, .nil⟩
  | cons file files ih =>
      obtain ⟨hends, hparses⟩ := hfiles file List.mem_cons_self
      obtain ⟨s, t, hs, ht⟩ := hparses.exists_template (partialName suffix file.1)
      have hholds : Holds d suffix file (partialName suffix file.1, t) :=
        ⟨(partialName_append hne hends).symm, s, hs, ht⟩
      obtain ⟨host₁, hfirst⟩ := loadFiles_cons_run hs ht files loaded host
      rw [List.map_cons, List.append_cons] at hnames
      -- the table may hold templates already, as it does further down the list: what counts is that their names differ
      have hnew : partialName suffix file.1 ∉ loaded.keys := by
        intro hmem
        have hleft := (List.nodup_append.mp hnames).1
        exact (List.nodup_append.mp hleft).2.2 _ hmem _ (List.mem_singleton_self _) rfl
      have hput := Table.put_of_not_mem t hnew
      have hkeys : (loaded ++ [(partialName suffix file.1, t)]).keys = loaded.keys ++ [partialName suffix file.1] :=
        List.map_append
      obtain ⟨entries, host₂, hrest, hentries⟩ := ih (fun f hf => hfiles f (List.mem_cons_of_mem file hf))
        (loaded ++ [(partialName suffix file.1, t)]) (by rw [hkeys]; exact hnames) host₁
      refine ⟨_ :: entries, host₂, ?_, .cons hholds hentries⟩
      rw [hfirst, hput, hrest, List.append_assoc, List.singleton_append]

theorem keys_of_holds (hne : suffix ≠ []) {files : List (List Text × FileContent)} {entries : Table Text Template}
    (hends : ∀ file ∈ files, Path.EndsWith suffix file.1) (h : List.Forall₂ (Holds d suffix) files entries) :
    entries.keys = files.map fun file => partialName suffix file.1 := by
  induction h with
  | nil => rfl
  | @cons file entry files entries hholds _ ih =>
      have hname := hholds.name_eq hne (hends file List.mem_cons_self)
      have hrest := ih fun f hf => hends f (List.mem_cons_of_mem file hf)
      rw [List.map_cons, ← hname, ← hrest]
      rfl

/-- The partials are those of the files below a directory that have a suffix: one for each, and no others. -/
structure Covers (p : Partials) (fs : Files) (d : Delimiters) (suffix : Text) (root : Path) : Prop where
  /-- No name stands twice. -/
  nodup : p.templates.keys.Nodup
  /-- Each file has its one partial. -/
  entry : ∀ file, fs.HasBelow root suffix file → ∃! entry, entry ∈ p.templates ∧ Holds d suffix file entry
  /-- Each partial has its one file. -/
  file : ∀ entry ∈ p.templates, ∃! file, fs.HasBelow root suffix file ∧ Holds d suffix file entry
  /-- Files that have one name are the same. -/
  distinct : ∀ file file', fs.HasBelow root suffix file → fs.HasBelow root suffix file' →
    partialName suffix file.1 = partialName suffix file'.1 → file = file'

/-- Files of a tree that have one name are the same. -/
theorem eq_of_partialName_eq (htree : fs.TreeBelow root) (hne : suffix ≠ []) (h : fs.HasBelow root suffix file)
    (h' : fs.HasBelow root suffix file') (heq : partialName suffix file.1 = partialName suffix file'.1) :
    file = file' := by
  have hmem := Files.mem_filesBelow.mpr h.1
  have hmem' := Files.mem_filesBelow.mpr h'.1
  have hpath : file.1 = file'.1 := partialName_injective hne (htree.slashless_of_mem hmem)
    (htree.slashless_of_mem hmem') h.2 h'.2 heq
  exact List.inj_on_of_nodup_map htree.nodup_filesBelow hmem hmem' hpath

/-- Templates that are held one by one by the files of a directory cover it. -/
theorem covers_of_forall₂ (htree : fs.TreeBelow root) (hne : suffix ≠ []) {files : List (List Text × FileContent)}
    (hfiles : ∀ file, file ∈ files ↔ fs.HasBelow root suffix file)
    (hnames : (files.map fun file => partialName suffix file.1).Nodup) {entries : Table Text Template}
    (h : List.Forall₂ (Holds d suffix) files entries) (adopted : Bool) :
    Covers ⟨entries, adopted⟩ fs d suffix root where
  nodup := by
    rw [keys_of_holds hne (fun file hfile => ((hfiles file).mp hfile).2) h]
    exact hnames
  entry := by
    intro file hfile
    obtain ⟨entry, hentry, hholds⟩ := exists_of_forall₂ h ((hfiles file).mpr hfile)
    exact ⟨entry, ⟨hentry, hholds⟩, fun entry' h' => h'.2.unique hholds⟩
  file := by
    intro entry hentry
    obtain ⟨file, hfile, hholds⟩ := exists_of_forall₂ h.flip hentry
    have hbelow := (hfiles file).mp hfile
    refine ⟨file, ⟨hbelow, hholds⟩, fun file' h' => ?_⟩
    refine eq_of_partialName_eq htree hne h'.1 hbelow ?_
    rw [← h'.2.name_eq hne h'.1.2, ← hholds.name_eq hne hbelow.2]
  distinct _ _ := eq_of_partialName_eq htree hne

/-- A directory is searched, what is found is loaded, and the number of partials is reported. -/
theorem ofDirectory_run {pattern : List GlobPart} (hroot : fs.isDirectory root = true)
    (hpattern : Glob.ofText? ('*' :: suffix) = some pattern) {templates : Table Text Template} {host host' : Host}
    (h : (loadFiles d suffix ((fs.filesBelow root).filter fun e => Glob.matchesPath pattern e.1) []).run host
      = (.ok templates, host')) :
    (ofDirectory fs d suffix root).run host
      = (.ok ⟨templates, false⟩, { host' with log := .partialsLoaded templates.length root.toText :: host'.log }) := by
  rw [ofDirectory, hroot, hpattern, if_neg (by decide)]
  dsimp only
  rw [Fault.run_bind, h]
  rfl

/-- **A directory is loaded in full.** Let the suffix have at least one character and let the search for it find the
    files that have it. If all of these parse, then the partials are there, one for each of the files, whatever the host
    was used for before. -/
theorem ofDirectory_covers (htree : fs.TreeBelow root) (hroot : fs.isDirectory root = true)
    (hfinds : Glob.FindsByEnding fs root suffix) (hne : suffix ≠ [])
    (hparses : ∀ file, fs.HasBelow root suffix file → Parses d file.2) (host : Host) :
    ∃ p host', (ofDirectory fs d suffix root).run host = (.ok p, host') ∧ p.Covers fs d suffix root := by
  obtain ⟨pattern, hpattern, hfound⟩ := hfinds.exists_found
  let found := (fs.filesBelow root).filter fun e => Glob.matchesPath pattern e.1
  -- no two of the files have one name, so no template is set in the place of another
  have hnames : (found.map fun file => partialName suffix file.1).Nodup := by
    have hnodup : found.Nodup := (htree.nodup_filesBelow.of_map).filter _
    refine hnodup.map_on fun file hfile file' hfile' heq => ?_
    exact eq_of_partialName_eq htree hne ((hfound file).mp hfile) ((hfound file').mp hfile') heq
  have hloads : ∀ file ∈ found, Path.EndsWith suffix file.1 ∧ Parses d file.2 := by
    intro file hfile
    have hbelow := (hfound file).mp hfile
    exact ⟨hbelow.2, hparses file hbelow⟩
  obtain ⟨entries, host', hrun, hentries⟩ := loadFiles_run hne found hloads [] hnames host
  exact ⟨⟨entries, false⟩, _, ofDirectory_run hroot hpattern hrun,
    covers_of_forall₂ htree hne hfound hnames hentries false⟩

/-! ### Pages and their layouts -/

/-- A file with a text in it. -/
def textFile (s : String) : FileContent := ⟨Text.utf8 s.toList, 0⟩

theorem readText?_textFile (s : String) :
    Encoding.utf8.readText? (textFile s).bytes = some (Text.unifyNewlines s.toList) := by
  rw [Encoding.readText?, textFile, Encoding.decode?_utf8]
  rfl

theorem parses_textFile {s : String} (h : (Element.parse d (Text.unifyNewlines s.toList)).toOption.isSome = true) :
    Parses d (textFile s) := by
  cases hparse : Element.parse d (Text.unifyNewlines s.toList) with
  | error e =>
      rw [hparse] at h
      cases h
  | ok es => exact ⟨_, es, readText?_textFile s, hparse⟩

/-- Partials at two depths, one whose whole name is the suffix, and a file that is none. -/
def pageFiles : Files :=
  (((Files.empty.write (.ofText "p/notes.txt".toList) (textFile "\x7b\x7b#open\x7d\x7d")).write
    (.ofText "p/layouts/base.m".toList) (textFile "Base")).write
    (.ofText "p/page.m".toList) (textFile "Page")).write
    (.ofText "p/.m".toList) (textFile "None")

/-- The directory of pages. -/
def pageRoot : Path := .ofText ['p']

theorem treeBelow_pageFiles : pageFiles.TreeBelow pageRoot := by
  refine (((Files.treeBelow_empty pageRoot).write _ _ ?_).write _ _ ?_).write _ _ ?_ |>.write _ _ ?_
  all_goals unfold Path.Slashless; decide

theorem mem_pageFiles {f : FileContent} (h : ((pageFiles.locate pageRoot).below parts, f) ∈ pageFiles.files) :
    (parts = [".m".toList] ∧ f = textFile "None") ∨ (parts = ["page.m".toList] ∧ f = textFile "Page") ∨
      (parts = ["layouts".toList, "base.m".toList] ∧ f = textFile "Base") ∨
      (parts = ["notes.txt".toList] ∧ f = textFile "\x7b\x7b#open\x7d\x7d") := by
  have hfiles : pageFiles.files
      = [((pageFiles.locate pageRoot).below [".m".toList], textFile "None"),
        ((pageFiles.locate pageRoot).below ["page.m".toList], textFile "Page"),
        ((pageFiles.locate pageRoot).below ["layouts".toList, "base.m".toList], textFile "Base"),
        ((pageFiles.locate pageRoot).below ["notes.txt".toList], textFile "\x7b\x7b#open\x7d\x7d")] := by
    decide +kernel
  rw [hfiles] at h
  simpa [Path.below] using h

/-- The pages and their layouts are loaded, while the file without the suffix does not even parse. -/
theorem ofDirectory_covers_pageFiles :
    pageFiles.TreeBelow pageRoot ∧ pageFiles.isDirectory pageRoot = true ∧
      Glob.FindsByEnding pageFiles pageRoot ['.', 'm'] ∧ ['.', 'm'] ≠ [] ∧
      (∀ file, pageFiles.HasBelow pageRoot ['.', 'm'] file → Parses .braces file.2) ∧
      ∃ p host', (ofDirectory pageFiles .braces ['.', 'm'] pageRoot).run .fresh = (.ok p, host') ∧
        p.Covers pageFiles .braces ['.', 'm'] pageRoot := by
  have hroot : pageFiles.isDirectory pageRoot = true := by decide +kernel
  have hfinds : Glob.FindsByEnding pageFiles pageRoot ['.', 'm'] :=
    Glob.findsByEnding_of_plain _ _ (by decide) (by decide)
  have hparses : ∀ file, pageFiles.HasBelow pageRoot ['.', 'm'] file → Parses .braces file.2 := by
    rintro ⟨parts, f⟩ ⟨hmem, hends⟩
    rcases mem_pageFiles hmem with ⟨-, rfl⟩ | ⟨-, rfl⟩ | ⟨-, rfl⟩ | ⟨rfl, -⟩
    · exact parses_textFile (by decide +kernel)
    · exact parses_textFile (by decide +kernel)
    · exact parses_textFile (by decide +kernel)
    · have hother : ¬ Path.EndsWith ['.', 'm'] ["notes.txt".toList] := by decide
      exact absurd hends hother
  exact ⟨treeBelow_pageFiles, hroot, hfinds, by decide, hparses,
    ofDirectory_covers treeBelow_pageFiles hroot hfinds (by decide) hparses .fresh⟩

/-! ### No suffix -/

/-- Without a suffix, each template takes the place of the one before. -/
theorem loadFiles_without_suffix_run (files : List (List Text × FileContent))
    (hparses : ∀ file ∈ files, Parses d file.2) (t : Template) (host : Host) :
    ∃ t' host', (loadFiles d [] files [([], t)]).run host = (.ok [([], t')], host') := by
  induction files generalizing t host with
  | nil => exact ⟨t, host, rfl⟩
  | cons file files ih =>
      obtain ⟨s, t₁, hs, ht⟩ := (hparses file List.mem_cons_self).exists_template (partialName [] file.1)
      obtain ⟨host₁, hfirst⟩ := loadFiles_cons_run hs ht files [([], t)] host
      rw [hfirst]
      exact ih (fun f hf => hparses f (List.mem_cons_of_mem file hf)) t₁ host₁

/-- Without a suffix, no path leaves a name: however many files there are, one partial comes of them. -/
theorem ofDirectory_without_suffix_run (hroot : fs.isDirectory root = true) (hfinds : Glob.FindsByEnding fs root [])
    (hparses : ∀ file, fs.HasBelow root [] file → Parses d file.2) (hsome : ∃ file, fs.HasBelow root [] file)
    (host : Host) :
    ∃ t host', (ofDirectory fs d [] root).run host = (.ok ⟨[([], t)], false⟩, host') := by
  obtain ⟨pattern, hpattern, hfound⟩ := hfinds.exists_found
  obtain ⟨first, hfirst⟩ := hsome
  -- the first file sets the empty name, and the others only replace its template
  cases hfiles : (fs.filesBelow root).filter fun e => Glob.matchesPath pattern e.1 with
  | nil =>
      have hmem := (hfound first).mpr hfirst
      rw [hfiles] at hmem
      cases hmem
  | cons file files =>
      have hall : ∀ f ∈ file :: files, Parses d f.2 := fun f hf => hparses f ((hfound f).mp (hfiles ▸ hf))
      obtain ⟨s, t, hs, ht⟩ := (hall file List.mem_cons_self).exists_template (partialName [] file.1)
      obtain ⟨host₁, hput⟩ := loadFiles_cons_run hs ht files [] host
      obtain ⟨t', host₂, hrest⟩ :=
        loadFiles_without_suffix_run files (fun f hf => hall f (List.mem_cons_of_mem file hf)) t host₁
      exact ⟨t', _, ofDirectory_run hroot hpattern (by rw [hfiles, hput]; exact hrest)⟩

/-- Two files in a directory. -/
def twoFiles : Files :=
  (Files.empty.write (.ofText "p/b.m".toList) (textFile "B")).write (.ofText "p/a.m".toList) (textFile "A")

theorem mem_twoFiles {f : FileContent} :
    ((twoFiles.locate pageRoot).below parts, f) ∈ twoFiles.files ↔
      (parts = ["a.m".toList] ∧ f = textFile "A") ∨ (parts = ["b.m".toList] ∧ f = textFile "B") := by
  have hfiles : twoFiles.files
      = [((twoFiles.locate pageRoot).below ["a.m".toList], textFile "A"),
        ((twoFiles.locate pageRoot).below ["b.m".toList], textFile "B")] := by
    decide +kernel
  rw [hfiles]
  simp [Path.below]

/-- **An empty suffix loses files.** Of two files, both of which parse, one partial comes, and its name is empty. -/
theorem ofDirectory_without_suffix :
    twoFiles.TreeBelow pageRoot ∧ twoFiles.isDirectory pageRoot = true ∧ Glob.FindsByEnding twoFiles pageRoot [] ∧
      (∀ file, twoFiles.HasBelow pageRoot [] file → Parses .braces file.2) ∧
      ∃ p host', (ofDirectory twoFiles .braces [] pageRoot).run .fresh = (.ok p, host') ∧
        p.templates.keys = [[]] ∧ ¬ p.Covers twoFiles .braces [] pageRoot := by
  have hroot : twoFiles.isDirectory pageRoot = true := by decide +kernel
  have htree : twoFiles.TreeBelow pageRoot := by
    refine ((Files.treeBelow_empty pageRoot).write _ _ ?_).write _ _ ?_
    all_goals unfold Path.Slashless; decide
  have hfinds : Glob.FindsByEnding twoFiles pageRoot [] := Glob.findsByEnding_of_plain _ _ (by decide) (by decide)
  have hparses : ∀ file, twoFiles.HasBelow pageRoot [] file → Parses .braces file.2 := by
    rintro ⟨parts, f⟩ ⟨hmem, -⟩
    rcases mem_twoFiles.mp hmem with ⟨-, rfl⟩ | ⟨-, rfl⟩
    · exact parses_textFile (by decide +kernel)
    · exact parses_textFile (by decide +kernel)
  have ha : twoFiles.HasBelow pageRoot [] (["a.m".toList], textFile "A") :=
    ⟨mem_twoFiles.mpr (.inl ⟨rfl, rfl⟩), by decide⟩
  have hb : twoFiles.HasBelow pageRoot [] (["b.m".toList], textFile "B") :=
    ⟨mem_twoFiles.mpr (.inr ⟨rfl, rfl⟩), by decide⟩
  obtain ⟨t, host', hrun⟩ := ofDirectory_without_suffix_run hroot hfinds hparses ⟨_, ha⟩ .fresh
  refine ⟨htree, hroot, hfinds, hparses, _, host', hrun, rfl, fun hcovers => ?_⟩
  have hsame := congrArg Prod.fst (hcovers.distinct _ _ ha hb rfl)
  exact absurd hsame (by decide)

end Partials

/-- The schema has nothing against any suffix of partial files, be it empty or not. -/
theorem Schema.accepts_partialSuffix (s : Text) : Schema.configuration.Accepts
    (.map .dict [(.text "render".toList, .map .dict [(.text "partial_suffix".toList, .text s)])]) := by
  have hrender : (group [] [("escape", .text true none), ("max_partial_depth", .integer (some 1)),
      ("partial_suffix", .text false none)]).Accepts
      (.map .dict [(.text "partial_suffix".toList, .text s)]) := by
    refine ⟨_, rfl, ?_, ?_, ?_, ?_, ?_, trivial⟩
    · intro k hk
      obtain rfl : k = .text "partial_suffix".toList := List.mem_singleton.mp hk
      decide
    · intro name hname
      cases hname
    · intro v hv
      cases hv
    · intro v hv
      cases hv
    · intro v hv
      obtain rfl : Value.text s = v := Option.some.inj hv
      exact ⟨s, rfl, nofun, nofun⟩
  refine ⟨_, rfl, ?_, ?_, ?_, ?_, trivial⟩
  · intro k hk
    obtain rfl : k = .text "render".toList := List.mem_singleton.mp hk
    decide
  · intro name hname
    cases hname
  · intro v hv
    cases hv
  · intro v hv
    exact Option.some.inj hv ▸ hrender

end Mustache

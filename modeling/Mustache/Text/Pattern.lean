import Mustache.Text.Space

/-!
# `Mustache.Text.Pattern` — patterns that texts match

A pattern is looked for anywhere in a text. It can ask for the beginning and for the end of the
text, and for characters outside some classes. A newline may stand after the end that it asks for.

## Contents
- **Patterns.** `Pattern`, and `Pattern.text`, a pattern as it is written.
- **Meaning.** `Pattern.Matches` and `Pattern.Occurs`.
- **Search.** `Pattern.search`, and `Pattern.search_iff`, which ties it to the meaning.
-/

namespace Mustache

/-! ## Patterns -/

/-- A class of characters. -/
inductive CharClass where
  | space
  | only (c : Char)

namespace CharClass

/-- The characters of a class. -/
def contains : CharClass → Char → Bool
  | .space, c => Text.isSpace c
  | .only d, c => c == d

/-- A class as it is written between brackets. -/
def text : CharClass → Text
  | .space => ['\\', 's']
  | .only c => [c]

end CharClass

/-- A part of a pattern. -/
inductive Pattern.Part where
  /-- The beginning of the text. -/
  | start
  /-- The end of the text, or the newline at its end. -/
  | finish
  /-- One or more characters outside some classes. -/
  | outside (classes : List CharClass)

/-- A pattern: its parts one after the other. -/
abbrev Pattern := List Pattern.Part

namespace Pattern

/-- A part of a pattern as it is written. -/
def Part.text : Part → Text
  | .start => ['^']
  | .finish => ['$']
  | .outside classes => "[^".toList ++ classes.flatMap CharClass.text ++ "]+".toList

/-- A pattern as it is written. -/
def text (p : Pattern) : Text := p.flatMap Part.text

/-! ## Meaning -/

/-- Whether a character is in none of some classes. -/
def isOutside (classes : List CharClass) (c : Char) : Bool := classes.all fun k => !k.contains c

/-- A part matches what stands between two texts. -/
def Part.Matches : Part → Text → Text → Text → Prop
  | .start, before, found, _ => before = [] ∧ found = []
  | .finish, _, found, after => found = [] ∧ (after = [] ∨ after = ['\n'])
  | .outside classes, _, found, _ => found ≠ [] ∧ ∀ c ∈ found, isOutside classes c = true

/-- A pattern matches what stands between two texts. -/
def Matches : Pattern → Text → Text → Text → Prop
  | [], _, found, _ => found = []
  | part :: parts, before, found, after =>
      ∃ first rest, found = first ++ rest ∧ part.Matches before first (rest ++ after) ∧
        Matches parts (before ++ first) rest after

/-- A pattern matches something in a text. -/
def Occurs (p : Pattern) (s : Text) : Prop :=
  ∃ before found after, s = before ++ found ++ after ∧ p.Matches before found after

/-! ## Search -/

/-- What can be left of a text after characters outside some classes. -/
def restsOutside (classes : List CharClass) : Text → List Text
  | [] => []
  | c :: s => if isOutside classes c then s :: restsOutside classes s else []

/-- What can be left of a text after a part of a pattern. The flag tells whether the text is at its
    beginning. -/
def Part.rests : Part → Bool → Text → List Text
  | .start, atStart, s => if atStart then [s] else []
  | .finish, _, s => if s = [] ∨ s = ['\n'] then [s] else []
  | .outside classes, _, s => restsOutside classes s

/-- Whether a pattern matches at the beginning of what is left of a text. -/
def matchesHere : Pattern → Bool → Text → Bool
  | [], _, _ => true
  | part :: parts, atStart, s =>
      (part.rests atStart s).any fun rest =>
        matchesHere parts (atStart && rest.length == s.length) rest

/-- Whether a pattern matches something in what is left of a text. -/
def searchFrom (p : Pattern) (atStart : Bool) : Text → Bool
  | [] => p.matchesHere atStart []
  | c :: s => p.matchesHere atStart (c :: s) || searchFrom p false s

/-- Whether a pattern matches something in a text. -/
def search (p : Pattern) (s : Text) : Bool := p.searchFrom true s

section Search

variable {classes : List CharClass} {before s : Text}

theorem mem_restsOutside {rest : Text} : rest ∈ restsOutside classes s ↔
    ∃ found, s = found ++ rest ∧ found ≠ [] ∧ ∀ c ∈ found, isOutside classes c = true := by
  induction s with
  | nil =>
      constructor
      · exact nofun
      · rintro ⟨found, hs, hne, -⟩
        exact absurd (List.append_eq_nil_iff.mp hs.symm).1 hne
  | cons c s ih =>
      rw [restsOutside]
      by_cases hc : isOutside classes c = true
      · rw [if_pos hc, List.mem_cons, ih]
        constructor
        · rintro (rfl | ⟨found, rfl, -, hall⟩)
          · exact ⟨[c], rfl, List.cons_ne_nil c [], by simpa using hc⟩
          · exact ⟨c :: found, rfl, List.cons_ne_nil c found, List.forall_mem_cons.mpr ⟨hc, hall⟩⟩
        · rintro ⟨found, hs, hne, hall⟩
          obtain ⟨d, found, rfl⟩ := List.exists_cons_of_ne_nil hne
          obtain ⟨rfl, rfl⟩ := List.cons.inj hs
          cases found with
          | nil => exact Or.inl rfl
          | cons e found =>
              exact Or.inr ⟨e :: found, rfl, List.cons_ne_nil e found, (List.forall_mem_cons.mp hall).2⟩
      · rw [if_neg hc]
        constructor
        · exact nofun
        · rintro ⟨found, hs, hne, hall⟩
          obtain ⟨d, found, rfl⟩ := List.exists_cons_of_ne_nil hne
          obtain ⟨rfl, -⟩ := List.cons.inj hs
          exact absurd (hall c List.mem_cons_self) hc

/-- What can be left after a part is what is left after what the part matches. -/
theorem Part.mem_rests {part : Part} {rest : Text} : rest ∈ part.rests before.isEmpty s ↔
    ∃ found, s = found ++ rest ∧ part.Matches before found rest := by
  cases part with
  | start =>
      rw [rests]
      cases before with
      | nil => simp [Matches, eq_comm]
      | cons c before => simp [Matches]
  | finish =>
      rw [rests]
      constructor
      · intro h
        split at h
        · rename_i hend
          obtain rfl := List.mem_singleton.mp h
          exact ⟨[], rfl, rfl, hend⟩
        · cases h
      · rintro ⟨found, rfl, rfl, hend⟩
        rw [List.nil_append, if_pos hend]
        exact List.mem_singleton_self rest
  | outside classes => exact mem_restsOutside

/-- A pattern matches here just if it matches what stands between here and some place further on. -/
theorem matchesHere_iff (p : Pattern) : p.matchesHere before.isEmpty s = true ↔
    ∃ found after, s = found ++ after ∧ p.Matches before found after := by
  induction p generalizing before s with
  | nil => simp [matchesHere, Matches]
  | cons part parts ih =>
      rw [matchesHere, List.any_eq_true]
      have hstart : ∀ first rest : Text, s = first ++ rest →
          (before.isEmpty && rest.length == s.length) = (before ++ first).isEmpty := by
        rintro first rest rfl
        cases before with
        | cons c before => simp
        | nil =>
            cases first with
            | nil => simp
            | cons c first => simp; omega
      constructor
      · rintro ⟨rest, hrest, hparts⟩
        obtain ⟨first, hs, hpart⟩ := Part.mem_rests.mp hrest
        rw [hstart first rest hs] at hparts
        obtain ⟨found, after, rfl, hfound⟩ := ih.mp hparts
        exact ⟨first ++ found, after, by rw [hs, List.append_assoc], first, found, rfl, hpart, hfound⟩
      · rintro ⟨found, after, hs, first, rest, rfl, hpart, hparts⟩
        rw [List.append_assoc] at hs
        refine ⟨rest ++ after, Part.mem_rests.mpr ⟨first, hs, hpart⟩, ?_⟩
        rw [hstart first (rest ++ after) hs]
        exact ih.mpr ⟨rest, after, rfl, hparts⟩

theorem searchFrom_iff (p : Pattern) : p.searchFrom before.isEmpty s = true ↔
    ∃ skipped found after, s = skipped ++ (found ++ after) ∧ p.Matches (before ++ skipped) found after := by
  induction s generalizing before with
  | nil =>
      rw [searchFrom, matchesHere_iff]
      constructor
      · rintro ⟨found, after, hs, hmatch⟩
        exact ⟨[], found, after, hs, by rwa [List.append_nil]⟩
      · rintro ⟨skipped, found, after, hs, hmatch⟩
        obtain rfl := (List.append_eq_nil_iff.mp hs.symm).1
        rw [List.append_nil] at hmatch
        exact ⟨found, after, hs, hmatch⟩
  | cons c s ih =>
      have hnext : false = (before ++ [c]).isEmpty := by simp
      rw [searchFrom, Bool.or_eq_true, matchesHere_iff, hnext, ih]
      constructor
      · rintro (⟨found, after, hs, hmatch⟩ | ⟨skipped, found, after, rfl, hmatch⟩)
        · exact ⟨[], found, after, hs, by rwa [List.append_nil]⟩
        · refine ⟨c :: skipped, found, after, rfl, ?_⟩
          rwa [List.append_assoc, List.singleton_append] at hmatch
      · rintro ⟨skipped, found, after, hs, hmatch⟩
        cases skipped with
        | nil =>
            rw [List.append_nil] at hmatch
            exact Or.inl ⟨found, after, hs, hmatch⟩
        | cons d skipped =>
            obtain ⟨rfl, rfl⟩ := List.cons.inj hs
            refine Or.inr ⟨skipped, found, after, rfl, ?_⟩
            rwa [List.append_assoc, List.singleton_append]

/-- **A search finds a pattern exactly if the pattern matches something in the text.** -/
theorem search_iff {p : Pattern} : p.search s = true ↔ p.Occurs s := by
  have hsearch := @searchFrom_iff [] s p
  rw [show List.isEmpty ([] : Text) = true from rfl] at hsearch
  rw [search, hsearch, Occurs]
  simp only [List.nil_append, List.append_assoc]

instance (p : Pattern) (s : Text) : Decidable (p.Occurs s) := decidable_of_iff _ search_iff

end Search

end Pattern

end Mustache

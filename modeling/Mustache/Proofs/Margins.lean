import Mustache.Proofs.Reading

/-!
# `Mustache.Proofs.Margins` — the margins of a standalone tag

The margins are the text that a standalone tag takes with it: what stands before it in its line, and the
rest of its line with the newline. They are found by looking at one line, so this module says of them
what does not depend on the template around it:

* `Margins.mem_of_trailing?` / `count_of_trailing?` — only blanks and line endings, at most one newline;
* `Margins.split_of_trailing?` — the trailing margin is what the text after the tag begins with, and it
  ends the line unless it ends the text;
* `Margins.trailing?_append` — text after the end of the line does not matter;
* `Margins.length_lastLine_le` — a blank leading margin does not reach back over a fence, a character
  that is not blank.
-/

namespace Mustache

namespace Text

theorem isBlank_iff {s : Text} : isBlank s = true ↔ ∀ c ∈ s, c = ' ' ∨ c = '\t' := by
  simp [isBlank, List.all_eq_true]

/-- A text is split at its first newline. -/
theorem takeWhile_append_newline (s : Text) :
    s.takeWhile (· != '\n') ++ s.dropWhile (· != '\n') = s :=
  List.takeWhile_append_dropWhile

theorem mem_takeWhile_newline {s : Text} {c : Char} (h : c ∈ s.takeWhile (· != '\n')) : c ≠ '\n' := by
  have hp := List.all_eq_true.mp (List.all_takeWhile (l := s) (p := (· != '\n'))) c h
  simpa using hp

/-- What follows the line is nothing or begins with the newline. -/
theorem dropWhile_newline (s : Text) :
    s.dropWhile (· != '\n') = [] ∨ ∃ later, s.dropWhile (· != '\n') = '\n' :: later := by
  cases h : s.dropWhile (· != '\n') with
  | nil => exact Or.inl rfl
  | cons c later =>
      have hhead := List.head?_dropWhile_not (p := (· != '\n')) (l := s)
      rw [h] at hhead
      obtain rfl : c = '\n' := by simpa using hhead
      exact Or.inr ⟨later, rfl⟩

/-- The first newline ends the line. -/
theorem takeWhile_newline_cons (s u : Text) :
    (s ++ '\n' :: u).takeWhile (· != '\n') = s.takeWhile (· != '\n') := by
  induction s with
  | nil => rfl
  | cons c s ih =>
      by_cases hc : c = '\n'
      · simp [hc]
      · simp [hc, ih]

/-- Text after a newline does not change what stands before it. -/
theorem takeWhile_newline_append {s : Text} (h : '\n' ∈ s) (u : Text) :
    (s ++ u).takeWhile (· != '\n') = s.takeWhile (· != '\n') := by
  obtain ⟨line, later, rfl⟩ := List.append_of_mem h
  rw [List.append_assoc, List.cons_append, takeWhile_newline_cons, takeWhile_newline_cons]

theorem dropWhile_newline_append {s : Text} (h : '\n' ∈ s) (u : Text) :
    (s ++ u).dropWhile (· != '\n') = s.dropWhile (· != '\n') ++ u := by
  have hsplit := takeWhile_append_newline (s ++ u)
  rw [takeWhile_newline_append h] at hsplit
  apply List.append_cancel_left (hsplit.trans _)
  rw [← List.append_assoc, takeWhile_append_newline]

end Text

namespace Margins

variable {before after trailing : Text} {m : Margins}

/-- The characters of which margins are made. -/
def alphabet : List Char := [' ', '\t', '\r', '\n']

theorem isSpace_of_mem_alphabet {c : Char} (h : c ∈ alphabet) : Text.isSpace c = true := by
  simp only [alphabet, List.mem_cons, List.not_mem_nil, or_false] at h
  rcases h with rfl | rfl | rfl | rfl <;> rfl

/-! ## The trailing margin -/

theorem eq_some_of_trailing? (h : trailing? after = some trailing) :
    Text.isBlank (if (after.takeWhile (· != '\n')).getLast? = some '\r' then
        (after.takeWhile (· != '\n')).dropLast
      else after.takeWhile (· != '\n')) = true ∧
    after.takeWhile (· != '\n') ++ (after.dropWhile (· != '\n')).take 1 = trailing :=
  (Option.ite_none_right_eq_some.mp h).imp id Option.some.inj

theorem eq_of_trailing? (h : trailing? after = some trailing) :
    trailing = after.takeWhile (· != '\n') ++ (after.dropWhile (· != '\n')).take 1 :=
  (eq_some_of_trailing? h).2.symm

/-- The rest of the line is blank, a carriage return at its end aside. -/
theorem blank_of_trailing? (h : trailing? after = some trailing) :
    ∀ c ∈ after.takeWhile (· != '\n'), c = ' ' ∨ c = '\t' ∨ c = '\r' := by
  intro c hc
  have hblank := (eq_some_of_trailing? h).1
  split at hblank
  · rename_i hlast
    obtain ⟨init, hinit⟩ := List.getLast?_eq_some_iff.mp hlast
    rw [hinit, List.dropLast_concat] at hblank
    rw [hinit] at hc
    rcases List.mem_append.mp hc with hc | hc
    · rcases Text.isBlank_iff.mp hblank c hc with rfl | rfl
      · exact Or.inl rfl
      · exact Or.inr (Or.inl rfl)
    · exact Or.inr (Or.inr (List.mem_singleton.mp hc))
  · rcases Text.isBlank_iff.mp hblank c hc with rfl | rfl
    · exact Or.inl rfl
    · exact Or.inr (Or.inl rfl)

/-- After the line there is at most the newline that ends it. -/
theorem newline_of_trailing? (after : Text) :
    (after.dropWhile (· != '\n')).take 1 = [] ∨ (after.dropWhile (· != '\n')).take 1 = ['\n'] := by
  rcases Text.dropWhile_newline after with h | ⟨later, h⟩
  · exact Or.inl (by rw [h]; rfl)
  · exact Or.inr (by rw [h]; rfl)

/-- **A trailing margin is blanks and line endings.** -/
theorem mem_of_trailing? (h : trailing? after = some trailing) : ∀ c ∈ trailing, c ∈ alphabet := by
  intro c hc
  rw [eq_of_trailing? h] at hc
  rcases List.mem_append.mp hc with hc | hc
  · rcases blank_of_trailing? h c hc with rfl | rfl | rfl <;> decide
  · rcases newline_of_trailing? after with hn | hn <;> rw [hn] at hc
    · exact absurd hc List.not_mem_nil
    · rw [List.mem_singleton.mp hc]
      decide

/-- A trailing margin holds at most one newline. -/
theorem count_of_trailing? (h : trailing? after = some trailing) : trailing.count '\n' ≤ 1 := by
  have hline : (after.takeWhile (· != '\n')).count '\n' = 0 :=
    List.count_eq_zero.mpr fun hmem => Text.mem_takeWhile_newline hmem rfl
  rw [eq_of_trailing? h, List.count_append, hline]
  rcases newline_of_trailing? after with hn | hn <;> rw [hn] <;> decide

/-- The text after a tag begins with the trailing margin. What follows the margin, if anything does,
    begins a line. -/
theorem split_of_trailing? (h : trailing? after = some trailing) :
    ∃ later, after = trailing ++ later ∧ (later ≠ [] → ∃ line, trailing = line ++ ['\n']) := by
  have hsplit := Text.takeWhile_append_newline after
  rw [eq_of_trailing? h]
  rcases Text.dropWhile_newline after with hn | ⟨later, hn⟩
  · refine ⟨[], ?_, fun hne => absurd rfl hne⟩
    rw [hn] at hsplit ⊢
    simpa using hsplit.symm
  · refine ⟨later, ?_, fun _ => ⟨_, by rw [hn]; rfl⟩⟩
    rw [hn] at hsplit ⊢
    simpa using hsplit.symm

/-- The trailing margin in a line that has an end. -/
theorem trailing?_line {line : Text} (hline : '\n' ∉ line) (later : Text) :
    trailing? (line ++ '\n' :: later)
      = if Text.isBlank (if line.getLast? = some '\r' then line.dropLast else line) then
          some (line ++ ['\n'])
        else none := by
  have hall : ∀ c ∈ line, (c != '\n') = true := by
    intro c hc
    rw [bne_iff_ne]
    rintro rfl
    exact hline hc
  have htake : (line ++ '\n' :: later).takeWhile (· != '\n') = line :=
    (List.takeWhile_append_of_pos hall).trans (List.append_nil line)
  have hdrop : (line ++ '\n' :: later).dropWhile (· != '\n') = '\n' :: later := by
    have hsplit := Text.takeWhile_append_newline (line ++ '\n' :: later)
    rw [htake] at hsplit
    exact List.append_cancel_left hsplit
  unfold trailing?
  rw [htake, hdrop]
  rfl

/-- What stands after the end of the line does not matter. -/
theorem trailing?_append (h : '\n' ∈ after) (u : Text) : trailing? (after ++ u) = trailing? after := by
  obtain ⟨later, hn⟩ := (Text.dropWhile_newline after).resolve_left fun hnil => by
    have hsplit := Text.takeWhile_append_newline after
    rw [hnil, List.append_nil] at hsplit
    exact Text.mem_takeWhile_newline (hsplit.symm ▸ h) rfl
  unfold trailing?
  rw [Text.takeWhile_newline_append h, Text.dropWhile_newline_append h, hn]
  rfl

/-! ## Both margins -/

theorem of_around? (h : around? before after = some m) :
    m.leading = before ∧ (∀ c ∈ before, c = ' ' ∨ c = '\t') ∧ trailing? after = some m.trailing := by
  unfold around? at h
  split at h
  · rename_i hblank
    obtain ⟨trailing, htrailing, rfl⟩ := Option.map_eq_some_iff.mp h
    exact ⟨rfl, Text.isBlank_iff.mp hblank, htrailing⟩
  · cases h

/-- The last line of a text, when it is blank, does not reach back over a character that is not
    blank. -/
theorem length_lastLine_le {x y : Text} (hfence : ∀ c, x.getLast? = some c → c ≠ ' ' ∧ c ≠ '\t')
    (hblank : ∀ c ∈ (x ++ y).reverse.takeWhile (· != '\n'), c = ' ' ∨ c = '\t') :
    ((x ++ y).reverse.takeWhile (· != '\n')).length ≤ y.length := by
  rw [List.reverse_append] at hblank ⊢
  rw [List.takeWhile_append] at hblank ⊢
  split at hblank
  · rename_i hall
    rw [if_pos hall]
    rcases hx : x.reverse with _ | ⟨c, cs⟩
    · simp
    · have hlast : x.getLast? = some c := by rw [← List.head?_reverse, hx]; rfl
      by_cases hc : c = '\n'
      · simp [hc]
      · have hmem : c ∈ y.reverse ++ x.reverse.takeWhile (· != '\n') := by
          rw [hx]
          simp [hc]
        rcases hblank c hmem with rfl | rfl
        · exact absurd rfl (hfence _ hlast).1
        · exact absurd rfl (hfence _ hlast).2
  · rename_i hall
    rw [if_neg hall]
    have hle := (List.takeWhile_sublist (l := y.reverse) (· != '\n')).length_le
    rwa [List.length_reverse] at hle

end Margins

end Mustache

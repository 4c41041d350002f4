import Mustache.Text

/-!
# `Mustache.Proofs.Search` — the leftmost occurrence

`Text.breakOn` cuts a text at the first occurrence of a pattern. What makes it the *first* one is that
none begins earlier: `Clear pat lead rest` says that no occurrence of `pat` begins in `lead` when `rest`
follows it. An occurrence that begins in `lead` may reach into `rest`, so the predicate has to mention
both.

* `breakOn_eq_some_iff` / `breakOn_eq_none_iff` — cutting, said with `Clear` alone;
* `breakOn_append_left` / `Clear.congr_after` / `Clear.of_append` — cutting is local: text before the cut
  without an occurrence passes through unchanged, and what follows the pattern does not matter;
* `clear_of_disjoint` / `Clear.of_fence` — two reasons for a text to be clear.
-/

namespace Mustache

namespace Text

/-- No occurrence of `pat` begins in `lead` when `rest` follows it. -/
def Clear (pat lead rest : Text) : Prop := ∀ i < lead.length, ¬ pat <+: (lead ++ rest).drop i

variable {pat lead rest s t before after : Text}

theorem clear_nil : Clear pat [] rest := fun _ h => absurd h (Nat.not_lt_zero _)

theorem clear_cons {c : Char} :
    Clear pat (c :: lead) rest ↔ ¬ pat <+: c :: (lead ++ rest) ∧ Clear pat lead rest := by
  constructor
  · intro h
    refine ⟨h 0 (Nat.succ_pos _), fun i hi => ?_⟩
    exact h (i + 1) (Nat.succ_lt_succ hi)
  · rintro ⟨hhead, htail⟩ i hi
    cases i with
    | zero => exact hhead
    | succ i => exact htail i (Nat.lt_of_succ_lt_succ hi)

/-- The empty pattern begins everywhere. -/
theorem Clear.eq_nil (h : Clear [] lead rest) : lead = [] := by
  cases lead with
  | nil => rfl
  | cons c cs => exact absurd List.nil_prefix (h 0 (Nat.succ_pos _))

/-- A longer clear text is clear in both of its parts. -/
theorem clear_append : Clear pat (lead ++ s) rest ↔ Clear pat lead (s ++ rest) ∧ Clear pat s rest := by
  induction lead with
  | nil => exact ⟨fun h => ⟨clear_nil, h⟩, fun h => h.2⟩
  | cons c lead ih =>
      rw [List.cons_append, clear_cons, clear_cons, ih, List.append_assoc, and_assoc]

/-! ## Cutting -/

theorem breakOn_here (h : pat <+: s) : breakOn pat s = some ([], s.drop pat.length) := by
  cases s with
  | nil => rw [List.prefix_nil.mp h]; rfl
  | cons c cs => rw [breakOn, if_pos (List.isPrefixOf_iff_prefix.mpr h)]

theorem breakOn_later {c : Char} (h : ¬ pat <+: c :: s) :
    breakOn pat (c :: s) = (breakOn pat s).map fun cut => (c :: cut.1, cut.2) := by
  rw [breakOn, if_neg (fun hp => h (List.isPrefixOf_iff_prefix.mp hp))]

/-- Text in which no occurrence begins stays before the cut. -/
theorem breakOn_append_left (h : Clear pat lead s) :
    breakOn pat (lead ++ s) = (breakOn pat s).map fun cut => (lead ++ cut.1, cut.2) := by
  induction lead with
  | nil => cases hs : breakOn pat s <;> simp [hs]
  | cons c lead ih =>
      obtain ⟨hhead, htail⟩ := clear_cons.mp h
      rw [List.cons_append, breakOn_later hhead, ih htail, Option.map_map]
      rfl

/-- No occurrence begins before the cut. -/
theorem clear_of_breakOn (h : breakOn pat s = some (before, after)) :
    Clear pat before (pat ++ after) := by
  induction s generalizing before with
  | nil =>
      obtain rfl : before = [] := by
        unfold breakOn at h
        split at h <;> simp_all
      exact clear_nil
  | cons c cs ih =>
      by_cases hp : pat <+: c :: cs
      · rw [breakOn_here hp] at h
        obtain rfl : [] = before := congrArg Prod.fst (Option.some.inj h)
        exact clear_nil
      · rw [breakOn_later hp, Option.map_eq_some_iff] at h
        obtain ⟨⟨b, a⟩, hcut, heq⟩ := h
        obtain ⟨rfl, rfl⟩ := Prod.mk.inj heq
        refine clear_cons.mpr ⟨?_, ih hcut⟩
        rw [← List.append_assoc, ← eq_of_breakOn hcut]
        exact hp

/-- **A cut is the leftmost one.** -/
theorem breakOn_eq_some_iff :
    breakOn pat s = some (before, after) ↔
      s = before ++ (pat ++ after) ∧ Clear pat before (pat ++ after) := by
  constructor
  · intro h
    exact ⟨by rw [eq_of_breakOn h, List.append_assoc], clear_of_breakOn h⟩
  · rintro ⟨rfl, hclear⟩
    rw [breakOn_append_left hclear, breakOn_here (List.prefix_append _ _)]
    simp

/-- There is no cut when no occurrence begins anywhere, the end of the text included. -/
theorem breakOn_eq_none_iff : breakOn pat s = none ↔ pat ≠ [] ∧ Clear pat s [] := by
  induction s with
  | nil =>
      cases pat with
      | nil => simp [breakOn]
      | cons p ps => simp [breakOn, clear_nil]
  | cons c cs ih =>
      rw [clear_cons, List.append_nil]
      by_cases hp : pat <+: c :: cs
      · simp [breakOn_here hp, hp]
      · simp [breakOn_later hp, hp, ih]

/-! ## Locality -/

/-- Whether a text before the pattern is clear does not depend on what follows the pattern. -/
theorem Clear.congr_after (h : Clear pat lead (pat ++ s)) : Clear pat lead (pat ++ t) := by
  intro i hi hocc
  apply h i hi
  -- an occurrence that begins before the pattern ends within it
  have hlen : pat.length ≤ ((lead ++ pat).drop i).length := by simp; omega
  have hsplit : ∀ u : Text, (lead ++ (pat ++ u)).drop i = (lead ++ pat).drop i ++ u := by
    intro u
    rw [← List.append_assoc, List.drop_append_of_le_length (by simp; omega)]
  rw [hsplit] at hocc ⊢
  exact (List.prefix_of_prefix_length_le hocc (List.prefix_append _ _) hlen).trans
    (List.prefix_append _ _)

/-- With less text after it, a clear text is still clear. -/
theorem Clear.of_append (h : Clear pat lead (s ++ t)) : Clear pat lead s := by
  intro i hi hocc
  apply h i hi
  rw [← List.append_assoc, List.drop_append_of_le_length (by rw [List.length_append]; omega)]
  exact hocc.trans (List.prefix_append _ _)

/-! ## Reasons for a text to be clear -/

/-- Text without any character of the pattern is clear. -/
theorem clear_of_disjoint (hpat : pat ≠ []) (h : ∀ c ∈ lead, c ∉ pat) : Clear pat lead rest := by
  induction lead with
  | nil => exact clear_nil
  | cons c lead ih =>
      refine clear_cons.mpr ⟨fun hp => ?_, ih fun x hx => h x (List.mem_cons_of_mem _ hx)⟩
      obtain ⟨p, ps, rfl⟩ := List.exists_cons_of_ne_nil hpat
      obtain rfl : p = c := (List.cons_prefix_cons.mp hp).1
      exact h p List.mem_cons_self List.mem_cons_self

/-- No occurrence reaches past a character that the pattern does not have. -/
theorem Clear.of_fence {x : Char} (hx : x ∉ pat) (h : Clear pat (lead ++ [x]) []) :
    Clear pat (lead ++ [x]) rest := by
  intro i hi hocc
  rw [List.length_append, List.length_singleton] at hi
  apply h i (by simpa using hi)
  have hsplit : ((lead ++ [x]) ++ rest).drop i = lead.drop i ++ (x :: rest) := by
    rw [List.append_assoc, List.drop_append_of_le_length (by omega)]
    rfl
  rw [hsplit] at hocc
  have hle : pat.length ≤ (lead.drop i).length := by
    apply Nat.le_of_not_lt
    intro hlt
    -- an occurrence longer than what is left of `lead` covers the fence
    have hget := hocc.getElem hlt
    apply hx
    rw [List.getElem_append_right (Nat.le_refl _)] at hget
    simp only [Nat.sub_self, List.getElem_cons_zero] at hget
    rw [← hget]
    exact List.getElem_mem hlt
  rw [List.append_nil, List.drop_append_of_le_length (by omega)]
  exact (List.prefix_of_prefix_length_le hocc (List.prefix_append _ _) hle).trans
    (List.prefix_append _ _)

end Text

end Mustache

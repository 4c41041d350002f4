import Mustache.Text.Case

/-!
# `Mustache.Proofs.Casing` — texts in lower case

What the mapping to lower case gives is in lower case: it maps no character to one that it maps further.

* `shiftBy_image` — the runs of a table shift nothing twice if no image is in a run, for which runs need only be
  compared with one another, since both a run and its images lie evenly in an interval;
* `inLowerCase_of_mem_lowerChar` — what the lower case of a character consists of has no further lower case;
* `lower_lower` and `lower_upper` — **the lower case of a text is in lower case**, and ASCII without capital letters is
  the lower case of its upper case.
-/

namespace Mustache.Text

/-! ## Runs of the table -/

section Runs

variable {runs : List (Nat × Nat × Nat × Nat)} {n m : Nat}

/-- The last image of a run. -/
def lastImage (r : Nat × Nat × Nat × Nat) : Nat := r.2.1 - r.1 + r.2.2.2

/-- No image of a run is in another: the intervals do not meet, or their members differ in parity. All pairs of runs are
    compared, so the comparison is one of natural numbers that the kernel decides at once. -/
def imagesAvoid (r r' : Nat × Nat × Nat × Nat) : Bool :=
  Nat.blt (lastImage r) r'.1 || Nat.blt r'.2.1 r.2.2.2
    || ((r.2.2.1 == 2 || r.1 == r.2.1) && r'.2.2.1 == 2 && (r.2.2.2 + r'.1) % 2 == 1)

theorem exists_run_of_shiftBy (h : shiftBy runs n = some m) :
    ∃ r ∈ runs, r.1 ≤ n ∧ n ≤ r.2.1 ∧ (n - r.1) % r.2.2.1 = 0 ∧ m = n - r.1 + r.2.2.2 := by
  obtain ⟨r, hfind, rfl⟩ := Option.map_eq_some_iff.mp h
  have hr := List.find?_some hfind
  simp only [Bool.and_eq_true, decide_eq_true_eq, beq_iff_eq] at hr
  exact ⟨r, List.mem_of_find?_eq_some hfind, hr.1.1, hr.1.2, hr.2, rfl⟩

theorem shiftBy_eq_none (h : ∀ r ∈ runs, r.1 ≤ n → n ≤ r.2.1 → (n - r.1) % r.2.2.1 ≠ 0) : shiftBy runs n = none := by
  refine Option.map_eq_none_iff.mpr (List.find?_eq_none.mpr ?_)
  intro r hr hmem
  simp only [Bool.and_eq_true, decide_eq_true_eq, beq_iff_eq] at hmem
  exact h r hr hmem.1.1 hmem.1.2 hmem.2

/-- Runs whose images avoid all of them shift nothing twice. -/
theorem shiftBy_image (havoid : (runs.all fun r => runs.all fun r' => imagesAvoid r r') = true)
    (h : shiftBy runs n = some m) : shiftBy runs m = none := by
  obtain ⟨r, hr, hfirst, hlast, hstep, rfl⟩ := exists_run_of_shiftBy h
  apply shiftBy_eq_none
  intro r' hr' hfirst' hlast' hstep'
  have havoid := List.all_eq_true.mp (List.all_eq_true.mp havoid r hr) r' hr'
  unfold imagesAvoid lastImage at havoid
  simp only [Bool.or_eq_true, Bool.and_eq_true, Nat.blt_eq, beq_iff_eq] at havoid
  rcases havoid with (hbefore | hbehind) | ⟨⟨hr2 | hsingle, hr2'⟩, hparity⟩
  · omega
  · omega
  · -- both runs go in steps of two, so no image has the parity of the other run
    rw [hr2] at hstep
    rw [hr2'] at hstep'
    omega
  · rw [hr2'] at hstep'
    omega

end Runs

/-! ## Characters -/

/-- A character that is its own lower case in every context. -/
def InLowerCase (c : Char) : Prop := c ≠ 'Σ' ∧ lowerChar c = [c]

instance : DecidablePred InLowerCase := fun _ => inferInstanceAs (Decidable (_ ∧ _))

/-- What holds of all characters of ASCII can be checked one by one. -/
theorem forall_ascii {P : Char → Prop} (h : ∀ n < 0x80, P (Char.ofNat n)) {c : Char} (hc : c.toNat < 0x80) : P c :=
  Char.ofNat_toNat c ▸ h c.toNat hc

theorem inLowerCase_toLower {c : Char} (h : c.toNat < 0x80) : InLowerCase c.toLower := by
  have hall : ∀ n < 0x80, InLowerCase (Char.ofNat n).toLower := by decide +kernel
  exact forall_ascii (P := fun c => InLowerCase c.toLower) hall h

/-- The images of a run are characters without a special mapping, and no capital letters. -/
def imagesValid (r : Nat × Nat × Nat × Nat) : Bool :=
  (lastImage r < 0xd800 || (0xdfff < r.2.2.2 && lastImage r < 0x110000)) && 0x61 ≤ r.2.2.2
    && (lastImage r < 0x130 || 0x130 < r.2.2.2)

theorem toNat_ofNat_of_isValidChar {n : Nat} (h : n.isValidChar) : (Char.ofNat n).toNat = n := by
  rw [Char.ofNat, dif_pos h]
  rfl

theorem inLowerCase_image {n m : Nat} (h : shiftBy lowerRuns n = some m) : InLowerCase (Char.ofNat m) := by
  have havoid : (lowerRuns.all fun r => lowerRuns.all fun r' => imagesAvoid r r') = true := by decide +kernel
  have hvalid : lowerRuns.all imagesValid = true := by decide +kernel
  have hnone : shiftBy lowerRuns m = none := shiftBy_image havoid h
  obtain ⟨r, hr, hfirst, hlast, -, hm⟩ := exists_run_of_shiftBy h
  replace hvalid := List.all_eq_true.mp hvalid r hr
  unfold imagesValid lastImage at hvalid
  simp only [Bool.or_eq_true, Bool.and_eq_true, decide_eq_true_eq] at hvalid
  obtain ⟨⟨hchar, hascii⟩, hspecial⟩ := hvalid
  have htoNat : (Char.ofNat m).toNat = m := by
    apply toNat_ofNat_of_isValidChar
    unfold Nat.isValidChar
    omega
  constructor
  · -- the capital sigma is in a run itself
    intro hsigma
    have hcode : m = 0x3a3 := by rw [← htoNat, hsigma]; rfl
    rw [hcode] at hnone
    revert hnone
    decide
  · by_cases hsmall : m < 0x80
    · have hall : ∀ n < 0x80, 0x61 ≤ n → (Char.ofNat n).toLower = Char.ofNat n := by decide
      rw [lowerChar, htoNat, if_pos hsmall, hall m hsmall (by omega)]
    · have hlookup : lowerSpecials.lookup m = none := by
        refine List.lookup_eq_none_iff.mpr fun e he => ?_
        obtain rfl := List.mem_singleton.mp he
        exact bne_iff_ne.mpr (by omega)
      rw [lowerChar, htoNat, if_neg hsmall, mapCase, htoNat, hlookup, hnone]

/-- **What the lower case of a character consists of is in lower case.** -/
theorem inLowerCase_of_mem_lowerChar {c d : Char} (hc : c ≠ 'Σ') (h : d ∈ lowerChar c) : InLowerCase d := by
  -- what no table maps further is its own lower case
  have hsame : lowerChar c = [c] → InLowerCase d := by
    intro hfixed
    rw [hfixed, List.mem_singleton] at h
    exact h ▸ ⟨hc, hfixed⟩
  by_cases hsmall : c.toNat < 0x80
  · rw [lowerChar, if_pos hsmall, List.mem_singleton] at h
    exact h ▸ inLowerCase_toLower hsmall
  · rw [lowerChar, if_neg hsmall, mapCase] at h hsame
    cases hlookup : lowerSpecials.lookup c.toNat with
    | some ns =>
        have hspecials : ∀ e ∈ lowerSpecials, ∀ n ∈ e.2, InLowerCase (Char.ofNat n) := by decide +kernel
        obtain ⟨l, l', hl, -⟩ := List.lookup_eq_some_iff.mp hlookup
        have hmem : (c.toNat, ns) ∈ lowerSpecials := hl ▸ List.mem_append_right l List.mem_cons_self
        rw [hlookup] at h
        obtain ⟨n, hn, rfl⟩ := List.mem_map.mp h
        exact hspecials _ hmem n hn
    | none =>
        rw [hlookup] at h hsame
        cases hshift : shiftBy lowerRuns c.toNat with
        | some m =>
            rw [hshift] at h
            exact List.mem_singleton.mp h ▸ inLowerCase_image hshift
        | none =>
            rw [hshift] at hsame
            exact hsame rfl

/-! ## Texts -/

theorem lowerAfter_of_inLowerCase {s : Text} (h : ∀ c ∈ s, InLowerCase c) (before : Text) :
    lowerAfter before s = s := by
  induction s generalizing before with
  | nil => rfl
  | cons c cs ih =>
      obtain ⟨⟨hsigma, hc⟩, hcs⟩ := List.forall_mem_cons.mp h
      rw [lowerAfter, if_neg hsigma, hc, ih hcs]
      rfl

theorem inLowerCase_of_mem_lowerAfter {s : Text} {d : Char} {before : Text} (h : d ∈ lowerAfter before s) :
    InLowerCase d := by
  induction s generalizing before with
  | nil => cases h
  | cons c cs ih =>
      rw [lowerAfter] at h
      rcases List.mem_append.mp h with h | h
      · by_cases hsigma : c = 'Σ'
        · -- either of the two small sigmas
          rw [if_pos hsigma] at h
          rw [List.mem_singleton.mp h]
          split <;> decide
        · rw [if_neg hsigma] at h
          exact inLowerCase_of_mem_lowerChar hsigma h
      · exact ih h

/-- **What is in lower case stays as it is in lower case.** -/
theorem lower_lower (s : Text) : lower (lower s) = lower s :=
  lowerAfter_of_inLowerCase (fun _ h => inLowerCase_of_mem_lowerAfter h) []

/-- A character in lower case stays where it is. -/
theorem mem_lower_of_mem {s : Text} {c : Char} (hc : InLowerCase c) (h : c ∈ s) : c ∈ lower s := by
  have hafter (before : Text) : c ∈ lowerAfter before s := by
    induction s generalizing before with
    | nil => cases h
    | cons d s ih =>
        rw [lowerAfter]
        rcases List.mem_cons.mp h with rfl | h
        · rw [if_neg hc.1, hc.2]
          exact List.mem_cons_self
        · exact List.mem_append_right _ (ih h (d :: before))
  exact hafter []

/-- ASCII without capital letters is the lower case of its upper case. -/
theorem lower_upper {s : Text} (h : ∀ c ∈ s, c.toNat < 0x80 ∧ c.isUpper = false) : lower (upper s) = s := by
  have hchar : ∀ n < 0x80, (Char.ofNat n).isUpper = false →
      upperChar (Char.ofNat n) = [(Char.ofNat n).toUpper] ∧ (Char.ofNat n).toUpper ≠ 'Σ' ∧
        lowerChar (Char.ofNat n).toUpper = [Char.ofNat n] := by
    decide +kernel
  have hafter (before : Text) : lowerAfter before (upper s) = s := by
    induction s generalizing before with
    | nil => rfl
    | cons c cs ih =>
        obtain ⟨⟨hascii, hupper⟩, hcs⟩ := List.forall_mem_cons.mp h
        obtain ⟨hup, hsigma, hlow⟩ := forall_ascii (P := fun c => c.isUpper = false →
          upperChar c = [c.toUpper] ∧ c.toUpper ≠ 'Σ' ∧ lowerChar c.toUpper = [c]) hchar hascii hupper
        rw [upper, List.flatMap_cons, hup, List.singleton_append, lowerAfter, if_neg hsigma, hlow]
        exact congrArg (c :: ·) (ih hcs _)
  exact hafter []

end Mustache.Text

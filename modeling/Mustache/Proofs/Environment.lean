import Mustache.Session

/-!
# `Mustache.Proofs.Environment` — what the environment has to do with a configuration

Of all environment variables a configuration depends only on those of the engine: the others override nothing and name
no file. The variables of the engine are kept in the order of their names. The sort is stable, so of two with one name
the first is still the first.

* `Text.precedes_total`, `Text.precedes_trans`, `Text.precedes_antisymm` — the order of texts is a linear order;
* `find?_mergeSort` — a stable sort keeps the first of several that are equal;
* `Surroundings.namedFile?_congr`, `Config.overrides_congr` — **surroundings with the same variables of the engine name
  the same file and have the same overrides**.
-/

namespace Mustache

/-! ## The order of texts -/

namespace Text

theorem precedes_total (s t : Text) : (precedes s t || precedes t s) = true := by
  induction s generalizing t with
  | nil => rfl
  | cons c cs ih =>
      cases t with
      | nil => rfl
      | cons d ds =>
          unfold precedes
          by_cases h : c = d
          · rw [if_pos h, if_pos h.symm]
            exact ih ds
          · rw [if_neg h, if_neg (Ne.symm h)]
            have hne : c.toNat ≠ d.toNat := fun heq => h (Char.toNat_inj.mp heq)
            simp only [Bool.or_eq_true, decide_eq_true_eq]
            omega

theorem precedes_trans (s t u : Text) (hst : precedes s t = true) (htu : precedes t u = true) :
    precedes s u = true := by
  induction s generalizing t u with
  | nil => rfl
  | cons c cs ih =>
      cases t with
      | nil => cases hst
      | cons d ds =>
          cases u with
          | nil => cases htu
          | cons e es =>
              unfold precedes at hst htu ⊢
              by_cases hcd : c = d <;> by_cases hde : d = e
              · subst hcd hde
                rw [if_pos rfl] at hst htu ⊢
                exact ih ds es hst htu
              · subst hcd
                rwa [if_neg hde] at htu ⊢
              · subst hde
                rwa [if_neg hcd] at hst ⊢
              · rw [if_neg hcd, decide_eq_true_eq] at hst
                rw [if_neg hde, decide_eq_true_eq] at htu
                have hce : c ≠ e := by
                  rintro rfl
                  omega
                rw [if_neg hce, decide_eq_true_eq]
                omega

theorem precedes_antisymm (s t : Text) (hst : precedes s t = true) (hts : precedes t s = true) : s = t := by
  induction s generalizing t with
  | nil =>
      cases t with
      | nil => rfl
      | cons => cases hts
  | cons c cs ih =>
      cases t with
      | nil => cases hst
      | cons d ds =>
          unfold precedes at hst hts
          by_cases h : c = d
          · subst h
            rw [if_pos rfl] at hst hts
            rw [ih ds hst hts]
          · rw [if_neg h, decide_eq_true_eq] at hst
            rw [if_neg (Ne.symm h), decide_eq_true_eq] at hts
            omega

/-- Sorting and leaving out can be done in any order. -/
theorem filter_sort (p : Text → Bool) (ts : List Text) : (sort ts).filter p = sort (ts.filter p) := by
  have hsorted : ∀ ts, (sort ts).Pairwise fun s t => precedes s t = true :=
    List.pairwise_mergeSort precedes_trans precedes_total
  have hperm : ((sort ts).filter p).Perm (sort (ts.filter p)) :=
    ((List.mergeSort_perm ts precedes).filter p).trans (List.mergeSort_perm (ts.filter p) precedes).symm
  exact hperm.eq_of_pairwise (fun s t _ _ => precedes_antisymm s t) ((hsorted ts).filter p) (hsorted _)

end Text

/-! ## Stable sorts -/

section Sorting

variable {α : Type} {le : α → α → Bool}

/-- A stable sort keeps the first of several that are equal. -/
theorem find?_mergeSort (htrans : ∀ a b c, le a b = true → le b c = true → le a c = true)
    (htotal : ∀ a b, (le a b || le b a) = true) {p : α → Bool}
    (hp : ∀ a b, p a = true → p b = true → le a b = true) (l : List α) : (l.mergeSort le).find? p = l.find? p := by
  have hequal : (l.filter p).Pairwise fun a b => le a b = true :=
    List.pairwise_filter.mpr (List.pairwise_of_forall hp)
  have hsub : (l.filter p).Sublist ((l.mergeSort le).filter p) := by
    have hfilter := (List.sublist_mergeSort htrans htotal hequal List.filter_sublist).filter p
    simpa only [List.filter_filter, Bool.and_self] using hfilter
  have hlength : (l.filter p).length = ((l.mergeSort le).filter p).length :=
    ((List.mergeSort_perm l le).filter p).length_eq.symm
  rw [← List.head?_filter, ← List.head?_filter, hsub.eq_of_length hlength]

end Sorting

theorem Table.get?_eq_find? {κ α : Type} [BEq κ] (t : Table κ α) (key : κ) :
    t.get? key = (t.find? fun e => e.1 == key).map Prod.snd := by
  induction t with
  | nil => rfl
  | cons e t ih =>
      rw [Table.get?, List.find?_cons]
      cases e.1 == key with
      | true => rfl
      | false => exact ih

/-! ## Variables of the engine -/

namespace Surroundings

variable {w w' : Surroundings}

/-- The variables of the engine, looked up among themselves. -/
theorem get?_engineVariables (w : Surroundings) {name : Text} (h : variableStem.isPrefixOf name = true) :
    Table.get? w.engineVariables name = w.environment.get? name := by
  have hsort : (w.engineVariables.find? fun e => e.1 == name)
      = (w.environment.filter fun e => variableStem.isPrefixOf e.1).find? fun e => e.1 == name := by
    refine find?_mergeSort (fun a b c => Text.precedes_trans a.1 b.1 c.1) (fun a b => Text.precedes_total a.1 b.1) ?_ _
    intro a b ha hb
    rw [eq_of_beq ha, eq_of_beq hb]
    have htotal := Text.precedes_total name name
    rwa [Bool.or_self] at htotal
  have hfilter : ((w.environment.filter fun e => variableStem.isPrefixOf e.1).find? fun e => e.1 == name)
      = w.environment.find? fun e => e.1 == name := by
    rw [List.find?_filter]
    congr 1
    funext e
    cases he : e.1 == name with
    | false => simp
    | true => simp [eq_of_beq he, h]
  rw [Table.get?_eq_find?, Table.get?_eq_find?, hsort, hfilter]

theorem keys_engineVariables (w : Surroundings) :
    Table.keys w.engineVariables = (Text.sort w.environment.keys).filter (variableStem.isPrefixOf ·) := by
  rw [Text.filter_sort]
  have hsorted : (Table.keys w.engineVariables).Pairwise fun s t => Text.precedes s t = true := by
    refine List.pairwise_map.mpr ?_
    exact List.pairwise_mergeSort (fun a b c => Text.precedes_trans a.1 b.1 c.1)
      (fun a b => Text.precedes_total a.1 b.1) _
  have hperm : (Table.keys w.engineVariables).Perm
      (Text.sort (w.environment.keys.filter (variableStem.isPrefixOf ·))) := by
    have hmap : w.environment.keys.filter (variableStem.isPrefixOf ·)
        = (w.environment.filter fun e => variableStem.isPrefixOf e.1).map Prod.fst := List.filter_map
    rw [hmap]
    exact ((List.mergeSort_perm _ _).map Prod.fst).trans (List.mergeSort_perm _ _).symm
  exact hperm.eq_of_pairwise (fun s t _ _ => Text.precedes_antisymm s t) hsorted
    (List.pairwise_mergeSort Text.precedes_trans Text.precedes_total _)

theorem namedFile?_congr (h : w.engineVariables = w'.engineVariables) : w.namedFile? = w'.namedFile? := by
  have hstem : variableStem.isPrefixOf Config.fileVariable = true := rfl
  unfold namedFile?
  rw [← w.get?_engineVariables hstem, ← w'.get?_engineVariables hstem, h]

end Surroundings

namespace Config

theorem settingName?_of_not_prefix {v : Text} (h : variableStem.isPrefixOf v = false) : settingName? v = none := by
  unfold settingName?
  split
  · rfl
  · rw [h]

variable [ReadingLimits] {strict : Bool}

/-- Variables that are not the engine's override nothing. -/
theorem overridesOf_filter (environment : Table Text Text) (vs : List Text) :
    overridesOf strict environment (vs.filter (variableStem.isPrefixOf ·)) = overridesOf strict environment vs := by
  induction vs with
  | nil => rfl
  | cons v vs ih =>
      cases h : variableStem.isPrefixOf v with
      | true => rw [List.filter_cons_of_pos h, overridesOf, overridesOf, ih]
      | false => rw [List.filter_cons_of_neg (by simp [h]), overridesOf, settingName?_of_not_prefix h, ih]

theorem overridesOf_congr {t t' : Table Text Text} {vs : List Text} (h : ∀ v ∈ vs, t.get? v = t'.get? v) :
    overridesOf strict t vs = overridesOf strict t' vs := by
  induction vs with
  | nil => rfl
  | cons v vs ih =>
      obtain ⟨hv, hvs⟩ := List.forall_mem_cons.mp h
      rw [overridesOf, overridesOf, ih hvs, hv]

/-- The overrides can be read off the variables of the engine. -/
theorem overrides_eq (strict : Bool) (w : Surroundings) :
    overrides strict w.environment = overridesOf strict w.engineVariables (Table.keys w.engineVariables) := by
  rw [overrides, ← overridesOf_filter, w.keys_engineVariables]
  refine overridesOf_congr fun v hv => ?_
  exact (w.get?_engineVariables (List.mem_filter.mp hv).2).symm

/-- **Surroundings with the same variables of the engine have the same overrides.** -/
theorem overrides_congr {w w' : Surroundings} (h : w.engineVariables = w'.engineVariables) (strict : Bool) :
    overrides strict w.environment = overrides strict w'.environment := by
  rw [overrides_eq, overrides_eq, h]

end Config

end Mustache

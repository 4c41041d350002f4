import Mustache.Token
import Mustache.Proofs.Line
import Mustache.Proofs.Reading

/-!
# `Mustache.Proofs.Scanning` — the scan as a relation

`Scan.after` recurses on what is left of the text and carries a cursor along. `Scans pre d s sc` is the
same scan as a relation, with the text `pre` before it in place of the cursor and one rule for each way in
which the rest `s` can begin: no opening delimiter is left (`finish`), the tag at the leftmost one cannot
be read (`fail`), or it can (`tag`). Each rule gives the text as a concatenation, so facts about scans are
proved by induction on the derivation, and an equation about `Scan.after` is proved by exhibiting one
(`Scans.after_eq`).

`Delimiters.inEffect` is the pair that holds after a sequence of tags, and `Tag.start_place` and
`Tag.stop_place` give the offsets of a tag in the text in which it was placed.
-/

namespace Mustache

/-! ## The delimiters in effect -/

/-- The delimiters after a sequence of tags, by what each of them declares: the last declared pair, or
    the pair at the beginning when none is declared. -/
def Delimiters.inEffect (d : Delimiters) (declared : List (Option Delimiters)) : Delimiters :=
  (declared.filterMap id).getLastD d

namespace Delimiters

theorem inEffect_cons (d : Delimiters) (r : Option Delimiters) (rs : List (Option Delimiters)) :
    d.inEffect (r :: rs) = (r.getD d).inEffect rs := by
  cases r with
  | none => rfl
  | some e => exact List.getLastD_cons

end Delimiters

/-- The delimiters at the end of a scan. -/
def Scan.delimitersAfter (d : Delimiters) (sc : Scan) : Delimiters :=
  d.inEffect (sc.runs.map fun r => r.tag.replacement)

theorem Scan.delimitersAfter_cons (d : Delimiters) (r : Run) (sc : Scan) :
    (sc.cons r).delimitersAfter d = sc.delimitersAfter (r.tag.replacement.getD d) :=
  Delimiters.inEffect_cons _ _ _

/-! ## Placed tags -/

namespace Tag

theorem start_place (d : Delimiters) (pre : Text) (t : TagText) (rest : Text) :
    (place d (Cursor.start.advance pre) t rest).start = pre.length :=
  Cursor.offset_start_advance pre

theorem stop_place (d : Delimiters) (pre : Text) (t : TagText) (rest : Text) :
    (place d (Cursor.start.advance pre) t rest).stop = (pre ++ (d.opening ++ t.source)).length := by
  rw [List.length_append]
  exact congrArg (· + (d.opening ++ t.source).length) (Cursor.offset_start_advance pre)

end Tag

/-! ## The relation -/

/-- `Scans pre d s sc`: after the text `pre` and under the delimiters `d`, the text `s` scans to `sc`. -/
inductive Scans : Text → Delimiters → Text → Scan → Prop where
  /-- No tag begins in the text. -/
  | finish {pre : Text} {d : Delimiters} {s : Text} (hclear : Text.Clear d.opening s []) :
      Scans pre d s ⟨[], s, none⟩
  /-- The tag at the leftmost opening delimiter cannot be read. -/
  | fail {pre : Text} {d : Delimiters} {lead inner : Text} {fault : SyntaxFault}
      (hclear : Text.Clear d.opening lead (d.opening ++ inner))
      (hne : lead ++ (d.opening ++ inner) ≠ [])
      (hread : TagText.read d inner = .error fault) :
      Scans pre d (lead ++ (d.opening ++ inner))
        ⟨[], lead, some (fault.report (Cursor.start.advance (pre ++ lead)).row
          (Cursor.start.advance (pre ++ lead)).col)⟩
  /-- The tag at the leftmost opening delimiter, and what follows it. -/
  | tag {pre : Text} {d : Delimiters} {lead rest : Text} {t : TagText} {sc : Scan}
      (hclear : Text.Clear d.opening lead (d.opening ++ (t.source ++ rest)))
      (hread : TagText.read d (t.source ++ rest) = .ok (t, rest))
      (hrest : Scans (pre ++ lead ++ (d.opening ++ t.source)) (t.replacement.getD d) rest sc) :
      Scans pre d (lead ++ (d.opening ++ (t.source ++ rest)))
        (sc.cons ⟨lead, Tag.place d (Cursor.start.advance (pre ++ lead)) t rest⟩)

namespace Scan

/-- The scanner follows the rules, at the place after any text. -/
theorem scans_after {d : Delimiters} {c : Cursor} {s pre : Text} (hc : c = Cursor.start.advance pre) :
    Scans pre d s (after d c s) := by
  fun_induction after d c s generalizing pre
  case case1 d c s hempty =>
    obtain rfl := List.isEmpty_iff.mp hempty
    exact .finish Text.clear_nil
  case case2 d c s _ hcut => exact .finish (Text.breakOn_eq_none_iff.mp hcut).2
  case case3 d c s hne lead inner hcut here fault hread =>
    have hhere : here = Cursor.start.advance (pre ++ lead) := by rw [Cursor.advance_append, ← hc]
    obtain ⟨rfl, hclear⟩ := Text.breakOn_eq_some_iff.mp hcut
    rw [hhere]
    exact .fail hclear (fun h => hne (List.isEmpty_iff.mpr h)) hread
  case case4 d c s _ lead inner hcut here t rest hread _ tag ih =>
    have hhere : here = Cursor.start.advance (pre ++ lead) := by rw [Cursor.advance_append, ← hc]
    obtain ⟨rfl, hclear⟩ := Text.breakOn_eq_some_iff.mp hcut
    obtain rfl := TagText.eq_of_read hread
    -- the cursor after the tag is the one after the text up to its end
    have hrest := @ih (pre ++ lead ++ (d.opening ++ t.source))
      (by rw [Cursor.advance_append, ← hhere]; rfl)
    have htag : tag = Tag.place d (Cursor.start.advance (pre ++ lead)) t rest := by rw [← hhere]
    rw [htag] at hrest ⊢
    exact .tag hclear hread hrest

/-- **The scanner follows the rules.** -/
theorem scans_ofText (d : Delimiters) (s : Text) : Scans [] d s (ofText d s) := scans_after rfl

end Scan

namespace Scans

variable {pre : Text} {d : Delimiters} {s : Text} {sc : Scan}

/-- The rules determine the scan, at the place after any text. -/
theorem after_eq (h : Scans pre d s sc) : Scan.after d (Cursor.start.advance pre) s = sc := by
  induction h with
  | @finish pre d s hclear =>
      unfold Scan.after
      split
      · rename_i hempty
        rw [List.isEmpty_iff.mp hempty]
      · rename_i hne
        -- an empty delimiter would begin a tag at once
        have hopening : d.opening ≠ [] := by
          intro hnil
          exact hne (List.isEmpty_iff.mpr (Text.Clear.eq_nil (hnil ▸ hclear)))
        have hcut := Text.breakOn_eq_none_iff.mpr ⟨hopening, hclear⟩
        split
        · rfl
        · rename_i lead inner hcut'
          rw [hcut] at hcut'
          cases hcut'
  | @fail pre d lead inner fault hclear hne hread =>
      have hcut := Text.breakOn_eq_some_iff.mpr ⟨rfl, hclear⟩
      unfold Scan.after
      rw [if_neg (fun h => hne (List.isEmpty_iff.mp h))]
      split
      · rename_i hcut'
        rw [hcut] at hcut'
        cases hcut'
      · rename_i lead' inner' hcut'
        obtain ⟨rfl, rfl⟩ := Prod.mk.inj (Option.some.inj (hcut.symm.trans hcut'))
        dsimp only
        split
        · rename_i fault' hread'
          rw [hread] at hread'
          cases hread'
          rw [Cursor.advance_append]
        · rename_i t rest hread'
          rw [hread] at hread'
          cases hread'
  | @tag pre d lead rest t sc hclear hread hrest ih =>
      have hcut := Text.breakOn_eq_some_iff.mpr ⟨rfl, hclear⟩
      have hne : lead ++ (d.opening ++ (t.source ++ rest)) ≠ [] := by
        have hinner := TagText.ne_nil_of_read hread
        intro hnil
        exact hinner (List.append_eq_nil_iff.mp (List.append_eq_nil_iff.mp hnil).2).2
      rw [Cursor.advance_append _ (pre ++ lead), Cursor.advance_append _ pre] at ih
      rw [Cursor.advance_append]
      unfold Scan.after
      rw [if_neg (fun h => hne (List.isEmpty_iff.mp h))]
      split
      · rename_i hcut'
        rw [hcut] at hcut'
        cases hcut'
      · rename_i lead' inner' hcut'
        obtain ⟨rfl, rfl⟩ := Prod.mk.inj (Option.some.inj (hcut.symm.trans hcut'))
        dsimp only
        split
        · rename_i fault' hread'
          rw [hread] at hread'
          cases hread'
        · rename_i t' rest' hread'
          rw [hread] at hread'
          cases hread'
          exact congrArg (Scan.cons _) ih

/-- **The rules determine the scan of a text.** -/
theorem ofText_eq (h : Scans [] d s sc) : Scan.ofText d s = sc := h.after_eq

/-- Every tag of a scan has been read in the text, between what stands before it and what stands after it. -/
theorem placed (h : Scans pre d s sc) :
    ∀ r ∈ sc.runs, ∃ before e t rest, pre ++ s = before ++ (e.opening ++ t.source) ++ rest ∧
      TagText.read e (t.source ++ rest) = .ok (t, rest) ∧
      r.tag = Tag.place e (Cursor.start.advance before) t rest := by
  induction h with
  | finish | fail => exact fun _ hr => absurd hr List.not_mem_nil
  | @tag pre d lead rest t sc _ hread _ ih =>
      intro r hr
      rcases List.mem_cons.mp hr with rfl | hr
      · exact ⟨pre ++ lead, d, t, rest, by simp, hread, rfl⟩
      · obtain ⟨before, e, u, after, htext, hu, htag⟩ := ih r hr
        exact ⟨before, e, u, after, by rw [← htext]; simp, hu, htag⟩

end Scans

end Mustache

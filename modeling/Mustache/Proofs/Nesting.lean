import Mustache.Proofs.Assembling

/-!
# `Mustache.Proofs.Nesting` — balanced tags and the first structural fault

Whether the tags of a template nest can be said by a grammar: `Balanced` derives the sequences in which
every tag that opens has its close tag, and `Pending ts os` the sequences that are balanced except for the
tags `os`, which still wait for theirs. The first fault of a sequence is then where no continuation could
help any more (`FirstFault`).

Assembly finds both with a stack. `Tag.nest` is what a step of assembly does to that stack, and the
theorems tie it to the grammar in both directions.

* `foldlM_nest_eq_ok_iff` — the stack is `os` after `ts` exactly when `Pending ts os`;
* `foldlM_nest_eq_error_iff` — a step fails exactly at the first close tag that does not fit;
* `Assembly.run_isOk_iff` / `Assembly.run_eq_error_iff` — hence a template assembles exactly when its tags are
  balanced, and otherwise the error is the first fault.
-/

namespace Mustache

/-! ## The grammar -/

/-- Tags that nest: each close tag names the key of the innermost open tag before it, and every tag that
    opens is closed. -/
inductive Balanced : List Tag → Prop where
  | nil : Balanced []
  /-- A tag that neither opens nor closes. -/
  | flat {t : Tag} {ts : List Tag} (hopens : t.kind.opens = false) (hclose : t.kind ≠ .close)
      (hts : Balanced ts) : Balanced (t :: ts)
  /-- A tag that opens, what it encloses, its close tag, and what follows. -/
  | nest {t c : Tag} {ts us : List Tag} (hopens : t.kind.opens = true) (hclose : c.kind = .close)
      (hkey : c.key = t.key) (hts : Balanced ts) (hus : Balanced us) :
      Balanced (t :: (ts ++ c :: us))

/-- `Pending ts os`: the tags `ts` are balanced but for the tags `os`, the innermost first, which are still
    open after them. -/
inductive Pending : List Tag → List Tag → Prop where
  | balanced {ts : List Tag} (hts : Balanced ts) : Pending ts []
  | opened {ts us os : List Tag} {t : Tag} (hts : Pending ts os) (hopens : t.kind.opens = true)
      (hus : Balanced us) : Pending (ts ++ t :: us) (t :: os)

/-- The first fault of a sequence of tags, as it is reported. -/
inductive FirstFault (ts : List Tag) : SyntaxError → Prop where
  /-- A close tag where nothing is open. -/
  | unexpected {pre post : List Tag} {c : Tag} (hts : ts = pre ++ c :: post) (hpre : Pending pre [])
      (hclose : c.kind = .close) :
      FirstFault ts ((SyntaxFault.unexpectedClose c.key).report c.row c.col)
  /-- A close tag that names another key than the innermost open tag. -/
  | mismatched {pre post os : List Tag} {c o : Tag} (hts : ts = pre ++ c :: post)
      (hpre : Pending pre (o :: os)) (hclose : c.kind = .close) (hkey : c.key ≠ o.key) :
      FirstFault ts ((SyntaxFault.mismatched o.key c.key).report c.row c.col)
  /-- No close tag is at fault, and a tag is still open at the end. -/
  | unclosed {os : List Tag} {o : Tag} (hts : Pending ts (o :: os)) :
      FirstFault ts ((SyntaxFault.unclosed o.kind.sigil o.key).report o.row o.col)

namespace Balanced

variable {ts us : List Tag}

theorem append (hts : Balanced ts) (hus : Balanced us) : Balanced (ts ++ us) := by
  induction hts with
  | nil => exact hus
  | flat hopens hclose _ ih => exact .flat hopens hclose ih
  | @nest t c ts vs hopens hclose hkey hts _ _ ih =>
      rw [List.cons_append, List.append_assoc, List.cons_append]
      exact .nest hopens hclose hkey hts ih

end Balanced

namespace Pending

variable {ts us os : List Tag} {t c o : Tag}

/-- Balanced tags leave open what is open. -/
theorem append (h : Pending ts os) (hus : Balanced us) : Pending (ts ++ us) os := by
  cases h with
  | balanced hts => exact .balanced (hts.append hus)
  | opened hts hopens hvs =>
      rw [List.append_assoc, List.cons_append]
      exact .opened hts hopens (hvs.append hus)

/-- A close tag that fits closes the innermost open tag. -/
theorem close (h : Pending ts (o :: os)) (hclose : c.kind = .close) (hkey : c.key = o.key) :
    Pending (ts ++ [c]) os := by
  cases h with
  | @opened ts us _ _ hts hopens hus =>
      rw [List.append_assoc, List.cons_append]
      exact hts.append (.nest hopens hclose hkey hus .nil)

end Pending

/-! ## The stack -/

/-- The open tags after one more tag, the innermost first. -/
def Tag.nest (os : List Tag) (t : Tag) : Except SyntaxError (List Tag) :=
  match t.kind with
  | .normalSection | .invertedSection | .parent | .block => .ok (t :: os)
  | .close =>
      match os with
      | [] => .error (t.report (.unexpectedClose t.key))
      | o :: os => if o.key = t.key then .ok os else .error (t.report (.mismatched o.key t.key))
  | _ => .ok os

namespace Tag

variable {os : List Tag} {t o : Tag} {e : SyntaxError}

theorem nest_of_opens (h : t.kind.opens = true) : nest os t = .ok (t :: os) := by
  unfold nest
  cases hkind : t.kind with
  | normalSection | invertedSection | parent | block => rfl
  | _ => rw [hkind] at h; cases h

theorem nest_of_flat (hopens : t.kind.opens = false) (hclose : t.kind ≠ .close) :
    nest os t = .ok os := by
  unfold nest
  cases hkind : t.kind with
  | normalSection | invertedSection | parent | block => rw [hkind] at hopens; cases hopens
  | close => exact absurd hkind hclose
  | _ => rfl

theorem nest_of_close (hclose : t.kind = .close) :
    nest (o :: os) t =
      if o.key = t.key then .ok os else .error (t.report (.mismatched o.key t.key)) := by
  unfold nest
  rw [hclose]

/-- **Where the stack fails**: at a close tag that does not name the innermost open tag. -/
theorem nest_eq_error_iff :
    nest os t = .error e ↔ t.kind = .close ∧
      ((os = [] ∧ e = t.report (.unexpectedClose t.key)) ∨
        ∃ o rest, os = o :: rest ∧ t.key ≠ o.key ∧ e = t.report (.mismatched o.key t.key)) := by
  by_cases hclose : t.kind = .close
  · cases os with
    | nil =>
        have hnest : nest [] t = .error (t.report (.unexpectedClose t.key)) := by
          unfold nest
          rw [hclose]
        rw [hnest]
        constructor
        · intro h
          exact ⟨hclose, Or.inl ⟨rfl, (Except.error.inj h).symm⟩⟩
        · rintro ⟨-, ⟨-, rfl⟩ | ⟨o, rest, hnil, -⟩⟩
          · rfl
          · cases hnil
    | cons o os =>
        rw [nest_of_close hclose]
        constructor
        · intro h
          split at h
          · cases h
          · rename_i hkey
            exact ⟨hclose, Or.inr ⟨o, os, rfl, Ne.symm hkey, (Except.error.inj h).symm⟩⟩
        · rintro ⟨-, ⟨hnil, -⟩ | ⟨o', rest, heq, hkey, rfl⟩⟩
          · cases hnil
          · cases heq
            rw [if_neg (Ne.symm hkey)]
  · have hok : ∃ os', nest os t = .ok os' := by
      cases hopens : t.kind.opens with
      | true => exact ⟨_, nest_of_opens hopens⟩
      | false => exact ⟨_, nest_of_flat hopens hclose⟩
    obtain ⟨os', hok⟩ := hok
    rw [hok]
    constructor
    · intro h
      cases h
    · rintro ⟨hc, -⟩
      exact absurd hc hclose

end Tag

section Grammar

variable {ts os os' : List Tag} {t : Tag} {e : SyntaxError}

/-- Balanced tags leave the stack as it is, whatever lies on it. -/
theorem Balanced.foldlM_nest (h : Balanced ts) (os : List Tag) : ts.foldlM Tag.nest os = .ok os := by
  induction h generalizing os with
  | nil => rfl
  | flat hopens hclose _ ih =>
      rw [List.foldlM_cons, Tag.nest_of_flat hopens hclose]
      exact ih os
  | @nest t c ts us hopens hclose hkey _ _ ihts ihus =>
      rw [List.foldlM_cons, Tag.nest_of_opens hopens]
      show (ts ++ c :: us).foldlM Tag.nest (t :: os) = _
      rw [List.foldlM_append, ihts]
      show (c :: us).foldlM Tag.nest (t :: os) = _
      rw [List.foldlM_cons, Tag.nest_of_close hclose, if_pos hkey.symm]
      exact ihus os

/-- The tags that are still open are on the stack. -/
theorem Pending.foldlM_nest (h : Pending ts os) : ts.foldlM Tag.nest [] = .ok os := by
  induction h with
  | balanced hts => exact hts.foldlM_nest []
  | @opened ts us os t _ hopens hus ih =>
      rw [List.foldlM_append, ih]
      show (t :: us).foldlM Tag.nest os = _
      rw [List.foldlM_cons, Tag.nest_of_opens hopens]
      exact hus.foldlM_nest (t :: os)

/-- One more tag that does not fail. -/
theorem Pending.nest (h : Pending ts os) (hnest : Tag.nest os t = .ok os') :
    Pending (ts ++ [t]) os' := by
  cases hopens : t.kind.opens with
  | true =>
      rw [Tag.nest_of_opens hopens] at hnest
      cases hnest
      exact .opened h hopens .nil
  | false =>
      by_cases hclose : t.kind = .close
      · cases os with
        | nil =>
            have herror := Tag.nest_eq_error_iff.mpr ⟨hclose, Or.inl ⟨rfl, rfl⟩⟩
            rw [herror] at hnest
            cases hnest
        | cons o os =>
            rw [Tag.nest_of_close hclose] at hnest
            split at hnest
            · rename_i hkey
              cases hnest
              exact h.close hclose hkey.symm
            · cases hnest
      · rw [Tag.nest_of_flat hopens hclose] at hnest
        cases hnest
        exact h.append (.flat hopens hclose .nil)

/-- From tags that are pending on, the stack either ends with the tags that are pending then, or fails at
    the first tag that does not fit. By induction on the tags to come. -/
theorem Pending.foldlM_cases {pre : List Tag} (h : Pending pre os) (ts : List Tag) :
    match ts.foldlM Tag.nest os with
    | .ok os' => Pending (pre ++ ts) os'
    | .error e => ∃ mid c post os', ts = mid ++ c :: post ∧ Pending (pre ++ mid) os' ∧
        Tag.nest os' c = .error e := by
  induction ts generalizing pre os with
  | nil =>
      show Pending (pre ++ []) os
      rwa [List.append_nil]
  | cons t ts ih =>
      rw [List.foldlM_cons]
      cases hnest : Tag.nest os t with
      | error e => exact ⟨[], t, ts, os, rfl, by rwa [List.append_nil], hnest⟩
      | ok os' =>
          have hrest := ih (h.nest hnest)
          show match ts.foldlM Tag.nest os' with
            | .ok os'' => Pending (pre ++ t :: ts) os''
            | .error e => ∃ mid c post os'', t :: ts = mid ++ c :: post ∧ Pending (pre ++ mid) os'' ∧
                Tag.nest os'' c = .error e
          split
          · rename_i os'' hfold
            rw [hfold, List.append_assoc] at hrest
            exact hrest
          · rename_i e hfold
            rw [hfold] at hrest
            obtain ⟨mid, c, post, os'', rfl, hmid, herror⟩ := hrest
            rw [List.append_assoc] at hmid
            exact ⟨t :: mid, c, post, os'', rfl, hmid, herror⟩

/-- **The stack and the grammar agree**: what lies on the stack is what is pending. -/
theorem foldlM_nest_eq_ok_iff : ts.foldlM Tag.nest [] = .ok os ↔ Pending ts os := by
  constructor
  · intro hfold
    have h := Pending.foldlM_cases (.balanced .nil) ts
    rwa [hfold] at h
  · exact Pending.foldlM_nest

/-- The stack is empty after balanced tags only. -/
theorem foldlM_nest_eq_nil_iff : ts.foldlM Tag.nest [] = .ok [] ↔ Balanced ts := by
  rw [foldlM_nest_eq_ok_iff]
  constructor
  · intro h
    cases h
    assumption
  · exact .balanced

/-- **The stack fails at the first tag that does not fit.** -/
theorem foldlM_nest_eq_error_iff :
    ts.foldlM Tag.nest [] = .error e ↔
      ∃ pre c post os, ts = pre ++ c :: post ∧ Pending pre os ∧ Tag.nest os c = .error e := by
  constructor
  · intro hfold
    have h := Pending.foldlM_cases (.balanced .nil) ts
    rwa [hfold] at h
  · rintro ⟨pre, c, post, os, rfl, hpre, herror⟩
    rw [List.foldlM_append, hpre.foldlM_nest]
    show (c :: post).foldlM Tag.nest os = _
    rw [List.foldlM_cons, herror]
    rfl

/-- The first fault is where the stack fails, or the tag on top of it at the end. -/
theorem firstFault_iff :
    FirstFault ts e ↔ ts.foldlM Tag.nest [] = .error e ∨
      ∃ o os, ts.foldlM Tag.nest [] = .ok (o :: os) ∧ e = o.report (.unclosed o.kind.sigil o.key) := by
  constructor
  · intro h
    cases h with
    | unexpected hts hpre hclose =>
        exact Or.inl (foldlM_nest_eq_error_iff.mpr
          ⟨_, _, _, _, hts, hpre, Tag.nest_eq_error_iff.mpr ⟨hclose, Or.inl ⟨rfl, rfl⟩⟩⟩)
    | mismatched hts hpre hclose hkey =>
        exact Or.inl (foldlM_nest_eq_error_iff.mpr
          ⟨_, _, _, _, hts, hpre, Tag.nest_eq_error_iff.mpr ⟨hclose, Or.inr ⟨_, _, rfl, hkey, rfl⟩⟩⟩)
    | unclosed hts => exact Or.inr ⟨_, _, hts.foldlM_nest, rfl⟩
  · rintro (hfold | ⟨o, os, hfold, rfl⟩)
    · obtain ⟨pre, c, post, os, hts, hpre, herror⟩ := foldlM_nest_eq_error_iff.mp hfold
      obtain ⟨hclose, ⟨rfl, rfl⟩ | ⟨o, rest, rfl, hkey, rfl⟩⟩ := Tag.nest_eq_error_iff.mp herror
      · exact .unexpected hts hpre hclose
      · exact .mismatched hts hpre hclose hkey
    · exact .unclosed (foldlM_nest_eq_ok_iff.mp hfold)

end Grammar

/-! ## Assembly -/

namespace Assembly

/-- The tags that are open, the innermost first. -/
def openTags (a : Assembly) : List Tag := a.stack.map OpenTag.tag

/-- **A step of assembly nests its tag.** -/
theorem openTags_step (a : Assembly) (p : Piece) :
    (a.step p).map openTags = Tag.nest a.openTags p.tag := by
  have htext : (a.addText p.lead p.kept).openTags = a.openTags := rfl
  rw [step, ← htext]
  generalize a.addText p.lead p.kept = a
  unfold addTag Tag.nest
  cases p.tag.kind with
  | close =>
      obtain ⟨stack, siblings, raw⟩ := a
      cases stack with
      | nil => rfl
      | cons o os =>
          simp only [leave, openTags, List.map_cons]
          split <;> rfl
  | _ => rfl

/-- A run of steps nests their tags. -/
theorem openTags_foldlM (ps : List Piece) (a : Assembly) :
    (ps.foldlM step a).map openTags = (ps.map Piece.tag).foldlM Tag.nest a.openTags := by
  induction ps generalizing a with
  | nil => rfl
  | cons p ps ih =>
      rw [List.map_cons, List.foldlM_cons, List.foldlM_cons, ← openTags_step]
      cases a.step p with
      | error e => rfl
      | ok a' => exact ih a'

/-- What comes of assembly, by what comes of the stack. -/
theorem run_cases (t : Trimmed) :
    match (t.pieces.map Piece.tag).foldlM Tag.nest [] with
    | .error e => run t = .error e
    | .ok [] => ∃ es, run t = .ok es
    | .ok (o :: _) => run t = .error (o.report (.unclosed o.kind.sigil o.key)) := by
  have hfold := openTags_foldlM t.pieces empty
  have hempty : empty.openTags = [] := rfl
  rw [hempty] at hfold
  unfold run
  rw [← hfold]
  cases t.pieces.foldlM step empty with
  | error e => rfl
  | ok a =>
      obtain ⟨stack, siblings, raw⟩ := a
      cases stack with
      | nil => exact ⟨_, rfl⟩
      | cons o os => rfl

/-- **A template assembles exactly when its tags are balanced.** -/
theorem run_isOk_iff {t : Trimmed} : (∃ es, run t = .ok es) ↔ Balanced (t.pieces.map Piece.tag) := by
  have h := run_cases t
  rw [← foldlM_nest_eq_nil_iff]
  constructor
  · rintro ⟨es, hrun⟩
    split at h
    · rw [hrun] at h
      cases h
    · assumption
    · rw [hrun] at h
      cases h
  · intro hfold
    rwa [hfold] at h

/-- **The error of a template that does not assemble is its first fault.** -/
theorem run_eq_error_iff {t : Trimmed} {e : SyntaxError} :
    run t = .error e ↔ FirstFault (t.pieces.map Piece.tag) e := by
  have h := run_cases t
  rw [firstFault_iff]
  constructor
  · intro hrun
    split at h
    · rename_i e' hfold
      rw [hrun] at h
      cases h
      exact Or.inl hfold
    · obtain ⟨es, hok⟩ := h
      rw [hrun] at hok
      cases hok
    · rename_i o os hfold
      rw [hrun] at h
      exact Or.inr ⟨o, os, hfold, Except.error.inj h⟩
  · rintro (hfold | ⟨o, os, hfold, rfl⟩)
    · rwa [hfold] at h
    · rwa [hfold] at h

end Assembly

end Mustache

import Mustache.Proofs.Feeding

/-!
# `Mustache.Proofs.Layout` — what layers of indentation make of a text

A layer sees its output in chunks, and remembers between them whether a line has begun and how much of the margin may
still be removed. What it makes of the chunks can be said without either: cut the output into lines, take the margin
from each of them and put the indentation before what is left. The output is a sequence of *glyphs* for this, characters
that are marked as static text or as part of a value.

* `Layer.put_eq_steps` — a layer handles a chunk glyph by glyph, so how a text is divided into chunks does not matter;
* `Layer.steps_new` — glyph by glyph, a new layer lays its text out line by line (`Glyph.layOut`);
* `writeAll_layer_eq_layOut` — hence what a buffer under one layer holds is the layout of all that was written;
* `writeAll_nested_eq_single` — and layers of indentation inside each other are one layer with all their indentations.
-/

namespace Mustache

/-! ## Glyphs -/

/-- A character of output, with the kind of the chunk that it belongs to. -/
structure Glyph where
  kind : ChunkKind
  char : Char
  deriving DecidableEq, Repr

/-- The glyphs of a chunk. -/
def Chunk.glyphs (c : Chunk) : List Glyph := c.text.map (Glyph.mk c.kind)

/-- The glyphs of some chunks, one after the other. -/
def Chunk.glyphsAll (cs : List Chunk) : List Glyph := cs.flatMap glyphs

/-- The longest text with which two texts begin. -/
def Text.common : Text → Text → Text
  | c :: cs, d :: ds => if c = d then c :: common cs ds else []
  | _, _ => []

/-- Any text with which both begin is one with which the longest begins. -/
theorem Text.prefix_common_iff {p s t : Text} : p <+: common s t ↔ p <+: s ∧ p <+: t := by
  induction s generalizing p t with
  | nil =>
      simp only [common, List.prefix_nil]
      constructor
      · rintro rfl
        exact ⟨rfl, List.nil_prefix⟩
      · exact And.left
  | cons c s ih =>
      cases t with
      | nil =>
          simp only [common, List.prefix_nil]
          constructor
          · rintro rfl
            exact ⟨List.nil_prefix, rfl⟩
          · exact And.right
      | cons d t =>
          cases p with
          | nil => simp
          | cons x p =>
              rw [common]
              by_cases h : c = d
              · rw [if_pos h, h, List.cons_prefix_cons, List.cons_prefix_cons, List.cons_prefix_cons, ih]
                exact and_and_left
              · rw [if_neg h, List.cons_prefix_cons, List.cons_prefix_cons]
                constructor
                · simp
                · rintro ⟨⟨rfl, -⟩, rfl, -⟩
                  exact absurd rfl h

namespace Glyph

/-- The newline of static text, which ends a line. That of a value does not. -/
def newline : Glyph := ⟨.static, '\n'⟩

/-- Static text. -/
def static (s : Text) : List Glyph := s.map (mk .static)

/-- The characters of some glyphs. -/
def text (gs : List Glyph) : Text := gs.map char

/-- The lines of some glyphs, each with the newline that ends it. The last line may lack one. -/
def lines : List Glyph → List (List Glyph)
  | [] => []
  | g :: gs =>
      if g = newline then
        [g] :: lines gs
      else
        match lines gs with
        | [] => [[g]]
        | line :: rest => (g :: line) :: rest

/-- The static characters that open a line. -/
def opening (line : List Glyph) : Text := text (line.takeWhile fun g => g.kind = .static)

/-- A line without the margin: as much of it is removed as the static text at the beginning has of it. -/
def withoutMargin (dedent : Text) (line : List Glyph) : List Glyph :=
  line.drop (Text.common dedent (opening line)).length

/-- A line in its layout: the indentation and what is left of the line, if anything is. -/
def layLine (indent dedent : Text) (line : List Glyph) : List Glyph :=
  if (withoutMargin dedent line).isEmpty then [] else static indent ++ withoutMargin dedent line

/-- **The layout of a text**, line by line. -/
def layOut (indent dedent : Text) (gs : List Glyph) : List Glyph := (lines gs).flatMap (layLine indent dedent)

variable {g : Glyph} {gs line : List Glyph} {indent dedent : Text} {m : Char}

/-! ### Lines -/

theorem lines_cons_newline (gs : List Glyph) : lines (newline :: gs) = [newline] :: lines gs := by
  simp [lines]

/-- A glyph that ends no line belongs to the first of the lines that follow. -/
theorem lines_cons_of_ne (hg : g ≠ newline) (gs : List Glyph) :
    lines (g :: gs) = (g :: (lines gs).head?.getD []) :: (lines gs).tail := by
  rw [lines, if_neg hg]
  cases lines gs <;> rfl

theorem flatten_lines (gs : List Glyph) : (lines gs).flatten = gs := by
  induction gs with
  | nil => rfl
  | cons g gs ih =>
      by_cases hg : g = newline
      · subst hg
        rw [lines_cons_newline, List.flatten_cons, ih]
        rfl
      · rw [lines_cons_of_ne hg, List.flatten_cons]
        cases hlines : lines gs with
        | nil => simpa [hlines] using ih
        | cons line rest => simpa [hlines] using ih

/-! ### One line -/

@[simp]
theorem layLine_nil (indent dedent : Text) : layLine indent dedent [] = [] := by
  simp [layLine, withoutMargin]

/-- Static text that agrees with the margin is removed together with it. -/
theorem layLine_cons_of_margin (line : List Glyph) :
    layLine indent (m :: dedent) (⟨.static, m⟩ :: line) = layLine indent dedent line := by
  have hopening : opening (⟨.static, m⟩ :: line) = m :: opening line := by simp [opening, text]
  simp [layLine, withoutMargin, hopening, Text.common]

/-- From the first glyph on that does not agree with the margin the line is kept. -/
theorem layLine_cons_of_ne (h : ¬ (g.kind = .static ∧ dedent.head? = some g.char)) (line : List Glyph) :
    layLine indent dedent (g :: line) = static indent ++ g :: line := by
  have hcommon : Text.common dedent (opening (g :: line)) = [] := by
    by_cases hkind : g.kind = .static
    · have hopening : opening (g :: line) = g.char :: opening line := by simp [opening, text, hkind]
      cases dedent with
      | nil => rfl
      | cons m ms =>
          have hm : m ≠ g.char := fun hm => h ⟨hkind, congrArg some hm⟩
          rw [hopening, Text.common, if_neg hm]
    · have hopening : opening (g :: line) = [] := by simp [opening, text, hkind]
      cases dedent <;> simp [hopening, Text.common]
  simp [layLine, withoutMargin, hcommon]

/-- The first line and the others. -/
theorem layOut_eq (indent dedent : Text) (gs : List Glyph) :
    layOut indent dedent gs
      = layLine indent dedent ((lines gs).head?.getD []) ++ (lines gs).tail.flatMap (layLine indent dedent) := by
  rw [layOut]
  cases lines gs with
  | nil => simp
  | cons line rest => simp

end Glyph

/-! ## A layer, glyph by glyph -/

/-- The glyphs of chunks that are passed on. -/
def Chunk.glyphsPassed {α : Type} (cs : List (Chunk × α)) : List Glyph := cs.flatMap fun c => c.1.glyphs

namespace Layer

variable {l : Layer} {g : Glyph} {gs hs : List Glyph} {indent dedent : Text} {c : Char}

/-- What a layer passes on of one glyph, and the layer after it. -/
def step (l : Layer) (g : Glyph) : List Glyph × Layer :=
  if g.kind = .static ∧ l.pending.head? = some g.char then
    ([], { l with pending := l.pending.tail })
  else
    ((if l.atLineStart then Glyph.static l.indent else []) ++ [g], if g = .newline then l.newLine else l.begun)

/-- What a layer passes on of some glyphs, and the layer after them. -/
def steps (l : Layer) : List Glyph → List Glyph × Layer
  | [] => ([], l)
  | g :: gs => ((l.step g).1 ++ ((l.step g).2.steps gs).1, ((l.step g).2.steps gs).2)

theorem steps_append (l : Layer) (gs hs : List Glyph) :
    l.steps (gs ++ hs) = ((l.steps gs).1 ++ ((l.steps gs).2.steps hs).1, ((l.steps gs).2.steps hs).2) := by
  induction gs generalizing l with
  | nil => rfl
  | cons g gs ih => rw [List.cons_append, steps, steps, ih, List.append_assoc]

/-! ### One glyph -/

theorem step_of_margin (h : g.kind = .static ∧ l.pending.head? = some g.char) :
    l.step g = ([], { l with pending := l.pending.tail }) := if_pos h

theorem step_of_ne (h : ¬ (g.kind = .static ∧ l.pending.head? = some g.char)) :
    l.step g = ((if l.atLineStart then Glyph.static l.indent else []) ++ [g],
      if g = .newline then l.newLine else l.begun) := if_neg h

/-- On a line that has begun everything is passed on as it is. -/
theorem step_begun (l : Layer) (g : Glyph) :
    l.begun.step g = ([g], if g = .newline then l.newLine else l.begun) := by
  rw [step_of_ne (by simp [begun])]
  rfl

/-- A character of a value begins a line if none has begun, and never ends one. -/
theorem step_value (l : Layer) (c : Char) :
    l.step ⟨.value, c⟩ = ((if l.atLineStart then Glyph.static l.indent else []) ++ [⟨.value, c⟩], l.begun) := by
  have hne : (⟨.value, c⟩ : Glyph) ≠ .newline := by simp [Glyph.newline]
  rw [step_of_ne (by simp), if_neg hne]

/-- A value goes on on a line that has begun, whatever it holds. -/
theorem steps_begun_value (l : Layer) (s : Text) :
    l.begun.steps (s.map (Glyph.mk .value)) = (s.map (Glyph.mk .value), l.begun) := by
  induction s with
  | nil => rfl
  | cons c s ih =>
      rw [List.map_cons, steps, step_value]
      show (_ :: (l.begun.steps _).1, (l.begun.steps _).2) = _
      rw [ih]

/-! ### Layout -/

/-- **Glyph by glyph a layer lays its text out**, from a line on that has begun, or from the beginning of a line on
    with what is left of the margin. -/
theorem steps_eq (hdedent : '\n' ∉ dedent) (gs : List Glyph) :
    ((new indent dedent).begun.steps gs).1
        = (Glyph.lines gs).head?.getD [] ++ (Glyph.lines gs).tail.flatMap (Glyph.layLine indent dedent) ∧
    ∀ pending, '\n' ∉ pending →
      ((⟨indent, dedent, true, pending⟩ : Layer).steps gs).1
        = Glyph.layLine indent pending ((Glyph.lines gs).head?.getD [])
          ++ (Glyph.lines gs).tail.flatMap (Glyph.layLine indent dedent) := by
  induction gs with
  | nil => simp [steps, Glyph.lines]
  | cons g gs ih =>
      obtain ⟨hbegun, hstart⟩ := ih
      by_cases hg : g = .newline
      · -- the next line has the whole margin before it again
        have hrest : ((new indent dedent).steps gs).1 = Glyph.layOut indent dedent gs :=
          (hstart dedent hdedent).trans (Glyph.layOut_eq _ _ _).symm
        have hlines : Glyph.lines (g :: gs) = [g] :: Glyph.lines gs := by rw [hg, Glyph.lines_cons_newline]
        constructor
        · rw [steps, step_begun, if_pos hg, hlines]
          exact congrArg ([g] ++ ·) hrest
        · intro pending hpending
          have hne : ¬ (g.kind = .static ∧ pending.head? = some g.char) := by
            rintro ⟨-, hhead⟩
            rw [hg] at hhead
            exact hpending (List.mem_of_head? hhead)
          rw [steps, step_of_ne hne, if_pos hg, hlines]
          show _ ++ ((new indent dedent).steps gs).1 = Glyph.layLine indent pending [g] ++ Glyph.layOut indent dedent gs
          rw [hrest, Glyph.layLine_cons_of_ne hne]
          rfl
      · rw [Glyph.lines_cons_of_ne hg]
        constructor
        · rw [steps, step_begun, if_neg hg]
          exact congrArg (g :: ·) hbegun
        · intro pending hpending
          by_cases hmargin : g.kind = .static ∧ pending.head? = some g.char
          · -- the glyph belongs to the margin, on both sides
            obtain ⟨kind, m⟩ := g
            obtain ⟨rfl, hhead⟩ := hmargin
            obtain ⟨ms, rfl⟩ := List.head?_eq_some_iff.mp hhead
            have hms : '\n' ∉ ms := fun hmem => hpending (List.mem_cons_of_mem m hmem)
            rw [steps, step_of_margin ⟨rfl, hhead⟩]
            show _ = Glyph.layLine indent (m :: ms) (⟨.static, m⟩ :: (Glyph.lines gs).head?.getD []) ++ _
            rw [Glyph.layLine_cons_of_margin]
            exact hstart ms hms
          · rw [steps, step_of_ne hmargin, if_neg hg]
            show _ ++ ((new indent dedent).begun.steps gs).1
              = Glyph.layLine indent pending (g :: (Glyph.lines gs).head?.getD []) ++ _
            rw [hbegun, Glyph.layLine_cons_of_ne hmargin]
            simp

/-- **A new layer lays its text out.** -/
theorem steps_new (hdedent : '\n' ∉ dedent) (indent : Text) (gs : List Glyph) :
    ((new indent dedent).steps gs).1 = Glyph.layOut indent dedent gs := by
  rw [Glyph.layOut_eq]
  exact (steps_eq hdedent gs).2 dedent hdedent

/-! ### Chunks -/

/-- A first character that belongs to the margin. -/
theorem putLine_cons_of_margin (h : l.pending.head? = some c) (line : Text) :
    l.putLine (c :: line) = { l with pending := l.pending.tail }.putLine line := by
  obtain ⟨ms, hms⟩ := List.head?_eq_some_iff.mp h
  have htake : takeMargin l.pending (c :: line) = takeMargin ms line := by rw [hms, takeMargin, if_pos rfl]
  rw [putLine, htake, hms]
  rfl

theorem putLine_nil (l : Layer) : l.putLine [] = ([], l) := by
  have htake : takeMargin l.pending [] = (l.pending, []) := by
    cases l.pending <;> rfl
  rw [putLine, htake]
  rfl

/-- A first character that does not belong to the margin. -/
theorem putLine_cons_of_ne (h : l.pending.head? ≠ some c) (line : Text) :
    l.putLine (c :: line)
      = (l.emit ⟨.static, c :: line⟩, if Text.endsLine (c :: line) then l.newLine else l.begun) := by
  have htake : takeMargin l.pending (c :: line) = ([], c :: line) := by
    cases hpending : l.pending with
    | nil => rw [takeMargin]
    | cons m ms =>
        have hm : m ≠ c := fun hm => h (by rw [hpending, hm]; rfl)
        rw [takeMargin, if_neg hm]
  rw [putLine, htake]
  rfl

theorem glyphsPassed_emit (l : Layer) (c : Chunk) :
    Chunk.glyphsPassed (l.emit c) = (if l.atLineStart then Glyph.static l.indent else []) ++ c.glyphs := by
  unfold emit Chunk.glyphsPassed
  cases l.atLineStart with
  | false => simp
  | true =>
      by_cases hindent : l.indent = []
      · simp [hindent, Glyph.static]
      · simp [hindent, Glyph.static, Chunk.glyphs]

/-- What a layer passes on, glyph by glyph. -/
def inGlyphs {α β : Type} (r : List (Chunk × α) × β) : List Glyph × β := (Chunk.glyphsPassed r.1, r.2)

/-- A character alone, be it a newline or not. -/
theorem putLine_singleton (l : Layer) (c : Char) : inGlyphs (l.putLine [c]) = l.step ⟨.static, c⟩ := by
  by_cases hmargin : l.pending.head? = some c
  · rw [putLine_cons_of_margin hmargin, step_of_margin ⟨rfl, hmargin⟩, putLine_nil]
    rfl
  · rw [putLine_cons_of_ne hmargin, step_of_ne (by simp [hmargin]), inGlyphs, glyphsPassed_emit]
    by_cases hc : c = '\n'
    · simp [hc, Glyph.newline, Text.endsLine, Chunk.glyphs]
    · simp [hc, Glyph.newline, Text.endsLine, Chunk.glyphs]

/-- A line goes on where its first character has left off. -/
theorem putLine_cons (hc : c ≠ '\n') (line : Text) :
    inGlyphs (l.putLine (c :: line))
      = ((l.step ⟨.static, c⟩).1 ++ (inGlyphs ((l.step ⟨.static, c⟩).2.putLine line)).1,
        (inGlyphs ((l.step ⟨.static, c⟩).2.putLine line)).2) := by
  cases line with
  | nil =>
      rw [putLine_singleton, putLine_nil]
      simp [inGlyphs, Chunk.glyphsPassed]
  | cons x line =>
      by_cases hmargin : l.pending.head? = some c
      · rw [putLine_cons_of_margin hmargin, step_of_margin ⟨rfl, hmargin⟩]
        rfl
      · have hne : (⟨.static, c⟩ : Glyph) ≠ .newline := by simp [Glyph.newline, hc]
        have hbegun : l.begun.pending.head? ≠ some x := by simp [begun]
        have hend : Text.endsLine (c :: x :: line) = Text.endsLine (x :: line) := by simp [Text.endsLine]
        rw [putLine_cons_of_ne hmargin, step_of_ne (by simp [hmargin]), if_neg hne, putLine_cons_of_ne hbegun]
        simp [inGlyphs, glyphsPassed_emit, hend, Chunk.glyphs, begun, newLine]

theorem putLines_cons (l : Layer) (line : Text) (rest : List Text) :
    inGlyphs (l.putLines (line :: rest))
      = ((inGlyphs (l.putLine line)).1 ++ (inGlyphs ((inGlyphs (l.putLine line)).2.putLines rest)).1,
        (inGlyphs ((inGlyphs (l.putLine line)).2.putLines rest)).2) := by
  simp [putLines, inGlyphs, Chunk.glyphsPassed]

theorem putLines_eq_steps (l : Layer) (s : Text) : inGlyphs (l.putLines (Text.lines s)) = l.steps (Glyph.static s) := by
  induction s generalizing l with
  | nil => rfl
  | cons c s ih =>
      have hsteps : l.steps (Glyph.static (c :: s))
          = ((l.step ⟨.static, c⟩).1 ++ (inGlyphs ((l.step ⟨.static, c⟩).2.putLines (Text.lines s))).1,
            (inGlyphs ((l.step ⟨.static, c⟩).2.putLines (Text.lines s))).2) := by
        rw [ih]
        rfl
      rw [hsteps, Text.lines]
      by_cases hc : c = '\n'
      · rw [if_pos hc, putLines_cons, putLine_singleton]
      · rw [if_neg hc]
        cases Text.lines s with
        | nil =>
            rw [putLines_cons, putLine_singleton]
        | cons line rest =>
            -- the character is the first of the line that follows
            rw [putLines_cons, putLines_cons, putLine_cons hc, List.append_assoc]

/-- **A layer handles a chunk glyph by glyph.** -/
theorem put_eq_steps (l : Layer) (c : Chunk) : inGlyphs (l.put c) = l.steps c.glyphs := by
  obtain ⟨kind, text⟩ := c
  cases text with
  | nil => rfl
  | cons x text =>
      cases kind with
      | static => exact putLines_eq_steps l (x :: text)
      | value =>
          show inGlyphs (l.emit ⟨.value, x :: text⟩, l.begun) = l.steps (⟨.value, x⟩ :: text.map (Glyph.mk .value))
          rw [steps, step_value, steps_begun_value, inGlyphs, glyphsPassed_emit]
          simp [Chunk.glyphs]

/-! ### Several layers -/

/-- What several layers pass on of some glyphs, the outermost layer first, and the layers after them. -/
def stepsAll : List Layer → List Glyph → List Glyph × List Layer
  | [], gs => (gs, [])
  | l :: inner, gs => ((stepsAll inner (l.steps gs).1).1, (l.steps gs).2 :: (stepsAll inner (l.steps gs).1).2)

theorem stepsAll_nil (ls : List Layer) : stepsAll ls [] = ([], ls) := by
  induction ls with
  | nil => rfl
  | cons l inner ih => rw [stepsAll, steps, ih]

theorem stepsAll_append (ls : List Layer) (gs hs : List Glyph) :
    stepsAll ls (gs ++ hs)
      = ((stepsAll ls gs).1 ++ (stepsAll (stepsAll ls gs).2 hs).1, (stepsAll (stepsAll ls gs).2 hs).2) := by
  induction ls generalizing gs hs with
  | nil => rfl
  | cons l inner ih => simp only [stepsAll, steps_append, ih]

theorem pass_eq_steps (l : Layer) (cs : List (Chunk × List Layer)) :
    inGlyphs (l.pass cs) = l.steps (Chunk.glyphsPassed cs) := by
  induction cs generalizing l with
  | nil => rfl
  | cons p cs ih =>
      obtain ⟨c, outer⟩ := p
      have hrest := ih (l.put c).2
      have hsteps : l.steps (Chunk.glyphsPassed ((c, outer) :: cs))
          = ((inGlyphs (l.put c)).1 ++ (inGlyphs ((l.put c).2.pass cs)).1, (inGlyphs ((l.put c).2.pass cs)).2) := by
        rw [hrest, put_eq_steps]
        have hput : (l.steps c.glyphs).2 = (l.put c).2 := by rw [← put_eq_steps, inGlyphs]
        rw [← hput]
        exact steps_append l c.glyphs (Chunk.glyphsPassed cs)
      rw [hsteps, pass]
      simp [inGlyphs, Chunk.glyphsPassed, List.flatMap_map]

/-- **Several layers handle their chunks glyph by glyph.** -/
theorem passAll_eq_stepsAll (ls : List Layer) (cs : List (Chunk × List Layer)) :
    inGlyphs (passAll ls cs) = stepsAll ls (Chunk.glyphsPassed cs) := by
  induction ls generalizing cs with
  | nil => rfl
  | cons l inner ih =>
      have hpass := pass_eq_steps l cs
      have hinner := ih (l.pass cs).1
      rw [stepsAll, ← hpass]
      show (_, _) = (_, _)
      rw [show (inGlyphs (l.pass cs)).1 = Chunk.glyphsPassed (l.pass cs).1 from rfl, ← hinner]
      rfl

/-! ### Nested layers -/

/-- A layer without a margin to remove, after a glyph. -/
def afterGlyph (indent : Text) (g : Glyph) : Layer :=
  if g = .newline then new indent [] else (new indent []).begun

/-- After a glyph either all such layers are at the beginning of a line, or in all a line has begun. -/
theorem afterGlyph_cases (g : Glyph) :
    (∀ indent, afterGlyph indent g = new indent []) ∨ ∀ indent, afterGlyph indent g = (new indent []).begun := by
  by_cases hg : g = .newline
  · exact Or.inl fun _ => if_pos hg
  · exact Or.inr fun _ => if_neg hg

/-- At the beginning of a line the indentation comes first. -/
theorem steps_new_cons (indent : Text) (g : Glyph) (gs : List Glyph) :
    ((new indent []).steps (g :: gs)).1 = Glyph.static indent ++ g :: ((afterGlyph indent g).steps gs).1 := by
  have hstep : (new indent []).step g = (Glyph.static indent ++ [g], afterGlyph indent g) :=
    step_of_ne (by simp [new])
  simp [steps, hstep]

/-- On a line that has begun everything is passed on as it is. -/
theorem steps_begun_cons (indent : Text) (g : Glyph) (gs : List Glyph) :
    ((new indent []).begun.steps (g :: gs)).1 = g :: ((afterGlyph indent g).steps gs).1 := by
  have hstep : (new indent []).begun.step g = ([g], afterGlyph indent g) := step_begun (new indent []) g
  simp [steps, hstep]

theorem afterGlyph_of_static {c : Char} (hc : c ≠ '\n') (indent : Text) :
    afterGlyph indent ⟨.static, c⟩ = (new indent []).begun := by
  have hne : (⟨.static, c⟩ : Glyph) ≠ .newline := by simp [Glyph.newline, hc]
  exact if_neg hne

theorem steps_begun_static {s : Text} (hs : '\n' ∉ s) (indent : Text) (gs : List Glyph) :
    ((new indent []).begun.steps (Glyph.static s ++ gs)).1 = Glyph.static s ++ ((new indent []).begun.steps gs).1 := by
  induction s with
  | nil => rfl
  | cons c s ih =>
      obtain ⟨hc, hs⟩ := List.ne_and_not_mem_of_not_mem_cons hs
      show ((new indent []).begun.steps (⟨.static, c⟩ :: (Glyph.static s ++ gs))).1 = _
      rw [steps_begun_cons, afterGlyph_of_static hc.symm, ih hs]
      rfl

/-- The indentation of an outer layer is static text for the inner one, which puts its own indentation before it. -/
theorem steps_new_static {inner outer : Text} (houter : '\n' ∉ outer) (g : Glyph) (gs : List Glyph) :
    ((new inner []).steps (Glyph.static outer ++ g :: gs)).1
      = Glyph.static (inner ++ outer) ++ g :: ((afterGlyph inner g).steps gs).1 := by
  cases outer with
  | nil => simpa [Glyph.static] using steps_new_cons inner g gs
  | cons c outer =>
      obtain ⟨hc, houter⟩ := List.ne_and_not_mem_of_not_mem_cons houter
      show ((new inner []).steps (⟨.static, c⟩ :: (Glyph.static outer ++ g :: gs))).1 = _
      rw [steps_new_cons, afterGlyph_of_static hc.symm, steps_begun_static houter, steps_begun_cons]
      simp [Glyph.static]

/-- **Two layers are one with both indentations**, at the beginning of a line and on a line that has begun. After a
    glyph the flags of the two agree with that of the one. -/
theorem steps_steps {inner outer : Text} (houter : '\n' ∉ outer) (gs : List Glyph) :
    ((new inner []).steps ((new outer []).steps gs).1).1 = ((new (inner ++ outer) []).steps gs).1 ∧
    ((new inner []).begun.steps ((new outer []).begun.steps gs).1).1 = ((new (inner ++ outer) []).begun.steps gs).1 := by
  induction gs with
  | nil => exact ⟨rfl, rfl⟩
  | cons g gs ih =>
      have hrest : ((afterGlyph inner g).steps ((afterGlyph outer g).steps gs).1).1
          = ((afterGlyph (inner ++ outer) g).steps gs).1 := by
        rcases afterGlyph_cases g with hafter | hafter
        · rw [hafter, hafter, hafter]
          exact ih.1
        · rw [hafter, hafter, hafter]
          exact ih.2
      constructor
      · rw [steps_new_cons, steps_new_cons, steps_new_static houter, hrest]
      · rw [steps_begun_cons, steps_begun_cons, steps_begun_cons, hrest]

/-- A layer without indentation passes everything on as it is. -/
theorem steps_bare (gs : List Glyph) : ((new [] []).steps gs).1 = gs ∧ ((new [] []).begun.steps gs).1 = gs := by
  induction gs with
  | nil => exact ⟨rfl, rfl⟩
  | cons g gs ih =>
      have hrest : ((afterGlyph [] g).steps gs).1 = gs := by
        rcases afterGlyph_cases g with hafter | hafter
        · rw [hafter]
          exact ih.1
        · rw [hafter]
          exact ih.2
      constructor
      · rw [steps_new_cons, hrest]
        rfl
      · rw [steps_begun_cons, hrest]

/-- **Layers inside each other are one layer** with all their indentations, that of the innermost first. -/
theorem stepsAll_eq_steps {indents : List Text} (h : ∀ indent ∈ indents, '\n' ∉ indent) (gs : List Glyph) :
    (stepsAll (indents.map (new · [])) gs).1 = ((new indents.reverse.flatten []).steps gs).1 := by
  induction indents generalizing gs with
  | nil => exact (steps_bare gs).1.symm
  | cons outer indents ih =>
      obtain ⟨houter, hindents⟩ := List.forall_mem_cons.mp h
      have hflatten : (outer :: indents).reverse.flatten = indents.reverse.flatten ++ outer := by simp
      rw [hflatten, ← (steps_steps houter gs).1, ← ih hindents]
      rfl

end Layer

/-! ## Sinks -/

theorem Device.written_acceptAll {d : Device} (hd : d.medium = .characters) (ws : List Text) :
    (d.acceptAll ws).written = d.written + ws.flatten.length := by
  induction ws generalizing d with
  | nil => rfl
  | cons w ws ih =>
      have haccept : (d.accept w).medium = .characters ∧ (d.accept w).written = d.written + w.length := by
        cases w with
        | nil => exact ⟨hd, rfl⟩
        | cons c w => simp [accept, hd, Medium.pack, Packet.size]
      have hrest : (d.acceptAll (w :: ws)).written = (d.accept w).written + ws.flatten.length := ih haccept.1
      rw [hrest, haccept.2, List.flatten_cons, List.length_append, Nat.add_assoc]

namespace Sink

/-- Chunks written one after the other, until one of them cannot be written in full. -/
def writeAll (s : Sink) : List Chunk → Sink × Option Fault
  | [] => (s, none)
  | c :: cs =>
      match s.write c with
      | (s, none) => s.writeAll cs
      | (s, some fault) => (s, some fault)

theorem flatten_texts {cs : List (Chunk × List Layer)} :
    (texts cs).flatten = Glyph.text (Chunk.glyphsPassed cs) := by
  induction cs with
  | nil => rfl
  | cons p cs ih =>
      obtain ⟨c, ls⟩ := p
      have hglyphs : Glyph.text (Chunk.glyphsPassed ((c, ls) :: cs)) = c.text ++ Glyph.text (Chunk.glyphsPassed cs) := by
        simp [Chunk.glyphsPassed, Glyph.text, Chunk.glyphs, Function.comp_def]
      rw [hglyphs, ← ih]
      by_cases hc : c.text = []
      · rw [texts_cons_of_nil hc, hc, List.nil_append]
      · rw [texts_cons_of_ne_nil hc, List.flatten_cons]

/-- One chunk, written to a device that takes everything. -/
theorem write_of_endless {d : Device} (hd : d.endurance = .endless) (ls : List Layer) (c : Chunk) :
    ∃ ws, (⟨ls, d⟩ : Sink).write c = (⟨(Layer.stepsAll ls c.glyphs).2, d.acceptAll ws⟩, none) ∧
      ws.flatten = Glyph.text (Layer.stepsAll ls c.glyphs).1 := by
  have hpass : Layer.inGlyphs (Layer.passAll ls [(c, [])]) = Layer.stepsAll ls c.glyphs := by
    rw [Layer.passAll_eq_stepsAll]
    simp [Chunk.glyphsPassed]
  rw [← hpass]
  refine ⟨texts (Layer.passAll ls [(c, [])]).1, ?_, flatten_texts⟩
  exact drain_of_taken (by simp [hd]) (Device.feed_endless hd _)

/-- **What a device that takes everything holds after some chunks** is what the layers make of their glyphs. -/
theorem writeAll_of_endless {d : Device} (hd : d.endurance = .endless) (ls : List Layer) (cs : List Chunk) :
    ∃ ws, (⟨ls, d⟩ : Sink).writeAll cs = (⟨(Layer.stepsAll ls (Chunk.glyphsAll cs)).2, d.acceptAll ws⟩, none) ∧
      ws.flatten = Glyph.text (Layer.stepsAll ls (Chunk.glyphsAll cs)).1 := by
  induction cs generalizing ls d with
  | nil =>
      have hsteps : Layer.stepsAll ls (Chunk.glyphsAll []) = ([], ls) := Layer.stepsAll_nil ls
      rw [hsteps]
      exact ⟨[], rfl, rfl⟩
  | cons c cs ih =>
      obtain ⟨ws, hwrite, hws⟩ := write_of_endless hd ls c
      obtain ⟨vs, hrest, hvs⟩ :=
        ih (d := d.acceptAll ws) ((Device.endurance_acceptAll d ws).trans hd) (Layer.stepsAll ls c.glyphs).2
      have hglyphs : Chunk.glyphsAll (c :: cs) = c.glyphs ++ Chunk.glyphsAll cs := rfl
      have haccept : d.acceptAll (ws ++ vs) = (d.acceptAll ws).acceptAll vs := List.foldl_append
      rw [hglyphs, Layer.stepsAll_append]
      refine ⟨ws ++ vs, ?_, ?_⟩
      · rw [writeAll, hwrite, haccept]
        exact hrest
      · rw [List.flatten_append, hws, hvs]
        simp [Glyph.text]

/-- What a buffer holds after some chunks. -/
theorem writeAll_buffer (ls : List Layer) (cs : List Chunk) :
    ∃ s, (⟨ls, .buffer⟩ : Sink).writeAll cs = (s, none) ∧
      s.device.text = Glyph.text (Layer.stepsAll ls (Chunk.glyphsAll cs)).1 ∧
      s.device.written = (Glyph.text (Layer.stepsAll ls (Chunk.glyphsAll cs)).1).length := by
  obtain ⟨ws, hwrite, hws⟩ := writeAll_of_endless (d := .buffer) rfl ls cs
  refine ⟨_, hwrite, ?_, ?_⟩
  · rw [Device.text_acceptAll, hws]
    rfl
  · rw [Device.written_acceptAll rfl, hws]
    exact Nat.zero_add _

end Sink

/-! ## The results -/

/-- **A layer of indentation lays a text out line by line.** What a buffer under a new layer holds after some chunks
    depends only on their characters, each of them static or of a value, and is the layout of these: the text is cut
    into lines after each static newline, each line loses as much of the margin as the static text at its beginning
    has of it, and what is left of the line, if anything is, has the indentation before it. -/
theorem writeAll_layer_eq_layOut {indent dedent : Text} (hdedent : '\n' ∉ dedent) (cs : List Chunk) :
    ∃ s, (⟨[.new indent dedent], .buffer⟩ : Sink).writeAll cs = (s, none) ∧
      s.device.text = Glyph.text (Glyph.layOut indent dedent (Chunk.glyphsAll cs)) ∧
      ∀ cs', Chunk.glyphsAll cs' = Chunk.glyphsAll cs →
        ∃ s', (⟨[.new indent dedent], .buffer⟩ : Sink).writeAll cs' = (s', none) ∧ s'.device.text = s.device.text := by
  obtain ⟨s, hwrite, htext, -⟩ := Sink.writeAll_buffer [.new indent dedent] cs
  refine ⟨s, hwrite, ?_, ?_⟩
  · rw [htext, ← Layer.steps_new hdedent]
    rfl
  · intro cs' hglyphs
    obtain ⟨s', hwrite', htext', -⟩ := Sink.writeAll_buffer [.new indent dedent] cs'
    exact ⟨s', hwrite', by rw [htext', htext, hglyphs]⟩

/-- A margin that is written in two parts, one that is cut short by a value, and a line that is nothing else. -/
theorem writeAll_layer_eq_layOut_cut :
    '\n' ∉ [' ', ' '] ∧
      ∃ s, (⟨[.new ['>'] [' ', ' ']], .buffer⟩ : Sink).writeAll
          [⟨.static, [' ']⟩, ⟨.static, "  a\n ".toList⟩, ⟨.value, " \nb".toList⟩, ⟨.static, "\n  ".toList⟩] = (s, none) ∧
        s.device.text = "> a\n> \nb\n".toList := by
  have hdedent : '\n' ∉ [' ', ' '] := by decide
  obtain ⟨s, hwrite, htext, -⟩ := @writeAll_layer_eq_layOut ['>'] [' ', ' '] hdedent
    [⟨.static, [' ']⟩, ⟨.static, "  a\n ".toList⟩, ⟨.value, " \nb".toList⟩, ⟨.static, "\n  ".toList⟩]
  exact ⟨hdedent, s, hwrite, htext.trans (by decide)⟩

/-- **Indentation composes.** What a buffer under new layers of indentation holds after some chunks, and how much has
    been written to it, is as if there were one layer with all their indentations, that of the innermost first: inside a
    layer with the indentation `b` one with `a` makes one with `a ++ b`. -/
theorem writeAll_nested_eq_single {indents : List Text} (h : ∀ indent ∈ indents, '\n' ∉ indent) (cs : List Chunk) :
    ∃ s t, (⟨indents.map (Layer.new · []), .buffer⟩ : Sink).writeAll cs = (s, none) ∧
      (⟨[.new indents.reverse.flatten []], .buffer⟩ : Sink).writeAll cs = (t, none) ∧
      s.device.text = t.device.text ∧ s.device.written = t.device.written := by
  obtain ⟨s, hs, hstext, hswritten⟩ := Sink.writeAll_buffer (indents.map (Layer.new · [])) cs
  obtain ⟨t, ht, httext, htwritten⟩ := Sink.writeAll_buffer [.new indents.reverse.flatten []] cs
  have hsame : (Layer.stepsAll (indents.map (Layer.new · [])) (Chunk.glyphsAll cs)).1
      = (Layer.stepsAll [.new indents.reverse.flatten []] (Chunk.glyphsAll cs)).1 := Layer.stepsAll_eq_steps h _
  rw [hsame] at hstext hswritten
  exact ⟨s, t, hs, ht, hstext.trans httext.symm, hswritten.trans htwritten.symm⟩

/-- Two layers, with a value that has a newline in it and a line that begins with a value. -/
theorem writeAll_nested_eq_single_two :
    (∀ indent ∈ [['b'], ['a', 'a']], '\n' ∉ indent) ∧
      ∃ s t, (⟨[.new ['b'] [], .new ['a', 'a'] []], .buffer⟩ : Sink).writeAll
          [⟨.static, "x\n".toList⟩, ⟨.value, "y\nz".toList⟩, ⟨.static, "\n\n".toList⟩] = (s, none) ∧
        (⟨[.new ['a', 'a', 'b'] []], .buffer⟩ : Sink).writeAll
          [⟨.static, "x\n".toList⟩, ⟨.value, "y\nz".toList⟩, ⟨.static, "\n\n".toList⟩] = (t, none) ∧
        s.device.text = t.device.text ∧ s.device.written = t.device.written := by
  have hindents : ∀ indent ∈ [['b'], ['a', 'a']], '\n' ∉ indent := by decide
  exact ⟨hindents, writeAll_nested_eq_single hindents _⟩

end Mustache

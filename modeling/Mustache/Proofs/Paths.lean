import Mustache.Proofs.Faults

/-!
# `Mustache.Proofs.Paths` — what a dotted key resolves to

Two searches make up a lookup: the first segment of a key is looked up in all frames of the context, every further
segment in the value found before it. The second search has no frames to fall back on, so a key can be cut between any
two segments: what the first part resolves to is all that the second part is resolved in.

* `Stack.follow_append`, `Stack.resolve_ofValues` — a value is followed along two paths one after the other, and to
  follow it is to resolve the path in a context that has nothing but the value;
* `Stack.resolve_append` — **a path in two parts**;
* `Stack.resolve_push_of_silent`, `Stack.resolve_push_of_offered` — what a further frame on top does to a lookup;
* `resolve_compositional` — all of this, from the same state of the host on.
-/

namespace Mustache

namespace Stack

variable {s s' : Stack} {v w : Value} {name : Text} {rest : List Text} {h h' : Host}

/-! ## Paths in two parts -/

/-- A value is followed along two paths one after the other. -/
theorem follow_append (v : Value) (p q : List Text) :
    follow v (p ++ q) = (do
      match ← follow v p with
      | some w => follow w q
      | none => return none) := by
  induction p generalizing v with
  | nil =>
      show follow v q = (pure (some v) >>= _ : HostM (Option Value))
      rw [pure_bind]
  | cons name p ih =>
      rw [List.cons_append, follow, follow, bind_assoc]
      apply bind_congr
      intro found
      cases found with
      | none => rw [pure_bind]
      | some w => exact ih w

/-- In a context that has nothing but a value, to resolve a path is to follow it. -/
theorem resolve_ofValues (v : Value) (name : Text) (rest : List Text) :
    resolve (ofValues [v]) (name :: rest) = follow v (name :: rest) := by
  show find? [v.toFrame] name >>= _ = v.toFrame.lookup name >>= _
  rw [find?, bind_assoc]
  apply bind_congr
  intro found
  cases found with
  | none => rfl
  | some w => rfl

/-- **A path in two parts.** What the first part resolves to is all that the second part is resolved in. -/
theorem resolve_append (s : Stack) {p q : List Text} (hp : p ≠ []) (hq : q ≠ []) :
    resolve s (p ++ q) = (do
      match ← resolve s p with
      | some v => resolve (ofValues [v]) q
      | none => return none) := by
  obtain ⟨name, p, rfl⟩ := List.exists_cons_of_ne_nil hp
  obtain ⟨next, q, rfl⟩ := List.exists_cons_of_ne_nil hq
  rw [List.cons_append, resolve, resolve, bind_assoc]
  apply bind_congr
  intro found
  cases found with
  | none => rw [pure_bind]
  | some v =>
      show follow v (p ++ next :: q) = _
      rw [follow_append]
      apply bind_congr
      intro found
      cases found with
      | none => rfl
      | some w => exact (resolve_ofValues w next q).symm

/-! ## Frames on top -/

/-- A frame that offers nothing, and changes nothing when it is asked, is passed over. -/
theorem resolve_push_of_silent (hsilent : (v.toFrame.lookup name).run h = (.ok none, h)) :
    (resolve (s.push v) (name :: rest)).run h = (resolve s (name :: rest)).run h := by
  have hfind : (find? (s.push v) name).run h = (find? s name).run h := by
    show (v.toFrame.lookup name >>= _ : HostM (Option Value)).run h = _
    rw [Fault.run_bind, hsilent]
  rw [resolve, resolve, Fault.run_bind, Fault.run_bind, hfind]

/-- What a frame on top offers is followed, whatever is below the frame. -/
theorem resolve_push_of_offered (hoffered : (v.toFrame.lookup name).run h = (.ok (some w), h')) :
    (resolve (s.push v) (name :: rest)).run h = (follow w rest).run h' := by
  have hfind : (find? (s.push v) name).run h = (.ok (some w), h') := by
    show (v.toFrame.lookup name >>= _ : HostM (Option Value)).run h = _
    rw [Fault.run_bind, hoffered]
    rfl
  rw [resolve, Fault.run_bind, hfind]

end Stack

/-! ## The result -/

/-- **A lookup is compositional and never falls back.** For every context, any two paths that are not empty and every
    state of the host:
    a path in two parts gives the same as its second part in a context that has nothing but the value of its first part
    — the same result or fault, and the same use of the host — and it is missing, or fails, as its first part does;
    a frame on top that does not offer the first segment of a path, and is not changed by the question, makes no
    difference to the path; and under a frame that offers the segment, no other frame does. -/
theorem resolve_compositional (s : Stack) {p q : List Text} (hp : p ≠ []) (hq : q ≠ []) (h : Host) :
    ((s.resolve (p ++ q)).run h = match (s.resolve p).run h with
      | (.ok (some v), h') => ((Stack.ofValues [v]).resolve q).run h'
      | (.ok none, h') => (.ok none, h')
      | (.error fault, h') => (.error fault, h')) ∧
    (∀ v : Value, (v.toFrame.lookup (p.head hp)).run h = (.ok none, h) →
      ((s.push v).resolve p).run h = (s.resolve p).run h) ∧
    (∀ (v w : Value) (h' : Host), (v.toFrame.lookup (p.head hp)).run h = (.ok (some w), h') →
      ∀ s' : Stack, ((s.push v).resolve p).run h = ((s'.push v).resolve p).run h) := by
  refine ⟨?_, ?_, ?_⟩
  · rw [Stack.resolve_append s hp hq, Fault.run_bind]
    rcases (s.resolve p).run h with ⟨fault | found, h'⟩
    · rfl
    · cases found <;> rfl
  · obtain ⟨name, p, rfl⟩ := List.exists_cons_of_ne_nil hp
    intro v hsilent
    exact Stack.resolve_push_of_silent hsilent
  · obtain ⟨name, p, rfl⟩ := List.exists_cons_of_ne_nil hp
    intro v w h' hoffered s'
    exact (Stack.resolve_push_of_offered hoffered).trans (Stack.resolve_push_of_offered hoffered).symm

/-! ### A method on the way -/

/-- A function without parameters that returns a mapping. -/
def pairMaker : HostFunction := ⟨⟨0, 0, false, false, true⟩, none, .returns (.map .dict [(.text ['x'], .int 1)])⟩

/-- A context with an object under a name, whose method is the function. -/
def methodStack : Stack :=
  .ofValues [.map .dict [(.text ['u'], .object ⟨[], true, none, none, [], [(['m'], pairMaker)], []⟩)]]

/-- A path over a method, which is called once on the way, cut behind the method; and a number, which offers no
    name, on top of the context. -/
theorem resolve_compositional_method :
    ([['u'], ['m']] : List Text) ≠ [] ∧ ([['x']] : List Text) ≠ [] ∧
    (methodStack.resolve [['u'], ['m']]).run .fresh
      = (.ok (some (.map .dict [(.text ['x'], .int 1)])), ⟨#[], [⟨pairMaker, [], false⟩], []⟩) ∧
    (methodStack.resolve [['u'], ['m'], ['x']]).run .fresh
      = ((Stack.ofValues [.map .dict [(.text ['x'], .int 1)]]).resolve [['x']]).run
          ⟨#[], [⟨pairMaker, [], false⟩], []⟩ ∧
    ((Value.int 1).toFrame.lookup ['u']).run .fresh = (.ok none, .fresh) ∧
    ((methodStack.push (.int 1)).resolve [['u'], ['m']]).run .fresh
      = (methodStack.resolve [['u'], ['m']]).run .fresh := by
  have hp : ([['u'], ['m']] : List Text) ≠ [] := List.cons_ne_nil _ _
  have hq : ([['x']] : List Text) ≠ [] := List.cons_ne_nil _ _
  have hfirst : (methodStack.resolve [['u'], ['m']]).run .fresh
      = (.ok (some (.map .dict [(.text ['x'], .int 1)])), ⟨#[], [⟨pairMaker, [], false⟩], []⟩) := by
    with_unfolding_all rfl
  have hsilent : ((Value.int 1).toFrame.lookup ['u']).run .fresh = (.ok none, .fresh) := rfl
  obtain ⟨hpath, hpush, -⟩ := resolve_compositional methodStack hp hq .fresh
  rw [hfirst] at hpath
  exact ⟨hp, hq, hfirst, hpath, hsilent, hpush _ hsilent⟩

end Mustache

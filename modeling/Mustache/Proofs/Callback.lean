import Mustache.Proofs.Assembling
import Mustache.Proofs.Running
import Mustache.Proofs.Scanning

/-!
# `Mustache.Proofs.Callback` — functions that give what the render callback gives

The function of a section gets the raw body and, if it takes two arguments, a callback that renders text. What
the function gives is rendered in its turn, like the result of any other function. So what the callback gives is
read as a template once more, with the values that have been put into it: a function that passes it on
(`HostFunction.Echoes`) has its section rendered twice.

* `Element.parse_of_clear`, `Renderer.renderText_of_clear` — text without an opening delimiter is itself when it
  is rendered;
* `Renderer.echo_run` — what a section with such a function writes, by what its raw body renders to;
* `section_echo` — hence it writes what its raw body renders to, when no opening delimiter is in it.
-/

namespace Mustache

open RenderM

/-! ## Text without tags -/

/-- A text in which no tag begins is static text. -/
theorem Element.parse_of_clear {d : Delimiters} {t : Text} (h : Text.Clear d.opening t []) :
    parse d t = .ok (if t.isEmpty then [] else [.text t]) := by
  have hscan : Scan.ofText d t = ⟨[], t, none⟩ := Scans.ofText_eq (.finish h)
  rw [parse_of_scan (by rw [hscan]), hscan]
  cases t <;> rfl

namespace Renderer

/-- A text in which no tag begins renders to itself. -/
theorem renderText_of_clear (r : Renderer) (n : Nat) {d : Delimiters} (scope : Scope) {t : Text}
    (h : Text.Clear d.opening t []) : renderText (r.elements (n + 1)) d scope t = pure t := by
  rw [renderText_of_parse (Element.parse_of_clear h)]
  cases t with
  | nil => rfl
  | cons c t =>
      funext s
      show (Except.ok ((c :: t) ++ []), s) = _
      rw [List.append_nil]
      rfl

end Renderer

/-! ## Echoes -/

namespace HostFunction

/-- A function that calls the render callback on its first argument and gives what that gives. -/
def Echoes (f : HostFunction) : Prop :=
  ∀ (s : Text) (callback : Text → RenderM Text),
    f.call host [s] (some callback) = (do
      host (f.enter [s] true)
      let t ← callback s
      return .text t)

theorem echoes_of_writes {f : HostFunction} (h : f.outcome = .writes [.rendered [.argument]]) : f.Echoes := by
  intro s callback
  simp [call, h, Part.writeAll, Part.write]

end HostFunction

namespace Renderer

variable {recur : Recur} {scope : Scope} {key raw : Text} {children : List Element} {d : Delimiters} {v : Value}
  {f : HostFunction} {s t : RenderState}

/-- The single rendering of a raw body: what the callback gives for it, once the function has been entered. -/
def single (recur : Recur) (scope : Scope) (raw : Text) (d : Delimiters) (f : HostFunction) : RenderM Text := do
  host (f.enter [raw] true)
  renderText recur d scope raw

theorem sectionCall_of_echoes (hf : f.Echoes) (harity : f.signature.arity? = some 2) :
    sectionCall recur scope raw d f = (do
      let text ← single recur scope raw d f
      emit ⟨.value, ← renderText recur d scope text⟩) := by
  have hcallback : callback? recur scope d f = some (renderText recur d scope) := by
    rw [callback?, harity]
  have hshown : ∀ text, shown (.text text) = pure text := fun _ => rfl
  rw [sectionCall_eq, hcallback, hf]
  simp [single, hshown]

/-- A section over a function with arguments calls it. -/
theorem sectionTag_of_callee (hfound : (host (scope.stack.resolve (keyPath key))).run s = (.ok (some v), t))
    (hv : v.callee? = some f) (harity : f.signature.arity? ≠ some 0) :
    (sectionTag recur scope key false children raw d).run s = (sectionCall recur scope raw d f).run t := by
  unfold sectionTag
  rw [run_bind_ok hfound]
  simp only [Bool.false_eq_true, if_false, Option.bind_some, hv, if_neg harity]

/-- **What a function passes on from the callback is rendered again.** -/
theorem sectionTag_of_echoes (hfound : (host (scope.stack.resolve (keyPath key))).run s = (.ok (some v), t))
    (hv : v.callee? = some f) (harity : f.signature.arity? = some 2) (hf : f.Echoes) :
    (sectionTag recur scope key false children raw d).run s = (do
      let text ← single recur scope raw d f
      emit ⟨.value, ← renderText recur d scope text⟩ : RenderM Unit).run t := by
  rw [sectionTag_of_callee hfound hv (by simp [harity]), sectionCall_of_echoes hf harity]

end Renderer

/-- **A section whose function passes on what the callback gives.** Reading the raw body can fail, and so can its
    single rendering; then the section fails in the same way. Otherwise the text of the single rendering, with the
    values in it, is read as a template again, and the section writes what that renders to, or fails if it does
    not parse. When no opening delimiter of the section is in the text, it writes just the single rendering. -/
theorem section_echo (r : Renderer) (n : Nat) {scope : Scope} {key raw : Text} {children : List Element}
    {d : Delimiters} {v : Value} {f : HostFunction} {s t : RenderState}
    (hfound : (host (scope.stack.resolve (keyPath key))).run s = (.ok (some v), t))
    (hv : v.callee? = some f) (harity : f.signature.arity? = some 2) (hf : f.Echoes) :
    (∀ e u, Element.parse d raw = .error e → (host (f.enter [raw] true)).run t = (.ok (), u) →
      (r.element (r.elements (n + 1)) scope (.sectionTag key false children raw d)).run s
        = (.error (.engine (.badTemplate e (some Renderer.functionTextName))), u)) ∧
    (∀ fault u, (Renderer.single (r.elements (n + 1)) scope raw d f).run t = (.error fault, u) →
      (r.element (r.elements (n + 1)) scope (.sectionTag key false children raw d)).run s = (.error fault, u)) ∧
    (∀ text u, (Renderer.single (r.elements (n + 1)) scope raw d f).run t = (.ok text, u) →
      (∀ e, Element.parse d text = .error e →
        (r.element (r.elements (n + 1)) scope (.sectionTag key false children raw d)).run s
          = (.error (.engine (.badTemplate e (some Renderer.functionTextName))), u)) ∧
      (∀ es, Element.parse d text = .ok es →
        (r.element (r.elements (n + 1)) scope (.sectionTag key false children raw d)).run s
          = (collect (r.elements (n + 1) es scope) >>= fun out => emit ⟨.value, out⟩).run u) ∧
      (Text.Clear d.opening text [] →
        (r.element (r.elements (n + 1)) scope (.sectionTag key false children raw d)).run s
          = (emit ⟨.value, text⟩).run u)) := by
  have hrun : (r.element (r.elements (n + 1)) scope (.sectionTag key false children raw d)).run s = _ :=
    Renderer.sectionTag_of_echoes hfound hv harity hf
  rw [hrun]
  refine ⟨fun e u hparse henter => ?_, fun fault u hsingle => run_bind_error hsingle, fun text u hsingle => ?_⟩
  · refine run_bind_error ?_
    rw [Renderer.single, run_bind_ok henter, Renderer.renderText_of_error hparse]
    rfl
  · rw [run_bind_ok hsingle]
    refine ⟨fun e hparse => ?_, fun es hparse => ?_, fun hclear => ?_⟩
    · rw [Renderer.renderText_of_error hparse]
      rfl
    · rw [Renderer.renderText_of_parse hparse]
    · rw [r.renderText_of_clear n scope hclear]
      rfl

/-- A function of two arguments that gives what the callback gives for the first. -/
def echo : HostFunction := ⟨⟨2, 0, false, false, true⟩, none, .writes [.rendered [.argument]]⟩

/-- The context of a section over `echo`, with a text for one key and a letter for another. -/
def echoStack (x : Text) : Stack :=
  .ofValues [.map .dict [(.text ['f'], .function echo), (.text ['x'], .text x), (.text ['y'], .text ['z'])]]

/-- A value without an opening delimiter is written as it is. -/
theorem section_echo_plain :
    (Renderer.element ⟨[], id, 64⟩ (Renderer.elements ⟨[], id, 64⟩ 2) ⟨echoStack ['a'], [], 0⟩
        (.sectionTag ['f'] false [] "<|x|>".toList ⟨['|'], ['|']⟩)).run ⟨.fresh, .bare .buffer⟩
      = (emit ⟨.value, "<a>".toList⟩).run
          ((Renderer.single (Renderer.elements ⟨[], id, 64⟩ 2) ⟨echoStack ['a'], [], 0⟩ "<|x|>".toList
            ⟨['|'], ['|']⟩ echo).run ⟨.fresh, .bare .buffer⟩).2 := by
  have hparse : Element.parse ⟨['|'], ['|']⟩ "<|x|>".toList
      = .ok [.text ['<'], .interpolation ['x'] true, .text ['>']] := by
    with_unfolding_all rfl
  have hsingle : ((Renderer.single (Renderer.elements ⟨[], id, 64⟩ 2) ⟨echoStack ['a'], [], 0⟩
      "<|x|>".toList ⟨['|'], ['|']⟩ echo).run ⟨.fresh, .bare .buffer⟩).1 = .ok "<a>".toList := by
    rw [Renderer.single, Renderer.renderText_of_parse hparse]
    with_unfolding_all rfl
  have hclear : Text.Clear ['|'] "<a>".toList [] := (Text.breakOn_eq_none_iff.mp (by decide +kernel)).2
  have hfound : (host (Stack.resolve (echoStack ['a']) (keyPath ['f']))).run ⟨.fresh, .bare .buffer⟩
      = (.ok (some (.function echo)), ⟨.fresh, .bare .buffer⟩) := by
    with_unfolding_all rfl
  have hecho : echo.Echoes := HostFunction.echoes_of_writes rfl
  exact ((section_echo ⟨[], id, 64⟩ 1 hfound rfl rfl hecho).2.2 _ _ (Prod.ext hsingle rfl)).2.2 hclear

/-- **A value is read as a template again.** The function passes on what the callback gives, and the raw body
    parses. A value that is a tag is in the single rendering as it is, and the section writes what the tag stands
    for; a value that is a part of a tag makes the section fail. -/
theorem section_echo_rereads :
    echo.Echoes ∧ echo.signature.arity? = some 2 ∧
    Element.parse ⟨['|'], ['|']⟩ "|&x|".toList = .ok [.interpolation ['x'] false] ∧
    ((Renderer.single (Renderer.elements ⟨[], id, 64⟩ 2) ⟨echoStack "|y|".toList, [], 0⟩
        "|&x|".toList ⟨['|'], ['|']⟩ echo).run ⟨.fresh, .bare .buffer⟩).1 = .ok "|y|".toList ∧
    ((Renderer.element ⟨[], id, 64⟩ (Renderer.elements ⟨[], id, 64⟩ 2) ⟨echoStack "|y|".toList, [], 0⟩
        (.sectionTag ['f'] false [.interpolation ['x'] false] "|&x|".toList ⟨['|'], ['|']⟩)).run
        ⟨.fresh, .bare .buffer⟩).2.sink.device.text = ['z'] ∧
    ((Renderer.element ⟨[], id, 64⟩ (Renderer.elements ⟨[], id, 64⟩ 2) ⟨echoStack "|y".toList, [], 0⟩
        (.sectionTag ['f'] false [.interpolation ['x'] false] "|&x|".toList ⟨['|'], ['|']⟩)).run
        ⟨.fresh, .bare .buffer⟩).1
      = .error (.engine (.badTemplate ((SyntaxFault.unterminated ['|'] ['|']).report 1 1)
          (some Renderer.functionTextName))) := by
  refine ⟨HostFunction.echoes_of_writes rfl, rfl, ?_, ?_, ?_, ?_⟩
  · with_unfolding_all rfl
  · with_unfolding_all rfl
  · with_unfolding_all rfl
  · with_unfolding_all rfl

end Mustache

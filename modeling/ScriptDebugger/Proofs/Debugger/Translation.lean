/-
  Debuggers seen through a translation

  A translation takes engines to engines that look the same and act alike, and
  tracers to tracers that take in the same events. A debugger works on the
  translation of an engine as it does on the engine: each part of a call, each
  call and each session commutes with translating (`translate_performAll`).
  So an engine may carry along what no debugger looks at, and a tracer may be
  exchanged for another.
-/
import ScriptDebugger.Proofs.Debugger.Loop
import ScriptDebugger.Debugger.Session

namespace ScriptDebugger

/-- `f` of engines and `g` of tracers commute with all that a debugger does to
them, and leave unchanged all that it sees. -/
structure Translation {ε φ τ σ : Type} [Engine ε] [Engine φ] [Tracer τ] [Tracer σ] (f : ε → φ)
    (g : τ → σ) : Prop where
  state : ∀ e, Engine.state (f e) = Engine.state e
  depth : ∀ e, Engine.depth (f e) = Engine.depth e
  context? : ∀ e, Engine.context? (f e) = Engine.context? e
  setState : ∀ s e, f (Engine.setState s e) = Engine.setState s (f e)
  execute : ∀ e, f (Engine.execute e) = Engine.execute (f e)
  observe : ∀ t e, g (Tracer.observe t e) = Tracer.observe (g t) e

variable {ε φ τ σ ρ : Type} {f : ε → φ} {g : τ → σ}

namespace Debugger

def translate (f : ε → φ) (g : τ → σ) (d : Debugger ε τ) : Debugger φ σ :=
  ⟨f d.engine, d.breakpoints, d.budget, g d.tracer⟩

end Debugger

def Stop.translate (f : ε → φ) (g : τ → σ) (s : Stop ε τ) : Stop φ σ :=
  ⟨s.debugger.translate f g, s.executed⟩

def Outcome.translate (f : ε → φ) (g : τ → σ) (o : Outcome ε τ ρ) : Outcome φ σ ρ :=
  ⟨o.reply, o.debugger.translate f g, o.executed⟩

namespace Translation

open Debugger

variable [Engine ε] [Engine φ] [Tracer τ] [Tracer σ] (h : Translation f g) (d : Debugger ε τ)

include h

/-! ## The parts of a call -/

theorem translate_state : (d.translate f g).state = d.state := h.state d.engine

theorem translate_depth : (d.translate f g).depth = d.depth := h.depth d.engine

theorem translate_report (e : Event) : (d.report e).translate f g = (d.translate f g).report e := by
  simp only [report, Debugger.translate, h.observe]

theorem translate_forceState (target : RunState) :
    (d.forceState target).translate f g = (d.translate f g).forceState target := by
  have state := h.translate_state d
  by_cases same : d.state = target
  · rw [forceState_of_eq same, forceState_of_eq (state.trans same)]
  · have other : (d.translate f g).state ≠ target := by rwa [state]
    rw [forceState_of_ne same, forceState_of_ne other, state]
    simp only [Debugger.translate, h.setState, h.observe]

theorem translate_resume : d.resume.translate f g = (d.translate f g).resume := by
  have state := h.translate_state d
  by_cases paused : d.state = .paused
  · rw [resume_of_paused paused, resume_of_paused (state.trans paused), h.translate_forceState]
  · rw [resume_of_ne paused, resume_of_ne (by rwa [state])]

theorem translate_pause : d.pause.translate f g = (d.translate f g).pause := by
  have state := h.translate_state d
  by_cases runnable : d.state = .runnable
  · rw [pause_of_runnable runnable, pause_of_runnable (state.trans runnable), h.translate_forceState]
  · rw [pause_of_ne runnable, pause_of_ne (by rwa [state])]

theorem translate_execute : d.execute.translate f g = (d.translate f g).execute := by
  simp only [Debugger.execute, Debugger.translate, h.observe, ← h.execute, h.depth, h.state]

theorem translate_hit? : (d.translate f g).hit? = d.hit? := by
  simp only [hit?, h.translate_state, h.translate_depth]
  simp only [Debugger.translate, h.context?]

theorem translate_advance : d.advance.translate f g = (d.translate f g).advance := by
  have same : (d.translate f g).execute.hit? = d.execute.hit? := by
    rw [← h.translate_execute, h.translate_hit?]
  cases hit : d.execute.hit? with
  | none => rw [advance_of_no_hit hit, advance_of_no_hit (same.trans hit), h.translate_execute]
  | some l =>
    rw [advance_of_hit hit, advance_of_hit (same.trans hit), h.translate_forceState,
      h.translate_report, h.translate_execute]

theorem translate_iterate (n : Nat) :
    (advance^[n] d).translate f g = advance^[n] (d.translate f g) := by
  induction n generalizing d with
  | zero => rfl
  | succ n ih =>
    rw [Function.iterate_succ_apply, Function.iterate_succ_apply, ih, h.translate_advance]

theorem translate_stops (arrived : Nat → Bool) (executed : Nat) :
    (d.translate f g).stops arrived executed = d.stops arrived executed := by
  simp only [stops, h.translate_state, h.translate_depth]
  rfl

/-! ## Stepping calls -/

theorem translate_advanceUntil (arrived : Nat → Bool) (patience executed : Nat) :
    advanceUntil arrived patience executed (d.translate f g) =
      (advanceUntil arrived patience executed d).map (Stop.translate f g) := by
  induction patience generalizing executed d with
  | zero =>
    unfold advanceUntil
    rw [h.translate_stops, ← h.translate_pause]
    split <;> rfl
  | succ patience ih =>
    unfold advanceUntil
    rw [h.translate_stops, ← h.translate_pause, ← h.translate_advance]
    split
    · rfl
    · exact ih d.advance (executed + 1)

theorem translate_run (patience : Nat) :
    (d.translate f g).run patience = (d.run patience).map (Stop.translate f g) := by
  unfold run
  rw [← h.translate_resume, h.translate_advanceUntil]

theorem translate_stepInto : (d.translate f g).stepInto = d.stepInto.translate f g := by
  unfold stepInto
  rw [h.translate_state, ← h.translate_execute, ← h.translate_pause]
  split <;> rfl

theorem translate_stepOver (patience : Nat) :
    (d.translate f g).stepOver patience = (d.stepOver patience).map (Stop.translate f g) := by
  simp only [stepOver, h.translate_state, ← h.translate_resume, ← h.translate_advance,
    h.translate_depth, h.translate_advanceUntil]
  split <;> rfl

theorem translate_stepOut (patience : Nat) :
    (d.translate f g).stepOut patience = (d.stepOut patience).map (Stop.translate f g) := by
  simp only [stepOut, ← h.translate_resume, h.translate_depth, h.translate_advanceUntil]

/-! ## Sessions -/

theorem translate_addBreakpoint (l : Location) :
    (d.addBreakpoint l).translate f g = (d.translate f g).addBreakpoint l := by
  have same : (d.translate f g).breakpoints = d.breakpoints := rfl
  unfold addBreakpoint
  rw [same]
  split
  · exact h.translate_report ..
  · rfl

theorem translate_removeBreakpoint (l : Location) :
    (d.translate f g).removeBreakpoint l =
      ((d.removeBreakpoint l).1, (d.removeBreakpoint l).2.translate f g) := by
  have same : (d.translate f g).breakpoints = d.breakpoints := rfl
  unfold removeBreakpoint
  rw [same]
  split
  · rw [h.translate_report]
    rfl
  · rfl

theorem translate_outcome (s : Stop ε τ) :
    outcome (s.translate f g) = (outcome s).translate f g := by
  simp only [outcome, Stop.translate, Outcome.translate, h.translate_state]

/-- A stepping call gives the outcome of its stop. -/
theorem translate_stepping {stop : Option (Stop ε τ)} {stop' : Option (Stop φ σ)}
    (same : stop' = stop.map (Stop.translate f g)) :
    stop'.map outcome = (stop.map outcome).map (Outcome.translate f g) := by
  rw [same, Option.map_map, Option.map_map]
  exact congrArg (stop.map ·) (funext h.translate_outcome)

theorem translate_perform (patience : Nat) (c : Command) :
    (d.translate f g).perform patience c = (d.perform patience c).map (Outcome.translate f g) := by
  cases c with
  | run => exact h.translate_stepping (h.translate_run d patience)
  | stepInto =>
    simp only [perform, h.translate_stepInto, h.translate_outcome, Option.map_some]
  | stepOver => exact h.translate_stepping (h.translate_stepOver d patience)
  | stepOut => exact h.translate_stepping (h.translate_stepOut d patience)
  | addBreakpoint l =>
    simp only [perform, ← h.translate_addBreakpoint, Option.map_some, Outcome.translate]
  | removeBreakpoint l =>
    simp only [perform, h.translate_removeBreakpoint, Option.map_some, Outcome.translate]
  | setBudget budget => rfl
  | setBreakpoints breakpoints => rfl

theorem translate_performAll (patience : Nat) (commands : List Command) :
    (d.translate f g).performAll patience commands =
      (d.performAll patience commands).map (Outcome.translate f g) := by
  induction commands generalizing d with
  | nil => rfl
  | cons c commands ih =>
    rw [performAll, performAll, h.translate_perform]
    cases d.perform patience c with
    | none => rfl
    | some first =>
      have later := ih first.debugger
      simp only [Option.map_some, Option.bind_eq_bind, Option.bind_some, Outcome.translate, later]
      cases first.debugger.performAll patience commands <;> rfl

end Translation

end ScriptDebugger

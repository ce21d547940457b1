/-
  Debugging is transparent

  What a session does to an engine is what executing the engine plainly does
  to it, one instruction after another, as many as the session executed: the
  breakpoints, the budgets and the ways of stepping decide how far the session
  gets and nothing else.

  This asks something of the engine, which `PauseBlind` says: a request for a
  run state changes nothing but the run state, and an instruction does the
  same whether the engine is runnable or paused. Nothing is asked about depths
  and contexts, and a request need not be obeyed. A machine is such an engine
  (`Machine.pauseBlind`).

  The invariant is `Follows e n f`: `f` is, apart from its run state, what `e`
  is after `n` plain instructions. Every part of a session keeps it
  (`kept_follows`), so every session does (`session_transparent`), and the
  engines of two sessions that are over for good are equal.
-/
import ScriptDebugger.Proofs.Debugger.Session
import ScriptDebugger.Proofs.Machine.Frames

namespace ScriptDebugger

/-- Engines seen as a run state and the rest. The rest is all that an
instruction looks at, as long as the run state is no terminal one. -/
structure PauseBlind (ε ρ : Type) [Engine ε] where
  rest : ε → ρ
  /-- There is nothing but the run state and the rest. -/
  ext : ∀ {e f : ε}, Engine.state e = Engine.state f → rest e = rest f → e = f
  rest_setState : ∀ (s : RunState) (e : ε), rest (Engine.setState s e) = rest e
  /-- Asking for a run state that is not terminal does not lead to one that
  is. -/
  setState_live : ∀ {s : RunState} {e : ε}, s.isTerminal = false →
    (Engine.state e).isTerminal = false → (Engine.state (Engine.setState s e)).isTerminal = false
  rest_execute : ∀ {e f : ε}, (Engine.state e).isTerminal = false →
    (Engine.state f).isTerminal = false → rest e = rest f →
    rest (Engine.execute e) = rest (Engine.execute f)
  /-- Where one engine halts or faults, so does the other. -/
  state_execute : ∀ {e f : ε}, (Engine.state e).isTerminal = false →
    (Engine.state f).isTerminal = false → rest e = rest f →
    (Engine.state (Engine.execute e)).isTerminal = true →
    Engine.state (Engine.execute f) = Engine.state (Engine.execute e)

namespace PauseBlind

variable {ε ρ τ : Type} [Engine ε] [Tracer τ] {view : PauseBlind ε ρ} {e f g : ε} {n m : Nat}

/-- Apart from its run state, `f` is what `e` is after `n` instructions of
plain execution. -/
structure Follows (view : PauseBlind ε ρ) (e : ε) (n : Nat) (f : ε) : Prop where
  rest : view.rest f = view.rest (Engine.execute^[n] e)
  /-- None of the instructions was executed in a terminal state. -/
  live : ∀ i < n, (Engine.state (Engine.execute^[i] e)).isTerminal = false
  ended : (Engine.state (Engine.execute^[n] e)).isTerminal = true →
    Engine.state f = Engine.state (Engine.execute^[n] e)
  going : (Engine.state (Engine.execute^[n] e)).isTerminal = false →
    Engine.state f = .runnable ∨ Engine.state f = .paused

namespace Follows

theorem refl (view : PauseBlind ε ρ) (fresh : Engine.state e = .runnable) :
    view.Follows e 0 e where
  rest := rfl
  live i less := absurd less (Nat.not_lt_zero i)
  ended _ := rfl
  going _ := .inl fresh

theorem plain_live (h : view.Follows e n f) (live : (Engine.state f).isTerminal = false) :
    (Engine.state (Engine.execute^[n] e)).isTerminal = false := by
  apply eq_false_of_ne_true
  intro finished
  rw [h.ended finished, finished] at live
  cases live

theorem execute (h : view.Follows e n f) (live : (Engine.state f).isTerminal = false) :
    view.Follows e (n + 1) (Engine.execute f) where
  rest := by
    rw [Function.iterate_succ_apply']
    exact view.rest_execute live (h.plain_live live) h.rest
  live i less := by
    rcases Nat.lt_succ_iff_lt_or_eq.mp less with earlier | rfl
    · exact h.live i earlier
    · exact h.plain_live live
  ended finished := by
    rw [Function.iterate_succ_apply'] at finished ⊢
    exact view.state_execute (h.plain_live live) live h.rest.symm finished
  going going := by
    -- Were this one over, the plain run would be over as well.
    apply RunState.runnable_or_paused
    apply eq_false_of_ne_true
    intro finished
    have same := view.state_execute live (h.plain_live live) h.rest finished
    rw [Function.iterate_succ_apply', same, finished] at going
    cases going

theorem setState {s : RunState} (h : view.Follows e n f)
    (live : (Engine.state f).isTerminal = false) (request : s.isTerminal = false) :
    view.Follows e n (Engine.setState s f) where
  rest := by rw [view.rest_setState, h.rest]
  live := h.live
  ended finished := by
    rw [h.plain_live live] at finished
    cases finished
  going _ := RunState.runnable_or_paused (view.setState_live request live)

/-- Where two engines are over, they are over after the same number of
instructions, and they are equal. -/
theorem unique (hf : view.Follows e n f) (hg : view.Follows e m g)
    (finished : (Engine.state f).isTerminal = true)
    (finished' : (Engine.state g).isTerminal = true) : f = g := by
  have ended {k : Nat} {x : ε} (h : view.Follows e k x)
      (finished : (Engine.state x).isTerminal = true) :
      (Engine.state (Engine.execute^[k] e)).isTerminal = true := by
    apply eq_true_of_ne_false
    intro live
    rcases h.going live with state | state <;> rw [state] at finished <;> cases finished
  -- Both are where the plain run comes to its end.
  have same : n = m := first_unique (p := fun i => (Engine.state (Engine.execute^[i] e)).isTerminal)
    hf.live (ended hf finished) hg.live (ended hg finished')
  subst same
  apply view.ext
  · rw [hf.ended (ended hf finished), hg.ended (ended hf finished)]
  · rw [hf.rest, hg.rest]

end Follows

end PauseBlind

/-! ## Machines -/

namespace Machine

/-- What a machine is apart from its run state. -/
def rest (m : Machine) : Program × Stack × Nat := (m.program, m.stack, m.executed)

theorem ext_rest {m m' : Machine} (state : m.state = m'.state) (rest : m.rest = m'.rest) :
    m = m' := by
  cases m
  cases m'
  simp only [Machine.rest, Prod.mk.injEq] at rest
  simp_all

/-- An instruction looks at the rest only: it does the same to it in every run
state, and ends the run in every run state or in none. -/
theorem execute_of_rest {m m' : Machine} (h : m.rest = m'.rest) :
    m.execute.rest = m'.execute.rest ∧
      (m.execute.state = m.state ∧ m'.execute.state = m'.state ∨
        m.execute.state = m'.execute.state ∧ m.execute.state.isTerminal = true) := by
  simp only [rest, Prod.mk.injEq] at h
  obtain ⟨program, stack, executed⟩ := h
  cases frames : m.stack.frames with
  | nil =>
    rw [execute_of_nil frames, execute_of_nil (stack ▸ frames)]
    exact ⟨by simp [rest, program, stack, executed], .inr ⟨rfl, rfl⟩⟩
  | cons top below =>
    have same : m'.upcoming top = m.upcoming top := by simp [upcoming, program]
    rw [execute_of_cons frames, execute_of_cons (stack ▸ frames), same]
    refine ⟨by simp [rest, program, executed], ?_⟩
    cases m.upcoming top with
    | nop => exact .inl ⟨rfl, rfl⟩
    | call script => exact .inl ⟨rfl, rfl⟩
    | fault => exact .inr ⟨rfl, rfl⟩
    | ret =>
      cases below with
      | nil => exact .inr ⟨rfl, rfl⟩
      | cons => exact .inl ⟨rfl, rfl⟩

def pauseBlind : PauseBlind Machine (Program × Stack × Nat) where
  rest := rest
  ext := ext_rest
  rest_setState _ _ := rfl
  setState_live request _ := request
  rest_execute _ _ h := (execute_of_rest h).1
  state_execute {m m'} live live' h finished := by
    rcases (execute_of_rest h).2 with ⟨same, _⟩ | ⟨same, _⟩
    · have kept : Engine.state (Engine.execute m) = Engine.state m := same
      rw [kept, live] at finished
      cases finished
    · exact same.symm

end Machine

/-! ## Sessions -/

namespace PauseBlind

variable {ε ρ τ : Type} [Engine ε] [Tracer τ]

theorem kept_follows (view : PauseBlind ε ρ) (e : ε) :
    Debugger.Kept fun n (d : Debugger ε τ) => view.Follows e n d.engine := by
  apply Debugger.Kept.of_engine
  · intro n f h live
    exact h.execute live
  · intro n f h runnable
    exact h.setState (by rw [runnable]; rfl) rfl
  · intro n f h paused
    exact h.setState (by rw [paused]; rfl) rfl
  · intro n f h paused
    have live : (Engine.state f).isTerminal = false := by rw [paused]; rfl
    exact (h.setState live rfl).execute (view.setState_live rfl live)

/-- A session follows the plain run of its engine, and two sessions that bring
equal engines to an end bring them to the same end. -/
theorem session_transparent {σ : Type} [Tracer σ] (view : PauseBlind ε ρ) {e : ε}
    (fresh : Engine.state e = .runnable) :
    (∀ (d : Debugger ε τ) patience commands o, d.engine = e →
      d.performAll patience commands = some o →
      view.Follows e o.executed o.debugger.engine) ∧
    (∀ (d : Debugger ε τ) (d' : Debugger ε σ) patience patience' commands commands' o o',
      d.engine = e → d'.engine = e →
      d.performAll patience commands = some o → d'.performAll patience' commands' = some o' →
      o.debugger.state.isTerminal = true → o'.debugger.state.isTerminal = true →
      o.debugger.engine = o'.debugger.engine) := by
  have follows {ω : Type} [Tracer ω] (d : Debugger ε ω) {patience commands o}
      (at_start : d.engine = e) (returns : d.performAll patience commands = some o) :
      view.Follows e o.executed o.debugger.engine := by
    have start : view.Follows e 0 d.engine := by
      rw [at_start]
      exact Follows.refl view fresh
    have := (kept_follows view e).of_performAll start returns
    rwa [Nat.zero_add] at this
  constructor
  · intro d patience commands o at_start returns
    exact follows d at_start returns
  · intro d d' patience patience' commands commands' o o' at_start at_start' returns returns'
    exact (follows d at_start returns).unique (follows d' at_start' returns')

end PauseBlind

/-- All four ways of stepping, a breakpoint and a budget. -/
def visit : List Command :=
  [.addBreakpoint ⟨[2], 1⟩, .run, .stepInto, .stepOut, .setBudget (.atMost 1), .run,
    .setBudget .unlimited, .stepOver, .run]

theorem visit_transparent :
    ∃ o o', (Debugger.attach (Machine.load .nested) Silent.silent).performAll 8 visit = some o ∧
      (Debugger.attach (Machine.load .nested) Silent.silent).performAll 8 [.run] = some o' ∧
      o.executed = 8 ∧ Machine.pauseBlind.Follows (Machine.load .nested) 8 o.debugger.engine ∧
      o.debugger.engine = o'.debugger.engine := by
  let d := Debugger.attach (Machine.load .nested) Silent.silent
  have returns : (d.performAll 8 visit).isSome = true := by decide
  have returns' : (d.performAll 8 [.run]).isSome = true := by decide
  have executed : (d.performAll 8 visit).map (·.executed) = some 8 := by decide
  have finished : (d.performAll 8 visit).map (·.debugger.state) = some .halted := by decide
  have finished' : (d.performAll 8 [.run]).map (·.debugger.state) = some .halted := by decide
  obtain ⟨o, returns⟩ := Option.isSome_iff_exists.mp returns
  obtain ⟨o', returns'⟩ := Option.isSome_iff_exists.mp returns'
  rw [returns, Option.map_some, Option.some.injEq] at executed finished
  rw [returns', Option.map_some, Option.some.injEq] at finished'
  obtain ⟨follows, same⟩ := PauseBlind.session_transparent (τ := Silent) (σ := Silent)
    Machine.pauseBlind (e := Machine.load .nested) rfl
  refine ⟨o, o', returns, returns', executed, ?_, ?_⟩
  · have := follows d 8 visit o rfl returns
    rwa [executed] at this
  · exact same d d 8 8 visit [.run] o o' rfl rfl returns returns' (by rw [finished]; rfl)
      (by rw [finished']; rfl)

end ScriptDebugger

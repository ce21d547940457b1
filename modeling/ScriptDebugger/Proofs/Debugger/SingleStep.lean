/-
  Stepping over and into an instruction that does not call

  Stepping into executes one instruction of a paused engine as it is and
  pauses. Stepping over makes the engine runnable first, executes in a loop
  that looks at the breakpoints, the depth and the budget, and pauses where
  that stops. Where the instruction does not leave the stack deeper than it
  was, the two come to the same: the loop stops after one instruction, for
  whatever reason, and a breakpoint there pauses an engine that would be
  paused anyway.

  This asks that an instruction do the same to a runnable engine and to a
  paused one (`Engine.IgnoresPause`). What carries the proof is that the two
  engines which it leaves differ by a pause at most (`pause_execute_resume`).
  A machine is such an engine (`Machine.ignoresPause`).
-/
import ScriptDebugger.Proofs.Debugger.Pieces
import ScriptDebugger.Proofs.Debugger.Stopping

namespace ScriptDebugger

namespace Engine

variable {ε : Type} [Engine ε]

/-- A request changes the run state and nothing else, and an instruction does
not look at whether the engine is runnable or paused: either it sets a run
state of its own, the same in both cases, or it leaves the engine runnable or
paused as it was. -/
structure IgnoresPause (ε : Type) [Engine ε] : Prop extends Obedient ε, KeepsDepth ε where
  execute_paused : ∀ e : ε, state e = .runnable →
    execute (setState .paused e) = execute e ∨
      state (execute e) = .runnable ∧
        execute (setState .paused e) = setState .paused (execute e)

theorem pause_setState_paused (obeys : Obeys ε) (e : ε) :
    pause (setState .paused e) = setState .paused e := by
  rw [pause, if_neg (by rw [obeys.state_setState]; decide)]

namespace IgnoresPause

variable (ignores : IgnoresPause ε) {e : ε} (live : (state e).isTerminal = false)

include ignores live

/-- An engine executed as it is, and resumed before. -/
theorem execute_cases :
    execute e = execute (resume e) ∨
      state (execute (resume e)) = .runnable ∧
        execute e = setState .paused (execute (resume e)) := by
  rcases RunState.runnable_or_paused live with runnable | paused
  · rw [resume, if_neg (by rw [runnable]; decide)]
    exact .inl rfl
  · have resumed : resume e = setState .runnable e := if_pos paused
    have back : setState .paused (resume e) = e := by
      rw [resumed, ignores.setState_setState, ← paused, ignores.setState_state]
    have runnable : state (resume e) = .runnable := by
      rw [resumed, ignores.state_setState]
    have same := ignores.execute_paused (resume e) runnable
    rwa [back] at same

theorem pause_execute_resume : pause (execute (resume e)) = pause (execute e) := by
  rcases ignores.execute_cases live with same | ⟨runnable, paused⟩
  · rw [same]
  · rw [paused, pause_setState_paused ignores.toObeys, pause, if_pos runnable]

theorem depth_execute_resume : depth (execute (resume e)) = depth (execute e) := by
  rcases ignores.execute_cases live with same | ⟨_, paused⟩
  · rw [same]
  · rw [paused, ignores.depth_setState]

end IgnoresPause

end Engine

theorem Machine.ignoresPause : Engine.IgnoresPause Machine where
  toObedient := Machine.obedient
  depth_setState _ _ := rfl
  execute_paused m runnable := by
    have shown : m.state = .runnable := runnable
    let p : Machine := { m with state := .paused }
    show p.execute = m.execute ∨
      m.execute.state = .runnable ∧ p.execute = { m.execute with state := .paused }
    cases frames : m.stack.frames with
    | nil =>
      have frames' : p.stack.frames = [] := frames
      rw [execute_of_nil frames, execute_of_nil frames']
      exact .inl rfl
    | cons top rest =>
      have frames' : p.stack.frames = top :: rest := frames
      have same : p.upcoming top = m.upcoming top := rfl
      rw [execute_of_cons frames, execute_of_cons frames', same]
      cases m.upcoming top with
      | nop => exact .inr ⟨shown, rfl⟩
      | call script => exact .inr ⟨shown, rfl⟩
      | fault => exact .inl rfl
      | ret =>
        cases rest with
        | nil => exact .inl rfl
        | cons => exact .inr ⟨shown, rfl⟩

namespace Debugger

variable {ε τ : Type} [Engine ε] [Tracer τ] {d : Debugger ε τ}

/-- Stepping into pauses the engine after one instruction. -/
theorem perform_stepInto_of_live (live : d.state.isTerminal = false) (patience : Nat) :
    ∃ o, d.perform patience .stepInto = some o ∧ o.executed = 1 ∧
      o.debugger.engine = Engine.pause (Engine.execute d.engine) ∧
      o.reply = .stopped (Engine.state o.debugger.engine) := by
  have stop : d.stepInto = ⟨d.execute.pause, 1⟩ := if_neg (by rw [live]; decide)
  refine ⟨outcome d.stepInto, rfl, ?_, ?_, rfl⟩
  · rw [stop, outcome]
  · rw [stop]
    exact pause_engine d.execute

/-- Stepping over pauses the engine after one instruction, if that does not
leave the stack deeper than it was. -/
theorem perform_stepOver_of_flat (keeps : Engine.KeepsDepth ε) (live : d.state.isTerminal = false)
    (flat : Engine.depth (Engine.execute (Engine.resume d.engine)) ≤ d.depth) (patience : Nat) :
    ∃ o, d.perform patience .stepOver = some o ∧ o.executed = 1 ∧
      o.debugger.engine = Engine.pause (Engine.execute (Engine.resume d.engine)) ∧
      o.reply = .stopped (Engine.state o.debugger.engine) := by
  have obeys := keeps.toObeys
  have loop := loop?_stepOver.mpr ⟨live, rfl⟩
  have on : Loop.GoesOn ⟨(· ≤ d.resume.depth), 1, d.resume.advance⟩ 0 :=
    fun i less => absurd less (Nat.not_lt_zero i)
  have may : d.MayStop (· ≤ d.resume.depth) (Engine.resume d.engine) 1 := by
    refine .inr (.inr (.inl (decide_eq_true ?_)))
    rw [resume_depth keeps]
    exact flat
  have first := StopsAfter.here ((on.stops_iff obeys loop).mpr may)
  have engine := pause_engine_iterate obeys (on.runnable_resume obeys loop)
  rw [resume_engine_eq] at engine
  exact ⟨_, (perform_loop_eq_some_iff loop).mpr ⟨0, Nat.zero_le _, first, rfl⟩, rfl, engine, rfl⟩

/-- Where an instruction does not leave the stack deeper than it was, and in a
terminal state, stepping over and stepping into execute the same number of
instructions, return the same state and leave equal engines, whatever the
breakpoints and the budget are. -/
theorem stepOver_agrees_stepInto (ignores : Engine.IgnoresPause ε)
    (flat : d.state.isTerminal = true ∨ Engine.depth (Engine.execute d.engine) ≤ d.depth)
    (patience : Nat) :
    ∃ o o', d.perform patience .stepOver = some o ∧ d.perform patience .stepInto = some o' ∧
      o.executed = o'.executed ∧ o.reply = o'.reply ∧
      o.debugger.engine = o'.debugger.engine := by
  by_cases done : d.state.isTerminal = true
  · exact ⟨_, _, perform_of_terminal done rfl patience, perform_of_terminal done rfl patience,
      rfl, rfl, rfl⟩
  · have live := eq_false_of_ne_true done
    have flat : Engine.depth (Engine.execute (Engine.resume d.engine)) ≤ d.depth := by
      rw [ignores.depth_execute_resume live]
      exact flat.resolve_left done
    obtain ⟨o, call, one, engine, reply⟩ :=
      perform_stepOver_of_flat ignores.toKeepsDepth live flat patience
    obtain ⟨o', call', one', engine', reply'⟩ := perform_stepInto_of_live live patience
    have same : o.debugger.engine = o'.debugger.engine := by
      rw [engine, engine', ignores.pause_execute_resume live]
    exact ⟨o, o', call, call', by rw [one, one'], by rw [reply, reply', same], same⟩

/-- A machine paused before the return of its inner script, with a breakpoint
where that leads to and no budget at all. -/
theorem inner_return_agrees :
    let m : Machine := ⟨.nested, .ofList [⟨1, 2⟩, ⟨0, 1⟩], .paused, 5⟩
    let d : Debugger Machine Silent :=
      ⟨m, (Breakpoints.empty.insert ⟨[1], 1⟩).2, .atMost 0, .silent⟩
    ∃ o o', d.perform 0 .stepOver = some o ∧ d.perform 0 .stepInto = some o' ∧
      o.executed = 1 ∧ o.executed = o'.executed ∧ o.reply = .stopped .paused ∧
      o.reply = o'.reply ∧ o.debugger.engine = o'.debugger.engine := by
  intro m d
  have flat : Engine.depth (Engine.execute d.engine) ≤ d.depth := by decide
  obtain ⟨o, o', call, call', executed, reply, engine⟩ :=
    stepOver_agrees_stepInto Machine.ignoresPause (.inr flat) 0
  have known : (d.perform 0 .stepOver).map (fun o => (o.executed, o.reply)) =
      some (1, .stopped .paused) := by decide
  rw [call, Option.map_some, Option.some.injEq, Prod.mk.injEq] at known
  exact ⟨o, o', call, call', known.1, executed, known.2, reply, engine⟩

end Debugger

end ScriptDebugger

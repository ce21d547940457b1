/-
  Run states that a debugger asks for

  The acts of a session (`sessionActs`) are `Orderly`: a runnable engine is
  asked to pause or a paused one to be runnable, and nothing else is ever asked
  for; each request is followed at once by the event that reports it, and that
  event is never told without one. So are the acts of a call that is under way
  (`callActs`). Nothing is asked of the engine. It may ignore every request and
  move to any state when it executes, so what counts is the state it shows at
  the time, not the one that was asked for.

  Each part of a session has orderly acts (`orderly_forceStateActs` and so on,
  up to `orderly_sessionActs`): whoever asks for a run state has looked at the
  one that the engine shows. Where the engine logs the calls made to it and the
  tracer records what it is told, these are the acts that log and record show
  (`Shown`, `session_orderly`).

  Halted and faulted are left to the engine: from there, every stepping call
  returns what it was given (`performAll_of_terminal`).
-/
import ScriptDebugger.Engine.Playback
import ScriptDebugger.Proofs.Debugger.Acts

namespace ScriptDebugger

open Engine (Logged)

namespace Debugger

/-- Whether an act asks for no run state and tells of none that was asked
for. -/
def Act.isPlain : Act → Bool
  | .setState _ | .tell (.stateChange ..) => false
  | _ => true

/-- The two changes of run state that a debugger makes. -/
def Switches (old new : RunState) : Prop :=
  old = .runnable ∧ new = .paused ∨ old = .paused ∧ new = .runnable

variable {ε τ : Type} [Engine ε] [Tracer τ]

/-! ## Orderly acts -/

/-- Every request is a switch from the state that the engine shows then, and
is followed by the event that reports it, which follows nothing else. -/
structure Orderly (d : Debugger ε τ) (acts : List Act) : Prop where
  requests : ∀ before s after, acts = before ++ .setState s :: after →
    Switches (d.play before).state s ∧
      after.head? = some (.tell (.stateChange (d.play before).state s))
  reports : ∀ before old new after, acts = before ++ .tell (.stateChange old new) :: after →
    ∃ earlier, before = earlier ++ [.setState new]

namespace Orderly

variable {d : Debugger ε τ} {acts more : List Act}

theorem nil (d : Debugger ε τ) : Orderly d [] where
  requests before s after split := by simp at split
  reports before old new after split := by simp at split

theorem append {e : Debugger ε τ} (h : Orderly d acts) (leads : d.play acts = e)
    (h' : Orderly e more) : Orderly d (acts ++ more) where
  requests before s after split := by
    rcases append_eq_split.mp split with ⟨between, rfl, rfl⟩ | ⟨between, rfl, rfl⟩
    · obtain ⟨switches, next⟩ := h.requests before s between rfl
      refine ⟨switches, ?_⟩
      rw [List.head?_append, next]
      rfl
    · rw [play_append, leads]
      exact h'.requests between s after rfl
  reports before old new after split := by
    rcases append_eq_split.mp split with ⟨between, rfl, _⟩ | ⟨between, rfl, rfl⟩
    · exact h.reports before old new between rfl
    · obtain ⟨earlier, rfl⟩ := h'.reports between old new after rfl
      exact ⟨acts ++ earlier, (List.append_assoc ..).symm⟩

theorem plain (d : Debugger ε τ) {a : Act} (h : a.isPlain = true) : Orderly d [a] where
  requests before s after split := by
    rcases List.cons_eq_append_iff.mp split with ⟨_, same⟩ | ⟨_, _, none⟩
    · cases same
      cases h
    · simp at none
  reports before old new after split := by
    rcases List.cons_eq_append_iff.mp split with ⟨_, same⟩ | ⟨_, _, none⟩
    · cases same
      cases h
    · simp at none

theorem switch {s : RunState} (switches : Switches d.state s) :
    Orderly d [.setState s, .tell (.stateChange d.state s)] where
  requests before s' after split := by
    rcases List.cons_eq_append_iff.mp split with ⟨rfl, same⟩ | ⟨rest, _, last⟩
    · cases same
      exact ⟨switches, rfl⟩
    · rcases List.cons_eq_append_iff.mp last with ⟨_, same⟩ | ⟨_, _, none⟩
      · cases same
      · simp at none
  reports before old new after split := by
    rcases List.cons_eq_append_iff.mp split with ⟨_, same⟩ | ⟨rest, rfl, last⟩
    · cases same
    · rcases List.cons_eq_append_iff.mp last with ⟨rfl, same⟩ | ⟨_, _, none⟩
      · cases same
        exact ⟨[], rfl⟩
      · simp at none

end Orderly

/-! ## The parts of a session -/

theorem orderly_forceStateActs {target : RunState} {d : Debugger ε τ}
    (switches : Switches d.state target) : Orderly d (d.forceStateActs target) := by
  unfold forceStateActs
  split
  · exact .nil d
  · exact .switch switches

theorem orderly_resumeActs (d : Debugger ε τ) : Orderly d d.resumeActs := by
  unfold resumeActs
  split
  · rename_i paused
    exact orderly_forceStateActs (.inr ⟨paused, rfl⟩)
  · exact .nil d

theorem orderly_pauseActs (d : Debugger ε τ) : Orderly d d.pauseActs := by
  unfold pauseActs
  split
  · rename_i runnable
    exact orderly_forceStateActs (.inl ⟨runnable, rfl⟩)
  · exact .nil d

theorem orderly_executeActs (d : Debugger ε τ) : Orderly d d.executeActs := by
  have executed : Orderly d [.execute] := .plain d rfl
  exact executed.append rfl (.plain _ rfl)

theorem orderly_checkHitActs (d : Debugger ε τ) : Orderly d d.checkHitActs := by
  unfold checkHitActs
  cases hit : d.hit? with
  | none => exact .nil d
  | some l =>
    have told : Orderly d [.tell (.hit l)] := .plain d rfl
    exact told.append rfl (orderly_forceStateActs (.inl ⟨state_of_hit? hit, rfl⟩))

theorem orderly_advanceActs (d : Debugger ε τ) : Orderly d d.advanceActs :=
  (orderly_executeActs d).append (play_executeActs d) (orderly_checkHitActs d.execute)

theorem orderly_actsOf (n : Nat) (d : Debugger ε τ) : Orderly d (actsOf n d) := by
  induction n generalizing d with
  | zero => exact .nil d
  | succ n ih => exact (orderly_advanceActs d).append (play_advanceActs d) (ih d.advance)

theorem orderly_advanceUntilActs (arrived : Nat → Bool) (patience executed : Nat)
    (d : Debugger ε τ) : Orderly d (advanceUntilActs arrived patience executed d) := by
  fun_induction advanceUntilActs arrived patience executed d with
  | case1 patience executed d stop => exact orderly_pauseActs d
  | case2 executed d going => exact .nil d
  | case3 executed d going patience ih =>
    exact (orderly_advanceActs d).append (play_advanceActs d) ih

/-- A call resumes first. -/
theorem orderly_resumeActs_append {d : Debugger ε τ} {acts : List Act} (h : Orderly d.resume acts) :
    Orderly d (d.resumeActs ++ acts) :=
  (orderly_resumeActs d).append (play_resumeActs d) h

theorem orderly_callActs (n : Nat) (d : Debugger ε τ) : Orderly d (callActs n d) :=
  orderly_resumeActs_append (orderly_actsOf n d.resume)

theorem orderly_stepIntoActs (d : Debugger ε τ) : Orderly d d.stepIntoActs := by
  unfold stepIntoActs
  split
  · exact .nil d
  · exact (orderly_executeActs d).append (play_executeActs d) (orderly_pauseActs d.execute)

theorem orderly_stepOverActs (patience : Nat) (d : Debugger ε τ) :
    Orderly d (d.stepOverActs patience) := by
  unfold stepOverActs
  split
  · exact .nil d
  · apply orderly_resumeActs_append
    exact (orderly_advanceActs d.resume).append (play_advanceActs d.resume)
      (orderly_advanceUntilActs _ patience 1 d.resume.advance)

theorem orderly_addBreakpointActs (l : Location) (d : Debugger ε τ) :
    Orderly d (d.addBreakpointActs l) := by
  unfold addBreakpointActs
  obtain ⟨added, breakpoints⟩ := d.breakpoints.insert l
  have changed : Orderly d [.configure breakpoints d.budget] := .plain d rfl
  cases added with
  | false => exact changed
  | true => exact changed.append rfl (.plain _ rfl)

theorem orderly_removeBreakpointActs (l : Location) (d : Debugger ε τ) :
    Orderly d (d.removeBreakpointActs l) := by
  unfold removeBreakpointActs
  obtain ⟨present, breakpoints⟩ := d.breakpoints.remove l
  have changed : Orderly d [.configure breakpoints d.budget] := .plain d rfl
  cases present with
  | false => exact changed
  | true => exact changed.append rfl (.plain _ rfl)

theorem orderly_performActs (patience : Nat) (d : Debugger ε τ) (c : Command) :
    Orderly d (d.performActs patience c) := by
  cases c with
  | run => exact orderly_resumeActs_append (orderly_advanceUntilActs _ patience 0 d.resume)
  | stepInto => exact orderly_stepIntoActs d
  | stepOver => exact orderly_stepOverActs patience d
  | stepOut => exact orderly_resumeActs_append (orderly_advanceUntilActs _ patience 0 d.resume)
  | addBreakpoint l => exact orderly_addBreakpointActs l d
  | removeBreakpoint l => exact orderly_removeBreakpointActs l d
  | setBudget budget => exact .plain d rfl
  | setBreakpoints breakpoints => exact .plain d rfl

/-- The acts of a session are orderly, even if one of its calls does not
return. -/
theorem orderly_sessionActs (patience : Nat) (d : Debugger ε τ) (commands : List Command) :
    Orderly d (sessionActs patience d commands) := by
  induction commands generalizing d with
  | nil => exact .nil d
  | cons c commands ih =>
    have first := orderly_performActs patience d c
    unfold sessionActs
    cases call : d.perform patience c with
    | none => exact first.append rfl (.nil _)
    | some o => exact first.append (play_performActs call) (ih o.debugger)

/-! ## Sessions -/

/-- Debugger `d` has come to `e` by these acts, which are orderly, and the log
and the record that were begun with `d` show them. -/
structure Shown (d e : Debugger (Logged ε) Recorder) (acts : List Act) : Prop where
  orderly : Orderly d acts
  leads : e = d.play acts
  calls : e.engine.calls.map actOf = acts.filter Act.isCall
  events : e.tracer.events.toList = acts.filterMap Act.told?

theorem Orderly.shown {d : Debugger ε Recorder} (fresh : d.tracer = .unlimited)
    {e : Debugger (Logged ε) Recorder} {acts : List Act} (h : Orderly (d.withLog []) acts)
    (leads : (d.withLog []).play acts = e) : Shown (d.withLog []) e acts := by
  have unlimited : (d.withLog []).tracer.limit = none := congrArg Recorder.limit fresh
  have empty : (d.withLog []).tracer.events.toList = [] :=
    congrArg (fun r : Recorder => r.events.toList) fresh
  subst leads
  refine ⟨h, rfl, play_calls _ acts, ?_⟩
  rw [play_events unlimited, empty, List.nil_append]

/-- After a session, a call that is under way and may never return has done
orderly acts so far, and so has a call that returns. In a terminal state
stepping calls change nothing, neither the engine and the log of its calls nor
the record. -/
theorem session_orderly {d : Debugger ε Recorder} (fresh : d.tracer = .unlimited) {patience : Nat}
    {commands : List Command} {o : Outcome (Logged ε) Recorder (List Reply)}
    (session : (d.withLog []).performAll patience commands = some o) :
    let before := sessionActs patience (d.withLog []) commands
    (∀ c l n, o.debugger.loop? c = some l → l.GoesOn n →
      Shown (d.withLog []) (advance^[n] l.start)
        (before ++ callActs (l.executed + n) o.debugger)) ∧
    (∀ c enough q, o.debugger.perform enough c = some q →
      Shown (d.withLog []) q.debugger (before ++ performActs enough o.debugger c)) ∧
    (o.debugger.state.isTerminal = true → ∀ patience' calls,
      (∀ c ∈ calls, c.isStepping = true) →
      o.debugger.performAll patience' calls =
        some ⟨List.replicate calls.length (.stopped o.debugger.state), o.debugger, 0⟩) := by
  intro before
  have orderly : Orderly (d.withLog []) before := orderly_sessionActs patience _ commands
  have leads : (d.withLog []).play before = o.debugger := play_sessionActs session
  refine ⟨?going, ?returned, ?terminal⟩
  case going =>
    intro c l n loop _
    refine (orderly.append leads (orderly_callActs _ o.debugger)).shown fresh ?_
    rw [play_append, leads, play_callActs loop]
  case returned =>
    intro c enough q returns
    refine (orderly.append leads (orderly_performActs enough o.debugger c)).shown fresh ?_
    rw [play_append, leads, play_performActs returns]
  case terminal =>
    intro done patience' calls stepping
    exact performAll_of_terminal done stepping patience'

/-- A playback that is asked for states in vain: paused at first, then at a
breakpoint while it runs, and then halted. -/
def stubborn : Debugger Playback Recorder :=
  ⟨.start ⟨.paused, 1, none⟩ [⟨.runnable, 2, some ⟨[1], 1⟩⟩, ⟨.halted, 0, none⟩] false true,
    (Breakpoints.empty.insert ⟨[1], 1⟩).2, .unlimited, .unlimited⟩

/-- Stepping over goes on after the hit, since the playback does not pause. -/
theorem stubborn_orderly :
    let start := stubborn.withLog []
    ∃ o, start.performAll 1 [.stepOver] = some o ∧
      (sessionActs 1 start [.stepOver]).map Act.told? =
        [none, some (.stateChange .paused .runnable), none, some (.step 2 .runnable),
          some (.hit ⟨[1], 1⟩), none, some (.stateChange .runnable .paused), none,
          some (.step 0 .halted)] ∧
      o.debugger.engine.calls = [.setState .paused .runnable .paused, .execute 2 .runnable,
        .setState .runnable .paused .runnable, .execute 0 .halted] ∧
      Shown start o.debugger (sessionActs 1 start [.stepOver] ++ performActs 0 o.debugger .run) ∧
      o.debugger.state.isTerminal = true ∧
      o.debugger.performAll 0 [.run, .stepInto, .stepOver, .stepOut] =
        some ⟨List.replicate 4 (.stopped o.debugger.state), o.debugger, 0⟩ := by
  intro start
  have returns : (start.performAll 1 [.stepOver]).isSome = true := by decide
  have log : (start.performAll 1 [.stepOver]).map (·.debugger.engine.calls) =
      some [.setState .paused .runnable .paused, .execute 2 .runnable,
        .setState .runnable .paused .runnable, .execute 0 .halted] := by
    decide
  have state : (start.performAll 1 [.stepOver]).map (·.debugger.state) = some .halted := by
    decide
  obtain ⟨o, session⟩ := Option.isSome_iff_exists.mp returns
  rw [session, Option.map_some, Option.some.injEq] at log state
  have done : o.debugger.state.isTerminal = true := by
    rw [state]
    rfl
  obtain ⟨_, returned, terminal⟩ := session_orderly (d := stubborn) rfl session
  have again := perform_of_terminal done (c := .run) rfl 0
  exact ⟨o, session, by decide, log, returned .run 0 _ again, done,
    terminal done 0 [.run, .stepInto, .stepOver, .stepOut] (by simp [Command.isStepping])⟩

end Debugger

end ScriptDebugger

/-
  More breakpoints and smaller budgets

  A debugger with more breakpoints and a smaller budget than another one can
  only stop a call earlier. Side by side, the two advance in step for as long
  as neither stops, since neither breakpoints nor budget play a part in what
  an instruction does. `Stricter` is the relation that they are in then. It
  ends in one of two ways: the stricter one stops by its budget, or it is
  paused at a breakpoint that the other one lacks (`Caught`); whatever else
  stops the other one stops it as well.

  What is proved:
    1. `Curbed.stopsAfter` — a loop of the stricter debugger comes to its first
       stop no later. If it is no earlier either, the engines are equal once
       they are paused, though the two may have stopped for different reasons.
    2. `filter_callEvents` — the instructions that a call reports are those of
       plain execution, so an earlier stop reports the first of them.
    3. `perform_stricter` — both together, for every call that goes into a
       loop. All that is asked of the engine is that it shows the run state it
       was asked for.
-/
import ScriptDebugger.Proofs.Debugger.Hits

namespace ScriptDebugger

/-! ## Budgets -/

/-- A budget that allows no more than another one does. -/
def Budget.Within (tight loose : Budget) : Prop :=
  ∀ most, loose.instructions = some most →
    ∃ least, tight.instructions = some least ∧ least.toNat ≤ most.toNat

theorem Budget.Within.exhausted {tight loose : Budget} (h : tight.Within loose) {executed : Nat}
    (used_up : loose.exhausted executed = true) : tight.exhausted executed = true := by
  obtain ⟨most, bound, reached⟩ := Budget.exhausted_iff.mp used_up
  obtain ⟨least, tighter, le⟩ := h most bound
  exact Budget.exhausted_iff.mpr ⟨least, tighter, Nat.le_trans le reached⟩

/-! ## Instructions in a record -/

/-- What is reported of the first `n` instructions of plain execution. -/
def plainSteps {ε : Type} [Engine ε] (n : Nat) (e : ε) : List Event :=
  (List.range n).map fun i =>
    .step (Engine.depth (Engine.execute^[i + 1] e)) (Engine.state (Engine.execute^[i + 1] e))

theorem length_plainSteps {ε : Type} [Engine ε] (n : Nat) (e : ε) : (plainSteps n e).length = n := by
  rw [plainSteps, List.length_map, List.length_range]

theorem take_plainSteps {ε : Type} [Engine ε] {m n : Nat} (le : m ≤ n) (e : ε) :
    (plainSteps n e).take m = plainSteps m e := by
  rw [plainSteps, ← List.map_take, List.take_range, Nat.min_eq_left le, plainSteps]

namespace Debugger

variable {ε τ σ : Type} [Engine ε] [Tracer τ] [Tracer σ]

theorem Idle.filter_isStep {events : List Event} (h : Idle events) :
    events.filter Event.isStep = [] := by
  rw [List.filter_eq_nil_iff]
  intro e mem step
  rw [(h e mem).1] at step
  cases step

theorem filter_advanceEvents (d : Debugger ε τ) :
    d.advanceEvents.filter Event.isStep = [.step d.execute.depth d.execute.state] := by
  unfold advanceEvents
  cases d.execute.hit? <;> rfl

theorem filter_eventsOf (obeys : Engine.Obeys ε) {d : Debugger ε τ} {n : Nat}
    (runnable : ∀ i < n, (advance^[i] d).state = .runnable) :
    (eventsOf n d).filter Event.isStep = plainSteps n d.engine := by
  induction n with
  | zero => rfl
  | succ n ih =>
    have earlier := ih fun i less => runnable i (Nat.lt_succ_of_lt less)
    have engine := (iterate_of_runnable obeys runnable).1
    rw [eventsOf_succ, List.filter_append, earlier, filter_advanceEvents, plainSteps, plainSteps,
      List.range_succ, List.map_append, List.map_singleton, Function.iterate_succ_apply', ← engine]
    rfl

/-- What a call reports of instructions when it returns. -/
theorem filter_callEvents (obeys : Engine.Obeys ε) {d : Debugger ε τ} {n : Nat}
    (runnable : ∀ i < n, (advance^[i] d.resume).state = .runnable) :
    (callEvents n d ++ (advance^[n] d.resume).pauseEvents).filter Event.isStep =
      plainSteps n d.resume.engine := by
  rw [List.filter_append, callEvents, List.filter_append, d.idle_resumeEvents.filter_isStep,
    filter_eventsOf obeys runnable, (idle_pauseEvents _).filter_isStep, List.nil_append,
    List.append_nil]

/-- What a call that goes into a loop reports when it returns. -/
theorem steps_of_perform (obeys : Engine.Obeys ε) {d : Debugger ε τ} {c : Command}
    (loops : c.isLoop = true) {patience : Nat} {q : Outcome ε τ Reply}
    (call : d.perform patience c = some q) :
    ∃ events, q.debugger.tracer = Tracer.observeAll d.tracer events ∧
      events.filter Event.isStep = plainSteps q.executed d.resume.engine := by
  obtain ⟨n, rfl, runnable⟩ := perform_of_isLoop loops call
  exact ⟨_, pause_callEvents_tracer n d, filter_callEvents obeys (runnable obeys)⟩

/-! ## Two debuggers -/

/-- `d'` has the engine of `d`, its breakpoints and maybe more, and a budget
that allows no more. -/
structure Stricter (d' : Debugger ε σ) (d : Debugger ε τ) : Prop where
  engine : d'.engine = d.engine
  breakpoints : ∀ l, d.breakpoints.contains l = true → d'.breakpoints.contains l = true
  budget : d'.budget.Within d.budget

/-- `d'` has just been paused where `d` may go on. -/
structure Caught (d' : Debugger ε σ) (d : Debugger ε τ) : Prop where
  engine : d'.engine = Engine.setState .paused d.engine
  runnable : d.state = .runnable

def Curbed (d' : Debugger ε σ) (d : Debugger ε τ) : Prop := Stricter d' d ∨ Caught d' d

variable {d' : Debugger ε σ} {d : Debugger ε τ} {arrived : Nat → Bool} {executed n : Nat}

namespace Stricter

omit [Tracer τ] [Tracer σ] in
theorem state_eq (h : Stricter d' d) : d'.state = d.state := congrArg Engine.state h.engine

omit [Tracer τ] [Tracer σ] in
theorem depth_eq (h : Stricter d' d) : d'.depth = d.depth := congrArg Engine.depth h.engine

theorem resume (h : Stricter d' d) : Stricter d'.resume d.resume where
  engine := by rw [resume_engine, resume_engine, h.state_eq, h.engine]
  breakpoints := by
    rw [resume_breakpoints, resume_breakpoints]
    exact h.breakpoints
  budget := by
    rw [resume_budget, resume_budget]
    exact h.budget

theorem execute (h : Stricter d' d) : Stricter d'.execute d.execute where
  engine := congrArg Engine.execute h.engine
  breakpoints := h.breakpoints
  budget := h.budget

omit [Tracer τ] [Tracer σ] in
theorem hit?_eq_some (h : Stricter d' d) {l : Location} (hit : d.hit? = some l) :
    d'.hit? = some l := by
  obtain ⟨runnable, deep, here, held⟩ := hit?_eq_some_iff.mp hit
  rw [hit?_eq_some_iff, h.engine]
  exact ⟨runnable, deep, here, h.breakpoints l held⟩

omit [Tracer τ] [Tracer σ] in
/-- What stops the one debugger stops the stricter one. -/
theorem stops (h : Stricter d' d) (stop : d.stops arrived executed = true) :
    d'.stops arrived executed = true := by
  rw [stops_iff] at stop ⊢
  rw [h.state_eq, h.depth_eq]
  rcases stop with ended | there | used_up
  · exact .inl ended
  · exact .inr (.inl there)
  · exact .inr (.inr (h.budget.exhausted used_up))

/-- The two advance in step, unless the stricter one arrives at a breakpoint of
its own. -/
theorem advance (h : Stricter d' d) : Curbed d'.advance d.advance := by
  have next := advance_engine d
  have next' := advance_engine d'
  rw [h.engine] at next'
  have in_step (same : d'.advance.engine = d.advance.engine) : Stricter d'.advance d.advance := by
    refine ⟨same, ?_, ?_⟩
    · rw [advance_breakpoints, advance_breakpoints]
      exact h.breakpoints
    · rw [advance_budget, advance_budget]
      exact h.budget
  cases hit : d.execute.hit? with
  | some l =>
    rw [hit] at next
    rw [h.execute.hit?_eq_some hit] at next'
    exact .inl (in_step (next'.trans next.symm))
  | none =>
    rw [hit] at next
    cases hit' : d'.execute.hit? with
    | none =>
      rw [hit'] at next'
      exact .inl (in_step (next'.trans next.symm))
    | some l =>
      rw [hit'] at next'
      have engine : d.advance.engine = d.execute.engine := next
      refine .inr ⟨?_, ?_⟩
      · rw [engine]
        exact next'
      · rw [state, engine, ← h.execute.engine]
        exact state_of_hit? hit'

end Stricter

namespace Caught

omit [Tracer τ] [Tracer σ] in
theorem state_eq (obeys : Engine.Obeys ε) (h : Caught d' d) : d'.state = .paused := by
  rw [state, h.engine, obeys.state_setState]

omit [Tracer τ] [Tracer σ] in
theorem stops (obeys : Engine.Obeys ε) (h : Caught d' d) : d'.stops arrived executed = true := by
  apply stops_of_not_runnable
  rw [h.state_eq obeys]
  decide

end Caught

namespace Curbed

omit [Tracer τ] [Tracer σ] in
theorem stops (obeys : Engine.Obeys ε) (h : Curbed d' d) (stop : d.stops arrived executed = true) :
    d'.stops arrived executed = true := by
  rcases h with stricter | caught
  · exact stricter.stops stop
  · exact caught.stops obeys

/-- Paused, the two are in the same place. -/
theorem pause_engine_eq (obeys : Engine.Obeys ε) (h : Curbed d' d) :
    d'.pause.engine = d.pause.engine := by
  rw [Debugger.pause_engine, Debugger.pause_engine]
  rcases h with stricter | caught
  · rw [stricter.state_eq, stricter.engine]
  · have not_runnable : d'.state ≠ .runnable := by
      rw [caught.state_eq obeys]
      decide
    rw [if_neg not_runnable, if_pos caught.runnable, caught.engine]

/-- A loop of `d'` comes to its first stop where one of `d` does, or before. -/
theorem stopsAfter (obeys : Engine.Obeys ε) (h : Curbed d' d)
    (first : StopsAfter arrived executed n d) :
    ∃ m ≤ n, StopsAfter arrived executed m d' ∧
      (m = n → (advance^[m] d').pause.engine = (advance^[n] d).pause.engine) := by
  induction n generalizing executed d' d with
  | zero =>
    refine ⟨0, Nat.le_refl 0, ⟨nofun, h.stops obeys first.stopped⟩, fun _ => ?_⟩
    exact h.pause_engine_eq obeys
  | succ n ih =>
    by_cases stop : d'.stops arrived executed = true
    · exact ⟨0, Nat.zero_le _, ⟨nofun, stop⟩, nofun⟩
    · have on : Curbed d'.advance d.advance := by
        rcases h with stricter | caught
        · exact stricter.advance
        · exact absurd (caught.stops obeys) stop
      obtain ⟨m, le, later, same⟩ := ih on first.tail
      refine ⟨m + 1, Nat.succ_le_succ le, later.cons (eq_false_of_ne_true stop), fun both => ?_⟩
      rw [Function.iterate_succ_apply, Function.iterate_succ_apply]
      exact same (Nat.succ.inj both)

end Curbed

/-- A command has both go into the same loop. -/
theorem Stricter.loop? (h : Stricter d' d) {c : Command} {l : Loop ε τ}
    (loop : d.loop? c = some l) :
    ∃ start, d'.loop? c = some ⟨l.arrived, l.executed, start⟩ ∧ Curbed start l.start := by
  cases c with
  | run =>
    cases loop
    exact ⟨d'.resume, rfl, .inl h.resume⟩
  | stepOver =>
    obtain ⟨live, rfl⟩ := loop?_stepOver.mp loop
    refine ⟨d'.resume.advance, ?_, h.resume.advance⟩
    rw [loop?_stepOver, h.state_eq, h.resume.depth_eq]
    exact ⟨live, rfl⟩
  | stepOut =>
    cases loop
    refine ⟨d'.resume, ?_, .inl h.resume⟩
    rw [Debugger.loop?, h.resume.depth_eq]
  | stepInto | addBreakpoint | removeBreakpoint | setBudget | setBreakpoints => cases loop

/-- The stricter debugger returns from a call no later, and from the same
place if no earlier. -/
theorem Stricter.perform (obeys : Engine.Obeys ε) (h : Stricter d' d) {c : Command}
    (loops : c.isLoop = true) {patience : Nat} {q : Outcome ε τ Reply}
    (call : d.perform patience c = some q) :
    ∃ q', d'.perform patience c = some q' ∧ q'.executed ≤ q.executed ∧
      (q'.executed = q.executed → q'.debugger.engine = q.debugger.engine) := by
  cases loop : d.loop? c with
  | none =>
    have done := terminal_of_no_loop loop loops
    have stepping := Command.isStepping_of_isLoop loops
    have done' : d'.state.isTerminal = true := by rw [h.state_eq, done]
    rw [perform_of_terminal done stepping] at call
    cases call
    exact ⟨_, perform_of_terminal done' stepping patience, Nat.le_refl 0, fun _ => h.engine⟩
  | some l =>
    obtain ⟨start, loop', curbed⟩ := h.loop? loop
    obtain ⟨n, enough, first, rfl⟩ := (perform_loop_eq_some_iff loop).mp call
    obtain ⟨m, le, first', same⟩ := curbed.stopsAfter obeys first
    have call' := (perform_loop_eq_some_iff loop').mpr ⟨m, Nat.le_trans le enough, first', rfl⟩
    refine ⟨_, call', Nat.add_le_add_left le l.executed, ?_⟩
    exact fun both => same (Nat.add_left_cancel both)

/-- More breakpoints and a smaller budget leave the instructions of a call as
they are and can only have it return earlier. -/
theorem perform_stricter (obeys : Engine.Obeys ε) {d : Debugger ε Recorder}
    (recording : d.tracer.limit = none) {more : Breakpoints} {less : Budget}
    (contained : ∀ l, d.breakpoints.contains l = true → more.contains l = true)
    (within : less.Within d.budget) {c : Command} (loops : c.isLoop = true) {patience : Nat}
    {q : Outcome ε Recorder Reply} (call : d.perform patience c = some q) :
    ∃ q', { d with breakpoints := more, budget := less }.perform patience c = some q' ∧
      q'.executed ≤ q.executed ∧
      (∃ events events', q.debugger.tracer.events.toList = d.tracer.events.toList ++ events ∧
        q'.debugger.tracer.events.toList = d.tracer.events.toList ++ events' ∧
        (events.filter Event.isStep).length = q.executed ∧
        events'.filter Event.isStep = (events.filter Event.isStep).take q'.executed) ∧
      (q'.executed = q.executed →
        q'.debugger.engine = q.debugger.engine ∧ q'.reply = q.reply) := by
  have stricter : Stricter { d with breakpoints := more, budget := less } d :=
    ⟨rfl, contained, within⟩
  obtain ⟨q', call', le, same⟩ := stricter.perform obeys loops call
  obtain ⟨events, heard, steps⟩ := steps_of_perform obeys loops call
  obtain ⟨events', heard', steps'⟩ := steps_of_perform obeys loops call'
  refine ⟨q', call', le, ⟨events, events', ?_, ?_, ?_, ?_⟩, fun both => ⟨same both, ?_⟩⟩
  · rw [heard, (Recorder.observeAll_of_unlimited recording events).2]
  · rw [heard']
    exact (Recorder.observeAll_of_unlimited recording events').2
  · rw [steps, length_plainSteps]
  · rw [steps, steps', take_plainSteps le, stricter.resume.engine]
  · obtain ⟨n, rfl, _⟩ := perform_of_isLoop loops call
    obtain ⟨m, rfl, _⟩ := perform_of_isLoop loops call'
    exact congrArg Reply.stopped (congrArg Engine.state (same both))

/-- A budget is used up by the third instruction, and with a breakpoint there
the same call stops at a hit instead. -/
theorem nested_stricter :
    let d : Debugger Machine Recorder := ⟨Machine.load .nested, .empty, .atMost 3, .unlimited⟩
    let d' : Debugger Machine Recorder :=
      { d with breakpoints := (Breakpoints.empty.insert ⟨[3], 0⟩).2, budget := .atMost 3 }
    ∃ q q', d.perform 3 .run = some q ∧ d'.perform 3 .run = some q' ∧
      q.executed = 3 ∧ q'.executed = 3 ∧
      q.debugger.tracer.hitCount = 0 ∧ q'.debugger.tracer.hitCount = 1 ∧
      q'.debugger.tracer.events.toList.filter Event.isStep =
        q.debugger.tracer.events.toList.filter Event.isStep ∧
      q'.debugger.engine = q.debugger.engine ∧ q'.reply = q.reply := by
  intro d d'
  have returns : (d.perform 3 .run).isSome = true := by decide
  have executed : (d.perform 3 .run).map (·.executed) = some 3 := by decide
  have no_hit : (d.perform 3 .run).map (·.debugger.tracer.hitCount) = some 0 := by decide
  have executed' : (d'.perform 3 .run).map (·.executed) = some 3 := by decide
  have hit : (d'.perform 3 .run).map (·.debugger.tracer.hitCount) = some 1 := by decide
  have contained (l : Location) :
      d.breakpoints.contains l = true → d'.breakpoints.contains l = true := by
    rw [show d.breakpoints.contains l = false from Breakpoints.contains_empty l]
    exact nofun
  have within : (Budget.atMost 3).Within d.budget := fun most same => ⟨most, same, Nat.le_refl _⟩
  obtain ⟨q, call⟩ := Option.isSome_iff_exists.mp returns
  obtain ⟨q', call', _, ⟨events, events', told, told', count, first⟩, same⟩ :=
    perform_stricter ⟨fun _ _ => rfl⟩ rfl contained within rfl call
  rw [call, Option.map_some, Option.some.injEq] at executed no_hit
  rw [call', Option.map_some, Option.some.injEq] at executed' hit
  obtain ⟨engine, reply⟩ := same (executed'.trans executed.symm)
  refine ⟨q, q', call, call', executed, executed', no_hit, hit, ?_, engine, reply⟩
  have start : d.tracer.events.toList = [] := rfl
  have all : (events.filter Event.isStep).length ≤ q'.executed := by omega
  rw [told, told', start, List.nil_append, List.nil_append, first, List.take_of_length_le all]

end Debugger

end ScriptDebugger

/-
  Stepping out by stepping over

  Stepping out of a frame and stepping over its instructions until it has
  returned come to the same on a machine, although the one looks at the depth
  before each instruction and the other after it, and although each step over
  measures the depth anew and pauses where it ends.

  `OversUntil c` is the repetition: step over, at least once, until the depth
  is below `c`, the machine is over, or the last step has reported a hit. What
  carries the proof is that these are the points at which stepping out stops
  (`exists_overAt`, `done_iff`), and that a repetition that goes on does so at the depth at
  which it began, on an engine that differs from the one that stepping out has
  there in being paused. So both follow one sequence of iterates of `advance`,
  the repetition in pieces (`oversUntil_of_stopsAfter`,
  `stopsAfter_of_oversUntil`).
-/
import ScriptDebugger.Proofs.Debugger.Observers
import ScriptDebugger.Proofs.Machine.Calls

namespace ScriptDebugger

namespace Debugger

/-- Whether a repetition that began at depth `c` ends with a step from `d` to
`e`. -/
def Done (c : Nat) (d e : Debugger Machine Recorder) : Prop :=
  e.depth < c ∨ e.state.isTerminal = true ∨ d.tracer.hitCount < e.tracer.hitCount

/-- Stepping over, at least once, until the repetition is done. -/
inductive OversUntil (c : Nat) : Debugger Machine Recorder → Debugger Machine Recorder → Prop
  | last {d patience s} : d.stepOver patience = some s → Done c d s.debugger →
      OversUntil c d s.debugger
  | again {d patience s e} : d.stepOver patience = some s → ¬ Done c d s.debugger →
      OversUntil c s.debugger e → OversUntil c d e

/-- A debugger that records all and is bound by nothing, on a machine that is
not over. -/
structure Ready (d : Debugger Machine Recorder) : Prop where
  live : d.state.isTerminal = false
  unlimited : d.budget = .unlimited
  recording : d.tracer.limit = none

variable {d : Debugger Machine Recorder} {n m : Nat}

/-! ## Along the iterates of `advance` -/

/-- Advancing a runnable machine pauses it where it records a hit. -/
theorem advance_hitCount (runnable : d.state = .runnable) (recording : d.tracer.limit = none) :
    d.advance.tracer.hitCount =
      d.tracer.hitCount + if d.advance.state = .paused then 1 else 0 := by
  have count := (advance_recorder recording).2
  have unpaused : d.engine.execute.state ≠ .paused := by
    apply Machine.execute_ne_paused
    rw [show d.engine.state = .runnable from runnable]
    exact RunState.noConfusion
  cases hit : d.execute.hit? with
  | none =>
    have going : d.advance.state ≠ .paused := by
      rw [advance_of_no_hit hit]
      exact unpaused
    rw [count, hit, if_neg going]
    rfl
  | some l =>
    have paused : d.advance.state = .paused := by
      show Engine.state d.advance.engine = _
      rw [advance_engine, hit]
      rfl
    rw [count, hit, if_pos paused]
    rfl

theorem iterate_recorder (recording : d.tracer.limit = none)
    (runnable : ∀ i ≤ n, (advance^[i] d).state = .runnable) :
    (advance^[n] d).tracer.limit = none ∧ (advance^[n] d).tracer.hitCount = d.tracer.hitCount := by
  induction n with
  | zero => exact ⟨recording, rfl⟩
  | succ n ih =>
    obtain ⟨limit, count⟩ := ih fun i le => runnable i (by omega)
    have next := runnable (n + 1) (Nat.le_refl _)
    rw [Function.iterate_succ_apply'] at next ⊢
    refine ⟨(advance_recorder limit).1, ?_⟩
    rw [advance_hitCount (runnable n (by omega)) limit, next, count]
    rfl

theorem resume_pause_silenced (runnable : d.state = .runnable) :
    d.pause.resume.silenced = d.silenced := by
  have paused : d.pause.state = .paused := by rw [pause_state, if_pos runnable]
  have engine : d.pause.resume.engine = d.engine := by
    rw [resume_engine, if_pos paused, pause_engine, if_pos runnable]
    show ({ d.engine with state := .runnable } : Machine) = d.engine
    rw [← show d.engine.state = .runnable from runnable]
  simp only [silenced, retrace, engine, resume_breakpoints, pause_breakpoints, resume_budget,
    pause_budget]

/-- Two debuggers that differ in their tracers only come to the same engine,
paused or not. -/
theorem pause_engine_of_silenced {d d' : Debugger Machine Recorder}
    (same : d.silenced = d'.silenced) (n : Nat) :
    (advance^[n] d).pause.engine = (advance^[n] d').pause.engine := by
  have engine := engine_iterate_of_silenced same n
  rw [pause_engine, pause_engine, state, state, engine]

namespace Ready

theorem resumed (h : Ready d) :
    d.resume.state = .runnable ∧ d.resume.depth = d.depth ∧ d.resume.budget = .unlimited ∧
      d.resume.tracer.limit = none ∧ d.resume.tracer.hitCount = d.tracer.hitCount := by
  refine ⟨?_, ?_, ?_, (resume_recorder h.recording).1, (resume_recorder h.recording).2⟩
  · show d.resume.engine.state = .runnable
    rw [resume_machine h.live]
  · rw [depth_eq_length, depth_eq_length, resume_stack]
  · rw [resume_budget, h.unlimited]

theorem iterate_unlimited (h : Ready d) (n : Nat) :
    (advance^[n] d.resume).budget = .unlimited := by
  rw [iterate_advance_budget, h.resumed.2.2.1]

theorem goes_out (h : Ready d) : d.resume.stops (· < d.depth) 0 = false := by
  obtain ⟨runnable, depth, unlimited, _, _⟩ := h.resumed
  rw [stops_of_unlimited unlimited, runnable, depth]
  simp

/-- The step over from `d` ends with the `n + 1`-th iterate. -/
abbrev OverAt (d : Debugger Machine Recorder) (n : Nat) : Prop :=
  StopsAfter (· ≤ d.depth) 1 n d.resume.advance

theorem stepOver_eq (h : Ready d) (patience : Nat) :
    d.stepOver patience = advanceUntil (· ≤ d.depth) patience 1 d.resume.advance := by
  unfold stepOver
  rw [if_neg (by rw [h.live]; decide)]
  simp only [h.resumed.2.1]

theorem overAt_of_stepOver (h : Ready d) {patience : Nat} {s : Stop Machine Recorder}
    (returns : d.stepOver patience = some s) :
    ∃ n, OverAt d n ∧ s.debugger = (advance^[n + 1] d.resume).pause := by
  rw [h.stepOver_eq] at returns
  obtain ⟨n, _, ended, rfl⟩ := advanceUntil_eq_some_iff.mp returns
  exact ⟨n, ended, rfl⟩

/-- A step over ends where stepping out stops, if not before. -/
theorem exists_overAt (h : Ready d) (out : StopsAfter (· < d.depth) 0 m d.resume) :
    ∃ n, OverAt d n ∧ n + 1 ≤ m := by
  cases m with
  | zero =>
    have stopped : d.resume.stops (· < d.depth) 0 = true := out.stopped
    rw [h.goes_out] at stopped
    cases stopped
  | succ k =>
    -- The point where stepping out stops would stop a step over too.
    have ends : (advance^[k] d.resume.advance).stops (· ≤ d.depth) (1 + k) = true := by
      apply eq_true_of_ne_false
      intro going
      obtain ⟨runnable, above, bound⟩ := stops_eq_false_iff.mp going
      have above := of_decide_eq_false above
      have out_goes_on : (advance^[k + 1] d.resume).stops (· < d.depth) (0 + (k + 1)) = false := by
        rw [Function.iterate_succ_apply, stops_eq_false_iff]
        refine ⟨runnable, decide_eq_false (by omega), ?_⟩
        rwa [Nat.zero_add, Nat.add_comm k 1]
      rw [out.stopped] at out_goes_on
      cases out_goes_on
    obtain ⟨n, le, ended⟩ := StopsAfter.exists_first ends
    exact ⟨n, ended, Nat.succ_le_succ le⟩

theorem out_goes_on (h : Ready d) (ended : OverAt d n) :
    ∀ i < n + 1, (advance^[i] d.resume).stops (· < d.depth) (0 + i) = false := by
  intro i less
  cases i with
  | zero => exact h.goes_out
  | succ i =>
    -- A step over goes on above the depth of its start only.
    obtain ⟨runnable, above, _⟩ := stops_eq_false_iff.mp (ended.going i (by omega))
    have above := of_decide_eq_false above
    rw [Function.iterate_succ_apply, stops_eq_false_iff]
    refine ⟨runnable, decide_eq_false (by omega), ?_⟩
    rw [← Function.iterate_succ_apply, h.iterate_unlimited]
    rfl

/-- A step over that ends where stepping out goes on is back at its depth. -/
theorem back_at_depth (h : Ready d) (ended : OverAt d n)
    (going : (advance^[n + 1] d.resume).stops (· < d.depth) (0 + (n + 1)) = false) :
    (advance^[n + 1] d.resume).state = .runnable ∧ (advance^[n + 1] d.resume).depth = d.depth := by
  have stopped := ended.stopped
  rw [← Function.iterate_succ_apply, stops_of_unlimited (h.iterate_unlimited _)] at stopped
  obtain ⟨runnable, low, _⟩ := stops_eq_false_iff.mp going
  have low := of_decide_eq_false low
  simp only [runnable, ne_eq, not_true_eq_false, decide_false, Bool.false_or] at stopped
  have high := of_decide_eq_true stopped
  exact ⟨runnable, Nat.le_antisymm high (Nat.le_of_not_lt low)⟩

theorem done_iff (h : Ready d) (ended : OverAt d n) :
    Done d.depth d (advance^[n + 1] d.resume).pause ↔
      (advance^[n + 1] d.resume).stops (· < d.depth) (0 + (n + 1)) = true := by
  obtain ⟨_, _, _, recording, count⟩ := h.resumed
  have before : ∀ i ≤ n, (advance^[i] d.resume).state = .runnable := fun i le =>
    (stops_eq_false_iff.mp (h.out_goes_on ended i (by omega))).1
  obtain ⟨limit, earlier⟩ := iterate_recorder recording before
  have hits := advance_hitCount (before n (Nat.le_refl n)) limit
  have last := (advance_recorder limit).1
  rw [earlier, count] at hits
  rw [← Function.iterate_succ_apply' advance n d.resume] at hits last
  have depth : (advance^[n + 1] d.resume).pause.depth = (advance^[n + 1] d.resume).depth := by
    rw [depth_eq_length, depth_eq_length, pause_stack]
  rw [Done, (pause_recorder last).2, hits, depth, pause_state,
    stops_of_unlimited (h.iterate_unlimited _)]
  -- A pause turns runnable into paused, which is the state after a hit too.
  generalize (advance^[n + 1] d.resume).depth = depth
  cases (advance^[n + 1] d.resume).state with
  | runnable => simp [RunState.isTerminal]
  | paused => simp [RunState.isTerminal]
  | halted => simp [RunState.isTerminal]
  | faulted => simp [RunState.isTerminal]

/-- A repetition that goes on begins anew at the same depth, and stepping out
goes on from there as if there had been no pause. -/
theorem again (h : Ready d) (ended : OverAt d n)
    (going : (advance^[n + 1] d.resume).stops (· < d.depth) (0 + (n + 1)) = false) :
    Ready (advance^[n + 1] d.resume).pause ∧ (advance^[n + 1] d.resume).pause.depth = d.depth ∧
      (advance^[n + 1] d.resume).pause.resume.silenced = (advance^[n + 1] d.resume).silenced := by
  obtain ⟨runnable, depth⟩ := h.back_at_depth ended going
  have always : ∀ i ≤ n + 1, (advance^[i] d.resume).state = .runnable := by
    intro i le
    rcases Nat.lt_or_eq_of_le le with before | rfl
    · exact (stops_eq_false_iff.mp (h.out_goes_on ended i before)).1
    · exact runnable
  have recording := (iterate_recorder h.resumed.2.2.2.1 always).1
  refine ⟨⟨?_, ?_, (pause_recorder recording).1⟩, ?_, resume_pause_silenced runnable⟩
  · rw [pause_state, if_pos runnable]
    rfl
  · rw [pause_budget, h.iterate_unlimited]
  · rw [← depth, depth_eq_length, depth_eq_length, pause_stack]

end Ready

/-! ## The two ways of getting out -/

theorem oversUntil_of_stopsAfter (h : Ready d) (out : StopsAfter (· < d.depth) 0 m d.resume) :
    ∃ e, OversUntil d.depth d e ∧ e.engine = (advance^[m] d.resume).pause.engine := by
  -- Every step over takes at least one of the instructions that are left.
  induction m using Nat.strongRecOn generalizing d with
  | _ m ih =>
    obtain ⟨n, ended, le⟩ := h.exists_overAt out
    have returns : d.stepOver n = some ⟨(advance^[n + 1] d.resume).pause, 1 + n⟩ := by
      rw [h.stepOver_eq]
      exact advanceUntil_of_stopsAfter ended (Nat.le_refl n)
    by_cases done : Done d.depth d (advance^[n + 1] d.resume).pause
    · have here := StopsAfter.mk (h.out_goes_on ended) ((h.done_iff ended).mp done)
      have same := here.unique out
      rw [← same]
      exact ⟨_, .last returns done, rfl⟩
    · have going := eq_false_of_ne_true (mt (h.done_iff ended).mpr done)
      obtain ⟨ready, depth, silenced⟩ := h.again ended going
      obtain ⟨rest, rfl⟩ := Nat.exists_eq_add_of_le le
      -- Without a budget the count of the loop does not matter, so that the
      -- rest of stepping out may start from zero as the next call does.
      have later := out.drop.of_unlimited (h.iterate_unlimited _) 0
      have out' : StopsAfter (· < (advance^[n + 1] d.resume).pause.depth) 0 rest
          (advance^[n + 1] d.resume).pause.resume := by
        rw [depth]
        exact later.of_silenced silenced.symm
      obtain ⟨e, overs, engine⟩ := ih rest (by omega) ready out'
      rw [depth] at overs
      refine ⟨e, .again returns done overs, ?_⟩
      rw [engine, pause_engine_of_silenced silenced rest, ← Function.iterate_add_apply,
        Nat.add_comm rest]

theorem stopsAfter_of_oversUntil {c : Nat} {e : Debugger Machine Recorder} (h : Ready d)
    (at_depth : d.depth = c) (overs : OversUntil c d e) :
    ∃ m, StopsAfter (· < c) 0 m d.resume ∧ e.engine = (advance^[m] d.resume).pause.engine := by
  induction overs with
  | last returns done =>
    subst at_depth
    obtain ⟨n, ended, last⟩ := h.overAt_of_stepOver returns
    rw [last] at done ⊢
    exact ⟨n + 1, ⟨h.out_goes_on ended, (h.done_iff ended).mp done⟩, rfl⟩
  | again returns unfinished overs ih =>
    subst at_depth
    obtain ⟨n, ended, last⟩ := h.overAt_of_stepOver returns
    rw [last] at unfinished ih
    -- The hypothesis is about the pause between two calls: `ready` is its
    -- premise there, and `silenced` takes its loop back to before the pause.
    have going := eq_false_of_ne_true (mt (h.done_iff ended).mpr unfinished)
    obtain ⟨ready, depth, silenced⟩ := h.again ended going
    obtain ⟨rest, out, engine⟩ := ih ready depth
    have later := (out.of_silenced silenced).of_unlimited (h.iterate_unlimited _) (0 + (n + 1))
    refine ⟨n + 1 + rest, StopsAfter.append (h.out_goes_on ended) later, ?_⟩
    rw [engine, pause_engine_of_silenced silenced rest, ← Function.iterate_add_apply,
      Nat.add_comm rest]

/-- Stepping out returns exactly if stepping over again and again ends, and
then they leave the same engine in the same state. -/
theorem stepOut_iff_oversUntil (live : d.state.isTerminal = false) (unlimited : d.budget = .unlimited)
    (recording : d.tracer.limit = none) :
    (∀ patience s, d.stepOut patience = some s →
      ∃ e, OversUntil d.depth d e ∧ e.engine = s.debugger.engine ∧ e.state = s.debugger.state) ∧
    (∀ e, OversUntil d.depth d e →
      ∃ patience s, d.stepOut patience = some s ∧ s.debugger.engine = e.engine ∧
        s.debugger.state = e.state) := by
  have ready : Ready d := ⟨live, unlimited, recording⟩
  have loop (patience : Nat) :
      d.stepOut patience = advanceUntil (· < d.depth) patience 0 d.resume := by
    simp only [stepOut, ready.resumed.2.1]
  constructor
  · intro patience s returns
    rw [loop] at returns
    obtain ⟨m, _, out, rfl⟩ := advanceUntil_eq_some_iff.mp returns
    obtain ⟨e, overs, engine⟩ := oversUntil_of_stopsAfter ready out
    exact ⟨e, overs, engine, congrArg Engine.state engine⟩
  · intro e overs
    obtain ⟨m, out, engine⟩ := stopsAfter_of_oversUntil ready rfl overs
    refine ⟨m, ⟨(advance^[m] d.resume).pause, 0 + m⟩, ?_, engine.symm,
      congrArg Engine.state engine.symm⟩
    rw [loop]
    exact advanceUntil_of_stopsAfter out (Nat.le_refl m)

/-- A breakpoint in the script that `Machine.inner` is about to call stops both
two instructions later. -/
theorem stepOut_nested_overs :
    let d : Debugger Machine Recorder :=
      ⟨.inner, (Breakpoints.empty.insert ⟨[3], 1⟩).2, .unlimited, .unlimited⟩
    ∃ s e, d.stepOut 2 = some s ∧ OversUntil 2 d e ∧ e.engine = s.debugger.engine ∧
      e.engine.executed = 4 := by
  intro d
  have returns : (d.stepOut 2).isSome = true := by decide
  have executed : (d.stepOut 2).map (·.debugger.engine.executed) = some 4 := by decide
  obtain ⟨s, returns⟩ := Option.isSome_iff_exists.mp returns
  rw [returns, Option.map_some, Option.some.injEq] at executed
  have live : d.state.isTerminal = false := rfl
  obtain ⟨e, overs, engine, _⟩ := (stepOut_iff_oversUntil live rfl rfl).1 2 s returns
  exact ⟨s, e, returns, overs, engine, by rw [engine, executed]⟩

end Debugger

end ScriptDebugger

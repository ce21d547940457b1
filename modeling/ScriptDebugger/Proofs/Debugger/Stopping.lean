/-
  Where a call stops

  A call that goes into a loop has the engine execute one instruction after
  another, so where it can stop is a matter of plain execution: it may stop
  after `i` instructions if the engine is not runnable then, if it has come to
  a breakpoint, if its depth is one that the call looks out for, or if the
  budget allows no more (`MayStop`). A breakpoint counts only after an
  instruction, so the one that a call starts from does not.

  What is proved:
    1. `stops_iff_mayStop` — a loop that has not stopped yet stops exactly
       where plain execution may stop. The loop looks at an engine that it may
       just have paused at a breakpoint, so the two need not look at the same
       engine (`iterate_cases`).
    2. `stopsFirst_of_loop?` — a call returns if and only if it may stop
       somewhere, and it returns from the first such place, with the engine of
       plain execution, paused if it was runnable (`StopsFirst`).
    3. `run_stops_first`, `stepOver_stops_first`, `stepOut_stops_first` — the
       same for the three calls, each with the depths that it looks out for.
       A run looks out for none. Nor, where there is no frame, does a step
       out, which is a run then.

  An engine is asked to show the run state that was requested and, where the
  call looks out for depths, to leave its stack as deep as it was.
-/
import Mathlib.Order.Bounds.Basic
import ScriptDebugger.Proofs.Debugger.Hits

namespace ScriptDebugger

namespace Engine

variable {ε : Type} [Engine ε]

/-- The engine, runnable if it was paused. -/
def resume (e : ε) : ε := if state e = .paused then setState .runnable e else e

/-- The engine, paused if it was runnable. -/
def pause (e : ε) : ε := if state e = .runnable then setState .paused e else e

theorem state_pause_ne (obeys : Obeys ε) (e : ε) : state (pause e) ≠ .runnable := by
  unfold pause
  split
  · rw [obeys.state_setState]
    decide
  · assumption

/-- The next instruction of the topmost frame carries a breakpoint. -/
def OnBreakpoint (b : Breakpoints) (e : ε) : Prop :=
  0 < depth e ∧ ∃ l, context? e = some l ∧ b.contains l = true

theorem exists_standsAt_iff {b : Breakpoints} {e : ε} :
    (∃ l, StandsAt b l e) ↔ state e = .runnable ∧ OnBreakpoint b e := by
  simp [StandsAt, OnBreakpoint]

/-- An engine shows the run state that it was asked for, with a stack as deep
as before. -/
structure KeepsDepth (ε : Type) [Engine ε] : Prop extends Obeys ε where
  depth_setState : ∀ (s : RunState) (e : ε), depth (setState s e) = depth e

theorem KeepsDepth.depth_resume (keeps : KeepsDepth ε) (e : ε) : depth (resume e) = depth e := by
  unfold resume
  split
  · exact keeps.depth_setState .runnable e
  · rfl

end Engine

theorem Machine.keepsDepth : Engine.KeepsDepth Machine where
  state_setState _ _ := rfl
  depth_setState _ _ := rfl

namespace Debugger

variable {ε τ : Type} [Engine ε] [Tracer τ]

/-! ## Places to stop at -/

/-- After `i` instructions from `start`, a call that looks out for the depths
`arrived` may stop. -/
def MayStop (d : Debugger ε τ) (arrived : Nat → Bool) (start : ε) (i : Nat) : Prop :=
  let e := Engine.execute^[i] start
  Engine.state e ≠ .runnable ∨ (1 ≤ i ∧ Engine.OnBreakpoint d.breakpoints e) ∨
    arrived (Engine.depth e) = true ∨
    ∃ most, d.budget.instructions = some most ∧ most.toNat ≤ i

/-- Call `c` returns if there is a number of instructions after which it `may`
stop, and only then. It stops after the least one, with the engine that plain
execution from `start` leads to, paused if it was runnable, and with the
breakpoints and the budget as they were. -/
structure StopsFirst (d : Debugger ε τ) (c : Command) (start : ε) (may : Nat → Prop) : Prop where
  returns : (∃ patience o, d.perform patience c = some o) ↔ ∃ i, may i
  stopped : ∀ patience o, d.perform patience c = some o →
    IsLeast {i | may i} o.executed ∧
      o.debugger.engine = Engine.pause (Engine.execute^[o.executed] start) ∧
      o.reply = .stopped (Engine.state o.debugger.engine) ∧ o.reply ≠ .stopped .runnable ∧
      o.debugger.breakpoints = d.breakpoints ∧ o.debugger.budget = d.budget

/-- How a call that returned has stopped. -/
theorem StopsFirst.of_returned {d : Debugger ε τ} {c : Command} {start : ε} {may : Nat → Prop}
    (h : d.StopsFirst c start may) {patience n : Nat} {r : Reply}
    (returned : (d.perform patience c).map (fun o => (o.executed, o.reply)) = some (n, r)) :
    ∃ o, d.perform patience c = some o ∧ o.reply = r ∧ IsLeast {i | may i} n ∧
      o.debugger.engine = Engine.pause (Engine.execute^[n] start) := by
  obtain ⟨o, call, same⟩ := Option.map_eq_some_iff.mp returned
  obtain ⟨rfl, rfl⟩ := Prod.mk.inj same
  obtain ⟨least, engine, _⟩ := h.stopped patience o call
  exact ⟨o, call, rfl, least, engine⟩

/-! ## Loops -/

variable {d : Debugger ε τ} {n : Nat}

section

variable (obeys : Engine.Obeys ε) (runnable : ∀ i < n, (advance^[i] d).state = .runnable)

include obeys runnable

/-- Gone round so many times, a loop has executed its engine plainly, and it
has paused it if the last instruction came to a breakpoint. -/
theorem iterate_cases :
    (advance^[n] d).engine = Engine.execute^[n] d.engine ∧
        ¬ (Engine.state (Engine.execute^[n] d.engine) = .runnable ∧ 1 ≤ n ∧
          Engine.OnBreakpoint d.breakpoints (Engine.execute^[n] d.engine)) ∨
      (advance^[n] d).engine = Engine.setState .paused (Engine.execute^[n] d.engine) ∧
        Engine.state (Engine.execute^[n] d.engine) = .runnable ∧ 1 ≤ n ∧
        Engine.OnBreakpoint d.breakpoints (Engine.execute^[n] d.engine) := by
  cases n with
  | zero => exact .inl ⟨rfl, by simp⟩
  | succ n =>
    have here := (iterate_of_runnable obeys runnable).1
    have next := advance_engine (advance^[n] d)
    have found (l : Location) : (advance^[n] d).execute.hit? = some l ↔
        StandsAt d.breakpoints l (Engine.execute^[n + 1] d.engine) := by
      rw [hit?_eq_some_iff, execute_breakpoints, execute_engine, iterate_advance_breakpoints, here,
        Function.iterate_succ_apply']
    rw [here, ← Function.iterate_succ_apply' Engine.execute n d.engine,
      ← Function.iterate_succ_apply' advance n d] at next
    cases hit : (advance^[n] d).execute.hit? with
    | none =>
      refine .inl ⟨by simpa [hit] using next, ?_⟩
      intro ⟨runnable, _, there⟩
      obtain ⟨l, stands⟩ := Engine.exists_standsAt_iff.mpr ⟨runnable, there⟩
      simp [(found l).mpr stands] at hit
    | some l =>
      obtain ⟨runnable, there⟩ := Engine.exists_standsAt_iff.mp ⟨l, (found l).mp hit⟩
      exact .inr ⟨by simpa [hit] using next, runnable, by omega, there⟩

/-- A loop that has not stopped yet stops where plain execution may stop. -/
theorem stops_iff_mayStop (arrived : Nat → Bool) :
    (advance^[n] d).stops arrived n = true ↔ d.MayStop arrived d.engine n := by
  rw [stops_iff, iterate_advance_budget, Budget.exhausted_iff, state, depth, MayStop]
  rcases iterate_cases obeys runnable with ⟨engine, nowhere⟩ | ⟨engine, able, later, there⟩
  · rw [engine]
    by_cases able : Engine.state (Engine.execute^[n] d.engine) = .runnable
    · have no_hit := eq_false fun hit => nowhere ⟨able, hit⟩
      simp only [no_hit, false_or]
    · simp [able]
  · -- The breakpoint is a place to stop at, and the pause is what stops the loop.
    rw [engine, obeys.state_setState]
    simp [later, there]

/-- The engine that a loop leaves which stops here. -/
theorem pause_engine_iterate :
    (advance^[n] d).pause.engine = Engine.pause (Engine.execute^[n] d.engine) := by
  rw [pause_engine, state, Engine.pause]
  rcases iterate_cases obeys runnable with ⟨engine, _⟩ | ⟨engine, able, _⟩
  · rw [engine]
  · rw [engine, obeys.state_setState, if_neg (by decide), if_pos able]

end

/-! ## Calls -/

theorem resume_engine_eq (d : Debugger ε τ) : d.resume.engine = Engine.resume d.engine :=
  resume_engine d

theorem resume_depth (keeps : Engine.KeepsDepth ε) (d : Debugger ε τ) :
    d.resume.depth = d.depth := by
  calc d.resume.depth
      = Engine.depth (Engine.resume d.engine) := by rw [depth, resume_engine_eq]
    _ = d.depth := keeps.depth_resume d.engine

section

variable {c : Command} {l : Loop ε τ} {k : Nat}
variable (obeys : Engine.Obeys ε) (loop : d.loop? c = some l)

include obeys loop

theorem Loop.GoesOn.stops_iff (on : l.GoesOn k) :
    (advance^[k] l.start).stops l.arrived (l.executed + k) = true ↔
      d.MayStop l.arrived (Engine.resume d.engine) (l.executed + k) := by
  have same := stops_iff_mayStop obeys (on.runnable_resume obeys loop) l.arrived
  rw [MayStop, resume_breakpoints, resume_budget, resume_engine_eq] at same
  rw [iterate_loop? loop]
  exact same

theorem isLeast_of_stopsAfter (first : StopsAfter l.arrived l.executed k l.start) :
    IsLeast {i | l.executed ≤ i ∧ d.MayStop l.arrived (Engine.resume d.engine) i}
      (l.executed + k) := by
  refine ⟨⟨by omega, ?_⟩, ?_⟩
  · exact (Loop.GoesOn.stops_iff obeys loop first.going).mp first.stopped
  · intro i ⟨started, may⟩
    obtain ⟨j, rfl⟩ := Nat.exists_eq_add_of_le started
    -- An earlier place to stop at would be an earlier stop of the loop.
    by_contra earlier
    have on : l.GoesOn j := fun i less => first.going i (by omega)
    have stop := (Loop.GoesOn.stops_iff obeys loop on).mpr may
    simp [first.going j (by omega)] at stop

theorem exists_stopsAfter (may : d.MayStop l.arrived (Engine.resume d.engine) (l.executed + k)) :
    ∃ m, StopsAfter l.arrived l.executed m l.start := by
  by_contra never
  have on (n : Nat) : l.GoesOn n := by
    intro i _
    apply eq_false_of_ne_true
    intro stop
    obtain ⟨m, _, first⟩ := StopsAfter.exists_first stop
    exact never ⟨m, first⟩
  have stop := (Loop.GoesOn.stops_iff obeys loop (on k)).mpr may
  simp [on (k + 1) k (by omega)] at stop

/-- A call that goes into a loop stops at the first place where it may, once
it has executed what it executes before the loop. -/
theorem stopsFirst_of_loop? :
    d.StopsFirst c (Engine.resume d.engine) fun i =>
      l.executed ≤ i ∧ d.MayStop l.arrived (Engine.resume d.engine) i := by
  refine ⟨⟨?place, ?stop⟩, ?stopped⟩
  case place =>
    intro ⟨patience, o, returns⟩
    obtain ⟨k, _, first, _⟩ := (perform_loop_eq_some_iff loop).mp returns
    exact ⟨l.executed + k, (isLeast_of_stopsAfter obeys loop first).1⟩
  case stop =>
    intro ⟨i, started, may⟩
    obtain ⟨j, rfl⟩ := Nat.exists_eq_add_of_le started
    obtain ⟨m, first⟩ := exists_stopsAfter obeys loop may
    exact ⟨m, _, (perform_loop_eq_some_iff loop).mpr ⟨m, Nat.le_refl m, first, rfl⟩⟩
  case stopped =>
    intro patience o returns
    obtain ⟨k, _, first, rfl⟩ := (perform_loop_eq_some_iff loop).mp returns
    have least := isLeast_of_stopsAfter obeys loop first
    have runnable := Loop.GoesOn.runnable_resume obeys first.going loop
    have engine := pause_engine_iterate obeys runnable
    have breakpoints : (advance^[l.executed + k] d.resume).pause.breakpoints = d.breakpoints := by
      simp [iterate_advance_breakpoints]
    have budget : (advance^[l.executed + k] d.resume).pause.budget = d.budget := by
      simp [iterate_advance_budget]
    rw [← iterate_loop? loop, resume_engine_eq] at engine
    rw [← iterate_loop? loop] at breakpoints budget
    refine ⟨least, engine, rfl, ?_, breakpoints, budget⟩
    intro same
    apply Engine.state_pause_ne obeys (Engine.execute^[l.executed + k] (Engine.resume d.engine))
    rw [← engine]
    exact Reply.stopped.inj same

end

/-! ## The three calls -/

/-- A run stops as soon as the engine is not runnable, has come to a
breakpoint or has used up the budget. -/
theorem run_stops_first (obeys : Engine.Obeys ε) (d : Debugger ε τ) :
    d.StopsFirst .run (Engine.resume d.engine)
      (d.MayStop (fun _ => false) (Engine.resume d.engine)) := by
  have loop : d.loop? .run = some ⟨fun _ => false, 0, d.resume⟩ := rfl
  simpa using stopsFirst_of_loop? obeys loop

/-- A paused machine on a breakpoint, with a second one in the same frame: that
one alone stops the run. -/
theorem run_inner_stops :
    let d : Debugger Machine Silent :=
      ⟨.inner, ((Breakpoints.empty.insert ⟨[2], 1⟩).2.insert ⟨[2], 2⟩).2, .unlimited, .silent⟩
    ∃ o, d.perform 3 .run = some o ∧ o.reply = .stopped .paused ∧
      IsLeast {i | d.MayStop (fun _ => false) (Engine.resume d.engine) i} 3 ∧
      o.debugger.engine = Engine.pause (Engine.execute^[3] (Engine.resume d.engine)) := by
  intro d
  have first := run_stops_first Machine.keepsDepth.toObeys d
  exact first.of_returned (by decide)

/-- A step over executes an instruction, and stops as soon as a run would or
the stack is no deeper than it was. -/
theorem stepOver_stops_first (keeps : Engine.KeepsDepth ε) {d : Debugger ε τ}
    (live : d.state.isTerminal = false) :
    Engine.state (Engine.resume d.engine) = .runnable ∧
      d.StopsFirst .stepOver (Engine.resume d.engine) fun i =>
        1 ≤ i ∧ d.MayStop (· ≤ d.depth) (Engine.resume d.engine) i := by
  have runnable : Engine.state d.resume.engine = .runnable :=
    resume_state_of_live keeps.toObeys live
  have loop : d.loop? .stepOver = some ⟨(· ≤ d.depth), 1, d.resume.advance⟩ := by
    rw [loop?_stepOver, resume_depth keeps]
    exact ⟨live, rfl⟩
  rw [resume_engine_eq] at runnable
  exact ⟨runnable, stopsFirst_of_loop? keeps.toObeys loop⟩

/-- Over a call with a breakpoint in the script that is called: the breakpoint
alone stops the step. And with no budget at all: one instruction. -/
theorem stepOver_inner_stops :
    let d : Debugger Machine Silent :=
      ⟨.inner, (Breakpoints.empty.insert ⟨[3], 1⟩).2, .unlimited, .silent⟩
    let bounded : Debugger Machine Silent := ⟨.inner, .empty, .atMost 0, .silent⟩
    (∃ o, d.perform 1 .stepOver = some o ∧ o.reply = .stopped .paused ∧
      IsLeast {i | 1 ≤ i ∧ d.MayStop (· ≤ 2) (Engine.resume d.engine) i} 2 ∧
      o.debugger.engine = Engine.pause (Engine.execute^[2] (Engine.resume d.engine))) ∧
    ∃ o, bounded.perform 0 .stepOver = some o ∧ o.reply = .stopped .paused ∧
      IsLeast {i | 1 ≤ i ∧ bounded.MayStop (· ≤ 2) (Engine.resume bounded.engine) i} 1 ∧
      o.debugger.engine = Engine.pause (Engine.execute^[1] (Engine.resume bounded.engine)) := by
  intro d bounded
  have live : d.state.isTerminal = false := rfl
  have live' : bounded.state.isTerminal = false := rfl
  have first := (stepOver_stops_first Machine.keepsDepth live).2
  have first' := (stepOver_stops_first Machine.keepsDepth live').2
  exact ⟨first.of_returned (by decide), first'.of_returned (by decide)⟩

/-- A step out stops as soon as a run would or the stack is less deep than it
was. Without a frame there is nothing to step out of, and it is a run. -/
theorem stepOut_stops_first (keeps : Engine.KeepsDepth ε) (d : Debugger ε τ) :
    d.StopsFirst .stepOut (Engine.resume d.engine)
      (d.MayStop (· < d.depth) (Engine.resume d.engine)) ∧
    (d.depth = 0 →
      (∀ i, ¬ Engine.depth (Engine.execute^[i] (Engine.resume d.engine)) < d.depth) ∧
      ∀ patience, d.perform patience .stepOut = d.perform patience .run) := by
  have loop : d.loop? .stepOut = some ⟨(· < d.depth), 0, d.resume⟩ := by
    rw [loop?, resume_depth keeps]
  refine ⟨by simpa using stopsFirst_of_loop? keeps.toObeys loop, ?_⟩
  intro no_frame
  refine ⟨fun i => by omega, ?_⟩
  intro patience
  have never : (fun depth => decide (depth < 0)) = fun _ => false := by
    funext depth
    simp
  rw [perform_of_loop? loop, no_frame, never]
  rfl

/-- Out of a frame that calls a script with a breakpoint: the breakpoint alone
stops the step, in a deeper frame. And a machine without a frame, which
halts. -/
theorem stepOut_inner_stops :
    let d : Debugger Machine Silent :=
      ⟨.inner, (Breakpoints.empty.insert ⟨[3], 1⟩).2, .unlimited, .silent⟩
    let bare : Debugger Machine Silent := { d with engine := .mk .nested (.ofList []) .runnable 0 }
    (∃ o, d.perform 2 .stepOut = some o ∧ o.reply = .stopped .paused ∧
      IsLeast {i | d.MayStop (· < 2) (Engine.resume d.engine) i} 2 ∧
      o.debugger.engine = Engine.pause (Engine.execute^[2] (Engine.resume d.engine))) ∧
    bare.perform 1 .stepOut = bare.perform 1 .run ∧
      (bare.perform 1 .stepOut).map (·.reply) = some (.stopped .halted) := by
  intro d bare
  have first := (stepOut_stops_first Machine.keepsDepth d).1
  have no_frame := (stepOut_stops_first Machine.keepsDepth bare).2 rfl
  exact ⟨first.of_returned (by decide), no_frame.2 1, by decide⟩

end Debugger

end ScriptDebugger

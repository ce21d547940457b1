/-
  Stepping over a call and out of a frame

  Stepping looks at the depth of the stack only. On a machine that is enough
  to follow a single frame: the depth is above that of the frames below it for
  as long as it has not returned, whatever it calls in between, and the frames
  below stay as they are.

  What is proved:
    1. `stepOver_call` — stepping over a call takes the instructions that the
       called script takes when it is run alone, and one for the call. It ends
       behind the call if the script halts, faults where the script faults,
       and never returns if the script never ends.
    2. `stepOut_frame` — stepping out takes the instructions that the topmost
       frame takes when it is run alone, and leaves the frames below. Even
       where a breakpoint or a budget stops it early, these are untouched.
-/
import ScriptDebugger.Proofs.Machine.Frames

namespace ScriptDebugger

namespace Debugger

variable {τ : Type} [Tracer τ] {d : Debugger Machine τ}

theorem resume_stack (d : Debugger Machine τ) : d.resume.engine.stack = d.engine.stack := by
  rw [resume_engine]
  split <;> rfl

theorem pause_stack (d : Debugger Machine τ) : d.pause.engine.stack = d.engine.stack := by
  rw [pause_engine]
  split <;> rfl

theorem pause_executed (d : Debugger Machine τ) : d.pause.engine.executed = d.engine.executed := by
  rw [pause_engine]
  split <;> rfl

theorem advance_stack (d : Debugger Machine τ) :
    d.advance.engine.stack = d.engine.execute.stack := by
  rw [advance_engine]
  split <;> rfl

/-- A machine that is not over is made runnable, and nothing else. -/
theorem resume_machine (live : d.state.isTerminal = false) :
    d.resume.engine = { d.engine with state := .runnable } := by
  rw [resume_engine]
  rcases RunState.runnable_or_paused live with runnable | paused
  · have shown : d.engine.state = .runnable := runnable
    rw [if_neg (by rw [runnable]; decide), ← shown]
  · rw [if_pos paused]
    rfl

theorem pause_state (d : Debugger Machine τ) :
    d.pause.state = if d.state = .runnable then .paused else d.state := by
  by_cases runnable : d.state = .runnable
  · rw [pause_of_runnable runnable, if_pos runnable, forceState_of_ne (by rw [runnable]; decide)]
    rfl
  · rw [pause_of_ne runnable, if_neg runnable]

/-! ## Loops over a machine on top of other frames -/

section Loops

variable {m : Machine} {below : List Frame} {before executed k : Nat} {s : RunState}
  {arrived : Nat → Bool}

/-- `d` has no breakpoints and no bound, and its engine is `m` on top of
`below`. -/
structure Carries (d : Debugger Machine τ) (m : Machine) (below : List Frame) (before : Nat) :
    Prop where
  free : d.breakpoints = .empty
  unlimited : d.budget = .unlimited
  engine : d.engine = m.onto below before
  plain : m.Plain

theorem Carries.iterate (h : Carries d m below before)
    (live : ∀ i < k, (Engine.state (Engine.execute^[i] m)).isTerminal = false) :
    (advance^[k] d).engine = (Engine.execute^[k] m).onto below before := by
  rw [iterate_advance_engine h.free, h.engine, Machine.after_onto h.plain live]

theorem depth_onto (m : Machine) (below : List Frame) (before : Nat) :
    Engine.depth (m.onto below before) = m.stack.frames.length + below.length :=
  List.length_append

theorem Carries.going (h : Carries d m below before)
    (only : ∀ depth, arrived depth = true ↔ depth ≤ below.length)
    (live : ∀ i ≤ k, (Engine.state (Engine.execute^[i] m)).isTerminal = false) :
    (advance^[k] d).stops arrived executed = false := by
  have alone := h.plain.after k
  have now := live k (Nat.le_refl k)
  have engine := h.iterate fun i less => live i (Nat.le_of_lt less)
  have runnable : (Engine.execute^[k] m).state = .runnable := alone.runnable now
  -- A frame of the machine is left as long as it has not halted.
  have above : 0 < (Engine.execute^[k] m).stack.frames.length :=
    List.length_pos_iff.mpr (alone.busy now)
  rw [stops_eq_false_iff]
  refine ⟨?_, ?_, ?_⟩
  · show (advance^[k] d).engine.state = .runnable
    rw [engine]
    simp [Machine.onto, Machine.landing, runnable]
  · apply eq_false_of_ne_true
    intro near
    rw [only, depth, engine, depth_onto] at near
    omega
  · rw [iterate_advance_budget, h.unlimited]
    rfl

theorem Carries.stopsAfter (h : Carries d m below before)
    (only : ∀ depth, arrived depth = true ↔ depth ≤ below.length)
    (ends : Engine.EndsAfter k s m) (finished : s.isTerminal = true) :
    StopsAfter arrived executed k d where
  going i less := h.going only fun j le => ends.1 j (by omega)
  stopped := by
    apply eq_true_of_ne_false
    intro going
    obtain ⟨runnable, far, _⟩ := stops_eq_false_iff.mp going
    have engine := h.iterate ends.1
    have alone := h.plain.after k
    have shown : Machine.landing below (Engine.execute^[k] m).state = .runnable := by
      have : (advance^[k] d).engine.state = .runnable := runnable
      rwa [engine] at this
    rw [show (Engine.execute^[k] m).state = s from ends.2] at shown
    cases s with
    | runnable => cases finished
    | paused => cases finished
    | faulted => cases shown
    | halted =>
      -- It may go on below, but it has returned to the depth of `below`.
      have none_left := alone.halted_iff.mp ends.2
      have near : arrived (advance^[k] d).depth = true := by
        rw [only, depth, engine, depth_onto, none_left]
        simp
      rw [near] at far
      cases far

theorem Carries.never (h : Carries d m below before)
    (only : ∀ depth, arrived depth = true ↔ depth ≤ below.length) (never : Engine.NeverEnds m)
    (patience : Nat) : advanceUntil arrived patience executed d = none :=
  advanceUntil_eq_none fun _ => h.going only fun i _ => never i

/-- Where the loop returns: the frames of the machine alone are on top of
`below`, and the debugger has paused unless the machine is over. -/
theorem Carries.returns (h : Carries d m below before)
    (only : ∀ depth, arrived depth = true ↔ depth ≤ below.length)
    (ends : Engine.EndsAfter k s m) (finished : s.isTerminal = true) :
    ∃ stop, (∀ patience, k ≤ patience → advanceUntil arrived patience executed d = some stop) ∧
      stop.executed = executed + k ∧
      stop.debugger.engine.executed = before + (m.executed + k) ∧
      stop.debugger.engine.stack.frames = (Engine.execute^[k] m).stack.frames ++ below ∧
      stop.debugger.state =
        if Machine.landing below s = .runnable then .paused else Machine.landing below s := by
  have engine := h.iterate ends.1
  have state : (advance^[k] d).state = Machine.landing below s := by
    show (advance^[k] d).engine.state = _
    rw [engine, ← ends.2]
    rfl
  refine ⟨⟨(advance^[k] d).pause, executed + k⟩,
    fun patience => advanceUntil_of_stopsAfter (h.stopsAfter only ends finished), rfl, ?_, ?_, ?_⟩
  · rw [pause_executed, engine, ← Machine.executed_after h.plain ends.1]
    rfl
  · rw [pause_stack, engine]
    rfl
  · rw [pause_state, state]

end Loops

/-! ## Stepping over a call -/

omit [Tracer τ] in
theorem depth_eq_length (d : Debugger Machine τ) : d.depth = d.engine.stack.frames.length :=
  d.engine.stack.depth_eq

/-- After the call the called script is on top of the frames below it, as if
it had been started alone. -/
theorem carries_call {top : Frame} {below : List Frame} {script : Nat}
    (live : d.state.isTerminal = false) (free : d.breakpoints = .empty)
    (unlimited : d.budget = .unlimited) (frames : d.engine.stack.frames = top :: below)
    (call : d.engine.upcoming top = .call script) :
    Carries d.resume.advance (Machine.start d.engine.program ⟨script, 0⟩) (top.advance :: below)
      (d.engine.executed + 1) where
  free := by rw [advance_breakpoints, resume_breakpoints, free]
  unlimited := by rw [advance_budget, resume_budget, unlimited]
  plain := Machine.Plain.start _ _
  engine := by
    have ready : d.resume.breakpoints = .empty := by rw [resume_breakpoints, free]
    rw [advance_of_empty ready, execute_engine, resume_machine live]
    have top_first : ({ d.engine with state := .runnable } : Machine).stack.frames = top :: below :=
      frames
    have called : ({ d.engine with state := .runnable } : Machine).upcoming top = .call script := call
    show Machine.execute _ = _
    rw [Machine.execute_of_cons top_first, called]
    rfl

/-- Stepping over a call is one instruction and those of the called script run
alone. -/
theorem stepOver_call {top : Frame} {below : List Frame} {script : Nat}
    (live : d.state.isTerminal = false) (free : d.breakpoints = .empty)
    (unlimited : d.budget = .unlimited) (frames : d.engine.stack.frames = top :: below)
    (call : d.engine.upcoming top = .call script) :
    (∀ k, Engine.EndsAfter k .halted (Machine.start d.engine.program ⟨script, 0⟩) →
      ∃ s, (∀ patience, k ≤ patience → d.stepOver patience = some s) ∧
        s.debugger.state = .paused ∧ s.executed = 1 + k ∧
        s.debugger.engine.executed = d.engine.executed + (1 + k) ∧
        s.debugger.engine.stack.frames = top.advance :: below) ∧
    (∀ k, Engine.EndsAfter k .faulted (Machine.start d.engine.program ⟨script, 0⟩) →
      ∃ s, (∀ patience, k ≤ patience → d.stepOver patience = some s) ∧
        s.debugger.state = .faulted ∧ s.executed = 1 + k ∧
        s.debugger.engine.executed = d.engine.executed + (1 + k) ∧
        s.debugger.engine.stack.frames =
          (Engine.execute^[k] (Machine.start d.engine.program ⟨script, 0⟩)).stack.frames ++
            top.advance :: below) ∧
    (Engine.NeverEnds (Machine.start d.engine.program ⟨script, 0⟩) →
      ∀ patience, d.stepOver patience = none) := by
  have carries := carries_call live free unlimited frames call
  have only : ∀ depth, decide (depth ≤ d.resume.depth) = true ↔
      depth ≤ (top.advance :: below).length := by
    intro depth
    rw [decide_eq_true_iff, depth_eq_length, resume_stack, frames]
    rfl
  have loop (patience : Nat) : d.stepOver patience =
      advanceUntil (· ≤ d.resume.depth) patience 1 d.resume.advance :=
    if_neg (by rw [live]; decide)
  simp only [loop]
  refine ⟨?_, ?_, ?_⟩
  · intro k ends
    obtain ⟨s, returns, count, total, stack, state⟩ := carries.returns only ends rfl
    -- The script alone has halted because none of its frames is left.
    have returned := ((Machine.Plain.start d.engine.program ⟨script, 0⟩).after k).halted_iff.mp ends.2
    refine ⟨s, returns, state, count, ?_, ?_⟩
    · rw [total]
      simp [Machine.start, Nat.add_assoc]
    · rw [stack, returned, List.nil_append]
  · intro k ends
    obtain ⟨s, returns, count, total, stack, state⟩ := carries.returns only ends rfl
    refine ⟨s, returns, state, count, ?_, stack⟩
    rw [total]
    simp [Machine.start, Nat.add_assoc]
  · intro never patience
    exact carries.never only never patience

/-- At the first call of `Program.nested` the called script and the one that
it calls take five instructions. -/
theorem stepOver_nested :
    ∃ s, (attach (Machine.load .nested) Silent.silent).stepOver 5 = some s ∧
      s.debugger.state = .paused ∧ s.executed = 6 ∧ s.debugger.engine.executed = 6 ∧
      s.debugger.engine.stack.frames = [⟨0, 1⟩] := by
  have ends : Engine.EndsAfter 5 .halted (Machine.start .nested ⟨1, 0⟩) := by decide
  have called : (Machine.load .nested).upcoming ⟨0, 0⟩ = .call 1 := by decide
  let d := attach (Machine.load .nested) Silent.silent
  have live : d.state.isTerminal = false := rfl
  have frames : d.engine.stack.frames = [⟨0, 0⟩] := rfl
  obtain ⟨s, returns, state, executed, total, after⟩ :=
    (stepOver_call live rfl rfl frames called).1 5 ends
  exact ⟨s, returns 5 (Nat.le_refl 5), state, executed, total, after⟩

/-! ## Stepping out of a frame -/

/-- Resumed, the topmost frame is on top of the frames below it as if it had
been started alone. -/
theorem carries_frame {top : Frame} {below : List Frame} (live : d.state.isTerminal = false)
    (free : d.breakpoints = .empty) (unlimited : d.budget = .unlimited)
    (frames : d.engine.stack.frames = top :: below) :
    Carries d.resume (Machine.start d.engine.program top) below d.engine.executed where
  free := by rw [resume_breakpoints, free]
  unlimited := by rw [resume_budget, unlimited]
  plain := Machine.Plain.start _ _
  engine := by
    have stack : d.engine.stack = .ofList (top :: below) := Stack.ext frames
    rw [resume_machine live]
    exact congrArg (fun t => Machine.mk d.engine.program t .runnable d.engine.executed) stack

/-- A loop that only goes on above the depth of `below` leaves `below` as it
is, whatever stops it. -/
theorem advanceUntil_suffix {below : List Frame} {arrived : Nat → Bool} {patience executed : Nat}
    {s : Stop Machine τ} (near : ∀ depth, arrived depth = false → below.length < depth)
    (start : below <:+ d.engine.stack.frames)
    (returns : advanceUntil arrived patience executed d = some s) :
    below <:+ s.debugger.engine.stack.frames := by
  have step : ∀ n (e : Debugger Machine τ), below <:+ e.engine.stack.frames →
      e.stops arrived n = false → below <:+ e.advance.engine.stack.frames := by
    intro n e kept going
    obtain ⟨upper, frames⟩ := kept
    have above := near e.depth (stops_eq_false_iff.mp going).2.1
    -- At this depth the instruction is one of a frame on top of `below`.
    have busy : upper ≠ [] := by
      rintro rfl
      rw [depth_eq_length, ← frames] at above
      exact absurd above (Nat.lt_irrefl _)
    rw [advance_stack]
    exact Machine.execute_suffix frames.symm busy
  obtain ⟨e, kept, _, same⟩ := advanceUntil_rule
    (P := fun _ (e : Debugger Machine τ) => below <:+ e.engine.stack.frames) step start returns
  rwa [same, pause_stack]

/-- Stepping out is the instructions of the topmost frame run alone, and the
frames below it stay, also where it is stopped early. -/
theorem stepOut_frame {top : Frame} {below : List Frame} (live : d.state.isTerminal = false)
    (frames : d.engine.stack.frames = top :: below) :
    (d.breakpoints = .empty → d.budget = .unlimited →
      (∀ k, Engine.EndsAfter k .halted (Machine.start d.engine.program top) →
        ∃ s, (∀ patience, k ≤ patience → d.stepOut patience = some s) ∧
          s.debugger.state = (if below = [] then .halted else .paused) ∧ s.executed = k ∧
          s.debugger.engine.executed = d.engine.executed + k ∧
          s.debugger.engine.stack.frames = below) ∧
      (∀ k, Engine.EndsAfter k .faulted (Machine.start d.engine.program top) →
        ∃ s, (∀ patience, k ≤ patience → d.stepOut patience = some s) ∧
          s.debugger.state = .faulted ∧ s.executed = k ∧
          s.debugger.engine.executed = d.engine.executed + k ∧
          s.debugger.engine.stack.frames =
            (Engine.execute^[k] (Machine.start d.engine.program top)).stack.frames ++ below) ∧
      (Engine.NeverEnds (Machine.start d.engine.program top) →
        ∀ patience, d.stepOut patience = none)) ∧
    (∀ patience s, d.stepOut patience = some s → below <:+ s.debugger.engine.stack.frames) := by
  have depth : d.resume.depth = below.length + 1 := by
    rw [depth_eq_length, resume_stack, frames]
    rfl
  have only : ∀ n, decide (n < d.resume.depth) = true ↔ n ≤ below.length := by
    intro n
    rw [decide_eq_true_iff, depth, Nat.lt_succ_iff]
  constructor
  · intro free unlimited
    have carries := carries_frame live free unlimited frames
    refine ⟨?_, ?_, ?_⟩
    · intro k ends
      obtain ⟨s, returns, count, total, stack, state⟩ := carries.returns only ends rfl
      have returned := ((Machine.Plain.start d.engine.program top).after k).halted_iff.mp ends.2
      refine ⟨s, returns, ?_, ?_, ?_, ?_⟩
      · rw [state]
        cases below <;> rfl
      · rw [count, Nat.zero_add]
      · rw [total]
        simp [Machine.start]
      · rw [stack, returned, List.nil_append]
    · intro k ends
      obtain ⟨s, returns, count, total, stack, state⟩ := carries.returns only ends rfl
      refine ⟨s, returns, state, ?_, ?_, stack⟩
      · rw [count, Nat.zero_add]
      · rw [total]
        simp [Machine.start]
    · intro never patience
      exact carries.never only never patience
  · intro patience s returns
    have start : below <:+ d.resume.engine.stack.frames := by
      rw [resume_stack, frames]
      exact List.suffix_cons top below
    refine advanceUntil_suffix ?_ start returns
    intro n far
    have := mt (only n).mpr (by rw [far]; decide)
    omega

/-- Out of the second script it is four instructions, a call among them. -/
theorem stepOut_nested :
    ∃ s, (attach Machine.inner Silent.silent).stepOut 4 = some s ∧
      s.debugger.state = .paused ∧ s.executed = 4 ∧ s.debugger.engine.executed = 6 ∧
      s.debugger.engine.stack.frames = [⟨0, 1⟩] := by
  let d := attach Machine.inner Silent.silent
  have live : d.state.isTerminal = false := rfl
  have frames : d.engine.stack.frames = [⟨1, 1⟩, ⟨0, 1⟩] := rfl
  have ends : Engine.EndsAfter 4 .halted (Machine.start d.engine.program ⟨1, 1⟩) := by decide
  obtain ⟨s, returns, state, executed, total, after⟩ :=
    ((stepOut_frame live frames).1 rfl rfl).1 4 ends
  exact ⟨s, returns 4 (Nat.le_refl 4), state, executed, total, after⟩

end Debugger

end ScriptDebugger

/-
  Calls under way

  A call that never returns still does something to its engine, one
  instruction after another. `Reaches d c e` says that call `c` of debugger
  `d` gets to `e`: it is between two instructions there, or has returned.

  The three ways of stepping that may not return are one loop each, with
  something before it (`loop?`, `perform_of_loop?`), so a call under way is the
  loop gone round a number of times without a stop. What the parts of a
  session keep holds after each round (`Kept.of_loop?`, `Kept.of_iterate`).
  Where the engine has halted or faulted, no call gets anywhere
  (`performAll_of_terminal`).
-/
import ScriptDebugger.Proofs.Debugger.Session

namespace ScriptDebugger

namespace Command

/-- Whether a command has the engine execute instructions. -/
def isStepping : Command → Bool
  | .run | .stepInto | .stepOver | .stepOut => true
  | _ => false

/-- Whether a command executes until something stops it. -/
def isLoop : Command → Bool
  | .run | .stepOver | .stepOut => true
  | _ => false

theorem isStepping_of_isLoop {c : Command} (loops : c.isLoop = true) : c.isStepping = true := by
  cases c with
  | run | stepOver | stepOut => rfl
  | stepInto | addBreakpoint | removeBreakpoint | setBudget | setBreakpoints => cases loops

end Command

namespace Debugger

variable {ε τ : Type} [Engine ε] [Tracer τ]

/-- A loop about to go round: the depths to stop at, the instructions executed
so far, and the debugger. -/
structure Loop (ε τ : Type) where
  arrived : Nat → Bool
  executed : Nat
  start : Debugger ε τ

namespace Loop

/-- The loop goes round so many times without a stop. -/
def GoesOn (l : Loop ε τ) (n : Nat) : Prop :=
  ∀ i < n, (advance^[i] l.start).stops l.arrived (l.executed + i) = false

theorem GoesOn.runnable {l : Loop ε τ} {n : Nat} (h : l.GoesOn n) :
    ∀ i < n, (advance^[i] l.start).state = .runnable := by
  intro i less
  exact (stops_eq_false_iff.mp (h i less)).1

end Loop

/-- The loop that a command goes into, if it does. -/
def loop? (d : Debugger ε τ) : Command → Option (Loop ε τ)
  | .run => some ⟨fun _ => false, 0, d.resume⟩
  | .stepOver =>
    if d.state.isTerminal then none else some ⟨(· ≤ d.resume.depth), 1, d.resume.advance⟩
  | .stepOut => some ⟨(· < d.resume.depth), 0, d.resume⟩
  | _ => none

theorem loop?_stepOver {d : Debugger ε τ} {l : Loop ε τ} :
    d.loop? .stepOver = some l ↔
      d.state.isTerminal = false ∧ l = ⟨(· ≤ d.resume.depth), 1, d.resume.advance⟩ := by
  simp only [loop?]
  cases d.state.isTerminal with
  | true => simp
  | false => simp [eq_comm]

/-- A command that loops goes into its loop unless it starts in a terminal
state. -/
theorem terminal_of_no_loop {d : Debugger ε τ} {c : Command} (no_loop : d.loop? c = none)
    (loops : c.isLoop = true) : d.state.isTerminal = true := by
  cases c with
  | run | stepOut => cases no_loop
  | stepOver =>
    by_contra live
    rw [loop?, if_neg live] at no_loop
    cases no_loop
  | stepInto | addBreakpoint | removeBreakpoint | setBudget | setBreakpoints => cases loops

theorem isLoop_of_loop? {d : Debugger ε τ} {c : Command} {l : Loop ε τ} (loop : d.loop? c = some l) :
    c.isLoop = true := by
  cases c with
  | run | stepOver | stepOut => rfl
  | stepInto | addBreakpoint | removeBreakpoint | setBudget | setBreakpoints => cases loop

/-- Where a loop starts: resumed, or one instruction later. -/
theorem loop?_start {d : Debugger ε τ} {c : Command} {l : Loop ε τ} (loop : d.loop? c = some l) :
    l.executed = 0 ∧ l.start = d.resume ∨
      d.state.isTerminal = false ∧ l.executed = 1 ∧ l.start = d.resume.advance := by
  cases c with
  | run | stepOut =>
    cases loop
    exact .inl ⟨rfl, rfl⟩
  | stepOver =>
    obtain ⟨live, rfl⟩ := loop?_stepOver.mp loop
    exact .inr ⟨live, rfl, rfl⟩
  | stepInto | addBreakpoint | removeBreakpoint | setBudget | setBreakpoints => cases loop

/-- A command that goes into a loop does what the loop does. -/
theorem perform_of_loop? {d : Debugger ε τ} {c : Command} {l : Loop ε τ} (h : d.loop? c = some l)
    (patience : Nat) :
    d.perform patience c = (advanceUntil l.arrived patience l.executed l.start).map outcome := by
  cases c with
  | run =>
    cases h
    rfl
  | stepOver =>
    obtain ⟨live, rfl⟩ := loop?_stepOver.mp h
    unfold perform stepOver
    rw [if_neg (by rw [live]; decide)]
  | stepOut =>
    cases h
    rfl
  | stepInto | addBreakpoint | removeBreakpoint | setBudget | setBreakpoints => cases h

/-- A call that goes into a loop returns from the first stop of the loop, with
the patience to get there. -/
theorem perform_loop_eq_some_iff {d : Debugger ε τ} {c : Command} {l : Loop ε τ}
    (loop : d.loop? c = some l) {patience : Nat} {o : Outcome ε τ Reply} :
    d.perform patience c = some o ↔ ∃ n ≤ patience, StopsAfter l.arrived l.executed n l.start ∧
      o = outcome ⟨(advance^[n] l.start).pause, l.executed + n⟩ := by
  rw [perform_of_loop? loop, Option.map_eq_some_iff]
  constructor
  · intro ⟨s, stops, same⟩
    obtain ⟨n, enough, first, rfl⟩ := advanceUntil_eq_some_iff.mp stops
    exact ⟨n, enough, first, same.symm⟩
  · intro ⟨n, enough, first, same⟩
    exact ⟨_, advanceUntil_of_stopsAfter first enough, same.symm⟩

/-! ## Terminal states -/

omit [Tracer τ] in
theorem ne_runnable_of_terminal {d : Debugger ε τ} (done : d.state.isTerminal = true) :
    d.state ≠ .runnable := by
  intro runnable
  rw [runnable] at done
  cases done

theorem resume_of_terminal {d : Debugger ε τ} (done : d.state.isTerminal = true) : d.resume = d := by
  apply resume_of_ne
  intro paused
  rw [paused] at done
  cases done

/-- A stepping call in a terminal state does nothing at all. -/
theorem perform_of_terminal {d : Debugger ε τ} (done : d.state.isTerminal = true) {c : Command}
    (stepping : c.isStepping = true) (patience : Nat) :
    d.perform patience c = some ⟨.stopped d.state, d, 0⟩ := by
  have not_runnable := ne_runnable_of_terminal done
  have stops (arrived : Nat → Bool) : advanceUntil arrived patience 0 d = some ⟨d, 0⟩ := by
    unfold advanceUntil
    rw [if_pos (stops_of_not_runnable not_runnable), pause_of_ne not_runnable]
  cases c with
  | run => rw [perform, run, resume_of_terminal done, stops, Option.map_some, outcome]
  | stepInto => rw [perform, stepInto, if_pos done, outcome]
  | stepOver => rw [perform, stepOver, if_pos done, Option.map_some, outcome]
  | stepOut => rw [perform, stepOut, resume_of_terminal done, stops, Option.map_some, outcome]
  | addBreakpoint | removeBreakpoint | setBudget | setBreakpoints => cases stepping

theorem performAll_of_terminal {d : Debugger ε τ} (done : d.state.isTerminal = true)
    {calls : List Command} (stepping : ∀ c ∈ calls, c.isStepping = true) (patience : Nat) :
    d.performAll patience calls = some ⟨List.replicate calls.length (.stopped d.state), d, 0⟩ := by
  induction calls with
  | nil => rfl
  | cons c calls ih =>
    rw [List.forall_mem_cons] at stepping
    rw [performAll, perform_of_terminal done stepping.1, Option.bind_eq_bind, Option.bind_some,
      ih stepping.2]
    rfl

/-! ## Where a call gets to -/

/-- Call `c` gets to a debugger: under way or in the end. -/
inductive Reaches (d : Debugger ε τ) (c : Command) : Debugger ε τ → Prop
  | going {l : Loop ε τ} {n : Nat} (loop : d.loop? c = some l) (on : l.GoesOn n) :
    Reaches d c (advance^[n] l.start)
  | returned {patience : Nat} {o : Outcome ε τ Reply} (h : d.perform patience c = some o) :
    Reaches d c o.debugger

/-- Where a call gets to that goes into a loop: after some rounds, and there
it may have stopped. -/
theorem Reaches.of_loop {d e : Debugger ε τ} {c : Command} {l : Loop ε τ} (h : d.Reaches c e)
    (loop : d.loop? c = some l) :
    ∃ n, l.GoesOn n ∧ (e = advance^[n] l.start ∨
      (advance^[n] l.start).stops l.arrived (l.executed + n) = true ∧
        e = (advance^[n] l.start).pause) := by
  cases h with
  | @going l' n loop' on =>
    rw [loop] at loop'
    cases loop'
    exact ⟨n, on, .inl rfl⟩
  | returned h =>
    obtain ⟨n, _, first, rfl⟩ := (perform_loop_eq_some_iff loop).mp h
    exact ⟨n, first.going, .inr ⟨first.stopped, rfl⟩⟩

/-- A call that does not go into the loop of its command, since it starts in a
terminal state, does nothing. -/
theorem Reaches.of_no_loop {d e : Debugger ε τ} {c : Command} (h : d.Reaches c e)
    (no_loop : d.loop? c = none) (loops : c.isLoop = true) :
    d.state.isTerminal = true ∧ e = d := by
  cases h with
  | going loop =>
    rw [no_loop] at loop
    cases loop
  | @returned patience o h =>
    have done := terminal_of_no_loop no_loop loops
    rw [perform_of_terminal done (Command.isStepping_of_isLoop loops) patience] at h
    cases h
    exact ⟨done, rfl⟩

/-! ## Instructions of a call -/

theorem resume_state_of_live (obeys : Engine.Obeys ε) {d : Debugger ε τ}
    (live : d.state.isTerminal = false) : d.resume.state = .runnable := by
  show Engine.state d.resume.engine = .runnable
  rw [resume_engine]
  split
  · exact obeys.state_setState .runnable d.engine
  · rename_i not_paused
    exact (RunState.runnable_or_paused live).resolve_right not_paused

/-- Whatever a call does before its loop, it has resumed and executed so many
instructions. -/
theorem iterate_loop? {d : Debugger ε τ} {c : Command} {l : Loop ε τ} (loop : d.loop? c = some l)
    (n : Nat) : advance^[n] l.start = advance^[l.executed + n] d.resume := by
  rcases loop?_start loop with ⟨executed, start⟩ | ⟨_, executed, start⟩
  · rw [executed, start, Nat.zero_add]
  · rw [executed, start, Nat.add_comm, Function.iterate_succ_apply]

/-- An engine that obeys is runnable before each instruction of a call. -/
theorem Loop.GoesOn.runnable_resume (obeys : Engine.Obeys ε) {d : Debugger ε τ} {c : Command}
    {l : Loop ε τ} {n : Nat} (on : l.GoesOn n) (loop : d.loop? c = some l) :
    ∀ i < l.executed + n, (advance^[i] d.resume).state = .runnable := by
  intro i less
  rcases Nat.lt_or_ge i l.executed with before | after
  · -- What is executed before a loop is one instruction.
    rcases loop?_start loop with ⟨executed, _⟩ | ⟨live, executed, _⟩
    · omega
    · obtain rfl : i = 0 := by omega
      exact resume_state_of_live obeys live
  · obtain ⟨j, rfl⟩ := Nat.exists_eq_add_of_le after
    rw [← iterate_loop? loop]
    exact on.runnable j (by omega)

/-- A call that returns has resumed, executed so many instructions and
paused. -/
theorem perform_of_isLoop {d : Debugger ε τ} {c : Command} (loops : c.isLoop = true)
    {patience : Nat} {q : Outcome ε τ Reply} (returns : d.perform patience c = some q) :
    ∃ n, q = outcome ⟨(advance^[n] d.resume).pause, n⟩ ∧
      (Engine.Obeys ε → ∀ i < n, (advance^[i] d.resume).state = .runnable) := by
  cases loop : d.loop? c with
  | some l =>
    obtain ⟨n, _, first, rfl⟩ := (perform_loop_eq_some_iff loop).mp returns
    rw [iterate_loop? loop]
    exact ⟨l.executed + n, rfl, fun obeys => Loop.GoesOn.runnable_resume obeys first.going loop⟩
  | none =>
    have done := terminal_of_no_loop loop loops
    rw [perform_of_terminal done (Command.isStepping_of_isLoop loops)] at returns
    cases returns
    refine ⟨0, ?_, fun _ i less => absurd less (Nat.not_lt_zero i)⟩
    rw [Function.iterate_zero_apply, resume_of_terminal done,
      pause_of_ne (ne_runnable_of_terminal done), outcome]

/-! ## What the parts keep -/

namespace Kept

variable {P : Nat → Debugger ε τ → Prop} (kept : Kept P) {n : Nat} {d : Debugger ε τ} {c : Command}

include kept

theorem of_loop? {l : Loop ε τ} (h : P n d) (loop : d.loop? c = some l) :
    P (n + l.executed) l.start := by
  rcases loop?_start loop with ⟨executed, start⟩ | ⟨live, executed, start⟩
  · rw [executed, start]
    exact kept.of_resume h
  · rw [executed, start]
    exact kept.of_resume_advance h live

theorem of_iterate {k : Nat} (h : P n d) (runnable : ∀ i < k, (advance^[i] d).state = .runnable) :
    P (n + k) (advance^[k] d) := by
  induction k with
  | zero => exact h
  | succ k ih =>
    have before := ih fun i less => runnable i (Nat.lt_succ_of_lt less)
    rw [Function.iterate_succ_apply']
    exact kept.of_advance before (by rw [runnable k (Nat.lt_succ_self k)]; rfl)

end Kept

end Debugger

end ScriptDebugger

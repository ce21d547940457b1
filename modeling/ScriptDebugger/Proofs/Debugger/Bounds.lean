/-
  What a budget bounds

  An engine may run forever, and it may ignore every request to pause. All
  that ends a call then is the budget. It does so for every engine, since it
  is about the count of executed instructions, which the debugger keeps by
  itself, and a loop looks at it before each further instruction.

  How many instructions a call may execute is its `allowance`. A step into or
  over executes one whatever the budget, so the allowance may be more than the
  budget, but no more than one.

  What is proved:
    1. `Loop.GoesOn.le_allowance` — wherever a loop gets to, the count is
       within the allowance.
    2. `exists_stopsAfter_of_limit` — a loop stops, at the latest where the
       budget is used up.
    3. `advanceUntilWord_eq` — the count may as well be a 64-bit number: it
       does not start again at 0, even if the budget is the greatest there is.
    4. `bounded_of_limit` — calls return with their allowance (`Bounded`), and
       an engine that obeys is not left runnable.

  The instructions themselves are counted in a log of the engine's calls.
-/
import ScriptDebugger.Proofs.Debugger.Requests
import ScriptDebugger.Proofs.Debugger.Stopping

namespace ScriptDebugger

open Engine (Call Logged)

namespace Command

/-- The instructions that a command may execute under a budget of `most`. -/
def allowance (most : Nat) : Command → Nat
  | .run | .stepOut => most
  | .stepOver => max most 1
  | .stepInto => 1
  | .addBreakpoint _ | .removeBreakpoint _ | .setBudget _ | .setBreakpoints _ => 0

theorem le_allowance {c : Command} (loops : c.isLoop = true) (most : Nat) :
    most ≤ c.allowance most := by
  cases c with
  | run | stepOut => exact Nat.le_refl most
  | stepOver => exact Nat.le_max_left most 1
  | stepInto | addBreakpoint | removeBreakpoint | setBudget | setBreakpoints => cases loops

theorem allowance_le (c : Command) (most : Nat) : c.allowance most ≤ max most 1 := by
  cases c with
  | run | stepOut => exact Nat.le_max_left most 1
  | stepOver => exact Nat.le_refl (max most 1)
  | stepInto => exact Nat.le_max_right most 1
  | addBreakpoint | removeBreakpoint | setBudget | setBreakpoints => exact Nat.zero_le _

end Command

namespace Debugger

variable {ε τ : Type} [Engine ε] [Tracer τ]

/-! ## Commands that do not loop -/

theorem pause_state_ne (obeys : Engine.Obeys ε) (d : Debugger ε τ) : d.pause.state ≠ .runnable := by
  have engine : d.pause.engine = Engine.pause d.engine := pause_engine d
  rw [state, engine]
  exact Engine.state_pause_ne obeys d.engine

/-- What does not loop has one outcome, however great the patience. -/
theorem perform_of_no_loop {d : Debugger ε τ} {c : Command} (no_loop : d.loop? c = none)
    (most : Nat) :
    ∃ o, (∀ patience, d.perform patience c = some o) ∧ o.executed ≤ c.allowance most ∧
      (Engine.Obeys ε → o.reply ≠ .stopped .runnable) := by
  cases c with
  | run | stepOver | stepOut =>
    have done := terminal_of_no_loop no_loop rfl
    refine ⟨_, perform_of_terminal done rfl, Nat.zero_le _, ?_⟩
    intro _ same
    exact ne_runnable_of_terminal done (Reply.stopped.inj same)
  | stepInto =>
    refine ⟨_, fun _ => rfl, ?_, ?_⟩
    · unfold stepInto
      split <;> simp [outcome, Command.allowance]
    · intro obeys same
      unfold stepInto at same
      split at same
      · rename_i done
        exact ne_runnable_of_terminal done (Reply.stopped.inj same)
      · exact pause_state_ne obeys d.execute (Reply.stopped.inj same)
  | addBreakpoint | removeBreakpoint | setBudget | setBreakpoints =>
    refine ⟨_, fun _ => rfl, Nat.le_refl 0, ?_⟩
    intro _ same
    cases same

/-- An engine that obeys is not left runnable. -/
theorem reply_ne_runnable (obeys : Engine.Obeys ε) {d : Debugger ε τ} {c : Command} {patience : Nat}
    {o : Outcome ε τ Reply} (returns : d.perform patience c = some o) :
    o.reply ≠ .stopped .runnable := by
  cases loop : d.loop? c with
  | none =>
    obtain ⟨q, always, _, not_runnable⟩ := perform_of_no_loop loop 0
    rw [always patience, Option.some.injEq] at returns
    rw [← returns]
    exact not_runnable obeys
  | some l =>
    obtain ⟨k, _, _, rfl⟩ := (perform_loop_eq_some_iff loop).mp returns
    intro same
    exact pause_state_ne obeys (advance^[k] l.start) (Reply.stopped.inj same)

/-! ## Loops under a budget -/

/-- The loop of a call with a counter that starts again at 0 after 2⁶⁴ - 1. -/
def advanceUntilWord (arrived : Nat → Bool) (patience : Nat) (executed : UInt64)
    (d : Debugger ε τ) : Option (Stop ε τ) :=
  if d.stops arrived executed.toNat then some ⟨d.pause, executed.toNat⟩
  else match patience with
    | 0 => none
    | patience + 1 => advanceUntilWord arrived patience (executed + 1) d.advance

section

variable {d : Debugger ε τ} {c : Command} {l : Loop ε τ} {n : UInt64} {k : Nat}

theorem advanceUntilWord_eq (limit : d.budget = .atMost n) (arrived : Nat → Bool) (patience : Nat)
    (executed : UInt64) :
    advanceUntilWord arrived patience executed d = advanceUntil arrived patience executed.toNat d := by
  induction patience generalizing executed d with
  | zero => rfl
  | succ patience ih =>
    unfold advanceUntilWord advanceUntil
    by_cases stop : d.stops arrived executed.toNat = true
    · rw [if_pos stop, if_pos stop]
    · have more := (stops_eq_false_iff.mp (eq_false_of_ne_true stop)).2.2
      have less : executed.toNat < n.toNat := by
        simpa [limit, Budget.atMost, Budget.exhausted] using more
      have next : (executed + 1).toNat = executed.toNat + 1 := by
        have bound := n.toNat_lt
        rw [UInt64.toNat_add, UInt64.toNat_one]
        omega
      rw [if_neg stop, if_neg stop, ← next]
      exact ih (by rw [advance_budget, limit]) (executed + 1)

theorem loop?_budget (loop : d.loop? c = some l) : l.start.budget = d.budget := by
  rcases loop?_start loop with ⟨_, start⟩ | ⟨_, _, start⟩
  · rw [start, resume_budget]
  · rw [start, advance_budget, resume_budget]

theorem loop?_executed_le (loop : d.loop? c = some l) (most : Nat) :
    l.executed ≤ c.allowance most := by
  cases c with
  | run | stepOut =>
    cases loop
    exact Nat.zero_le most
  | stepOver =>
    obtain ⟨_, rfl⟩ := loop?_stepOver.mp loop
    exact Nat.le_max_right most 1
  | stepInto | addBreakpoint | removeBreakpoint | setBudget | setBreakpoints => cases loop

variable (limit : d.budget = .atMost n) (loop : d.loop? c = some l)

include limit loop

/-- A loop looks at the budget of the debugger all along. -/
theorem exhausted_iterate (k executed : Nat) :
    (advance^[k] l.start).budget.exhausted executed = true ↔ n.toNat ≤ executed := by
  rw [iterate_advance_budget, loop?_budget loop, limit]
  simp [Budget.atMost, Budget.exhausted]

theorem Loop.GoesOn.le_allowance (on : l.GoesOn k) : l.executed + k ≤ c.allowance n.toNat := by
  cases k with
  | zero => exact loop?_executed_le loop n.toNat
  | succ k =>
    -- Before the last instruction the budget was not used up.
    have more := (stops_eq_false_iff.mp (on k (Nat.lt_succ_self k))).2.2
    have less : ¬ n.toNat ≤ l.executed + k := by
      intro reached
      rw [(exhausted_iterate limit loop k _).mpr reached] at more
      cases more
    have within := Command.le_allowance (isLoop_of_loop? loop) n.toNat
    omega

theorem exists_stopsAfter_of_limit : ∃ k ≤ n.toNat, StopsAfter l.arrived l.executed k l.start := by
  apply StopsAfter.exists_first
  rw [stops_iff, exhausted_iterate limit loop]
  exact .inr (.inr (Nat.le_add_left n.toNat l.executed))

end

/-! ## Calls under a budget -/

section

variable {d : Debugger ε τ} {n : UInt64} (limit : d.budget = .atMost n) {c : Command}

include limit

theorem perform_returns : ∃ o, ∀ patience, n.toNat ≤ patience → d.perform patience c = some o := by
  cases loop : d.loop? c with
  | none =>
    obtain ⟨o, always, _⟩ := perform_of_no_loop loop n.toNat
    exact ⟨o, fun patience _ => always patience⟩
  | some l =>
    obtain ⟨k, le, first⟩ := exists_stopsAfter_of_limit limit loop
    refine ⟨outcome ⟨(advance^[k] l.start).pause, l.executed + k⟩, ?_⟩
    intro patience enough
    exact (perform_loop_eq_some_iff loop).mpr ⟨k, Nat.le_trans le enough, first, rfl⟩

theorem perform_executed_le {patience : Nat} {o : Outcome ε τ Reply}
    (returns : d.perform patience c = some o) : o.executed ≤ c.allowance n.toNat := by
  cases loop : d.loop? c with
  | none =>
    obtain ⟨q, always, le, _⟩ := perform_of_no_loop loop n.toNat
    rw [always patience, Option.some.injEq] at returns
    rwa [← returns]
  | some l =>
    obtain ⟨k, _, first, rfl⟩ := (perform_loop_eq_some_iff loop).mp returns
    exact Loop.GoesOn.le_allowance limit loop first.going

end

/-! ## Instructions in a log -/

/-- As many instructions are logged as are executed. -/
theorem kept_countP : Kept fun m (d : Debugger (Logged ε) τ) =>
    d.engine.calls.countP Call.isExecute = m := by
  apply Kept.of_engine (P := fun m (e : Logged ε) => e.calls.countP Call.isExecute = m)
  case execute =>
    rintro m e rfl _
    exact List.countP_append
  case pause | resume =>
    rintro m e rfl _
    exact List.countP_append
  case resumeExecute =>
    rintro m e rfl _
    simp [Engine.execute, Engine.setState, Call.isExecute]

theorem perform_withLog {d : Debugger ε τ} {c : Command} {patience : Nat} {o : Outcome ε τ Reply}
    (returns : d.perform patience c = some o) :
    ∃ calls, (d.withLog []).perform patience c =
        some ⟨o.reply, o.debugger.withLog calls, o.executed⟩ ∧
      calls.countP Call.isExecute = o.executed := by
  have same := (Engine.forget_log τ).translate_perform (d.withLog []) patience c
  have start : (d.withLog []).translate Logged.engine id = d := rfl
  rw [start, returns] at same
  obtain ⟨o', logged, rfl⟩ := Option.map_eq_some_iff.mp same.symm
  have count := kept_countP.of_perform rfl logged
  exact ⟨o'.debugger.engine.calls, logged, count.trans (Nat.zero_add o'.executed)⟩

theorem countP_of_reaches {d : Debugger ε τ} {n : UInt64} (limit : d.budget = .atMost n)
    {c : Command} {e : Debugger (Logged ε) τ} (reaches : (d.withLog []).Reaches c e) :
    e.engine.calls.countP Call.isExecute ≤ c.allowance n.toNat := by
  have limit : (d.withLog []).budget = .atMost n := limit
  have fresh : (d.withLog []).engine.calls.countP Call.isExecute = 0 := rfl
  cases reaches with
  | @going l k loop on =>
    have count := kept_countP.of_iterate (kept_countP.of_loop? fresh loop) on.runnable
    rw [count, Nat.zero_add]
    exact on.le_allowance limit loop
  | returned returns =>
    have count := kept_countP.of_perform fresh returns
    rw [count, Nat.zero_add]
    exact perform_executed_le limit returns

/-! ## The bounds of a call -/

/-- Call `c` executes no more than its allowance under a budget of `most`,
whatever the engine does. -/
structure Bounded (d : Debugger ε τ) (c : Command) (most : Nat) : Prop where
  /-- The call returns, for an engine with a log and for one without. -/
  returns : ∃ o calls, o.executed = calls.countP Call.isExecute ∧
    o.executed ≤ c.allowance most ∧
    ∀ patience, most ≤ patience → d.perform patience c = some o ∧
      (d.withLog []).perform patience c = some ⟨o.reply, o.debugger.withLog calls, o.executed⟩
  /-- Nor does it execute more than that before it returns. -/
  underway : ∀ e, (d.withLog []).Reaches c e →
    e.engine.calls.countP Call.isExecute ≤ c.allowance most
  /-- Nor does its loop ever count further than the budget, or one. -/
  counter : ∀ l, d.loop? c = some l → ∀ k, l.GoesOn k → l.executed + k ≤ max most 1
  /-- So it may as well count with a number of 64 bits. -/
  word : ∀ l, d.loop? c = some l → ∀ patience,
    advanceUntilWord l.arrived patience (.ofNat l.executed) l.start =
      advanceUntil l.arrived patience l.executed l.start
  stopped : Engine.Obeys ε → ∀ patience o, d.perform patience c = some o →
    o.reply ≠ .stopped .runnable

/-- Under a budget every call is bounded, on every engine. -/
theorem bounded_of_limit {d : Debugger ε τ} {n : UInt64} (limit : d.budget = .atMost n)
    (c : Command) : d.Bounded c n.toNat where
  returns := by
    obtain ⟨o, returns⟩ := perform_returns (c := c) limit
    have call := returns n.toNat (Nat.le_refl n.toNat)
    obtain ⟨calls, logged, count⟩ := perform_withLog call
    refine ⟨o, calls, count.symm, perform_executed_le limit call, ?_⟩
    intro patience enough
    exact ⟨returns patience enough, perform_mono logged enough⟩
  underway e reaches := countP_of_reaches limit reaches
  counter l loop k on := Nat.le_trans (on.le_allowance limit loop) (c.allowance_le n.toNat)
  word l loop patience := by
    have small : (UInt64.ofNat l.executed).toNat = l.executed := by
      have le : l.executed ≤ max 0 1 := Nat.le_trans (loop?_executed_le loop 0) (c.allowance_le 0)
      apply UInt64.toNat_ofNat_of_lt'
      rw [UInt64.size]
      omega
    rw [advanceUntilWord_eq (by rw [loop?_budget loop, limit]), small]
  stopped obeys patience o returns := reply_ne_runnable obeys returns

/-- A playback that stays runnable for ever, one call deep, and is not to be
paused. -/
def treadmill : Debugger Playback Silent :=
  ⟨.start ⟨.runnable, 1, none⟩ [⟨.runnable, 2, none⟩] true true, .empty, .atMost 3, .silent⟩

/-- On a treadmill a call uses up its budget and leaves the playback runnable;
a machine is paused. -/
theorem treadmill_bounded :
    let m : Debugger Machine Silent := ⟨.inner, .empty, .atMost 2, .silent⟩
    treadmill.Bounded .run 3 ∧ treadmill.Bounded .stepOver 3 ∧ treadmill.Bounded .stepOut 3 ∧
      (treadmill.perform 3 .run).map (fun o => (o.reply, o.executed)) =
        some (.stopped .runnable, 3) ∧
      (treadmill.perform 3 .stepOver).map (fun o => (o.reply, o.executed)) =
        some (.stopped .runnable, 3) ∧
      (∃ o, m.perform 2 .stepOut = some o ∧ o.executed ≤ 2 ∧ o.reply ≠ .stopped .runnable) := by
  intro m
  have limit : treadmill.budget = .atMost 3 := rfl
  have machine := bounded_of_limit (d := m) rfl .stepOut
  obtain ⟨o, _, _, le, returns⟩ := machine.returns
  have call := (returns 2 (Nat.le_refl 2)).1
  refine ⟨bounded_of_limit limit .run, bounded_of_limit limit .stepOver,
    bounded_of_limit limit .stepOut, by decide, by decide, o, call, le, ?_⟩
  exact machine.stopped Machine.keepsDepth.toObeys 2 o call

end Debugger

end ScriptDebugger

/-
  What a session keeps

  A session does to a debugger what its commands do, one after another, and a
  stepping call is made of a few parts. `Kept P` says of each part that it
  keeps `P n`, which may speak of the number `n` of instructions executed so
  far and of all that the debugger holds. A part is only asked to keep what it
  is given where it is used: an instruction is executed in no terminal state,
  and a run state is set only to pause a runnable engine or to resume a paused
  one.

  `Kept.of_performAll` is the induction over whole sessions: what the parts keep,
  every session keeps, whatever its commands and however long its calls take.
  How much patience there is for a call plays no part (`performAll_mono`).
-/
import ScriptDebugger.Debugger.Session
import ScriptDebugger.Proofs.Debugger.Loop

namespace ScriptDebugger

namespace Debugger

variable {ε τ : Type} [Engine ε] [Tracer τ]

/-- A session that returns is its first command and the session of the
others. -/
theorem performAll_cons_eq_some {patience : Nat} {d : Debugger ε τ} {c : Command}
    {commands : List Command} {o : Outcome ε τ (List Reply)}
    (h : d.performAll patience (c :: commands) = some o) :
    ∃ first, d.perform patience c = some first ∧
      ∃ others, first.debugger.performAll patience commands = some others ∧
        o = ⟨first.reply :: others.reply, others.debugger, first.executed + others.executed⟩ := by
  unfold performAll at h
  obtain ⟨first, returns, h⟩ := Option.bind_eq_some_iff.mp h
  obtain ⟨others, later, h⟩ := Option.bind_eq_some_iff.mp h
  cases h
  exact ⟨first, returns, others, later, rfl⟩

/-- A session goes on from where an earlier one has left the debugger. -/
theorem performAll_append {patience : Nat} {d : Debugger ε τ} {earlier later : List Command}
    {o : Outcome ε τ (List Reply)} (h : d.performAll patience earlier = some o) :
    d.performAll patience (earlier ++ later) = (o.debugger.performAll patience later).map fun o' =>
      ⟨o.reply ++ o'.reply, o'.debugger, o.executed + o'.executed⟩ := by
  induction earlier generalizing d o with
  | nil =>
    cases h
    simp
  | cons c earlier ih =>
    obtain ⟨first, now, others, rest, rfl⟩ := performAll_cons_eq_some h
    rw [List.cons_append, performAll, now, Option.bind_eq_bind, Option.bind_some, ih rest]
    cases others.debugger.performAll patience later with
    | none => rfl
    | some last => simp [Nat.add_assoc]

/-! ## Patience -/

theorem stepOver_mono {patience more : Nat} {d : Debugger ε τ} {s : Stop ε τ}
    (h : d.stepOver patience = some s) (enough : patience ≤ more) : d.stepOver more = some s := by
  unfold stepOver at h ⊢
  by_cases terminal : d.state.isTerminal = true
  · rwa [if_pos terminal] at h ⊢
  · rw [if_neg terminal] at h ⊢
    exact advanceUntil_mono h enough

theorem perform_mono {patience more : Nat} {d : Debugger ε τ} {c : Command}
    {o : Outcome ε τ Reply} (h : d.perform patience c = some o) (enough : patience ≤ more) :
    d.perform more c = some o := by
  cases c with
  | run =>
    obtain ⟨s, returns, rfl⟩ := Option.map_eq_some_iff.mp h
    exact Option.map_eq_some_iff.mpr ⟨s, advanceUntil_mono returns enough, rfl⟩
  | stepOver =>
    obtain ⟨s, returns, rfl⟩ := Option.map_eq_some_iff.mp h
    exact Option.map_eq_some_iff.mpr ⟨s, stepOver_mono returns enough, rfl⟩
  | stepOut =>
    obtain ⟨s, returns, rfl⟩ := Option.map_eq_some_iff.mp h
    exact Option.map_eq_some_iff.mpr ⟨s, advanceUntil_mono returns enough, rfl⟩
  | _ => exact h

/-- Greater patience changes nothing about a session that returns. So one
patience for all its calls is no restriction. -/
theorem performAll_mono {patience more : Nat} {d : Debugger ε τ} {commands : List Command}
    {o : Outcome ε τ (List Reply)} (h : d.performAll patience commands = some o)
    (enough : patience ≤ more) : d.performAll more commands = some o := by
  induction commands generalizing d o with
  | nil => exact h
  | cons c commands ih =>
    obtain ⟨first, now, others, later, rfl⟩ := performAll_cons_eq_some h
    unfold performAll
    rw [perform_mono now enough, Option.bind_eq_bind, Option.bind_some, ih later]
    rfl

/-! ## What the parts keep -/

/-- Every part of a session keeps `P`. -/
structure Kept (P : Nat → Debugger ε τ → Prop) : Prop where
  execute : ∀ {n d}, P n d → d.state.isTerminal = false → P (n + 1) d.execute
  hit : ∀ {n d l}, P n d → d.hit? = some l → P n ((d.report (.hit l)).forceState .paused)
  pause : ∀ {n d}, P n d → d.state = .runnable → P n (d.forceState .paused)
  resume : ∀ {n d}, P n d → d.state = .paused → P n (d.forceState .runnable)
  /-- Stepping over resumes and executes, whatever state the engine shows in
  between. -/
  resumeExecute : ∀ {n d}, P n d → d.state = .paused → P (n + 1) (d.forceState .runnable).execute
  addBreakpoint : ∀ {n d} l, P n d → P n (d.addBreakpoint l)
  removeBreakpoint : ∀ {n d} l, P n d → P n (d.removeBreakpoint l).2
  setBudget : ∀ {n d} budget, P n d → P n { d with budget }
  setBreakpoints : ∀ {n d} breakpoints, P n d → P n { d with breakpoints }

omit [Engine ε] in
@[simp] theorem addBreakpoint_engine (l : Location) (d : Debugger ε τ) :
    (d.addBreakpoint l).engine = d.engine := by
  unfold addBreakpoint
  split <;> rfl

omit [Engine ε] in
@[simp] theorem removeBreakpoint_engine (l : Location) (d : Debugger ε τ) :
    (d.removeBreakpoint l).2.engine = d.engine := by
  unfold removeBreakpoint
  split <;> rfl

/-- What only speaks of the engine is kept if executing, pausing and resuming
keep it. -/
theorem Kept.of_engine {P : Nat → ε → Prop}
    (execute : ∀ {n e}, P n e → (Engine.state e).isTerminal = false → P (n + 1) (Engine.execute e))
    (pause : ∀ {n e}, P n e → Engine.state e = .runnable → P n (Engine.setState .paused e))
    (resume : ∀ {n e}, P n e → Engine.state e = .paused → P n (Engine.setState .runnable e))
    (resumeExecute : ∀ {n e}, P n e → Engine.state e = .paused →
      P (n + 1) (Engine.execute (Engine.setState .runnable e))) :
    Kept fun n (d : Debugger ε τ) => P n d.engine where
  execute h live := execute h live
  hit {n d l} h hit := by
    have runnable : (d.report (.hit l)).state = .runnable := state_of_hit? hit
    rw [forceState_of_ne (by rw [runnable]; decide)]
    exact pause h runnable
  pause {n d} h runnable := by
    rw [forceState_of_ne (by rw [runnable]; decide)]
    exact pause h runnable
  resume {n d} h paused := by
    rw [forceState_of_ne (by rw [paused]; decide)]
    exact resume h paused
  resumeExecute {n d} h paused := by
    rw [forceState_of_ne (by rw [paused]; decide)]
    exact resumeExecute h paused
  addBreakpoint l h := by rwa [addBreakpoint_engine]
  removeBreakpoint l h := by rwa [removeBreakpoint_engine]
  setBudget _ h := h
  setBreakpoints _ h := h

namespace Kept

variable {P : Nat → Debugger ε τ → Prop} (kept : Kept P) {n patience : Nat} {d : Debugger ε τ}

include kept

/-! ## Stepping calls -/

theorem of_resume (h : P n d) : P n d.resume := by
  by_cases paused : d.state = .paused
  · rw [resume_of_paused paused]
    exact kept.resume h paused
  · rwa [resume_of_ne paused]

theorem of_pause (h : P n d) : P n d.pause := by
  by_cases runnable : d.state = .runnable
  · rw [pause_of_runnable runnable]
    exact kept.pause h runnable
  · rwa [pause_of_ne runnable]

theorem of_checkHit (h : P n d) : P n d.checkHit := by
  unfold checkHit
  split
  · exact h
  · rename_i hit
    exact kept.hit h hit

theorem of_advance (h : P n d) (live : d.state.isTerminal = false) : P (n + 1) d.advance :=
  kept.of_checkHit (kept.execute h live)

theorem of_advanceUntil {arrived : Nat → Bool} {executed : Nat} {s : Stop ε τ}
    (h : P (n + executed) d) (returns : advanceUntil arrived patience executed d = some s) :
    P (n + s.executed) s.debugger := by
  -- The loop counts its own instructions, `P` those of the whole session.
  have step : ∀ k e, P (n + k) e → e.stops arrived k = false → P (n + (k + 1)) e.advance := by
    intro k e h going
    have runnable := (stops_eq_false_iff.mp going).1
    exact kept.of_advance h (by rw [runnable]; rfl)
  obtain ⟨e, h, _, same⟩ := advanceUntil_rule (P := fun k e => P (n + k) e) step h returns
  rw [same]
  exact kept.of_pause h

theorem of_run {s : Stop ε τ} (h : P n d) (returns : d.run patience = some s) :
    P (n + s.executed) s.debugger := by
  have start : P (n + 0) d.resume := kept.of_resume h
  exact kept.of_advanceUntil start returns

theorem of_stepInto (h : P n d) : P (n + d.stepInto.executed) d.stepInto.debugger := by
  unfold stepInto
  split
  · exact h
  · rename_i live
    exact kept.of_pause (kept.execute h (eq_false_of_ne_true live))

/-- What stepping over does before it looks where it is. -/
theorem of_resume_advance (h : P n d) (live : d.state.isTerminal = false) :
    P (n + 1) d.resume.advance := by
  -- Not by `resume` and then `execute`: an engine need not obey, and could be
  -- in a terminal state in between.
  have first : P (n + 1) d.resume.execute := by
    by_cases paused : d.state = .paused
    · rw [resume_of_paused paused]
      exact kept.resumeExecute h paused
    · rw [resume_of_ne paused]
      exact kept.execute h live
  exact kept.of_checkHit first

theorem of_stepOver {s : Stop ε τ} (h : P n d) (returns : d.stepOver patience = some s) :
    P (n + s.executed) s.debugger := by
  unfold stepOver at returns
  split at returns
  · cases returns
    exact h
  · rename_i live
    exact kept.of_advanceUntil (kept.of_resume_advance h (eq_false_of_ne_true live)) returns

theorem of_stepOut {s : Stop ε τ} (h : P n d) (returns : d.stepOut patience = some s) :
    P (n + s.executed) s.debugger := by
  have start : P (n + 0) d.resume := kept.of_resume h
  exact kept.of_advanceUntil start returns

/-! ## Sessions -/

theorem of_perform {c : Command} {o : Outcome ε τ Reply} (h : P n d)
    (returns : d.perform patience c = some o) : P (n + o.executed) o.debugger := by
  cases c with
  | run =>
    obtain ⟨s, stops, rfl⟩ := Option.map_eq_some_iff.mp returns
    exact kept.of_run h stops
  | stepInto =>
    cases returns
    exact kept.of_stepInto h
  | stepOver =>
    obtain ⟨s, stops, rfl⟩ := Option.map_eq_some_iff.mp returns
    exact kept.of_stepOver h stops
  | stepOut =>
    obtain ⟨s, stops, rfl⟩ := Option.map_eq_some_iff.mp returns
    exact kept.of_stepOut h stops
  | addBreakpoint l =>
    cases returns
    exact kept.addBreakpoint l h
  | removeBreakpoint l =>
    cases returns
    exact kept.removeBreakpoint l h
  | setBudget budget =>
    cases returns
    exact kept.setBudget budget h
  | setBreakpoints breakpoints =>
    cases returns
    exact kept.setBreakpoints breakpoints h

/-- What the parts keep, every session keeps. -/
theorem of_performAll {commands : List Command} {o : Outcome ε τ (List Reply)} (h : P n d)
    (returns : d.performAll patience commands = some o) : P (n + o.executed) o.debugger := by
  induction commands generalizing n d o with
  | nil =>
    cases returns
    exact h
  | cons c commands ih =>
    obtain ⟨first, now, others, later, rfl⟩ := performAll_cons_eq_some returns
    have := ih (kept.of_perform h now) later
    rwa [Nat.add_assoc] at this

end Kept

end Debugger

end ScriptDebugger

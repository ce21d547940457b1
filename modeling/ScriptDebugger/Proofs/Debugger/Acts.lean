/-
  What a debugger does

  A debugger has its engine execute an instruction, asks it for a run state,
  and tells its tracer of an event, and it does nothing else to the two. What
  a part of a session does is a list of such acts. It is given by a function
  that goes the way of the part, so that the acts are in the order in which
  they are done: `forceStateActs`, `advanceActs`, `advanceUntilActs` and the
  others, up to `performActs` for a command and `sessionActs` for a session.
  `callActs` are the acts of a call that is under way and may never return.

  `play` carries out acts in order. What is proved:
    1. `play_performActs`, `play_sessionActs`, `play_callActs` — each part of a
       session carries out its acts and does nothing more, whatever the engine
       and the tracer.
    2. `play_calls`, `play_events` — where the engine logs the calls made to it
       and the tracer records what it is told, log and record show which acts
       were carried out.
-/
import ScriptDebugger.Proofs.Debugger.Record
import ScriptDebugger.Proofs.Debugger.Underway

namespace ScriptDebugger

open Engine (Call Logged)

namespace Debugger

/-- One thing that a debugger does. -/
inductive Act where
  | execute
  | setState (s : RunState)
  | tell (e : Event)
  /-- The debugger is given other breakpoints or another budget. -/
  | configure (breakpoints : Breakpoints) (budget : Budget)

namespace Act

/-- Whether the act is a call of the engine. -/
def isCall : Act → Bool
  | .execute | .setState _ => true
  | .tell _ | .configure .. => false

def told? : Act → Option Event
  | .tell e => some e
  | _ => none

end Act

variable {ε τ : Type} [Engine ε] [Tracer τ]

def act (d : Debugger ε τ) : Act → Debugger ε τ
  | .execute => { d with engine := Engine.execute d.engine }
  | .setState s => { d with engine := Engine.setState s d.engine }
  | .tell e => d.report e
  | .configure breakpoints budget => { d with breakpoints, budget }

/-- Carries out acts in order. -/
def play (d : Debugger ε τ) (acts : List Act) : Debugger ε τ := acts.foldl act d

theorem play_append (d : Debugger ε τ) (earlier later : List Act) :
    d.play (earlier ++ later) = (d.play earlier).play later := List.foldl_append

/-! ## The parts of a call -/

def forceStateActs (target : RunState) (d : Debugger ε τ) : List Act :=
  if d.state = target then [] else [.setState target, .tell (.stateChange d.state target)]

theorem play_forceStateActs (target : RunState) (d : Debugger ε τ) :
    d.play (d.forceStateActs target) = d.forceState target := by
  unfold forceStateActs forceState
  split <;> rfl

def resumeActs (d : Debugger ε τ) : List Act :=
  if d.state = .paused then d.forceStateActs .runnable else []

theorem play_resumeActs (d : Debugger ε τ) : d.play d.resumeActs = d.resume := by
  unfold resumeActs resume
  split
  · exact play_forceStateActs .runnable d
  · rfl

def pauseActs (d : Debugger ε τ) : List Act :=
  if d.state = .runnable then d.forceStateActs .paused else []

theorem play_pauseActs (d : Debugger ε τ) : d.play d.pauseActs = d.pause := by
  unfold pauseActs pause
  split
  · exact play_forceStateActs .paused d
  · rfl

def executeActs (d : Debugger ε τ) : List Act :=
  [.execute, .tell (.step d.execute.depth d.execute.state)]

theorem play_executeActs (d : Debugger ε τ) : d.play d.executeActs = d.execute := rfl

def checkHitActs (d : Debugger ε τ) : List Act :=
  match d.hit? with
  | none => []
  | some l => .tell (.hit l) :: (d.report (.hit l)).forceStateActs .paused

theorem play_checkHitActs (d : Debugger ε τ) : d.play d.checkHitActs = d.checkHit := by
  unfold checkHitActs checkHit
  cases d.hit? with
  | none => rfl
  | some l => exact play_forceStateActs .paused (d.report (.hit l))

def advanceActs (d : Debugger ε τ) : List Act := d.executeActs ++ d.execute.checkHitActs

theorem play_advanceActs (d : Debugger ε τ) : d.play d.advanceActs = d.advance := by
  rw [advanceActs, play_append, play_executeActs, play_checkHitActs, advance]

/-- The acts of so many instructions, if the debugger advances by each. -/
def actsOf : Nat → Debugger ε τ → List Act
  | 0, _ => []
  | n + 1, d => d.advanceActs ++ actsOf n d.advance

theorem play_actsOf (n : Nat) (d : Debugger ε τ) : d.play (actsOf n d) = advance^[n] d := by
  induction n generalizing d with
  | zero => rfl
  | succ n ih => rw [actsOf, play_append, play_advanceActs, ih, Function.iterate_succ_apply]

/-- The acts of a loop within the patience, with the pause where it stops. -/
def advanceUntilActs (arrived : Nat → Bool) (patience executed : Nat) (d : Debugger ε τ) :
    List Act :=
  if d.stops arrived executed then d.pauseActs
  else match patience with
    | 0 => []
    | patience + 1 => d.advanceActs ++ advanceUntilActs arrived patience (executed + 1) d.advance

theorem play_advanceUntilActs {arrived : Nat → Bool} {patience executed : Nat} {d : Debugger ε τ}
    {s : Stop ε τ} (returns : advanceUntil arrived patience executed d = some s) :
    d.play (advanceUntilActs arrived patience executed d) = s.debugger := by
  fun_induction advanceUntil arrived patience executed d with
  | case1 patience executed d stop =>
    unfold advanceUntilActs
    rw [if_pos stop]
    cases returns
    exact play_pauseActs d
  | case2 executed d going => cases returns
  | case3 executed d going patience ih =>
    unfold advanceUntilActs
    rw [if_neg going, play_append, play_advanceActs]
    exact ih returns

/-! ## Commands and sessions -/

def runActs (patience : Nat) (d : Debugger ε τ) : List Act :=
  d.resumeActs ++ advanceUntilActs (fun _ => false) patience 0 d.resume

theorem play_runActs {patience : Nat} {d : Debugger ε τ} {s : Stop ε τ}
    (returns : d.run patience = some s) : d.play (d.runActs patience) = s.debugger := by
  rw [runActs, play_append, play_resumeActs]
  exact play_advanceUntilActs returns

def stepIntoActs (d : Debugger ε τ) : List Act :=
  if d.state.isTerminal then [] else d.executeActs ++ d.execute.pauseActs

theorem play_stepIntoActs (d : Debugger ε τ) : d.play d.stepIntoActs = d.stepInto.debugger := by
  unfold stepIntoActs stepInto
  split
  · rfl
  · rw [play_append, play_executeActs, play_pauseActs]

def stepOverActs (patience : Nat) (d : Debugger ε τ) : List Act :=
  if d.state.isTerminal then []
  else
    let start := d.resume
    d.resumeActs ++
      (start.advanceActs ++ advanceUntilActs (· ≤ start.depth) patience 1 start.advance)

theorem play_stepOverActs {patience : Nat} {d : Debugger ε τ} {s : Stop ε τ}
    (returns : d.stepOver patience = some s) : d.play (d.stepOverActs patience) = s.debugger := by
  unfold stepOver at returns
  unfold stepOverActs
  by_cases done : d.state.isTerminal = true
  · rw [if_pos done] at returns ⊢
    cases returns
    rfl
  · rw [if_neg done] at returns ⊢
    rw [play_append, play_resumeActs, play_append, play_advanceActs]
    exact play_advanceUntilActs returns

def stepOutActs (patience : Nat) (d : Debugger ε τ) : List Act :=
  let start := d.resume
  d.resumeActs ++ advanceUntilActs (· < start.depth) patience 0 start

theorem play_stepOutActs {patience : Nat} {d : Debugger ε τ} {s : Stop ε τ}
    (returns : d.stepOut patience = some s) : d.play (d.stepOutActs patience) = s.debugger := by
  unfold stepOutActs
  rw [play_append, play_resumeActs]
  exact play_advanceUntilActs returns

omit [Engine ε] [Tracer τ] in
def addBreakpointActs (l : Location) (d : Debugger ε τ) : List Act :=
  match d.breakpoints.insert l with
  | (true, breakpoints) => [.configure breakpoints d.budget, .tell (.added l)]
  | (false, breakpoints) => [.configure breakpoints d.budget]

theorem play_addBreakpointActs (l : Location) (d : Debugger ε τ) :
    d.play (d.addBreakpointActs l) = d.addBreakpoint l := by
  unfold addBreakpointActs addBreakpoint
  obtain ⟨added, breakpoints⟩ := d.breakpoints.insert l
  cases added <;> rfl

omit [Engine ε] [Tracer τ] in
def removeBreakpointActs (l : Location) (d : Debugger ε τ) : List Act :=
  match d.breakpoints.remove l with
  | (true, breakpoints) => [.configure breakpoints d.budget, .tell (.removed l)]
  | (false, breakpoints) => [.configure breakpoints d.budget]

theorem play_removeBreakpointActs (l : Location) (d : Debugger ε τ) :
    d.play (d.removeBreakpointActs l) = (d.removeBreakpoint l).2 := by
  unfold removeBreakpointActs removeBreakpoint
  obtain ⟨present, breakpoints⟩ := d.breakpoints.remove l
  cases present <;> rfl

/-- The acts of a command within the patience. -/
def performActs (patience : Nat) (d : Debugger ε τ) : Command → List Act
  | .run => d.runActs patience
  | .stepInto => d.stepIntoActs
  | .stepOver => d.stepOverActs patience
  | .stepOut => d.stepOutActs patience
  | .addBreakpoint l => d.addBreakpointActs l
  | .removeBreakpoint l => d.removeBreakpointActs l
  | .setBudget budget => [.configure d.breakpoints budget]
  | .setBreakpoints breakpoints => [.configure breakpoints d.budget]

theorem play_performActs {patience : Nat} {d : Debugger ε τ} {c : Command} {o : Outcome ε τ Reply}
    (returns : d.perform patience c = some o) : d.play (d.performActs patience c) = o.debugger := by
  cases c with
  | run =>
    obtain ⟨s, stops, rfl⟩ := Option.map_eq_some_iff.mp returns
    exact play_runActs stops
  | stepInto =>
    cases returns
    exact play_stepIntoActs d
  | stepOver =>
    obtain ⟨s, stops, rfl⟩ := Option.map_eq_some_iff.mp returns
    exact play_stepOverActs stops
  | stepOut =>
    obtain ⟨s, stops, rfl⟩ := Option.map_eq_some_iff.mp returns
    exact play_stepOutActs stops
  | addBreakpoint l =>
    cases returns
    exact play_addBreakpointActs l d
  | removeBreakpoint l =>
    cases returns
    exact play_removeBreakpointActs l d
  | setBudget | setBreakpoints =>
    cases returns
    rfl

/-- The acts of a session, each call within the patience. -/
def sessionActs (patience : Nat) (d : Debugger ε τ) : List Command → List Act
  | [] => []
  | command :: commands =>
    d.performActs patience command ++
      match d.perform patience command with
      | none => []
      | some o => sessionActs patience o.debugger commands

theorem play_sessionActs {patience : Nat} {d : Debugger ε τ} {commands : List Command}
    {o : Outcome ε τ (List Reply)} (returns : d.performAll patience commands = some o) :
    d.play (sessionActs patience d commands) = o.debugger := by
  induction commands generalizing d o with
  | nil =>
    cases returns
    rfl
  | cons c commands ih =>
    obtain ⟨first, now, others, later, rfl⟩ := performAll_cons_eq_some returns
    have rest := ih later
    rw [sessionActs, play_append, play_performActs now, now]
    exact rest

/-- The acts of a call that has executed so many instructions and is under
way. -/
def callActs (n : Nat) (d : Debugger ε τ) : List Act := d.resumeActs ++ actsOf n d.resume

theorem play_callActs {d : Debugger ε τ} {c : Command} {l : Loop ε τ} (loop : d.loop? c = some l)
    (n : Nat) : d.play (callActs (l.executed + n) d) = advance^[n] l.start := by
  rw [callActs, play_append, play_resumeActs, play_actsOf, iterate_loop? loop]

/-! ## Acts in a log and in a record -/

/-- What the debugger did when it made a call of the engine. -/
def actOf : Call → Act
  | .execute .. => .execute
  | .setState _ requested _ => .setState requested

theorem play_calls (d : Debugger (Logged ε) τ) (acts : List Act) :
    (d.play acts).engine.calls.map actOf = d.engine.calls.map actOf ++ acts.filter Act.isCall := by
  induction acts generalizing d with
  | nil => simp [play]
  | cons a acts ih =>
    have first : (d.act a).engine.calls.map actOf =
        d.engine.calls.map actOf ++ [a].filter Act.isCall := by
      cases a with
      | execute | setState _ => exact List.map_append
      | tell _ | configure _ _ => exact (List.append_nil _).symm
    calc (d.play (a :: acts)).engine.calls.map actOf
        = ((d.act a).play acts).engine.calls.map actOf := rfl
      _ = d.engine.calls.map actOf ++ ([a].filter Act.isCall ++ acts.filter Act.isCall) := by
        rw [ih, first, List.append_assoc]
      _ = d.engine.calls.map actOf ++ (a :: acts).filter Act.isCall := by
        rw [← List.filter_append, List.singleton_append]

theorem play_tracer (d : Debugger ε τ) (acts : List Act) :
    (d.play acts).tracer = Tracer.observeAll d.tracer (acts.filterMap Act.told?) := by
  induction acts generalizing d with
  | nil => rfl
  | cons a acts ih => cases a <;> exact ih _

theorem play_events {d : Debugger ε Recorder} (unlimited : d.tracer.limit = none) (acts : List Act) :
    (d.play acts).tracer.events.toList = d.tracer.events.toList ++ acts.filterMap Act.told? := by
  rw [play_tracer, (Recorder.observeAll_of_unlimited unlimited _).2]

/-- No session limits a recorder. -/
theorem unlimited_of_performAll {d : Debugger ε Recorder} (unlimited : d.tracer.limit = none)
    {patience : Nat} {commands : List Command} {o : Outcome ε Recorder (List Reply)}
    (session : d.performAll patience commands = some o) : o.debugger.tracer.limit = none := by
  rw [← play_sessionActs session, play_tracer]
  exact (Recorder.observeAll_of_unlimited unlimited _).1

end Debugger

end ScriptDebugger

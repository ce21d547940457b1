/-
  The record is faithful

  A recorder without a limit sees all that a debugger does to its engine. To
  say so, the engine keeps a log of its own: `Logged` adds to any engine the
  list of the calls that may change it, each with what the engine showed. What
  a debugger does is the same with the log and without it (`forget_log`).

  The invariant is `Recorded`, which speaks of the log and of the recorded
  events side by side: a call is reported by one event, in order; what an
  event announces is what the engine shows after the call; and a change of
  state starts from the state announced before it. Each part of a session
  keeps it (`kept_recorded`), for every engine that shows the run state it was
  asked for, whatever it does when it executes an instruction. So it holds
  after each call of a session (`session_recorded`).
-/
import ScriptDebugger.Proofs.Debugger.Events
import ScriptDebugger.Proofs.Debugger.Session
import ScriptDebugger.Proofs.Debugger.Translation
import ScriptDebugger.Proofs.Machine.Frames

namespace ScriptDebugger

/-! ## Engines with a log -/

namespace Engine

/-- A call that may change an engine. -/
inductive Call where
  /-- An instruction is executed; the depth and the state are those shown right
  after it. -/
  | execute (depth : Nat) (shown : RunState)
  /-- A run state is asked for; the others are those shown right before and
  right after it. -/
  | setState (old requested shown : RunState)
  deriving DecidableEq, Repr

namespace Call

def isExecute : Call → Bool
  | .execute .. => true
  | .setState .. => false

/-- The run state that the engine shows right after the call. -/
def shown : Call → RunState
  | .execute _ shown => shown
  | .setState _ _ shown => shown

/-- The event that reports the call. -/
def event : Call → Event
  | .execute depth shown => .step depth shown
  | .setState old requested _ => .stateChange old requested

end Call

/-- An engine with the calls that were made to it, in order. -/
structure Logged (ε : Type) where
  engine : ε
  calls : List Call

variable {ε : Type} [Engine ε]

instance : Engine (Logged ε) where
  state e := state e.engine
  setState s e :=
    let next := setState s e.engine
    ⟨next, e.calls ++ [.setState (state e.engine) s (state next)]⟩
  depth e := depth e.engine
  context? e := context? e.engine
  execute e :=
    let next := execute e.engine
    ⟨next, e.calls ++ [.execute (depth next) (state next)]⟩

theorem forget_log (τ : Type) [Tracer τ] : Translation (Logged.engine : Logged ε → ε) (id : τ → τ) :=
  ⟨fun _ => rfl, fun _ => rfl, fun _ => rfl, fun _ _ => rfl, fun _ => rfl, fun _ _ => rfl⟩

end Engine

open Engine (Call Logged)

/-! ## What events announce -/

/-- The run state that an event says the engine is in. -/
def Event.announced? : Event → Option RunState
  | .step _ state => some state
  | .stateChange _ new => some new
  | _ => none

/-- The run state announced last; `start` if none was. -/
def announced (start : RunState) (events : List Event) : RunState :=
  events.foldl (fun before e => e.announced?.getD before) start

theorem announced_concat (start : RunState) (events : List Event) (e : Event) :
    announced start (events ++ [e]) = e.announced?.getD (announced start events) := by
  rw [announced, List.foldl_append]
  rfl

/-- Every change of state starts from the state announced before it. -/
def Chained (start : RunState) (events : List Event) : Prop :=
  ∀ earlier old new later, events = earlier ++ .stateChange old new :: later →
    old = announced start earlier

theorem Chained.concat {start : RunState} {events : List Event} (h : Chained start events)
    {e : Event} (next : ∀ old new, e = .stateChange old new → old = announced start events) :
    Chained start (events ++ [e]) := by
  intro earlier old new later split
  rcases List.eq_nil_or_concat later with rfl | ⟨between, last, rfl⟩
  · obtain ⟨rfl, same⟩ := List.append_inj' split rfl
    exact next old new (List.singleton_inj.mp same)
  · rw [List.concat_eq_append, ← List.cons_append, ← List.append_assoc] at split
    obtain ⟨before, _⟩ := List.append_inj' split rfl
    exact h earlier old new between before

/-- The events tell of the calls: which were made and what the engine showed
after each. -/
structure Faithful (start : RunState) (calls : List Call) (events : List Event) : Prop where
  /-- Every call is reported, and no other is. -/
  reported : events.filter (·.announced?.isSome) = calls.map Call.event
  history : events.filterMap Event.announced? = calls.map Call.shown
  chained : Chained start events

namespace Faithful

variable {start : RunState} {calls : List Call} {events : List Event}

theorem nil (start : RunState) : Faithful start [] [] where
  reported := rfl
  history := rfl
  chained := by
    intro earlier old new later split
    cases earlier <;> cases split

theorem concat_silent (h : Faithful start calls events) {e : Event} (silent : e.announced? = none) :
    Faithful start calls (events ++ [e]) where
  reported := by
    rw [List.filter_append, h.reported]
    simp [silent]
  history := by
    rw [List.filterMap_append, h.history]
    simp [silent]
  chained := by
    apply h.chained.concat
    rintro old new rfl
    cases silent

theorem concat_call (h : Faithful start calls events) {c : Call}
    (shown : c.event.announced? = some c.shown)
    (next : ∀ old new, c.event = .stateChange old new → old = announced start events) :
    Faithful start (calls ++ [c]) (events ++ [c.event]) where
  reported := by
    rw [List.filter_append, h.reported]
    simp [shown]
  history := by
    rw [List.filterMap_append, h.history]
    simp [shown]
  chained := h.chained.concat next

/-- The instructions recorded are the calls that executed one. -/
theorem steps (h : Faithful start calls events) :
    events.filter Event.isStep = (calls.filter Call.isExecute).map Call.event := by
  have announces (e : Event) : (e.isStep && e.announced?.isSome) = e.isStep := by
    cases e <;> rfl
  have executes : Event.isStep ∘ Call.event = Call.isExecute := by
    funext c
    cases c <;> rfl
  have := congrArg (List.filter Event.isStep) h.reported
  rw [List.filter_filter, List.filter_map, executes] at this
  simpa only [announces] using this

end Faithful

/-! ## What a session keeps -/

variable {ε : Type} [Engine ε]

/-- A record of all that was done to an engine since it was in state `start`,
`n` instructions among it. -/
structure Recorded (start : RunState) (n : Nat) (e : Logged ε) (r : Recorder) : Prop where
  unlimited : r.limit = none
  faithful : Faithful start e.calls r.events.toList
  executed : e.calls.countP Call.isExecute = n
  state : Engine.state e = announced start r.events.toList

namespace Recorded

variable {start : RunState} {n : Nat} {e : Logged ε} {r : Recorder}

theorem silent (h : Recorded start n e r) {v : Event} (silent : v.announced? = none) :
    Recorded start n e (Tracer.observe r v) := by
  rw [Recorder.observe_of_unlimited h.unlimited]
  refine ⟨rfl, ?_, h.executed, ?_⟩
  · rw [Array.toList_push]
    exact h.faithful.concat_silent silent
  · rw [Array.toList_push, announced_concat, silent]
    exact h.state

theorem execute (h : Recorded start n e r) :
    Recorded start (n + 1) (Engine.execute e)
      (Tracer.observe r (.step (Engine.depth (Engine.execute e)) (Engine.state (Engine.execute e)))) := by
  rw [Recorder.observe_of_unlimited h.unlimited]
  refine ⟨rfl, ?_, ?_, ?_⟩
  · rw [Array.toList_push]
    apply h.faithful.concat_call (c := .execute _ _) rfl
    intro old new change
    cases change
  · rw [← h.executed]
    exact List.countP_append
  · rw [Array.toList_push, announced_concat]
    rfl

/-- A request is where an engine has to obey. -/
theorem setState (obeys : Engine.Obeys ε) (h : Recorded start n e r) (s : RunState) :
    Recorded start n (Engine.setState s e)
      (Tracer.observe r (.stateChange (Engine.state e) s)) := by
  have shown : Engine.state (Engine.setState s e) = s := obeys.state_setState s e.engine
  rw [Recorder.observe_of_unlimited h.unlimited]
  refine ⟨rfl, ?_, ?_, ?_⟩
  · rw [Array.toList_push]
    apply h.faithful.concat_call (c := .setState _ _ _)
    · exact congrArg some shown.symm
    · intro old new change
      cases change
      exact h.state
  · rw [← h.executed]
    exact List.countP_append
  · rw [Array.toList_push, announced_concat, shown]
    rfl

end Recorded

namespace Debugger

theorem forceState_recorded (obeys : Engine.Obeys ε) {start : RunState} {n : Nat}
    {d : Debugger (Logged ε) Recorder} (target : RunState)
    (h : Recorded start n d.engine d.tracer) :
    Recorded start n (d.forceState target).engine (d.forceState target).tracer := by
  by_cases same : d.state = target
  · rwa [forceState_of_eq same]
  · rw [forceState_of_ne same]
    exact h.setState obeys target

theorem kept_recorded (obeys : Engine.Obeys ε) (start : RunState) :
    Kept fun n (d : Debugger (Logged ε) Recorder) => Recorded start n d.engine d.tracer where
  execute h _ := h.execute
  hit {n d l} h _ := by
    have reported : Recorded start n (d.report (.hit l)).engine (d.report (.hit l)).tracer :=
      h.silent rfl
    exact forceState_recorded obeys .paused reported
  pause h _ := forceState_recorded obeys .paused h
  resume h _ := forceState_recorded obeys .runnable h
  resumeExecute h _ := (forceState_recorded obeys .runnable h).execute
  addBreakpoint l h := by
    unfold addBreakpoint
    split
    · exact h.silent rfl
    · exact h
  removeBreakpoint l h := by
    unfold removeBreakpoint
    split
    · exact h.silent rfl
    · exact h
  setBudget _ h := h
  setBreakpoints _ h := h

/-! ## Sessions -/

variable {τ : Type}

/-- The debugger of an engine that has logged these calls. -/
def withLog (calls : List Call) (d : Debugger ε τ) : Debugger (Logged ε) τ :=
  ⟨⟨d.engine, calls⟩, d.breakpoints, d.budget, d.tracer⟩

/-- A session goes the same way with a log. -/
theorem performAll_withLog [Tracer τ] {patience : Nat} {d : Debugger ε τ} {commands : List Command}
    {o : Outcome ε τ (List Reply)} (h : d.performAll patience commands = some o) :
    ∃ calls, (d.withLog []).performAll patience commands =
      some ⟨o.reply, o.debugger.withLog calls, o.executed⟩ := by
  have same := (Engine.forget_log τ).translate_performAll (d.withLog []) patience commands
  have start : (d.withLog []).translate Logged.engine id = d := rfl
  rw [start, h] at same
  obtain ⟨o', session, rfl⟩ := Option.map_eq_some_iff.mp same.symm
  exact ⟨o'.debugger.engine.calls, session⟩

/-- A stepping call replies with the state that it leaves. -/
theorem state_of_reply [Tracer τ] {patience : Nat} {d : Debugger ε τ} {c : Command}
    {o : Outcome ε τ Reply} (h : d.perform patience c = some o) {s : RunState}
    (reply : o.reply = .stopped s) : s = o.debugger.state := by
  cases c with
  | run | stepOver | stepOut =>
    obtain ⟨stop, _, rfl⟩ := Option.map_eq_some_iff.mp h
    cases reply
    rfl
  | stepInto =>
    cases h
    cases reply
    rfl
  | addBreakpoint | removeBreakpoint | setBudget | setBreakpoints =>
    cases h
    cases reply

/-- After every call of a session, the record tells of all calls made to the
engine and of the state in which it is. -/
theorem session_recorded (obeys : Engine.Obeys ε) {d : Debugger ε Recorder}
    (fresh : d.tracer = .unlimited) {patience : Nat} {commands : List Command} {c : Command}
    {o : Outcome ε Recorder (List Reply)} {q : Outcome ε Recorder Reply}
    (session : d.performAll patience commands = some o)
    (call : o.debugger.perform patience c = some q) :
    ∃ calls, (d.withLog []).performAll patience (commands ++ [c]) =
        some ⟨o.reply ++ [q.reply], q.debugger.withLog calls, o.executed + q.executed⟩ ∧
      q.debugger.tracer.events.toList.filter Event.isStep =
        (calls.filter Call.isExecute).map Call.event ∧
      q.debugger.tracer.stepCount = calls.countP Call.isExecute ∧
      q.debugger.tracer.stepCount = o.executed + q.executed ∧
      Faithful d.state calls q.debugger.tracer.events.toList ∧
      q.debugger.state = announced d.state q.debugger.tracer.events.toList ∧
      ∀ s, q.reply = .stopped s → s = announced d.state q.debugger.tracer.events.toList := by
  have whole : d.performAll patience (commands ++ [c]) =
      some ⟨o.reply ++ [q.reply], q.debugger, o.executed + q.executed⟩ := by
    rw [performAll_append session, performAll, call]
    rfl
  obtain ⟨calls, logged⟩ := performAll_withLog whole
  have start : Recorded d.state 0 (d.withLog []).engine (d.withLog []).tracer := by
    rw [show (d.withLog []).tracer = .unlimited from fresh]
    exact ⟨rfl, Faithful.nil d.state, rfl, rfl⟩
  have recorded : Recorded d.state (0 + (o.executed + q.executed)) ⟨q.debugger.engine, calls⟩
      q.debugger.tracer := (kept_recorded obeys d.state).of_performAll start logged
  rw [Nat.zero_add] at recorded
  have steps := recorded.faithful.steps
  have count : q.debugger.tracer.stepCount = calls.countP Call.isExecute := by
    rw [Recorder.stepCount, ← Array.countP_toList, List.countP_eq_length_filter, steps,
      List.length_map, ← List.countP_eq_length_filter]
  refine ⟨calls, logged, steps, count, count.trans recorded.executed, recorded.faithful,
    recorded.state, ?_⟩
  intro s reply
  rw [state_of_reply call reply]
  exact recorded.state

/-- After a step and a run to a breakpoint six instructions have been recorded,
and the engine is paused as announced. -/
theorem nested_recorded :
    let d : Debugger Machine Recorder :=
      ⟨Machine.load .nested, (Breakpoints.empty.insert ⟨[1], 1⟩).2, .unlimited, .unlimited⟩
    ∃ o q, d.performAll 5 [.stepInto] = some o ∧ o.debugger.perform 5 .run = some q ∧
      q.debugger.tracer.stepCount = 6 ∧
      q.debugger.state = announced .runnable q.debugger.tracer.events.toList ∧
      announced .runnable q.debugger.tracer.events.toList = .paused := by
  intro d
  have session : (d.performAll 5 [.stepInto]).isSome = true := by decide
  have executed : (d.performAll 5 [.stepInto]).map (·.executed) = some 1 := by decide
  obtain ⟨o, session⟩ := Option.isSome_iff_exists.mp session
  have call : ((d.performAll 5 [.stepInto]).bind fun o => o.debugger.perform 5 .run).isSome = true := by
    decide
  have result : ((d.performAll 5 [.stepInto]).bind fun o => o.debugger.perform 5 .run).map
      (fun q => (q.reply, q.executed)) = some (.stopped .paused, 5) := by
    decide
  rw [session, Option.bind_some] at call result
  obtain ⟨q, call⟩ := Option.isSome_iff_exists.mp call
  rw [session, Option.map_some, Option.some.injEq] at executed
  rw [call, Option.map_some, Option.some.injEq, Prod.mk.injEq] at result
  have obeys : Engine.Obeys Machine := ⟨fun _ _ => rfl⟩
  obtain ⟨_, _, _, _, count, _, state, reply⟩ := session_recorded obeys rfl session call
  refine ⟨o, q, session, call, ?_, state, (reply _ result.1).symm⟩
  rw [count, executed, result.2]

end Debugger

end ScriptDebugger

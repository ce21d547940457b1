/-
  Hits are reported where they pause

  A call that goes into a loop executes one instruction after another, and
  until it pauses it does nothing else to the engine. So right after its
  `k`-th instruction the engine is what `k` instructions of plain execution
  make of the resumed one, and the call reports a hit then exactly if the
  engine stands at a breakpoint there (`Stepped`). A hit comes right after an
  instruction and is the last thing that a call reports but for its pause
  (`Ends`). So nothing is looked up where the call starts.

  What is proved:
    1. `hit?_eq_some_iff` — a debugger finds the breakpoint at which its
       engine stands, and no other.
    2. `iterate_follows` — gone round so many times without a stop, a loop has
       executed its engine plainly and reported no hit, or has just paused it.
    3. `session_hits` — the two laws for every call of every session, whether
       it returns or not. All that is asked of the engine is that it shows the
       run state it was asked for.
-/
import ScriptDebugger.Proofs.Debugger.Observers
import ScriptDebugger.Proofs.Debugger.Requests
import ScriptDebugger.Proofs.Machine.Frames

namespace ScriptDebugger

/-! ## Laws of the events of a call -/

/-- A runnable engine with a frame whose next instruction carries a
breakpoint. -/
def StandsAt {ε : Type} [Engine ε] (b : Breakpoints) (l : Location) (e : ε) : Prop :=
  Engine.state e = .runnable ∧ 0 < Engine.depth e ∧ Engine.context? e = some l ∧
    b.contains l = true

/-- The instructions among the events are those of plain execution from
`start`, and each is followed by a hit exactly where the engine stands at a
breakpoint right after it. -/
def Stepped {ε : Type} [Engine ε] (b : Breakpoints) (start : ε) (events : List Event) : Prop :=
  ∀ earlier depth state later, events = earlier ++ .step depth state :: later →
    let e := Engine.execute^[earlier.countP Event.isStep + 1] start
    depth = Engine.depth e ∧ state = Engine.state e ∧
      ∀ l, later.head? = some (.hit l) ↔ StandsAt b l e

/-- A hit comes right after an instruction, and after it comes the pause and
nothing more. -/
def Ends (events : List Event) : Prop :=
  ∀ earlier l later, events = earlier ++ .hit l :: later →
    (∃ before depth state, earlier = before ++ [.step depth state]) ∧
      later = [.stateChange .runnable .paused]

/-- No breakpoint is hit. -/
def Quiet (events : List Event) : Prop := ∀ l, .hit l ∉ events

namespace Quiet

variable {xs ys : List Event}

theorem append (h : Quiet xs) (h' : Quiet ys) : Quiet (xs ++ ys) := by
  intro l mem
  rcases List.mem_append.mp mem with mem | mem
  · exact h l mem
  · exact h' l mem

theorem ends (h : Quiet xs) : Ends xs := by
  rintro earlier l later rfl
  exact absurd List.mem_append_cons_self (h l)

theorem append_ends (h : Quiet xs) (h' : Ends ys) : Ends (xs ++ ys) := by
  intro earlier l later split
  rcases append_eq_split.mp split with ⟨between, rfl, _⟩ | ⟨between, rfl, rfl⟩
  · exact absurd List.mem_append_cons_self (h l)
  · obtain ⟨⟨before, depth, state, rfl⟩, last⟩ := h' between l later rfl
    exact ⟨⟨xs ++ before, depth, state, (List.append_assoc ..).symm⟩, last⟩

end Quiet

/-- What comes after the first hit is no hit. -/
theorem countP_isHit_le {events : List Event}
    (last : ∀ earlier l later, events = earlier ++ .hit l :: later →
      later = [.stateChange .runnable .paused]) : events.countP Event.isHit ≤ 1 := by
  induction events with
  | nil => exact Nat.zero_le 1
  | cons e rest ih =>
    cases e with
    | hit l =>
      rw [last [] l rest rfl]
      exact Nat.le_refl 1
    | step | stateChange | added | removed =>
      rw [List.countP_cons_of_neg (by exact Bool.false_ne_true)]
      apply ih
      rintro earlier l later rfl
      exact last (_ :: earlier) l later rfl

namespace Stepped

variable {ε : Type} [Engine ε] {b : Breakpoints} {start : ε} {xs ys : List Event}

theorem of_no_step (none : ∀ depth state, .step depth state ∉ xs) : Stepped b start xs := by
  rintro earlier depth state later rfl
  exact absurd List.mem_append_cons_self (none depth state)

theorem append (h : Stepped b start xs)
    (h' : Stepped b (Engine.execute^[xs.countP Event.isStep] start) ys)
    (no_hit : ∀ l, ys.head? ≠ some (.hit l)) : Stepped b start (xs ++ ys) := by
  intro earlier depth state later split
  rcases append_eq_split.mp split with ⟨between, rfl, rfl⟩ | ⟨between, rfl, rfl⟩
  · obtain ⟨depth_eq, state_eq, hits⟩ := h earlier depth state between rfl
    refine ⟨depth_eq, state_eq, ?_⟩
    intro l
    rw [← hits l]
    cases between with
    | nil => simp [no_hit l]
    | cons => rfl
  · have here := h' between depth state later rfl
    rwa [← Function.iterate_add_apply, Nat.add_comm (_ + 1), ← Nat.add_assoc,
      ← List.countP_append] at here

end Stepped

namespace Debugger

variable {ε τ : Type} [Engine ε] [Tracer τ]

/-! ## One instruction -/

omit [Tracer τ] in
theorem hit?_eq_some_iff {d : Debugger ε τ} {l : Location} :
    d.hit? = some l ↔ StandsAt d.breakpoints l d.engine := by
  unfold hit? StandsAt
  split
  · rename_i able
    rw [Option.filter_eq_some_iff]
    exact ⟨fun h => ⟨able.1, Nat.pos_of_ne_zero able.2, h⟩, fun h => h.2.2⟩
  · rename_i unable
    constructor
    · intro h
      cases h
    · rintro ⟨runnable, deep, _⟩
      exact absurd ⟨runnable, Nat.ne_of_gt deep⟩ unable

theorem stepped_advanceEvents (d : Debugger ε τ) :
    Stepped d.breakpoints d.engine d.advanceEvents := by
  have found (l : Location) : d.execute.hit? = some l ↔
      StandsAt d.breakpoints l (Engine.execute^[1] d.engine) := hit?_eq_some_iff
  intro earlier depth state later split
  unfold advanceEvents at split
  rcases List.cons_eq_append_iff.mp split with ⟨rfl, first⟩ | ⟨rest, _, more⟩
  · obtain ⟨now, rfl⟩ := List.cons.inj first
    cases now
    refine ⟨rfl, rfl, fun l => ?_⟩
    rw [List.countP_nil, Nat.zero_add, ← found l]
    cases d.execute.hit? <;> simp
  · -- There is one instruction only.
    have mem : Event.step depth state ∈ rest ++ .step depth state :: later :=
      List.mem_append_cons_self
    rw [← more] at mem
    cases hit : d.execute.hit? <;> simp [hit] at mem

theorem ends_advanceEvents (d : Debugger ε τ) : Ends d.advanceEvents := by
  intro earlier l later split
  unfold advanceEvents at split
  rcases List.cons_eq_append_iff.mp split with ⟨_, same⟩ | ⟨rest, rfl, more⟩
  · cases same
  cases hit : d.execute.hit? with
  | none => simp [hit] at more
  | some m =>
    rw [hit] at more
    rcases List.cons_eq_append_iff.mp more with ⟨rfl, same⟩ | ⟨_, _, none⟩
    · cases same
      exact ⟨⟨[], _, _, rfl⟩, rfl⟩
    · rcases List.cons_eq_append_iff.mp none with ⟨_, same⟩ | ⟨_, _, none⟩
      · cases same
      · simp at none

theorem countP_isStep_advanceEvents (d : Debugger ε τ) :
    d.advanceEvents.countP Event.isStep = 1 := by
  unfold advanceEvents
  cases d.execute.hit? <;> rfl

/-! ## A loop -/

theorem eventsOf_succ (n : Nat) (d : Debugger ε τ) :
    eventsOf (n + 1) d = eventsOf n d ++ (advance^[n] d).advanceEvents := by
  rw [eventsOf_add, eventsOf, eventsOf, List.append_nil]

theorem countP_isStep_eventsOf (n : Nat) (d : Debugger ε τ) :
    (eventsOf n d).countP Event.isStep = n := by
  induction n with
  | zero => rfl
  | succ n ih => rw [eventsOf_succ, List.countP_append, ih, countP_isStep_advanceEvents]

variable {d : Debugger ε τ} {n : Nat}

/-- As long as a loop goes round, its engine is executed plainly and there is
no hit; a hit pauses it. -/
theorem iterate_follows (obeys : Engine.Obeys ε)
    (runnable : ∀ i < n, (advance^[i] d).state = .runnable) :
    (advance^[n] d).engine = Engine.execute^[n] d.engine ∧ Quiet (eventsOf n d) ∨
      (advance^[n] d).engine = Engine.setState .paused (Engine.execute^[n] d.engine) ∧
        (advance^[n] d).state = .paused := by
  induction n with
  | zero => exact .inl ⟨rfl, nofun⟩
  | succ n ih =>
    have here := runnable n (Nat.lt_succ_self n)
    rcases ih fun i less => runnable i (Nat.lt_succ_of_lt less) with ⟨engine, quiet⟩ | ⟨_, paused⟩
    · rw [Function.iterate_succ_apply' advance, eventsOf_succ,
        Function.iterate_succ_apply' Engine.execute, ← engine]
      generalize advance^[n] d = now
      have next := advance_engine now
      cases hit : now.execute.hit? with
      | none =>
        rw [hit] at next
        refine .inl ⟨next, quiet.append ?_⟩
        simp [Quiet, advanceEvents, hit]
      | some l =>
        rw [hit] at next
        refine .inr ⟨next, ?_⟩
        rw [state, next]
        exact obeys.state_setState .paused _
    · rw [paused] at here
      cases here

/-- Where a loop goes round, it has executed plainly and hit nothing. -/
theorem iterate_of_runnable (obeys : Engine.Obeys ε)
    (runnable : ∀ i < n + 1, (advance^[i] d).state = .runnable) :
    (advance^[n] d).engine = Engine.execute^[n] d.engine ∧ Quiet (eventsOf n d) := by
  rcases iterate_follows obeys fun i less => runnable i (Nat.lt_succ_of_lt less) with
    plain | ⟨_, paused⟩
  · exact plain
  · rw [runnable n (Nat.lt_succ_self n)] at paused
    cases paused

theorem stepped_eventsOf (obeys : Engine.Obeys ε)
    (runnable : ∀ i < n, (advance^[i] d).state = .runnable) :
    Stepped d.breakpoints d.engine (eventsOf n d) := by
  induction n with
  | zero => exact Stepped.of_no_step nofun
  | succ n ih =>
    have earlier := ih fun i less => runnable i (Nat.lt_succ_of_lt less)
    have engine := (iterate_of_runnable obeys runnable).1
    have last := stepped_advanceEvents (advance^[n] d)
    rw [iterate_advance_breakpoints, engine] at last
    rw [eventsOf_succ]
    apply earlier.append
    · rwa [countP_isStep_eventsOf]
    · exact fun l => nofun

theorem ends_eventsOf (obeys : Engine.Obeys ε)
    (runnable : ∀ i < n, (advance^[i] d).state = .runnable) : Ends (eventsOf n d) := by
  cases n with
  | zero => exact Quiet.ends nofun
  | succ n =>
    have quiet := (iterate_of_runnable obeys runnable).2
    rw [eventsOf_succ]
    exact quiet.append_ends (ends_advanceEvents _)

theorem head?_eventsOf (n : Nat) (d : Debugger ε τ) (l : Location) :
    (eventsOf n d).head? ≠ some (.hit l) := by
  cases n <;> exact nofun

/-! ## Calls -/

/-- Events of neither an instruction nor a hit. -/
def Idle (events : List Event) : Prop := ∀ e ∈ events, e.isStep = false ∧ e.isHit = false

omit [Tracer τ] in
theorem idle_resumeEvents (d : Debugger ε τ) : Idle d.resumeEvents := by
  unfold resumeEvents
  split <;> simp [Idle, Event.isStep, Event.isHit]

omit [Tracer τ] in
theorem idle_pauseEvents (d : Debugger ε τ) : Idle d.pauseEvents := by
  unfold pauseEvents
  split <;> simp [Idle, Event.isStep, Event.isHit]

namespace Idle

variable {events : List Event}

theorem quiet (h : Idle events) : Quiet events := by
  intro l mem
  cases (h _ mem).2

theorem stepped (h : Idle events) (b : Breakpoints) (start : ε) : Stepped b start events := by
  apply Stepped.of_no_step
  intro depth state mem
  cases (h _ mem).1

theorem countP_isStep (h : Idle events) : events.countP Event.isStep = 0 := by
  rw [List.countP_eq_zero]
  intro e mem step
  rw [(h e mem).1] at step
  cases step

theorem head?_ne_hit (h : Idle events) (l : Location) : events.head? ≠ some (.hit l) :=
  fun first => h.quiet l (List.mem_of_head? first)

end Idle

/-- What a call has reported once it has resumed and executed `n`
instructions. -/
def callEvents (n : Nat) (d : Debugger ε τ) : List Event := d.resumeEvents ++ eventsOf n d.resume

theorem callEvents_tracer (n : Nat) (d : Debugger ε τ) :
    (advance^[n] d.resume).tracer = Tracer.observeAll d.tracer (callEvents n d) := by
  rw [iterate_tracer, resume_tracer, ← Tracer.observeAll_append, callEvents]

/-- All that a call has reported when it returns. -/
theorem pause_callEvents_tracer (n : Nat) (d : Debugger ε τ) :
    (advance^[n] d.resume).pause.tracer =
      Tracer.observeAll d.tracer (callEvents n d ++ (advance^[n] d.resume).pauseEvents) := by
  rw [pause_tracer, callEvents_tracer, ← Tracer.observeAll_append]

theorem countP_isStep_callEvents (n : Nat) (d : Debugger ε τ) :
    (callEvents n d).countP Event.isStep = n := by
  rw [callEvents, List.countP_append, countP_isStep_eventsOf, d.idle_resumeEvents.countP_isStep,
    Nat.zero_add]

section

variable (obeys : Engine.Obeys ε) (runnable : ∀ i < n, (advance^[i] d.resume).state = .runnable)

include obeys runnable

theorem stepped_callEvents : Stepped d.breakpoints d.resume.engine (callEvents n d) := by
  have steps := stepped_eventsOf obeys runnable
  rw [resume_breakpoints] at steps
  apply (d.idle_resumeEvents.stepped _ _).append
  · rwa [d.idle_resumeEvents.countP_isStep]
  · exact head?_eventsOf n d.resume

theorem ends_callEvents : Ends (callEvents n d) :=
  d.idle_resumeEvents.quiet.append_ends (ends_eventsOf obeys runnable)

/-- As `iterate_follows`, with what the call reports before. -/
theorem callEvents_follow :
    (advance^[n] d.resume).engine = Engine.execute^[n] d.resume.engine ∧ Quiet (callEvents n d) ∨
      (advance^[n] d.resume).engine = Engine.setState .paused (Engine.execute^[n] d.resume.engine) ∧
        (advance^[n] d.resume).state = .paused := by
  refine (iterate_follows obeys runnable).imp_left ?_
  rintro ⟨engine, quiet⟩
  exact ⟨engine, d.idle_resumeEvents.quiet.append quiet⟩

end

/-- The laws of what a call reports on its way from `d` to `e`. -/
structure Reports (d : Debugger ε τ) (c : Command) (e : Debugger ε τ) (events : List Event) :
    Prop where
  stepped : Stepped d.breakpoints d.resume.engine events
  ends : Ends events
  /-- After its instructions the engine is what plain execution makes of it,
  paused or not. -/
  engine : let f := Engine.execute^[events.countP Event.isStep] d.resume.engine
    e.engine = f ∨ e.engine = Engine.setState .paused f
  /-- A call returns from a hit, and the engine is paused then. -/
  returns : ∀ l, .hit l ∈ events →
    ∃ patience o, d.perform patience c = some o ∧ o.reply = .stopped .paused ∧ o.debugger = e

/-- A loop that has paused its engine returns it like that. -/
theorem perform_of_paused {d : Debugger ε τ} {c : Command} {l : Loop ε τ} {n : Nat}
    (loop : d.loop? c = some l) (on : l.GoesOn n) (paused : (advance^[n] l.start).state = .paused) :
    d.perform n c = some ⟨.stopped .paused, advance^[n] l.start, l.executed + n⟩ := by
  have not_runnable : (advance^[n] l.start).state ≠ .runnable := by
    rw [paused]
    decide
  have first : StopsAfter l.arrived l.executed n l.start := ⟨on, stops_of_not_runnable not_runnable⟩
  rw [perform_of_loop? loop, advanceUntil_of_stopsAfter first (Nat.le_refl n), Option.map_some,
    outcome, pause_of_ne not_runnable, paused]

theorem loop_reports (obeys : Engine.Obeys ε) {d e : Debugger ε τ} {c : Command} {l : Loop ε τ}
    (loop : d.loop? c = some l) (reaches : d.Reaches c e) :
    ∃ events, e.tracer = Tracer.observeAll d.tracer events ∧ Reports d c e events := by
  obtain ⟨n, on, place⟩ := reaches.of_loop loop
  have from_pause := perform_of_paused loop on
  rw [iterate_loop? loop] at place from_pause
  have runnable := on.runnable_resume obeys loop
  have heard := callEvents_tracer (l.executed + n) d
  have count := countP_isStep_callEvents (l.executed + n) d
  have stepped := stepped_callEvents obeys runnable
  have ends := ends_callEvents obeys runnable
  rcases callEvents_follow obeys runnable with ⟨engine, quiet⟩ | ⟨engine, paused⟩
  · rcases place with rfl | ⟨_, rfl⟩
    · refine ⟨_, heard, stepped, ends, ?_, fun l mem => absurd mem (quiet l)⟩
      rw [count]
      exact .inl engine
    · -- The call has returned without a hit, so it may have reported a pause.
      have idle := idle_pauseEvents (advance^[l.executed + n] d.resume)
      refine ⟨_, pause_callEvents_tracer (l.executed + n) d,
        stepped.append (idle.stepped _ _) idle.head?_ne_hit, (quiet.append idle.quiet).ends, ?_,
        fun l mem => absurd mem (quiet.append idle.quiet l)⟩
      rw [List.countP_append, count, idle.countP_isStep, pause_engine, engine]
      split
      · exact .inr rfl
      · exact .inl rfl
  · -- A paused engine is not paused again.
    have same : e = advance^[l.executed + n] d.resume := by
      rcases place with same | ⟨_, same⟩
      · exact same
      · rw [same, pause_of_ne (by rw [paused]; decide)]
    subst same
    refine ⟨_, heard, stepped, ends, ?_, fun _ _ => ⟨n, _, from_pause paused, rfl, rfl⟩⟩
    rw [count]
    exact .inr engine

/-- So does every call that may go into a loop. -/
theorem reports_of_isLoop (obeys : Engine.Obeys ε) {d e : Debugger ε τ} {c : Command}
    (loops : c.isLoop = true) (reaches : d.Reaches c e) :
    ∃ events, e.tracer = Tracer.observeAll d.tracer events ∧ Reports d c e events := by
  cases loop : d.loop? c with
  | some l => exact loop_reports obeys loop reaches
  | none =>
    obtain ⟨done, rfl⟩ := reaches.of_no_loop loop loops
    refine ⟨[], rfl, Stepped.of_no_step nofun, Quiet.ends nofun, .inl ?_, fun l mem => nomatch mem⟩
    rw [resume_of_terminal done]
    rfl

/-- The other commands report no hit, whatever the engine. -/
theorem quiet_of_not_isLoop {d e : Debugger ε τ} {c : Command} (no_loop : c.isLoop = false)
    (reaches : d.Reaches c e) :
    ∃ events, e.tracer = Tracer.observeAll d.tracer events ∧ Quiet events := by
  cases reaches with
  | going loop =>
    cases c with
    | run | stepOver | stepOut => cases no_loop
    | stepInto | addBreakpoint | removeBreakpoint | setBudget | setBreakpoints => cases loop
  | returned returns =>
    cases c with
    | run | stepOver | stepOut => cases no_loop
    | stepInto =>
      cases returns
      show ∃ events, d.stepInto.debugger.tracer = _ ∧ _
      unfold stepInto
      split
      · exact ⟨[], rfl, nofun⟩
      · have paused := pause_tracer d.execute
        refine ⟨.step d.execute.depth d.execute.state :: d.execute.pauseEvents, paused, ?_⟩
        have idle := (idle_pauseEvents d.execute).quiet
        intro l mem
        rcases List.mem_cons.mp mem with same | mem
        · cases same
        · exact idle l mem
    | addBreakpoint l =>
      cases returns
      show ∃ events, (d.addBreakpoint l).tracer = _ ∧ _
      unfold addBreakpoint
      split
      · exact ⟨[.added l], rfl, by simp [Quiet]⟩
      · exact ⟨[], rfl, nofun⟩
    | removeBreakpoint l =>
      cases returns
      show ∃ events, (d.removeBreakpoint l).2.tracer = _ ∧ _
      unfold removeBreakpoint
      split
      · exact ⟨[.removed l], rfl, by simp [Quiet]⟩
      · exact ⟨[], rfl, nofun⟩
    | setBudget | setBreakpoints =>
      cases returns
      exact ⟨[], rfl, nofun⟩

/-! ## Sessions -/

/-- At any moment of any call in a session, what the call has recorded so far
reports hits where they are and pauses there. -/
theorem session_hits (obeys : Engine.Obeys ε) {d : Debugger ε Recorder}
    (fresh : d.tracer = .unlimited) {patience : Nat} {commands : List Command}
    {o : Outcome ε Recorder (List Reply)} (session : d.performAll patience commands = some o)
    {c : Command} {e : Debugger ε Recorder} (call : o.debugger.Reaches c e) :
    ∃ events, e.tracer.events.toList = o.debugger.tracer.events.toList ++ events ∧
      (c.isLoop = true → Reports o.debugger c e events) ∧ (c.isLoop = false → Quiet events) ∧
      events.countP Event.isHit ≤ 1 := by
  have unlimited : o.debugger.tracer.limit = none :=
    unlimited_of_performAll (congrArg Recorder.limit fresh) session
  have recorded {events : List Event}
      (heard : e.tracer = Tracer.observeAll o.debugger.tracer events) :
      e.tracer.events.toList = o.debugger.tracer.events.toList ++ events := by
    rw [heard, (Recorder.observeAll_of_unlimited unlimited events).2]
  cases loops : c.isLoop with
  | true =>
    obtain ⟨events, heard, reports⟩ := reports_of_isLoop obeys loops call
    have once := countP_isHit_le fun earlier l later split => (reports.ends earlier l later split).2
    exact ⟨events, recorded heard, fun _ => reports, nofun, once⟩
  | false =>
    obtain ⟨events, heard, quiet⟩ := quiet_of_not_isLoop loops call
    have once := countP_isHit_le fun earlier l later split => (quiet.ends earlier l later split).2
    exact ⟨events, recorded heard, nofun, fun _ => quiet, once⟩

/-- After a step, the run arrives at the breakpoint behind the call. -/
theorem nested_hits :
    let d : Debugger Machine Recorder :=
      ⟨Machine.load .nested, (Breakpoints.empty.insert ⟨[1], 1⟩).2, .unlimited, .unlimited⟩
    ∃ o e events, d.performAll 5 [.stepInto] = some o ∧ o.debugger.Reaches .run e ∧
      e.tracer.events.toList = o.debugger.tracer.events.toList ++ events ∧
      Reports o.debugger .run e events ∧ events.countP Event.isHit ≤ 1 ∧
      e.tracer.hitCount = 1 := by
  intro d
  have returns : ((d.performAll 5 [.stepInto]).bind fun o =>
      o.debugger.perform 5 .run).isSome = true := by
    decide
  have hits : ((d.performAll 5 [.stepInto]).bind fun o => o.debugger.perform 5 .run).map
      (·.debugger.tracer.hitCount) = some 1 := by
    decide
  obtain ⟨q, returns⟩ := Option.isSome_iff_exists.mp returns
  rw [returns, Option.map_some, Option.some.injEq] at hits
  obtain ⟨o, session, call⟩ := Option.bind_eq_some_iff.mp returns
  have obeys : Engine.Obeys Machine := ⟨fun _ _ => rfl⟩
  obtain ⟨events, recorded, reports, _, once⟩ := session_hits obeys rfl session (.returned call)
  exact ⟨o, q.debugger, events, session, .returned call, recorded, reports rfl, once, hits⟩

end Debugger

end ScriptDebugger

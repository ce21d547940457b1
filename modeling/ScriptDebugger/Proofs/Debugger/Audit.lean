/-
  The record as an audit log

  Breakpoints change by single edits, and an edit is reported if it changes
  something. So what a debugger reports can be carried out again on the
  breakpoints that it started with (`replay`). An event is true of the index at
  that moment if an added location is absent from it and a removed or hit one
  is present (`TrueOf`); a list of events is `Audited` if each is true of what
  the ones before it make of the index.

  Whatever a debugger does but for taking another index as a whole, the events
  that it reports account for its breakpoints (`Accounts`): the replay yields
  them, and each event was true. Instructions edit nothing, so the breakpoints
  that they report as hit are there all along (`steady_eventsOf`).

  What is proved:
    1. `addBreakpoint_eq`, `removeBreakpoint_eq` — an edit that has nothing to
       do leaves the whole debugger as it is, and any other is reported.
    2. `accounts_of_perform` — a command reports what accounts for what it
       does to the breakpoints.
    3. `session_audited` — the record of a session is an exact audit log. The
       engine is not asked for anything.
-/
import ScriptDebugger.Proofs.Breakpoints.Contents
import ScriptDebugger.Proofs.Debugger.Hits

namespace ScriptDebugger

/-! ## Replaying events -/

namespace Breakpoints

/-- What an event makes of an index. -/
def edit (b : Breakpoints) : Event → Breakpoints
  | .added l => (b.insert l).2
  | .removed l => (b.remove l).2
  | .step .. | .hit _ | .stateChange .. => b

def replay (b : Breakpoints) (events : List Event) : Breakpoints := events.foldl edit b

theorem replay_append (b : Breakpoints) (earlier later : List Event) :
    b.replay (earlier ++ later) = (b.replay earlier).replay later := List.foldl_append

end Breakpoints

/-- An event is true of the index at the moment: what is added is not there,
and what is removed or hit is. -/
def Event.TrueOf (b : Breakpoints) : Event → Prop
  | .added l => b.contains l = false
  | .removed l | .hit l => b.contains l = true
  | .step .. | .stateChange .. => True

/-- Each event is true of what the ones before it make of the index. -/
def Audited (b : Breakpoints) (events : List Event) : Prop :=
  ∀ earlier e later, events = earlier ++ e :: later → e.TrueOf (b.replay earlier)

namespace Audited

variable {b : Breakpoints} {xs ys : List Event}

theorem nil (b : Breakpoints) : Audited b [] := by
  intro earlier e later split
  simp at split

theorem singleton {e : Event} (h : e.TrueOf b) : Audited b [e] := by
  intro earlier e' later split
  rcases List.singleton_eq_append_iff.mp split with ⟨rfl, same⟩ | ⟨_, none⟩
  · cases same
    exact h
  · cases none

theorem append (h : Audited b xs) (h' : Audited (b.replay xs) ys) : Audited b (xs ++ ys) := by
  intro earlier e later split
  rcases append_eq_split.mp split with ⟨between, rfl, _⟩ | ⟨between, rfl, rfl⟩
  · exact h earlier e between rfl
  · rw [Breakpoints.replay_append]
    exact h' between e later rfl

end Audited

/-- Events that are true of an index and leave it as it is. -/
def Steady (b : Breakpoints) (events : List Event) : Prop :=
  ∀ e ∈ events, e.TrueOf b ∧ b.edit e = b

namespace Steady

variable {b : Breakpoints} {xs ys : List Event}

theorem append (h : Steady b xs) (h' : Steady b ys) : Steady b (xs ++ ys) :=
  List.forall_mem_append.mpr ⟨h, h'⟩

theorem replay_eq (h : Steady b xs) : b.replay xs = b := by
  induction xs with
  | nil => rfl
  | cons e xs ih =>
    obtain ⟨⟨_, same⟩, rest⟩ := List.forall_mem_cons.mp h
    rw [Breakpoints.replay, List.foldl_cons, same]
    exact ih rest

theorem audited (h : Steady b xs) : Audited b xs := by
  rintro earlier e later rfl
  have before : Steady b earlier := (List.forall_mem_append.mp h).1
  rw [before.replay_eq]
  exact (h e List.mem_append_cons_self).1

end Steady

/-- Whether a command puts another index in the place of the breakpoints. -/
def Command.installs : Command → Bool
  | .setBreakpoints _ => true
  | _ => false

namespace Debugger

variable {ε τ : Type} [Engine ε] [Tracer τ]

/-! ## Edits -/

omit [Engine ε] in
theorem addBreakpoint_eq (l : Location) (d : Debugger ε τ) :
    d.addBreakpoint l =
      if d.breakpoints.contains l then d
      else report (.added l) { d with breakpoints := (d.breakpoints.insert l).2 } := by
  have insert : d.breakpoints.insert l =
      (!d.breakpoints.contains l, (d.breakpoints.insert l).2) := rfl
  unfold addBreakpoint
  rw [insert]
  cases held : d.breakpoints.contains l with
  | true =>
    rw [Breakpoints.insert_of_contains held]
    rfl
  | false => rfl

omit [Engine ε] in
theorem removeBreakpoint_eq (l : Location) (d : Debugger ε τ) :
    d.removeBreakpoint l =
      if d.breakpoints.contains l then
        (true, report (.removed l) { d with breakpoints := (d.breakpoints.remove l).2 })
      else (false, d) := by
  have remove : d.breakpoints.remove l =
      (d.breakpoints.contains l, (d.breakpoints.remove l).2) := rfl
  unfold removeBreakpoint
  rw [remove]
  cases held : d.breakpoints.contains l with
  | true => rfl
  | false =>
    rw [Breakpoints.remove_of_not_contains held]
    rfl

/-! ## What is reported -/

/-- The debugger has got from `d` to `e` with these events: the tracer has
heard them, and they account for the breakpoints. -/
structure Accounts (d e : Debugger ε τ) (events : List Event) : Prop where
  tracer : e.tracer = Tracer.observeAll d.tracer events
  breakpoints : e.breakpoints = d.breakpoints.replay events
  audited : Audited d.breakpoints events

namespace Accounts

variable {d e f : Debugger ε τ} {earlier later : List Event}

omit [Engine ε] in
theorem refl (d : Debugger ε τ) : Accounts d d [] := ⟨rfl, rfl, Audited.nil _⟩

omit [Engine ε] in
theorem trans (h : Accounts d e earlier) (h' : Accounts e f later) :
    Accounts d f (earlier ++ later) where
  tracer := by rw [h'.tracer, h.tracer, Tracer.observeAll_append]
  breakpoints := by rw [h'.breakpoints, h.breakpoints, Breakpoints.replay_append]
  audited := by
    have sound := h'.audited
    rw [h.breakpoints] at sound
    exact h.audited.append sound

omit [Engine ε] in
theorem of_steady {events : List Event} (heard : e.tracer = Tracer.observeAll d.tracer events)
    (same : e.breakpoints = d.breakpoints) (steady : Steady d.breakpoints events) :
    Accounts d e events :=
  ⟨heard, same.trans steady.replay_eq.symm, steady.audited⟩

omit [Engine ε] in
theorem addBreakpoint (l : Location) (d : Debugger ε τ) :
    ∃ events, Accounts d (d.addBreakpoint l) events := by
  rw [addBreakpoint_eq]
  split
  · exact ⟨[], refl d⟩
  · rename_i absent
    exact ⟨[.added l], rfl, rfl, Audited.singleton (eq_false_of_ne_true absent)⟩

omit [Engine ε] in
/-- Removing a breakpoint tells that it was there exactly if it reports
that. -/
theorem removeBreakpoint (l : Location) (d : Debugger ε τ) :
    ∃ events, Accounts d (d.removeBreakpoint l).2 events ∧
      ((d.removeBreakpoint l).1 = true ∧ events = [.removed l] ∨
        (d.removeBreakpoint l).1 = false ∧ events = []) := by
  rw [removeBreakpoint_eq]
  split
  · rename_i held
    exact ⟨[.removed l], ⟨rfl, rfl, Audited.singleton held⟩, .inl ⟨rfl, rfl⟩⟩
  · exact ⟨[], refl d, .inr ⟨rfl, rfl⟩⟩

end Accounts

omit [Tracer τ] in
theorem steady_resumeEvents (b : Breakpoints) (d : Debugger ε τ) : Steady b d.resumeEvents := by
  unfold resumeEvents
  split <;> simp [Steady, Event.TrueOf, Breakpoints.edit]

omit [Tracer τ] in
theorem steady_pauseEvents (b : Breakpoints) (d : Debugger ε τ) : Steady b d.pauseEvents := by
  unfold pauseEvents
  split <;> simp [Steady, Event.TrueOf, Breakpoints.edit]

/-- A breakpoint that is hit is in the index. -/
theorem steady_advanceEvents (d : Debugger ε τ) : Steady d.breakpoints d.advanceEvents := by
  unfold advanceEvents
  cases hit : d.execute.hit? with
  | none => simp [Steady, Event.TrueOf, Breakpoints.edit]
  | some l =>
    obtain ⟨_, _, _, held⟩ := hit?_eq_some_iff.mp hit
    rw [execute_breakpoints] at held
    simp [Steady, Event.TrueOf, Breakpoints.edit, held]

theorem steady_eventsOf (n : Nat) (d : Debugger ε τ) : Steady d.breakpoints (eventsOf n d) := by
  induction n with
  | zero => exact nofun
  | succ n ih =>
    have last := steady_advanceEvents (advance^[n] d)
    rw [iterate_advance_breakpoints] at last
    rw [eventsOf_succ]
    exact ih.append last

theorem steady_callEvents (n : Nat) (d : Debugger ε τ) :
    Steady d.breakpoints (callEvents n d) := by
  have loop := steady_eventsOf n d.resume
  rw [resume_breakpoints] at loop
  exact (steady_resumeEvents _ d).append loop

/-! ## Commands -/

theorem accounts_stepInto (d : Debugger ε τ) :
    ∃ events, Accounts d d.stepInto.debugger events := by
  unfold stepInto
  split
  · exact ⟨[], Accounts.refl d⟩
  · refine ⟨.step d.execute.depth d.execute.state :: d.execute.pauseEvents, .of_steady ?_ ?_ ?_⟩
    · exact pause_tracer d.execute
    · exact pause_breakpoints d.execute
    · exact List.forall_mem_cons.mpr ⟨⟨trivial, rfl⟩, steady_pauseEvents _ _⟩

/-- A call that goes into a loop leaves the breakpoints as they are, and so do
its events. -/
theorem accounts_of_isLoop {d : Debugger ε τ} {c : Command} (loops : c.isLoop = true)
    {patience : Nat} {q : Outcome ε τ Reply} (call : d.perform patience c = some q) :
    ∃ events, Accounts d q.debugger events := by
  obtain ⟨n, rfl, _⟩ := perform_of_isLoop loops call
  have same : (advance^[n] d.resume).pause.breakpoints = d.breakpoints := by
    rw [pause_breakpoints, iterate_advance_breakpoints, resume_breakpoints]
  have steady := (steady_callEvents n d).append (steady_pauseEvents _ (advance^[n] d.resume))
  exact ⟨_, .of_steady (pause_callEvents_tracer n d) same steady⟩

theorem accounts_of_perform {d : Debugger ε τ} {c : Command} (edits : c.installs = false)
    {patience : Nat} {q : Outcome ε τ Reply} (call : d.perform patience c = some q) :
    ∃ events, Accounts d q.debugger events := by
  cases c with
  | run | stepOver | stepOut => exact accounts_of_isLoop rfl call
  | stepInto =>
    cases call
    exact accounts_stepInto d
  | addBreakpoint l =>
    cases call
    exact Accounts.addBreakpoint l d
  | removeBreakpoint l =>
    cases call
    obtain ⟨events, accounts, _⟩ := Accounts.removeBreakpoint l d
    exact ⟨events, accounts⟩
  | setBudget budget =>
    cases call
    exact ⟨[], rfl, rfl, Audited.nil _⟩
  | setBreakpoints => cases edits

theorem accounts_of_performAll {d : Debugger ε τ} {commands : List Command}
    (edits : ∀ c ∈ commands, c.installs = false) {patience : Nat}
    {o : Outcome ε τ (List Reply)} (session : d.performAll patience commands = some o) :
    ∃ events, Accounts d o.debugger events := by
  induction commands generalizing d o with
  | nil =>
    cases session
    exact ⟨[], Accounts.refl d⟩
  | cons c commands ih =>
    obtain ⟨first, now, others, later, rfl⟩ := performAll_cons_eq_some session
    obtain ⟨edit, rest⟩ := List.forall_mem_cons.mp edits
    obtain ⟨events, accounts⟩ := accounts_of_perform edit now
    obtain ⟨events', accounts'⟩ := ih rest later
    exact ⟨events ++ events', accounts.trans accounts'⟩

/-! ## Sessions -/

/-- The record of a session in which breakpoints are edited one at a time is
an exact audit log of them, and a removal at any time in it replies that the
breakpoint was there exactly if it adds that to the record. -/
theorem session_audited {d : Debugger ε Recorder} (fresh : d.tracer = .unlimited) {patience : Nat}
    {commands : List Command} (edits : ∀ c ∈ commands, c.installs = false)
    {o : Outcome ε Recorder (List Reply)} (session : d.performAll patience commands = some o) :
    o.debugger.breakpoints = d.breakpoints.replay o.debugger.tracer.events.toList ∧
      Audited d.breakpoints o.debugger.tracer.events.toList ∧
      ∀ l patience' q, o.debugger.perform patience' (.removeBreakpoint l) = some q →
        ∃ emitted, q.debugger.tracer.events.toList =
            o.debugger.tracer.events.toList ++ emitted ∧
          (q.reply = .removed true ∧ emitted = [.removed l] ∨
            q.reply = .removed false ∧ emitted = []) := by
  obtain ⟨events, accounts⟩ := accounts_of_performAll edits session
  have unlimited : o.debugger.tracer.limit = none :=
    unlimited_of_performAll (congrArg Recorder.limit fresh) session
  have kept : o.debugger.tracer.events.toList = events := by
    rw [accounts.tracer, fresh, Recorder.events_observeAll_unlimited]
  refine ⟨?replayed, ?sound, ?removals⟩
  case replayed =>
    rw [kept]
    exact accounts.breakpoints
  case sound =>
    rw [kept]
    exact accounts.audited
  case removals =>
    intro l patience' q call
    cases call
    obtain ⟨emitted, now, replied⟩ := Accounts.removeBreakpoint l o.debugger
    have recorded := (Recorder.observeAll_of_unlimited unlimited emitted).2
    rw [← now.tracer] at recorded
    refine ⟨emitted, recorded, ?_⟩
    rcases replied with ⟨present, told⟩ | ⟨absent, silent⟩
    · exact .inl ⟨congrArg Reply.removed present, told⟩
    · exact .inr ⟨congrArg Reply.removed absent, silent⟩

/-- A breakpoint that was there at the start is hit and removed; removing it
once more adds nothing to the record. -/
theorem nested_audited :
    let d : Debugger Machine Recorder :=
      ⟨Machine.load .nested, (Breakpoints.empty.insert ⟨[3], 0⟩).2, .unlimited, .unlimited⟩
    let commands : List Command :=
      [.addBreakpoint ⟨[1], 1⟩, .addBreakpoint ⟨[3], 0⟩, .run, .removeBreakpoint ⟨[3], 0⟩]
    ∃ o q, d.performAll 3 commands = some o ∧
      o.debugger.perform 0 (.removeBreakpoint ⟨[3], 0⟩) = some q ∧
      o.debugger.tracer.events.toList =
        [.added ⟨[1], 1⟩, .step 2 .runnable, .step 2 .runnable, .step 3 .runnable, .hit ⟨[3], 0⟩,
          .stateChange .runnable .paused, .removed ⟨[3], 0⟩] ∧
      o.debugger.breakpoints = d.breakpoints.replay o.debugger.tracer.events.toList ∧
      Audited d.breakpoints o.debugger.tracer.events.toList ∧
      q.reply = .removed false ∧
      q.debugger.tracer.events.toList = o.debugger.tracer.events.toList := by
  intro d commands
  have returns : (d.performAll 3 commands).isSome = true := by decide
  have record : (d.performAll 3 commands).map (·.debugger.tracer.events.toList) =
      some [.added ⟨[1], 1⟩, .step 2 .runnable, .step 2 .runnable, .step 3 .runnable,
        .hit ⟨[3], 0⟩, .stateChange .runnable .paused, .removed ⟨[3], 0⟩] := by
    decide
  have gone : (d.performAll 3 commands).map (·.debugger.breakpoints.contains ⟨[3], 0⟩) =
      some false := by
    decide
  have edits : ∀ c ∈ commands, c.installs = false := by decide
  obtain ⟨o, session⟩ := Option.isSome_iff_exists.mp returns
  rw [session, Option.map_some, Option.some.injEq] at record gone
  have again : o.debugger.perform 0 (.removeBreakpoint ⟨[3], 0⟩) =
      some ⟨.removed false, o.debugger, 0⟩ := by
    rw [perform, removeBreakpoint_eq, if_neg (by rw [gone]; decide)]
  obtain ⟨replayed, sound, removals⟩ := session_audited (d := d) rfl edits session
  obtain ⟨emitted, recorded, ⟨present, _⟩ | ⟨absent, rfl⟩⟩ := removals _ 0 _ again
  · cases present
  · rw [List.append_nil] at recorded
    exact ⟨o, _, session, again, record, replayed, sound, absent, recorded⟩

end Debugger

end ScriptDebugger

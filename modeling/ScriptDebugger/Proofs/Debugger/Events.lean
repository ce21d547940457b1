/-
  What is reported

  What a part of a call reports is a list of events that the engine and the
  breakpoints determine: `resumeEvents`, `pauseEvents` and `advanceEvents`.
  The tracer hears of those, one after another, and of nothing else
  (`resume_tracer`, `pause_tracer`, `advance_tracer`). `eventsOf` is what many
  instructions report.

  None of this depends on the tracer or the budget. Debuggers that agree on
  the engine and the breakpoints are `Alongside` each other, and stay so
  however often they advance.
-/
import ScriptDebugger.Proofs.Debugger.Loop
import ScriptDebugger.Tracer.Recorder

namespace ScriptDebugger

/-- A member of two lists put together is a member of the one or of the other,
with what is before and after it there. -/
theorem append_eq_split {α : Type} {xs ys before after : List α} {x : α} :
    xs ++ ys = before ++ x :: after ↔
      (∃ between, xs = before ++ x :: between ∧ after = between ++ ys) ∨
        ∃ between, before = xs ++ between ∧ ys = between ++ x :: after := by
  constructor
  · intro split
    rcases List.append_eq_append_iff.mp split with ⟨between, rfl, later⟩ | ⟨between, rfl, later⟩
    · exact .inr ⟨between, rfl, later⟩
    · cases between with
      | nil => exact .inr ⟨[], by simp, later.symm⟩
      | cons y between =>
        obtain ⟨rfl, rfl⟩ := List.cons.inj later
        exact .inl ⟨between, rfl, rfl⟩
  · rintro (⟨between, rfl, rfl⟩ | ⟨between, rfl, rfl⟩) <;> simp

theorem Tracer.observeAll_append {τ : Type} [Tracer τ] (t : τ) (earlier later : List Event) :
    observeAll t (earlier ++ later) = observeAll (observeAll t earlier) later :=
  List.foldl_append

namespace Recorder

theorem observe_of_unlimited {r : Recorder} (h : r.limit = none) (e : Event) :
    Tracer.observe r e = ⟨r.events.push e, none⟩ := by
  obtain ⟨events, limit⟩ := r
  subst h
  rfl

theorem observeAll_of_unlimited {r : Recorder} (h : r.limit = none) (events : List Event) :
    (Tracer.observeAll r events).limit = none ∧
      (Tracer.observeAll r events).events.toList = r.events.toList ++ events := by
  induction events generalizing r with
  | nil => exact ⟨h, (List.append_nil _).symm⟩
  | cons e events ih =>
    have next : (Tracer.observe r e).limit = none := by rw [observe_of_unlimited h]
    obtain ⟨limit, kept⟩ := ih next
    refine ⟨limit, kept.trans ?_⟩
    rw [observe_of_unlimited h, Array.toList_push, List.append_assoc, List.singleton_append]

theorem events_observeAll_unlimited (events : List Event) :
    (Tracer.observeAll unlimited events).events.toList = events :=
  (observeAll_of_unlimited (r := unlimited) rfl events).2

end Recorder

namespace Debugger

variable {ε τ σ : Type} [Engine ε] [Tracer τ] [Tracer σ]

/-- What resuming reports. -/
def resumeEvents (d : Debugger ε τ) : List Event :=
  if d.state = .paused then [.stateChange .paused .runnable] else []

theorem resume_tracer (d : Debugger ε τ) :
    d.resume.tracer = Tracer.observeAll d.tracer d.resumeEvents := by
  by_cases paused : d.state = .paused
  · rw [resume_of_paused paused, forceState_of_ne (by rw [paused]; decide), resumeEvents,
      if_pos paused, paused]
    rfl
  · rw [resume_of_ne paused, resumeEvents, if_neg paused]
    rfl

/-- What pausing reports. -/
def pauseEvents (d : Debugger ε τ) : List Event :=
  if d.state = .runnable then [.stateChange .runnable .paused] else []

theorem pause_tracer (d : Debugger ε τ) :
    d.pause.tracer = Tracer.observeAll d.tracer d.pauseEvents := by
  by_cases runnable : d.state = .runnable
  · rw [pause_of_runnable runnable, forceState_of_ne (by rw [runnable]; decide), pauseEvents,
      if_pos runnable, runnable]
    rfl
  · rw [pause_of_ne runnable, pauseEvents, if_neg runnable]
    rfl

/-- What advancing reports: the instruction, and the breakpoint if it arrived
at one. -/
def advanceEvents (d : Debugger ε τ) : List Event :=
  .step d.execute.depth d.execute.state ::
    match d.execute.hit? with
    | none => []
    | some l => [.hit l, .stateChange .runnable .paused]

theorem advance_tracer (d : Debugger ε τ) :
    d.advance.tracer = Tracer.observeAll d.tracer d.advanceEvents := by
  cases hit : d.execute.hit? with
  | none =>
    rw [advance_of_no_hit hit, advanceEvents, hit]
    rfl
  | some l =>
    have runnable : (d.execute.report (.hit l)).state = .runnable := state_of_hit? hit
    rw [advance_of_hit hit, forceState_of_ne (by rw [runnable]; decide), runnable, advanceEvents,
      hit]
    rfl

/-- What so many instructions report, if the debugger advances by each. -/
def eventsOf : Nat → Debugger ε τ → List Event
  | 0, _ => []
  | n + 1, d => d.advanceEvents ++ eventsOf n d.advance

theorem eventsOf_add (m n : Nat) (d : Debugger ε τ) :
    eventsOf (m + n) d = eventsOf m d ++ eventsOf n (advance^[m] d) := by
  induction m generalizing d with
  | zero => rw [Nat.zero_add, eventsOf, List.nil_append, Function.iterate_zero_apply]
  | succ m ih =>
    rw [Nat.add_right_comm, eventsOf, eventsOf, ih, List.append_assoc, Function.iterate_succ_apply]

theorem iterate_tracer (n : Nat) (d : Debugger ε τ) :
    (advance^[n] d).tracer = Tracer.observeAll d.tracer (eventsOf n d) := by
  induction n generalizing d with
  | zero => rfl
  | succ n ih =>
    rw [Function.iterate_succ_apply, ih, advance_tracer, eventsOf, Tracer.observeAll_append]

/-! ## Debuggers side by side -/

/-- Two debuggers of equal engines with equal breakpoints. -/
structure Alongside (d : Debugger ε τ) (d' : Debugger ε σ) : Prop where
  engine : d.engine = d'.engine
  breakpoints : d.breakpoints = d'.breakpoints

namespace Alongside

variable {d : Debugger ε τ} {d' : Debugger ε σ}

omit [Tracer τ] [Tracer σ] in
theorem state_eq (h : Alongside d d') : d.state = d'.state := congrArg Engine.state h.engine

omit [Tracer τ] [Tracer σ] in
theorem depth_eq (h : Alongside d d') : d.depth = d'.depth := congrArg Engine.depth h.engine

theorem execute (h : Alongside d d') : Alongside d.execute d'.execute where
  engine := congrArg Engine.execute h.engine
  breakpoints := h.breakpoints

omit [Tracer τ] [Tracer σ] in
theorem hit?_eq (h : Alongside d d') : d.hit? = d'.hit? := by
  unfold hit?
  rw [h.state_eq, h.depth_eq, h.engine, h.breakpoints]

theorem advance (h : Alongside d d') : Alongside d.advance d'.advance where
  engine := by rw [advance_engine, advance_engine, h.execute.hit?_eq, h.engine]
  breakpoints := by rw [advance_breakpoints, advance_breakpoints, h.breakpoints]

theorem iterate (h : Alongside d d') (n : Nat) :
    Alongside (Debugger.advance^[n] d) (Debugger.advance^[n] d') := by
  induction n with
  | zero => exact h
  | succ n ih =>
    rw [Function.iterate_succ_apply', Function.iterate_succ_apply']
    exact ih.advance

theorem advanceEvents_eq (h : Alongside d d') : d.advanceEvents = d'.advanceEvents := by
  unfold advanceEvents
  rw [h.execute.hit?_eq, h.execute.state_eq, h.execute.depth_eq]

theorem eventsOf_eq (h : Alongside d d') (n : Nat) : eventsOf n d = eventsOf n d' := by
  induction n generalizing d d' with
  | zero => rfl
  | succ n ih => rw [eventsOf, eventsOf, h.advanceEvents_eq, ih h.advance]

end Alongside

end Debugger

end ScriptDebugger

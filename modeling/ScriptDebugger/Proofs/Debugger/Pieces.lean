/-
  A run in pieces

  A run under a budget does what a run without one does, only that it pauses
  once the budget is used up; the next run takes it up where it was paused. So
  the same call, given again and again, executes the instructions of the
  unlimited run, in pieces of as many as the budget allows.

  What is proved:
    1. `run_of_runsFor` — a call executes what is left of the unlimited run,
       or as much of it as the budget allows, and nothing else.
    2. `calls_so_far` — what the first `j` calls have done, as long as the
       unlimited run is not used up before the last of them; and `all_calls`,
       what they have done once it is.
    3. `run_in_pieces` — all calls together. How many they are, what each of
       them replies, and that nothing is reported that the unlimited run does
       not report, except for the pause between two calls and its end.

  The budget is looked at before an instruction and the breakpoint after it.
  A budget that is used up by the very instruction that ends the unlimited run
  is no reason to pause, so no call is needed that does nothing, unless the
  unlimited run did nothing either.
-/
import Mathlib.Algebra.Order.Floor.Div
import ScriptDebugger.Proofs.Debugger.Events
import ScriptDebugger.Proofs.Debugger.Session
import ScriptDebugger.Proofs.Machine.Frames

namespace ScriptDebugger

/-- Whether an event reports an instruction or a breakpoint that was hit. -/
def Event.isProgress : Event → Bool
  | .step .. | .hit _ => true
  | _ => false

/-- What is reported of a pause between two calls and of its end. -/
def interruption : List Event := [.stateChange .runnable .paused, .stateChange .paused .runnable]

theorem intercalate_concat {α : Type} (separator : List α) {parts : List (List α)}
    (some_part : parts ≠ []) (last : List α) :
    separator.intercalate (parts ++ [last]) = separator.intercalate parts ++ separator ++ last := by
  induction parts with
  | nil => exact absurd rfl some_part
  | cons first parts ih =>
    cases parts with
    | nil => simp [List.intercalate]
    | cons second parts =>
      have later := ih (List.cons_ne_nil second parts)
      rw [List.cons_append, List.cons_append, List.intercalate_cons_cons, ← List.cons_append, later,
        List.intercalate_cons_cons]
      simp only [List.append_assoc]

/-- An interruption is no progress. -/
theorem filter_intercalate_interruption (parts : List (List Event)) :
    (interruption.intercalate parts).filter Event.isProgress =
      parts.flatten.filter Event.isProgress := by
  induction parts with
  | nil => rfl
  | cons first parts ih =>
    cases parts with
    | nil => simp [List.intercalate]
    | cons second parts =>
      have silent : interruption.filter Event.isProgress = [] := rfl
      rw [List.intercalate_cons_cons, List.filter_append, List.filter_append, ih, silent,
        List.append_nil, ← List.filter_append, ← List.flatten_cons]

namespace Debugger

variable {ε τ σ : Type} [Engine ε] [Tracer τ] [Tracer σ]

theorem pause_state_of_runnable (obeys : Engine.Obeys ε) {d : Debugger ε τ}
    (runnable : d.state = .runnable) : d.pause.state = .paused := by
  show Engine.state d.pause.engine = .paused
  rw [pause_engine, if_pos runnable, obeys.state_setState]

/-- A pause between two instructions leaves no trace in an obedient engine. -/
theorem resume_pause_alongside (obedient : Engine.Obedient ε) {d : Debugger ε τ}
    (runnable : d.state = .runnable) : Alongside d.pause.resume d where
  engine := by
    rw [resume_engine, if_pos (pause_state_of_runnable obedient.toObeys runnable), pause_engine,
      if_pos runnable, obedient.setState_setState, ← runnable]
    exact obedient.setState_state d.engine
  breakpoints := by rw [resume_breakpoints, pause_breakpoints]

/-! ## Runs without a budget -/

/-- The engine stays runnable for `m` instructions, and no longer. -/
structure RunsFor (m : Nat) (d : Debugger ε τ) : Prop where
  going : ∀ i < m, (advance^[i] d).state = .runnable
  stopped : (advance^[m] d).state ≠ .runnable

namespace RunsFor

variable {m n : Nat} {d : Debugger ε τ} {e : Debugger ε σ}

theorem drop (h : RunsFor m d) (le : n ≤ m) : RunsFor (m - n) (advance^[n] d) where
  going i less := by
    rw [← Function.iterate_add_apply]
    exact h.going (i + n) (by omega)
  stopped := by
    rw [← Function.iterate_add_apply, Nat.sub_add_cancel le]
    exact h.stopped

theorem of_alongside (h : RunsFor m d) (same : Alongside e d) : RunsFor m e where
  going i less := (same.iterate i).state_eq.trans (h.going i less)
  stopped := by
    rw [(same.iterate m).state_eq]
    exact h.stopped

/-- A run stops where the engine does, and needs not pause it. -/
theorem of_run {patience : Nat} {s : Stop ε τ} (unlimited : d.budget = .unlimited)
    (returns : d.run patience = some s) :
    RunsFor s.executed d.resume ∧ s.debugger = advance^[s.executed] d.resume ∧
      s.executed ≤ patience := by
  have bound (i : Nat) : (advance^[i] d.resume).budget = .unlimited := by
    rw [iterate_advance_budget, resume_budget, unlimited]
  obtain ⟨m, enough, first, rfl⟩ := advanceUntil_eq_some_iff.mp returns
  have stopped : (advance^[m] d.resume).state ≠ .runnable := by
    simpa [stops_of_unlimited (bound m)] using first.stopped
  rw [Nat.zero_add]
  refine ⟨⟨fun i less => ?_, stopped⟩, pause_of_ne stopped, enough⟩
  exact (stops_eq_false_iff.mp (first.going i less)).1

end RunsFor

/-! ## Calls under a budget -/

section Calls

variable {m patience : Nat} {n : UInt64} {d : Debugger ε τ}

/-- A run executes what the engine would by itself, or as much of it as the
budget allows. -/
theorem run_of_runsFor {l : Nat} (bounded : d.budget = .atMost n) (h : RunsFor l d.resume)
    (enough : min n.toNat l ≤ patience) :
    d.run patience = some ⟨(advance^[min n.toNat l] d.resume).pause, min n.toNat l⟩ := by
  have bound (i : Nat) : (advance^[i] d.resume).budget = .atMost n := by
    rw [iterate_advance_budget, resume_budget, bounded]
  have first : StopsAfter (fun _ => false) 0 (min n.toNat l) d.resume := by
    constructor
    · intro i less
      rw [stops_eq_false_iff, bound, Nat.zero_add]
      refine ⟨h.going i (by omega), rfl, ?_⟩
      exact decide_eq_false (by omega)
    · rcases Nat.le_total l n.toNat with left | right
      · rw [Nat.min_eq_right left]
        exact stops_of_not_runnable h.stopped
      · have exhausted : (Budget.atMost n).exhausted (0 + n.toNat) = true :=
          decide_eq_true (by omega)
        rw [Nat.min_eq_left right, stops, bound, exhausted, Bool.or_true]
  have := advanceUntil_of_stopsAfter first enough
  rwa [Nat.zero_add] at this

/-- The same debugger under a budget. -/
def bounded (n : UInt64) (d : Debugger ε τ) : Debugger ε τ := { d with budget := .atMost n }

/-- What the unlimited run of `m` instructions reports of those that the call
after `j` others executes. The first call may have to resume. -/
def piece (m n : Nat) (d : Debugger ε τ) (j : Nat) : List Event :=
  (if j = 0 then d.resumeEvents else []) ++ eventsOf (min n (m - j * n)) (advance^[j * n] d.resume)

def pieces (m n : Nat) (d : Debugger ε τ) (j : Nat) : List (List Event) :=
  (List.range j).map (piece m n d)

theorem length_pieces (m n : Nat) (d : Debugger ε τ) (j : Nat) : (pieces m n d j).length = j := by
  rw [pieces, List.length_map, List.length_range]

theorem take_pieces (m n : Nat) (d : Debugger ε τ) {i j : Nat} (le : i ≤ j) :
    (pieces m n d j).take i = pieces m n d i := by
  rw [pieces, ← List.map_take, List.take_range, Nat.min_eq_left le, pieces]

/-- What is reported before the first instruction of the call after `j`
others. -/
def opening (m n : Nat) (d : Debugger ε τ) (j : Nat) : List Event :=
  if j = 0 then d.resumeEvents else interruption.intercalate (pieces m n d j) ++ interruption

theorem opening_append (m n : Nat) (d : Debugger ε τ) (j : Nat) :
    opening m n d j ++ eventsOf (min n (m - j * n)) (advance^[j * n] d.resume) =
      interruption.intercalate (pieces m n d (j + 1)) := by
  rw [pieces, List.range_succ, List.map_append, List.map_singleton]
  cases j with
  | zero => simp [opening, piece, List.intercalate]
  | succ j =>
    rw [intercalate_concat interruption (by simp), opening, if_neg (Nat.succ_ne_zero j), piece,
      if_neg (Nat.succ_ne_zero j), List.nil_append, pieces]

/-- The pieces make up the unlimited run. -/
theorem flatten_pieces {n j : Nat} (le : j * n ≤ m) :
    (pieces m n d (j + 1)).flatten = d.resumeEvents ++ eventsOf (min ((j + 1) * n) m) d.resume := by
  induction j with
  | zero => simp [pieces, piece]
  | succ j ih =>
    have before : j * n ≤ m := by
      rw [Nat.succ_mul] at le
      omega
    have next : min ((j + 1 + 1) * n) m = (j + 1) * n + min n (m - (j + 1) * n) := by
      rw [Nat.succ_mul (j + 1)]
      omega
    rw [pieces, List.range_succ, List.map_append, List.flatten_append, ← pieces, ih before,
      Nat.min_eq_left le, next, eventsOf_add, List.append_assoc]
    simp [piece]

/-- Where the call after `j` others takes up the unlimited run of `d`. -/
structure TakesUp (m : Nat) (n : UInt64) (d : Debugger ε τ) (j : Nat) (e : Debugger ε τ) :
    Prop where
  bounded : e.budget = .atMost n
  place : Alongside e.resume (advance^[j * n.toNat] d.resume)
  reported : e.resume.tracer = Tracer.observeAll d.tracer (opening m n.toNat d j)

theorem TakesUp.start (m : Nat) (n : UInt64) (d : Debugger ε τ) : TakesUp m n d 0 (d.bounded n) := by
  have place : Alongside (d.bounded n).resume d.resume := by
    constructor
    · rw [resume_engine, resume_engine]
      rfl
    · rw [resume_breakpoints, resume_breakpoints]
      rfl
  refine ⟨rfl, ?_, resume_tracer (d.bounded n)⟩
  rwa [Nat.zero_mul, Function.iterate_zero_apply]

namespace TakesUp

variable {j : Nat} {e : Debugger ε τ}

theorem tracer_iterate (h : TakesUp m n d j e) :
    (advance^[min n.toNat (m - j * n.toNat)] e.resume).tracer =
      Tracer.observeAll d.tracer (interruption.intercalate (pieces m n.toNat d (j + 1))) := by
  rw [iterate_tracer, h.reported, h.place.eventsOf_eq, ← Tracer.observeAll_append, opening_append]

/-- A call that is not the last uses up its budget. -/
theorem next (obedient : Engine.Obedient ε) (whole : RunsFor m d.resume) (h : TakesUp m n d j e)
    (more : (j + 1) * n.toNat < m) (enough : m ≤ patience) :
    ∃ e', e.run patience = some ⟨e', n.toNat⟩ ∧ e'.state = .paused ∧ TakesUp m n d (j + 1) e' ∧
      e'.tracer = Tracer.observeAll d.tracer
        (interruption.intercalate (pieces m n.toNat d (j + 1)) ++ [.stateChange .runnable .paused]) := by
  have rest := (whole.drop (n := j * n.toNat) (by rw [Nat.succ_mul] at more; omega)).of_alongside h.place
  have used : min n.toNat (m - j * n.toNat) = n.toNat := by
    rw [Nat.succ_mul] at more
    omega
  have fits : min n.toNat (m - j * n.toNat) ≤ patience := by omega
  have returns := run_of_runsFor h.bounded rest fits
  have tracer := h.tracer_iterate
  rw [used] at returns tracer
  have place := h.place.iterate n.toNat
  rw [← Function.iterate_add_apply, Nat.add_comm, ← Nat.succ_mul] at place
  have runnable : (advance^[n.toNat] e.resume).state = .runnable := by
    rw [place.state_eq]
    exact whole.going _ more
  have paused := pause_state_of_runnable obedient.toObeys runnable
  have reported : (advance^[n.toNat] e.resume).pause.tracer = Tracer.observeAll d.tracer
      (interruption.intercalate (pieces m n.toNat d (j + 1)) ++ [.stateChange .runnable .paused]) := by
    rw [pause_tracer, pauseEvents, if_pos runnable, tracer, Tracer.observeAll_append]
  refine ⟨_, returns, paused, ⟨?_, ?_, ?_⟩, reported⟩
  · rw [pause_budget, iterate_advance_budget, resume_budget, h.bounded]
  · have back := resume_pause_alongside obedient runnable
    exact ⟨back.engine.trans place.engine, back.breakpoints.trans place.breakpoints⟩
  · rw [resume_tracer, reported, resumeEvents, if_pos paused, ← Tracer.observeAll_append, opening,
      if_neg (Nat.succ_ne_zero j), List.append_assoc]
    rfl

/-- The last call executes what is left. -/
theorem last (whole : RunsFor m d.resume) (h : TakesUp m n d j e) (le : j * n.toNat ≤ m)
    (rest : m ≤ (j + 1) * n.toNat) (enough : m ≤ patience) :
    ∃ e', e.run patience = some ⟨e', m - j * n.toNat⟩ ∧
      e'.engine = (advance^[m] d.resume).engine ∧
      e'.tracer = Tracer.observeAll d.tracer
        (interruption.intercalate (pieces m n.toNat d (j + 1))) := by
  have left : min n.toNat (m - j * n.toNat) = m - j * n.toNat := by
    rw [Nat.succ_mul] at rest
    omega
  have runs := (whole.drop le).of_alongside h.place
  have fits : min n.toNat (m - j * n.toNat) ≤ patience := by omega
  have returns := run_of_runsFor h.bounded runs fits
  have tracer := h.tracer_iterate
  rw [left] at returns tracer
  rw [pause_of_ne runs.stopped] at returns
  have place := h.place.iterate (m - j * n.toNat)
  rw [← Function.iterate_add_apply, Nat.sub_add_cancel le] at place
  exact ⟨_, returns, place.engine, tracer⟩

end TakesUp

theorem le_of_more {j n m : Nat} (more : j = 0 ∨ j * n < m) : j * n ≤ m := by
  rcases more with rfl | more
  · rw [Nat.zero_mul]
    exact Nat.zero_le m
  · exact Nat.le_of_lt more

/-- The debugger after the first `j` of the calls, as long as something is
left of the unlimited run before each of them. -/
theorem calls_so_far (obedient : Engine.Obedient ε) (whole : RunsFor m d.resume)
    (enough : m ≤ patience) {j : Nat} (more : j = 0 ∨ j * n.toNat < m) :
    ∃ e, (d.bounded n).performAll patience (List.replicate j .run) =
        some ⟨List.replicate j (.stopped .paused), e, j * n.toNat⟩ ∧
      TakesUp m n d j e ∧
      (j ≠ 0 → e.tracer = Tracer.observeAll d.tracer
        (interruption.intercalate (pieces m n.toNat d j) ++ [.stateChange .runnable .paused])) := by
  induction j with
  | zero =>
    refine ⟨d.bounded n, ?_, TakesUp.start m n d, fun h => absurd rfl h⟩
    rw [Nat.zero_mul]
    rfl
  | succ j ih =>
    have more : (j + 1) * n.toNat < m := more.resolve_left (Nat.succ_ne_zero j)
    obtain ⟨e, session, takes, _⟩ := ih (.inr (by rw [Nat.succ_mul] at more; omega))
    obtain ⟨e', returns, paused, takes', reported⟩ := takes.next obedient whole more enough
    refine ⟨e', ?_, takes', fun _ => reported⟩
    have call : e.performAll patience [.run] = some ⟨[.stopped .paused], e', n.toNat⟩ := by
      simp [performAll, perform, returns, outcome, paused]
    rw [List.replicate_succ', performAll_append session, call, Option.map_some,
      ← List.replicate_succ', ← Nat.succ_mul]

/-- The debugger after the call that uses up the unlimited run. -/
theorem all_calls (obedient : Engine.Obedient ε) (whole : RunsFor m d.resume)
    (enough : m ≤ patience) {j : Nat} (more : j = 0 ∨ j * n.toNat < m)
    (rest : m ≤ (j + 1) * n.toNat) :
    ∃ e, (d.bounded n).performAll patience (List.replicate (j + 1) .run) =
        some ⟨List.replicate j (.stopped .paused) ++ [.stopped (advance^[m] d.resume).state], e, m⟩ ∧
      e.engine = (advance^[m] d.resume).engine ∧
      e.tracer = Tracer.observeAll d.tracer
        (interruption.intercalate (pieces m n.toNat d (j + 1))) := by
  have le := le_of_more more
  obtain ⟨e, session, takes, _⟩ := calls_so_far obedient whole enough more
  obtain ⟨e', last, engine, reported⟩ := takes.last whole le rest enough
  have state : e'.state = (advance^[m] d.resume).state := congrArg Engine.state engine
  have call : e.performAll patience [.run] =
      some ⟨[.stopped (advance^[m] d.resume).state], e', m - j * n.toNat⟩ := by
    simp [performAll, perform, last, outcome, state]
  refine ⟨e', ?_, engine, reported⟩
  rw [List.replicate_succ', performAll_append session, call, Option.map_some,
    Nat.add_sub_cancel' le]

end Calls

/-! ## All calls together -/

/-- So many calls, and no fewer, get to the end of the unlimited run. -/
theorem max_ceilDiv (m : Nat) {n : Nat} (positive : 0 < n) :
    ∃ j, max 1 (m ⌈/⌉ n) = j + 1 ∧ (j = 0 ∨ j * n < m) ∧ m ≤ (j + 1) * n := by
  have bound (c : Nat) : m ⌈/⌉ n ≤ c ↔ m ≤ c * n := by
    rw [ceilDiv_le_iff_le_mul positive, Nat.mul_comm]
  refine ⟨max 1 (m ⌈/⌉ n) - 1, by omega, ?_, ?_⟩
  · rcases Nat.lt_or_ge 1 (m ⌈/⌉ n) with many | one
    · right
      have := mt (bound (max 1 (m ⌈/⌉ n) - 1)).mpr (by omega)
      omega
    · left
      omega
  · exact (bound _).mp (by omega)

/-- An unlimited run is done by calls under a budget, each of which executes
and reports the next piece of it. -/
theorem run_in_pieces (obedient : Engine.Obedient ε) {d : Debugger ε Recorder}
    (unlimited : d.budget = .unlimited) (recording : d.tracer.limit = none) {patience : Nat}
    {s : Stop ε Recorder} (returns : d.run patience = some s) {n : UInt64}
    (positive : 0 < n.toNat) :
    ∃ parts : List (List Event),
      parts.length = max 1 (s.executed ⌈/⌉ n.toNat) ∧
      s.debugger.tracer.events.toList = d.tracer.events.toList ++ parts.flatten ∧
      (∀ j, 0 < j → j < parts.length →
        j * n.toNat < s.executed ∧
        ∃ e, (d.bounded n).performAll patience (List.replicate j .run) =
            some ⟨List.replicate j (.stopped .paused), e, j * n.toNat⟩ ∧
          e.tracer.events.toList = d.tracer.events.toList ++
            (interruption.intercalate (parts.take j) ++ [.stateChange .runnable .paused])) ∧
      ∃ e, (d.bounded n).performAll patience (List.replicate parts.length .run) =
          some ⟨List.replicate (parts.length - 1) (.stopped .paused) ++ [.stopped s.debugger.state],
            e, s.executed⟩ ∧
        e.engine = s.debugger.engine ∧
        e.tracer.events.toList = d.tracer.events.toList ++ interruption.intercalate parts ∧
        e.tracer.events.toList.filter Event.isProgress =
          s.debugger.tracer.events.toList.filter Event.isProgress := by
  obtain ⟨whole, same, enough⟩ := RunsFor.of_run unlimited returns
  obtain ⟨j, calls, more, rest⟩ := max_ceilDiv s.executed positive
  have before {i : Nat} (less : i < j + 1) : i * n.toNat ≤ j * n.toNat :=
    Nat.mul_le_mul_right n.toNat (Nat.le_of_lt_succ less)
  have record (events : List Event) :
      (Tracer.observeAll d.tracer events).events.toList = d.tracer.events.toList ++ events :=
    (Recorder.observeAll_of_unlimited recording events).2
  have le := le_of_more more
  have unlimited_record : s.debugger.tracer.events.toList =
      d.tracer.events.toList ++ (pieces s.executed n.toNat d (j + 1)).flatten := by
    rw [same, iterate_tracer, resume_tracer, ← Tracer.observeAll_append, record, flatten_pieces le,
      Nat.min_eq_right rest]
  refine ⟨pieces s.executed n.toNat d (j + 1), (length_pieces ..).trans calls.symm,
    unlimited_record, ?_, ?_⟩
  · intro i positive less
    rw [length_pieces] at less
    have left : i * n.toNat < s.executed :=
      Nat.lt_of_le_of_lt (before less) (more.resolve_left (by omega))
    obtain ⟨e, session, _, reported⟩ := calls_so_far obedient whole enough (.inr left)
    refine ⟨left, e, session, ?_⟩
    rw [reported (Nat.ne_of_gt positive), record, take_pieces _ _ _ (Nat.le_of_lt less)]
  · obtain ⟨e, session, engine, reported⟩ := all_calls obedient whole enough more rest
    have events : e.tracer.events.toList =
        d.tracer.events.toList ++ interruption.intercalate (pieces s.executed n.toNat d (j + 1)) := by
      rw [reported, record]
    rw [← same] at session engine
    refine ⟨e, ?_, engine, events, ?_⟩
    · rwa [length_pieces, Nat.add_sub_cancel]
    · rw [events, unlimited_record, List.filter_append, List.filter_append,
        filter_intercalate_interruption]

end Debugger

theorem Machine.obedient : Engine.Obedient Machine where
  state_setState _ _ := rfl
  setState_setState _ _ _ := rfl
  setState_state _ := rfl

namespace Debugger

/-- `Program.nested` with a breakpoint that is hit by the sixth instruction, in
pieces of three: the budget of the second call is used up where the breakpoint
is hit. -/
theorem run_nested_in_pieces :
    let d : Debugger Machine Recorder :=
      ⟨Machine.load .nested, (Breakpoints.empty.insert ⟨[1], 1⟩).2, .unlimited, .unlimited⟩
    ∃ s e, d.run 6 = some s ∧ s.executed = 6 ∧
      (d.bounded 3).performAll 6 [.run, .run] =
        some ⟨[.stopped .paused, .stopped .paused], e, 6⟩ ∧
      e.engine = s.debugger.engine ∧
      e.tracer.events.toList.filter Event.isProgress =
        s.debugger.tracer.events.toList.filter Event.isProgress := by
  intro d
  have returns : (d.run 6).isSome = true := by decide
  have executed : (d.run 6).map (·.executed) = some 6 := by decide
  have stopped : (d.run 6).map (·.debugger.state) = some .paused := by decide
  obtain ⟨s, returns⟩ := Option.isSome_iff_exists.mp returns
  rw [returns, Option.map_some, Option.some.injEq] at executed stopped
  have positive : 0 < (3 : UInt64).toNat := by decide
  obtain ⟨parts, length, _, _, e, session, engine, _, progress⟩ :=
    run_in_pieces Machine.obedient rfl rfl returns positive
  have two : max 1 (6 ⌈/⌉ (3 : UInt64).toNat) = 2 := by decide
  rw [executed, two] at length
  rw [length, executed, stopped] at session
  exact ⟨s, e, returns, executed, session, engine, progress⟩

end Debugger

end ScriptDebugger

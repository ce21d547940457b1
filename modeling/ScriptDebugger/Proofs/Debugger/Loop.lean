/-
  Stepping loops

  A stepping call resumes, repeats `advance` and pauses where it stops. This
  module says what its parts do to the engine, and what the loop does in terms
  of the iterates of `advance`.

  What is proved:
    1. `advanceUntil_eq_some_iff` — a loop returns exactly if some iterate of
       `advance` within the patience is one to stop at, and then it returns
       the first such iterate, paused, with the number of instructions it took
       to get there.
    2. `advanceUntil_eq_none` — a loop that comes to no stop never returns.
    3. `advanceUntil_rule` — what `advance` keeps where a loop goes on holds
       where it stops.
-/
import Mathlib.Logic.Function.Iterate
import ScriptDebugger.Debugger.Stepping

namespace ScriptDebugger

/-- There is one first place at most. -/
theorem first_unique {p : Nat → Bool} {m n : Nat} (before : ∀ i < m, p i = false)
    (there : p m = true) (before' : ∀ i < n, p i = false) (there' : p n = true) : m = n := by
  rcases Nat.lt_trichotomy m n with less | same | more
  · have := before' m less
    rw [there] at this
    cases this
  · exact same
  · have := before n more
    rw [there'] at this
    cases this

/-! ## Plain execution -/

namespace Engine

variable {ε : Type} [Engine ε]

/-- Executed plainly, the engine comes to state `s` with its `k`-th
instruction and was in no terminal state before. -/
def EndsAfter (k : Nat) (s : RunState) (e : ε) : Prop :=
  (∀ i < k, (state (execute^[i] e)).isTerminal = false) ∧ state (execute^[k] e) = s

instance (k : Nat) (s : RunState) (e : ε) : Decidable (EndsAfter k s e) :=
  inferInstanceAs (Decidable (_ ∧ _))

/-- Executed plainly, the engine never comes to a terminal state. -/
def NeverEnds (e : ε) : Prop := ∀ i, (state (execute^[i] e)).isTerminal = false

/-! ## Requests for a run state -/

/-- An engine shows the run state that it was asked for. -/
structure Obeys (ε : Type) [Engine ε] : Prop where
  state_setState : ∀ (s : RunState) (e : ε), state (setState s e) = s

/-- A request changes the run state to the one asked for and nothing else: of
two requests the last one counts, and asking for the state that the engine
shows changes nothing. -/
structure Obedient (ε : Type) [Engine ε] : Prop extends Obeys ε where
  setState_setState : ∀ (s t : RunState) (e : ε), setState s (setState t e) = setState s e
  setState_state : ∀ e : ε, setState (state e) e = e

end Engine

namespace Debugger

variable {ε τ : Type} [Engine ε] [Tracer τ]

/-! ## The parts of a call -/

omit [Engine ε] in
@[simp] theorem report_engine (d : Debugger ε τ) (e : Event) : (d.report e).engine = d.engine := rfl

omit [Engine ε] in
@[simp] theorem report_breakpoints (d : Debugger ε τ) (e : Event) :
    (d.report e).breakpoints = d.breakpoints := rfl

omit [Engine ε] in
@[simp] theorem report_budget (d : Debugger ε τ) (e : Event) : (d.report e).budget = d.budget := rfl

@[simp] theorem execute_engine (d : Debugger ε τ) :
    d.execute.engine = Engine.execute d.engine := rfl

@[simp] theorem execute_breakpoints (d : Debugger ε τ) :
    d.execute.breakpoints = d.breakpoints := rfl

@[simp] theorem execute_budget (d : Debugger ε τ) : d.execute.budget = d.budget := rfl

theorem forceState_of_eq {d : Debugger ε τ} {target : RunState} (h : d.state = target) :
    d.forceState target = d := if_pos h

theorem forceState_of_ne {d : Debugger ε τ} {target : RunState} (h : d.state ≠ target) :
    d.forceState target =
      ⟨Engine.setState target d.engine, d.breakpoints, d.budget,
        Tracer.observe d.tracer (.stateChange d.state target)⟩ := if_neg h

@[simp] theorem forceState_breakpoints (d : Debugger ε τ) (target : RunState) :
    (d.forceState target).breakpoints = d.breakpoints := by
  unfold forceState
  split <;> rfl

@[simp] theorem forceState_budget (d : Debugger ε τ) (target : RunState) :
    (d.forceState target).budget = d.budget := by
  unfold forceState
  split <;> rfl

theorem resume_of_paused {d : Debugger ε τ} (h : d.state = .paused) :
    d.resume = d.forceState .runnable := if_pos h

theorem resume_of_ne {d : Debugger ε τ} (h : d.state ≠ .paused) : d.resume = d := if_neg h

theorem pause_of_runnable {d : Debugger ε τ} (h : d.state = .runnable) :
    d.pause = d.forceState .paused := if_pos h

theorem pause_of_ne {d : Debugger ε τ} (h : d.state ≠ .runnable) : d.pause = d := if_neg h

@[simp] theorem resume_breakpoints (d : Debugger ε τ) : d.resume.breakpoints = d.breakpoints := by
  unfold resume
  split <;> simp

@[simp] theorem resume_budget (d : Debugger ε τ) : d.resume.budget = d.budget := by
  unfold resume
  split <;> simp

@[simp] theorem pause_breakpoints (d : Debugger ε τ) : d.pause.breakpoints = d.breakpoints := by
  unfold pause
  split <;> simp

@[simp] theorem pause_budget (d : Debugger ε τ) : d.pause.budget = d.budget := by
  unfold pause
  split <;> simp

theorem resume_engine (d : Debugger ε τ) :
    d.resume.engine =
      if d.state = .paused then Engine.setState .runnable d.engine else d.engine := by
  by_cases h : d.state = .paused
  · rw [resume_of_paused h, forceState_of_ne (by rw [h]; decide), if_pos h]
  · rw [resume_of_ne h, if_neg h]

theorem pause_engine (d : Debugger ε τ) :
    d.pause.engine =
      if d.state = .runnable then Engine.setState .paused d.engine else d.engine := by
  by_cases h : d.state = .runnable
  · rw [pause_of_runnable h, forceState_of_ne (by rw [h]; decide), if_pos h]
  · rw [pause_of_ne h, if_neg h]

omit [Tracer τ] in
theorem state_of_hit? {d : Debugger ε τ} {l : Location} (h : d.hit? = some l) :
    d.state = .runnable := by
  unfold hit? at h
  split at h
  · rename_i able
    exact able.1
  · cases h

theorem advance_of_hit {d : Debugger ε τ} {l : Location} (h : d.execute.hit? = some l) :
    d.advance = (d.execute.report (.hit l)).forceState .paused := by
  simp only [advance, checkHit, h]

theorem advance_of_no_hit {d : Debugger ε τ} (h : d.execute.hit? = none) :
    d.advance = d.execute := by
  simp only [advance, checkHit, h]

@[simp] theorem advance_breakpoints (d : Debugger ε τ) :
    d.advance.breakpoints = d.breakpoints := by
  cases h : d.execute.hit? with
  | none => rw [advance_of_no_hit h, execute_breakpoints]
  | some l => rw [advance_of_hit h, forceState_breakpoints, report_breakpoints, execute_breakpoints]

@[simp] theorem advance_budget (d : Debugger ε τ) : d.advance.budget = d.budget := by
  cases h : d.execute.hit? with
  | none => rw [advance_of_no_hit h, execute_budget]
  | some l => rw [advance_of_hit h, forceState_budget, report_budget, execute_budget]

/-- A hit is where the engine is paused: it was runnable. -/
theorem advance_engine (d : Debugger ε τ) :
    d.advance.engine =
      if d.execute.hit?.isSome then Engine.setState .paused (Engine.execute d.engine)
      else Engine.execute d.engine := by
  cases h : d.execute.hit? with
  | none => simp [advance_of_no_hit h]
  | some l =>
    have able : (d.execute.report (.hit l)).state ≠ .paused := by
      have := state_of_hit? h
      simp only [state, report_engine] at this ⊢
      rw [this]
      decide
    rw [advance_of_hit h, forceState_of_ne able]
    rfl

theorem iterate_advance_breakpoints (n : Nat) (d : Debugger ε τ) :
    (advance^[n] d).breakpoints = d.breakpoints := by
  induction n with
  | zero => rfl
  | succ n ih => rw [Function.iterate_succ_apply', advance_breakpoints, ih]

theorem iterate_advance_budget (n : Nat) (d : Debugger ε τ) :
    (advance^[n] d).budget = d.budget := by
  induction n with
  | zero => rfl
  | succ n ih => rw [Function.iterate_succ_apply', advance_budget, ih]

/-! ## Without breakpoints -/

omit [Tracer τ] in
theorem hit?_of_empty {d : Debugger ε τ} (h : d.breakpoints = .empty) : d.hit? = none := by
  unfold hit?
  split
  · rw [h]
    simp [Option.filter_eq_none_iff, Breakpoints.contains_empty]
  · rfl

theorem advance_of_empty {d : Debugger ε τ} (h : d.breakpoints = .empty) :
    d.advance = d.execute := by
  apply advance_of_no_hit
  apply hit?_of_empty
  rw [execute_breakpoints, h]

/-- Without breakpoints the debugger executes as the engine does by itself. -/
theorem iterate_advance_engine {d : Debugger ε τ} (h : d.breakpoints = .empty) (n : Nat) :
    (advance^[n] d).engine = Engine.execute^[n] d.engine := by
  induction n with
  | zero => rfl
  | succ n ih =>
    have none_left : (advance^[n] d).breakpoints = .empty := by rw [iterate_advance_breakpoints, h]
    rw [Function.iterate_succ_apply', advance_of_empty none_left, execute_engine, ih,
      Function.iterate_succ_apply']

/-! ## Loops -/

omit [Tracer τ] in
theorem stops_eq_false_iff {arrived : Nat → Bool} {executed : Nat} {d : Debugger ε τ} :
    d.stops arrived executed = false ↔
      d.state = .runnable ∧ arrived d.depth = false ∧ d.budget.exhausted executed = false := by
  simp [stops, and_assoc]

omit [Tracer τ] in
theorem stops_iff {arrived : Nat → Bool} {executed : Nat} {d : Debugger ε τ} :
    d.stops arrived executed = true ↔
      d.state ≠ .runnable ∨ arrived d.depth = true ∨ d.budget.exhausted executed = true := by
  simp [stops, or_assoc]

omit [Tracer τ] in
theorem stops_of_not_runnable {arrived : Nat → Bool} {executed : Nat} {d : Debugger ε τ}
    (h : d.state ≠ .runnable) : d.stops arrived executed = true :=
  stops_iff.mpr (.inl h)

omit [Tracer τ] in
/-- Without a bound it does not matter how many instructions were executed. -/
theorem stops_of_unlimited {d : Debugger ε τ} (h : d.budget = .unlimited) (arrived : Nat → Bool)
    (executed : Nat) : d.stops arrived executed = (decide (d.state ≠ .runnable) || arrived d.depth) := by
  simp [stops, h, Budget.unlimited, Budget.exhausted]

/-- A loop that has executed so many instructions comes to its first stop with
the `n`-th further one. -/
structure StopsAfter (arrived : Nat → Bool) (executed n : Nat) (d : Debugger ε τ) : Prop where
  going : ∀ i < n, (advance^[i] d).stops arrived (executed + i) = false
  stopped : (advance^[n] d).stops arrived (executed + n) = true

namespace StopsAfter

variable {arrived : Nat → Bool} {executed m n : Nat} {d : Debugger ε τ}

theorem unique (h : StopsAfter arrived executed m d) (h' : StopsAfter arrived executed n d) :
    m = n :=
  first_unique (p := fun i => (advance^[i] d).stops arrived (executed + i))
    h.going h.stopped h'.going h'.stopped

theorem here (stopped : d.stops arrived executed = true) : StopsAfter arrived executed 0 d :=
  ⟨fun i less => absurd less (Nat.not_lt_zero i), stopped⟩

/-- The iterates of a debugger are those of the next one, one later. -/
theorem stops_succ (arrived : Nat → Bool) (executed i : Nat) (d : Debugger ε τ) :
    (advance^[i + 1] d).stops arrived (executed + (i + 1)) =
      (advance^[i] d.advance).stops arrived (executed + 1 + i) := by
  rw [Function.iterate_succ_apply, Nat.add_comm i 1, Nat.add_assoc]

theorem tail (h : StopsAfter arrived executed (n + 1) d) :
    StopsAfter arrived (executed + 1) n d.advance where
  going i less := by
    rw [← stops_succ]
    exact h.going (i + 1) (by omega)
  stopped := by
    rw [← stops_succ]
    exact h.stopped

theorem cons (first : d.stops arrived executed = false)
    (h : StopsAfter arrived (executed + 1) n d.advance) :
    StopsAfter arrived executed (n + 1) d where
  going i less := by
    cases i with
    | zero => exact first
    | succ i =>
      rw [stops_succ]
      exact h.going i (by omega)
  stopped := by
    rw [stops_succ]
    exact h.stopped

theorem append (going : ∀ i < m, (advance^[i] d).stops arrived (executed + i) = false)
    (h : StopsAfter arrived (executed + m) n (advance^[m] d)) :
    StopsAfter arrived executed (m + n) d where
  going i less := by
    rcases Nat.lt_or_ge i m with before | behind
    · exact going i before
    · obtain ⟨j, rfl⟩ := Nat.exists_eq_add_of_le behind
      have := h.going j (by omega)
      rwa [← Function.iterate_add_apply, Nat.add_comm j m, Nat.add_assoc] at this
  stopped := by
    have := h.stopped
    rwa [← Function.iterate_add_apply, Nat.add_comm n m, Nat.add_assoc] at this

theorem drop (h : StopsAfter arrived executed (m + n) d) :
    StopsAfter arrived (executed + m) n (advance^[m] d) where
  going i less := by
    rw [← Function.iterate_add_apply, Nat.add_comm i m, Nat.add_assoc]
    exact h.going (m + i) (by omega)
  stopped := by
    rw [← Function.iterate_add_apply, Nat.add_comm n m, Nat.add_assoc]
    exact h.stopped

theorem of_unlimited (unlimited : d.budget = .unlimited) (other : Nat)
    (h : StopsAfter arrived executed n d) : StopsAfter arrived other n d := by
  have bound (i : Nat) : (advance^[i] d).budget = .unlimited := by
    rw [iterate_advance_budget, unlimited]
  have same (i : Nat) : (advance^[i] d).stops arrived (other + i) =
      (advance^[i] d).stops arrived (executed + i) := by
    rw [stops_of_unlimited (bound i), stops_of_unlimited (bound i)]
  exact ⟨fun i less => (same i).trans (h.going i less), (same n).trans h.stopped⟩

/-- What stops at some point stops a first time. -/
theorem exists_first (h : (advance^[n] d).stops arrived (executed + n) = true) :
    ∃ m ≤ n, StopsAfter arrived executed m d := by
  induction n using Nat.strongRecOn with
  | _ n ih =>
    -- An earlier stop has a first one by induction; otherwise this is it.
    by_cases earlier : ∃ i < n, (advance^[i] d).stops arrived (executed + i) = true
    · obtain ⟨i, less, stop⟩ := earlier
      obtain ⟨m, le, first⟩ := ih i less stop
      exact ⟨m, by omega, first⟩
    · refine ⟨n, Nat.le_refl n, ?_, h⟩
      intro i less
      exact eq_false_of_ne_true fun stop => earlier ⟨i, less, stop⟩

end StopsAfter

variable {arrived : Nat → Bool} {patience executed : Nat} {d : Debugger ε τ} {s : Stop ε τ}

theorem advanceUntil_of_stopsAfter {n : Nat} (h : StopsAfter arrived executed n d)
    (enough : n ≤ patience) :
    advanceUntil arrived patience executed d = some ⟨(advance^[n] d).pause, executed + n⟩ := by
  induction n generalizing patience executed d with
  | zero =>
    unfold advanceUntil
    exact if_pos h.stopped
  | succ n ih =>
    cases patience with
    | zero => omega
    | succ patience =>
      have first : ¬ d.stops arrived executed = true := by
        rw [show d.stops arrived executed = false from h.going 0 (by omega)]
        decide
      unfold advanceUntil
      rw [if_neg first]
      simp only
      rw [ih h.tail (by omega), Function.iterate_succ_apply, Nat.add_right_comm, Nat.add_assoc]

theorem advanceUntil_eq_none
    (h : ∀ n, (advance^[n] d).stops arrived (executed + n) = false) :
    advanceUntil arrived patience executed d = none := by
  fun_induction advanceUntil arrived patience executed d with
  | case1 patience executed d stop =>
    rw [show d.stops arrived executed = false from h 0] at stop
    cases stop
  | case2 executed d going => rfl
  | case3 executed d going patience ih =>
    apply ih
    intro n
    rw [← StopsAfter.stops_succ]
    exact h (n + 1)

theorem stopsAfter_of_advanceUntil (h : advanceUntil arrived patience executed d = some s) :
    ∃ n ≤ patience, StopsAfter arrived executed n d ∧
      s = ⟨(advance^[n] d).pause, executed + n⟩ := by
  fun_induction advanceUntil arrived patience executed d with
  | case1 patience executed d stop =>
    cases h
    exact ⟨0, Nat.zero_le patience, .here stop, rfl⟩
  | case2 executed d going => cases h
  | case3 executed d going patience ih =>
    obtain ⟨n, le, later, rfl⟩ := ih h
    refine ⟨n + 1, by omega, later.cons (eq_false_of_ne_true going), ?_⟩
    rw [Function.iterate_succ_apply, Nat.add_right_comm, Nat.add_assoc]

theorem advanceUntil_eq_some_iff :
    advanceUntil arrived patience executed d = some s ↔
      ∃ n ≤ patience, StopsAfter arrived executed n d ∧
        s = ⟨(advance^[n] d).pause, executed + n⟩ := by
  constructor
  · exact stopsAfter_of_advanceUntil
  · rintro ⟨n, enough, h, rfl⟩
    exact advanceUntil_of_stopsAfter h enough

/-- What `advance` keeps where the loop goes on holds where it stops. -/
theorem advanceUntil_rule {P : Nat → Debugger ε τ → Prop}
    (step : ∀ n d, P n d → d.stops arrived n = false → P (n + 1) d.advance)
    (start : P executed d) (h : advanceUntil arrived patience executed d = some s) :
    ∃ e, P s.executed e ∧ e.stops arrived s.executed = true ∧ s.debugger = e.pause := by
  obtain ⟨n, _, first, rfl⟩ := advanceUntil_eq_some_iff.mp h
  have along : ∀ i ≤ n, P (executed + i) (advance^[i] d) := by
    intro i
    induction i with
    | zero => exact fun _ => start
    | succ i ih =>
      intro le
      rw [Function.iterate_succ_apply']
      exact step _ _ (ih (by omega)) (first.going i (by omega))
  exact ⟨advance^[n] d, along n (Nat.le_refl n), first.stopped, rfl⟩

end Debugger

end ScriptDebugger

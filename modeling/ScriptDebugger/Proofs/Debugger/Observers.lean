/-
  Debuggers and their observers

  Nothing that a debugger does depends on its tracer. `retrace f` puts `f` of
  the tracer in its place, which is a translation that leaves the engine as it
  is; so advancing commutes with it (`retrace_iterate`). With the tracer that looks
  away in the other's place, debuggers that differ in their tracers only are
  told to stop at the same iterates of `advance` (`StopsAfter.of_silenced`).

  The second half is about the tracer that sees everything, a recorder without
  a limit, and the hits in its record.
-/
import ScriptDebugger.Proofs.Debugger.Events
import ScriptDebugger.Proofs.Debugger.Translation

namespace ScriptDebugger

namespace Debugger

variable {ε τ σ : Type} [Engine ε] [Tracer τ] [Tracer σ]

/-- The debugger with `f` of its tracer as its tracer. -/
def retrace (f : τ → σ) (d : Debugger ε τ) : Debugger ε σ :=
  ⟨d.engine, d.breakpoints, d.budget, f d.tracer⟩

theorem retrace_iterate {f : τ → σ} (observes : ∀ t e, f (Tracer.observe t e) = Tracer.observe (f t) e)
    (d : Debugger ε τ) (n : Nat) : (advance^[n] d).retrace f = advance^[n] (d.retrace f) := by
  have same : Translation (id : ε → ε) f :=
    ⟨fun _ => rfl, fun _ => rfl, fun _ => rfl, fun _ _ => rfl, fun _ => rfl, observes⟩
  exact same.translate_iterate d n

/-- The debugger with a tracer that looks away. -/
def silenced (d : Debugger ε τ) : Debugger ε Silent := d.retrace fun _ => Silent.silent

theorem silenced_iterate (d : Debugger ε τ) (n : Nat) :
    (advance^[n] d).silenced = advance^[n] d.silenced :=
  retrace_iterate (fun _ _ => rfl) d n

variable {d : Debugger ε τ} {d' : Debugger ε σ}

theorem engine_iterate_of_silenced (h : d.silenced = d'.silenced) (n : Nat) :
    (advance^[n] d).engine = (advance^[n] d').engine := by
  have same : (advance^[n] d).silenced = (advance^[n] d').silenced := by
    rw [silenced_iterate, silenced_iterate, h]
  exact congrArg Debugger.engine same

theorem stops_of_silenced (h : d.silenced = d'.silenced) (arrived : Nat → Bool) (executed n : Nat) :
    (advance^[n] d).stops arrived executed = (advance^[n] d').stops arrived executed := by
  have same : (advance^[n] d).silenced = (advance^[n] d').silenced := by
    rw [silenced_iterate, silenced_iterate, h]
  exact congrArg (fun e : Debugger ε Silent => e.stops arrived executed) same

theorem StopsAfter.of_silenced {arrived : Nat → Bool} {executed n : Nat}
    (same : d.silenced = d'.silenced) (h : StopsAfter arrived executed n d) :
    StopsAfter arrived executed n d' where
  going i less := by
    rw [← stops_of_silenced same]
    exact h.going i less
  stopped := by
    rw [← stops_of_silenced same]
    exact h.stopped

end Debugger

/-! ## Hits in a record -/

/-- Whether an event reports a breakpoint that was hit. -/
def Event.isHit : Event → Bool
  | .hit _ => true
  | _ => false

namespace Recorder

def hitCount (r : Recorder) : Nat := r.events.countP Event.isHit

theorem hitCount_observeAll {r : Recorder} (h : r.limit = none) (events : List Event) :
    (Tracer.observeAll r events).hitCount = r.hitCount + events.countP Event.isHit := by
  rw [hitCount, hitCount, ← Array.countP_toList, ← Array.countP_toList,
    (observeAll_of_unlimited h events).2, List.countP_append]

end Recorder

namespace Debugger

variable {ε : Type} [Engine ε] {d : Debugger ε Recorder}

omit [Engine ε] in
theorem recorder_of_events (unlimited : d.tracer.limit = none) {d' : Debugger ε Recorder}
    {events : List Event} (reported : d'.tracer = Tracer.observeAll d.tracer events) :
    d'.tracer.limit = none ∧
      d'.tracer.hitCount = d.tracer.hitCount + events.countP Event.isHit := by
  rw [reported]
  exact ⟨(Recorder.observeAll_of_unlimited unlimited events).1,
    Recorder.hitCount_observeAll unlimited events⟩

theorem resume_recorder (unlimited : d.tracer.limit = none) :
    d.resume.tracer.limit = none ∧ d.resume.tracer.hitCount = d.tracer.hitCount := by
  have no_hit : d.resumeEvents.countP Event.isHit = 0 := by
    unfold resumeEvents
    split <;> rfl
  have recorder := recorder_of_events unlimited (resume_tracer d)
  rwa [no_hit] at recorder

theorem pause_recorder (unlimited : d.tracer.limit = none) :
    d.pause.tracer.limit = none ∧ d.pause.tracer.hitCount = d.tracer.hitCount := by
  have no_hit : d.pauseEvents.countP Event.isHit = 0 := by
    unfold pauseEvents
    split <;> rfl
  have recorder := recorder_of_events unlimited (pause_tracer d)
  rwa [no_hit] at recorder

/-- Advancing records one hit or none. -/
theorem advance_recorder (unlimited : d.tracer.limit = none) :
    d.advance.tracer.limit = none ∧
      d.advance.tracer.hitCount = d.tracer.hitCount + if d.execute.hit?.isSome then 1 else 0 := by
  have hits : d.advanceEvents.countP Event.isHit = if d.execute.hit?.isSome then 1 else 0 := by
    unfold advanceEvents
    cases d.execute.hit? <;> rfl
  rw [← hits]
  exact recorder_of_events unlimited (advance_tracer d)

end Debugger

end ScriptDebugger

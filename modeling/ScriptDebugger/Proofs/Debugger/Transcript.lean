/-
  Tracers hear the transcript

  What a debugger tells its tracer does not depend on the tracer. Put any
  tracer in the place of another: the session goes the same way, replies the
  same and leaves the same engine, breakpoints and budget, and it returns or
  not as it did before.

  A `Transcript` writes down all that it is told. What any other tracer comes
  to in a session is what it comes to when the transcript is read to it, event
  by event (`performAll_retrace`), since reading is a translation of tracers.
  A recorder without a limit keeps the transcript whole, and one with a limit
  its front part (`observeAll_withLimit`). So the record of a session tells
  what every tracer makes of it (`session_observed`).
-/
import Mathlib.Data.List.Induction
import ScriptDebugger.Proofs.Debugger.Observers

namespace ScriptDebugger

/-- A tracer that writes down all that it is told. -/
structure Transcript where
  events : List Event

namespace Transcript

instance : Tracer Transcript := ⟨fun t e => ⟨t.events ++ [e]⟩⟩

def blank : Transcript := ⟨[]⟩

/-- What a tracer comes to when a transcript is read to it. -/
def read {τ : Type} [Tracer τ] (tracer : τ) (t : Transcript) : τ := Tracer.observeAll tracer t.events

theorem translation (ε : Type) [Engine ε] {τ : Type} [Tracer τ] (tracer : τ) :
    Translation (id : ε → ε) (read tracer) :=
  ⟨fun _ => rfl, fun _ => rfl, fun _ => rfl, fun _ _ => rfl, fun _ => rfl,
    fun t e => Tracer.observeAll_append tracer t.events [e]⟩

end Transcript

namespace Recorder

/-- A recorder with a limit keeps the first events, as many as it allows. -/
theorem observeAll_withLimit (limit : Nat) (events : List Event) :
    Tracer.observeAll (withLimit limit) events = ⟨(events.take limit).toArray, some limit⟩ := by
  induction events using List.reverseRecOn with
  | nil => simp [Tracer.observeAll, withLimit]
  | append_singleton events e ih =>
    have last : Tracer.observeAll (withLimit limit) (events ++ [e]) =
        (Tracer.observeAll (withLimit limit) events).keep e := Tracer.observeAll_append _ _ _
    rw [last, ih, keep]
    rcases Nat.lt_or_ge events.length limit with room | none_left
    · have all : (events ++ [e]).take limit = events ++ [e] := List.take_of_length_le (by simpa)
      simp [full, all, List.take_of_length_le (Nat.le_of_lt room), room]
    · rw [List.take_append_of_le_length none_left]
      simp [full, none_left]

end Recorder

namespace Debugger

variable {ε τ σ : Type} [Engine ε] [Tracer τ] [Tracer σ]

omit [Tracer τ] in
/-- The session with another tracer, by the transcript of the session. -/
theorem performAll_retrace (d : Debugger ε τ) (tracer : σ) (patience : Nat)
    (commands : List Command) :
    (d.retrace fun _ => tracer).performAll patience commands =
      ((d.retrace fun _ => Transcript.blank).performAll patience commands).map
        (Outcome.translate id (Transcript.read tracer)) :=
  (Transcript.translation ε tracer).translate_performAll (d.retrace fun _ => .blank) patience
    commands

/-- A session is the same with every tracer as with the one that looks away,
and what it makes of the tracer is what reading the record of an unlimited
recorder makes of it. -/
theorem session_observed (d : Debugger ε τ) (patience : Nat) (commands : List Command) :
    let recorded := (d.retrace fun _ => Recorder.unlimited).performAll patience commands
    d.silenced.performAll patience commands =
        (d.performAll patience commands).map (Outcome.translate id fun _ => Silent.silent) ∧
      d.performAll patience commands =
        recorded.map (Outcome.translate id fun r => Tracer.observeAll d.tracer r.events.toList) ∧
      ∀ limit, ((d.retrace fun _ => Recorder.withLimit limit).performAll patience commands).map
          (fun o => (o.debugger.tracer.events.toList, o.debugger.tracer.stepCount)) =
        recorded.map fun o =>
          let kept := o.debugger.tracer.events.toList.take limit
          (kept, kept.countP Event.isStep) := by
  intro recorded
  have heard := performAll_retrace d Recorder.unlimited patience commands
  refine ⟨?silent, ?read, ?limited⟩
  case silent =>
    have blind : Translation (id : ε → ε) fun _ : τ => Silent.silent :=
      ⟨fun _ => rfl, fun _ => rfl, fun _ => rfl, fun _ _ => rfl, fun _ => rfl, fun _ _ => rfl⟩
    exact blind.translate_performAll d patience commands
  case read =>
    have own : d.performAll patience commands = _ :=
      performAll_retrace d d.tracer patience commands
    rw [own, show recorded = _ from heard, Option.map_map]
    refine congrArg (Option.map · _) (funext fun o => ?_)
    simp [Outcome.translate, Debugger.translate, Transcript.read, Recorder.events_observeAll_unlimited]
  case limited =>
    intro limit
    rw [performAll_retrace, show recorded = _ from heard, Option.map_map, Option.map_map]
    refine congrArg (Option.map · _) (funext fun o => ?_)
    simp [Outcome.translate, Debugger.translate, Transcript.read, Recorder.events_observeAll_unlimited,
      Recorder.observeAll_withLimit, Recorder.stepCount]

end Debugger

end ScriptDebugger

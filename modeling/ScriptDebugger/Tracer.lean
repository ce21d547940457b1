/-
  Tracers

  A tracer is anything that takes in events one at a time. It has no way back
  to the debugger: `observe` yields the tracer's own next state and nothing
  else.

  Correspondence (stepvm ↔ here):
    `DebugTracer`                       ↔ `Tracer`
    `on_step` and the four other calls  ↔ `observe`, each on its event
    `NoopTracer`                        ↔ `Silent`
    `StderrTracer`                      ↔ `Console`
    `LogTracer`                         ↔ `Journal`
    `RecordingTracer`                   ↔ `Recorder`
-/
import ScriptDebugger.Event

namespace ScriptDebugger

/-- A type of observers of a debugger. -/
class Tracer (τ : Type) where
  observe : τ → Event → τ

def Tracer.observeAll {τ : Type} [Tracer τ] (t : τ) (events : List Event) : τ :=
  events.foldl Tracer.observe t

/-- The tracer that looks away. -/
inductive Silent where
  | silent
  deriving DecidableEq, Repr

instance : Tracer Silent := ⟨fun t _ => t⟩

end ScriptDebugger

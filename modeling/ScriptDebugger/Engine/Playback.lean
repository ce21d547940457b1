/-
  An engine that plays back observations

  A playback shows one observation after another, whatever they are: states,
  depths and contexts need not fit together. It is what a debugger has to cope
  with when nothing is known about an engine. At the end of the reel it starts
  over if it repeats, and halts otherwise. A sticky playback keeps its run
  state whatever it is asked for.
-/
import ScriptDebugger.Engine

namespace ScriptDebugger

structure Observation where
  state : RunState
  depth : Nat
  context? : Option Location
  deriving DecidableEq, Repr

/-- A playback: what it shows, what it will show, and the whole reel to start
over from; whether it repeats and whether it is sticky; and how many
instructions it was asked to execute and how many states to set. -/
structure Playback where
  shown : Observation
  upcoming : List Observation
  reel : List Observation
  repeats : Bool
  sticky : Bool
  executed : Nat
  sets : Nat
  deriving DecidableEq, Repr

namespace Playback

/-- A playback that shows `shown` and then the reel. -/
def start (shown : Observation) (reel : List Observation) (repeats sticky : Bool) : Playback :=
  ⟨shown, reel, reel, repeats, sticky, 0, 0⟩

/-- What is still to be shown, after starting over if need be. -/
def remaining (p : Playback) : List Observation :=
  if p.repeats && p.upcoming.isEmpty then p.reel else p.upcoming

/-- Shows the next observation; halts where there is none. -/
def execute (p : Playback) : Playback :=
  match p.remaining with
  | [] => { p with shown := { p.shown with state := .halted }, upcoming := [], executed := p.executed + 1 }
  | next :: upcoming => { p with shown := next, upcoming, executed := p.executed + 1 }

/-- Counts the request, and shows the state asked for unless it is sticky. -/
def setState (s : RunState) (p : Playback) : Playback :=
  { p with
    shown := if p.sticky then p.shown else { p.shown with state := s }
    sets := p.sets + 1 }

instance : Engine Playback where
  state p := p.shown.state
  setState := setState
  depth p := p.shown.depth
  context? p := p.shown.context?
  execute := execute

end Playback

end ScriptDebugger

/-
  Programs that come to an end

  If no script of a program calls itself, directly or through others, then
  every machine with that program comes to an end, whatever frames it starts
  with. A script is asked to have an end, a return or a fault that its 32-bit
  offsets come to: every script with fewer than 2³² instructions has one past
  its last instruction (`Script.hasEnd_of_size_lt`). In a script without one
  the offset may go round for ever.

  What shows it is the work that the frames have left. A frame has left the
  instructions up to the end of its script, and each of them weighs more than
  all that a script called by it can have left. So an instruction that does
  not end the run makes the work smaller, although a call makes the stack
  larger.

  What is proved:
    1. `Descent.execute_cases` — an instruction ends the run or makes the work
       smaller.
    2. `Descent.exists_terminal` — so a plain run comes to a terminal state
       with no more instructions than there is work, and one.
    3. `perform_of_plain_stop` — a call on any engine returns, at the latest
       where plain execution stops being runnable.
    4. `acyclic_calls_return` — every call on a machine whose program is
       acyclic returns, and a run without breakpoints halts or faults.
    5. `endless_script_never_returns` — this fails of a program with a script
       of 2³² instructions that do nothing.
-/
import Mathlib.Algebra.Group.Nat.Defs
import Mathlib.Tactic.Choose
import ScriptDebugger.Proofs.Debugger.Stopping

namespace ScriptDebugger

/-! ## Programs -/

/-- Whether an instruction ends its frame or the run. -/
def Instruction.isLast : Instruction → Bool
  | .ret | .fault => true
  | .nop | .call _ => false

/-- Some offset of the script, in its body or past it, holds a return or a
fault. -/
def Script.HasEnd (s : Script) : Prop := ∃ offset, (s.instruction offset).isLast = true

theorem Script.hasEnd_of_size_lt {s : Script} (h : s.body.size < UInt32.size) : s.HasEnd := by
  refine ⟨.ofNat s.body.size, ?_⟩
  simp [Script.instruction, UInt32.toNat_ofNat_of_lt' h, Instruction.isLast]

theorem Script.mem_of_instruction_eq_call {s : Script} {offset : UInt32} {callee : Nat}
    (h : s.instruction offset = .call callee) : Instruction.call callee ∈ s.body := by
  unfold Script.instruction at h
  cases at_offset : s.body[offset.toNat]? with
  | none => simp [at_offset] at h
  | some i =>
    rw [at_offset, Option.getD_some] at h
    exact Array.mem_of_getElem? (h ▸ at_offset)

namespace Program

/-- Script `caller` has an instruction that calls script `callee`. -/
def Calls (p : Program) (caller callee : Nat) : Prop :=
  Instruction.call callee ∈ (p.script caller).body

/-- Scripts can be ranked so that each one ranks above all those it calls. -/
def Acyclic (p : Program) : Prop :=
  ∃ rank : Nat → Nat, ∀ caller callee, p.Calls caller callee → rank callee < rank caller

theorem hasEnd_script {p : Program} (ends : ∀ s ∈ p, s.HasEnd) (number : Nat) :
    (p.script number).HasEnd := by
  unfold script
  cases at_number : p[number]? with
  | none => exact Script.hasEnd_of_size_lt (by decide)
  | some s => exact ends s (Array.mem_of_getElem? at_number)

/-- What makes a program come to an end: a rank that falls with each call, and
for each script an offset at which it ends. -/
structure Descent (p : Program) where
  rank : Nat → Nat
  falls : ∀ caller callee, p.Calls caller callee → rank callee < rank caller
  last : Nat → UInt32
  isLast_last : ∀ number, ((p.script number).instruction (last number)).isLast = true

theorem Acyclic.descent {p : Program} (acyclic : p.Acyclic) (ends : ∀ s ∈ p, s.HasEnd) :
    Nonempty p.Descent := by
  obtain ⟨rank, falls⟩ := acyclic
  choose last isLast_last using hasEnd_script ends
  exact ⟨rank, falls, last, isLast_last⟩

/-! ## The work that is left -/

namespace Descent

variable {p : Program} (d : p.Descent)

/-- How many instructions a frame is away from the end of its script. Offsets
are numbers of 32 bits, so that is the way up to it, past 2³² - 1 if need
be. -/
def left (f : Frame) : Nat := (d.last f.script - f.next).toNat

/-- What an instruction of a script weighs: more than a script of a lower rank
has left in all. -/
def weight (number : Nat) : Nat := (UInt32.size + 1) ^ d.rank number

/-- The work that the frames of a stack have left. -/
def work : List Frame → Nat
  | [] => 0
  | f :: rest => (d.left f + 1) * d.weight f.script + work rest

theorem left_lt (f : Frame) : d.left f < UInt32.size := UInt32.toNat_lt_size _

theorem left_advance {f : Frame} (before : f.next ≠ d.last f.script) :
    d.left f = d.left f.advance + 1 := by
  have apart : f.next.toNat ≠ (d.last f.script).toNat := fun same =>
    before (UInt32.toNat_inj.mp same)
  have next := f.next.toNat_lt
  have last := (d.last f.script).toNat_lt
  simp only [left, Frame.advance, UInt32.toNat_sub, UInt32.toNat_add, UInt32.toNat_one]
  omega

theorem weight_pos (number : Nat) : 0 < d.weight number := Nat.pow_pos (Nat.succ_pos _)

/-- All that a called script has left weighs less than the call. -/
theorem work_called {caller callee : Nat} (calls : p.Calls caller callee) (offset : UInt32) :
    (d.left ⟨callee, offset⟩ + 1) * d.weight callee < d.weight caller := by
  have less := d.left_lt ⟨callee, offset⟩
  calc (d.left ⟨callee, offset⟩ + 1) * d.weight callee
      < (UInt32.size + 1) * d.weight callee :=
        Nat.mul_lt_mul_of_pos_right (by omega) (d.weight_pos callee)
    _ = (UInt32.size + 1) ^ (d.rank callee + 1) := by rw [weight, Nat.pow_succ, Nat.mul_comm]
    _ ≤ d.weight caller := Nat.pow_le_pow_right (Nat.succ_pos _) (d.falls caller callee calls)

/-- An instruction that does not end the run makes the work smaller. -/
theorem work_frames_lt {top : Frame} {i : Instruction}
    (upcoming : (p.script top.script).instruction top.next = i) (goes_on : i ≠ .fault)
    (rest : List Frame) : d.work (i.frames top rest) < d.work (top :: rest) := by
  have positive := d.weight_pos top.script
  have step (h : i.isLast = false) :
      (d.left top + 1) * d.weight top.script =
        (d.left top.advance + 1) * d.weight top.script + d.weight top.script := by
    have before : top.next ≠ d.last top.script := by
      intro there
      rw [← upcoming, there, d.isLast_last] at h
      cases h
    rw [d.left_advance before, Nat.add_one_mul (d.left top.advance + 1)]
  cases i with
  | nop =>
    have same : top.advance.script = top.script := rfl
    simp only [Instruction.frames, work, step rfl, same]
    omega
  | call callee =>
    have less := d.work_called (Script.mem_of_instruction_eq_call upcoming) 0
    have same : top.advance.script = top.script := rfl
    simp only [Instruction.frames, work, step rfl, same]
    omega
  | ret =>
    have some_left : 0 < (d.left top + 1) * d.weight top.script :=
      Nat.mul_pos (Nat.succ_pos _) positive
    simp only [Instruction.frames, work]
    omega
  | fault => exact absurd rfl goes_on

/-! ## Plain runs -/

theorem execute_cases {m : Machine} (program : m.program = p) :
    m.execute.program = p ∧ (m.execute.state.isTerminal = true ∨
      d.work m.execute.stack.frames < d.work m.stack.frames) := by
  cases frames : m.stack.frames with
  | nil =>
    rw [Machine.execute_of_nil frames]
    exact ⟨program, .inl rfl⟩
  | cons top rest =>
    rw [Machine.execute_of_cons frames]
    refine ⟨program, ?_⟩
    by_cases fault : m.upcoming top = .fault
    · rw [fault]
      exact .inl rfl
    · refine .inr (d.work_frames_lt ?_ fault rest)
      rw [Machine.upcoming, program]

theorem exists_terminal {m : Machine} (program : m.program = p) :
    ∃ k ≤ d.work m.stack.frames, (Engine.state (Engine.execute^[k + 1] m)).isTerminal = true := by
  induction bound : d.work m.stack.frames using Nat.strongRecOn generalizing m with
  | _ n ih =>
    obtain ⟨kept, ended | less⟩ := d.execute_cases program
    · exact ⟨0, Nat.zero_le n, ended⟩
    · rw [bound] at less
      obtain ⟨k, le, ended⟩ := ih _ less kept rfl
      exact ⟨k + 1, by omega, ended⟩

end Descent

end Program

/-! ## Calls -/

namespace Debugger

section

variable {ε τ : Type} [Engine ε] [Tracer τ]

/-- A call returns, at the latest where plain execution is no longer
runnable. -/
theorem perform_of_plain_stop (obeys : Engine.Obeys ε) {d : Debugger ε τ} {k : Nat}
    (stopped : Engine.state (Engine.execute^[k + 1] (Engine.resume d.engine)) ≠ .runnable)
    {c : Command} (loops : c.isLoop = true) :
    ∃ o, ∀ patience, k + 1 ≤ patience → d.perform patience c = some o := by
  cases loop : d.loop? c with
  | none =>
    have done := terminal_of_no_loop loop loops
    exact ⟨_, fun patience _ => perform_of_terminal done (Command.isStepping_of_isLoop loops) patience⟩
  | some l =>
    have may : d.MayStop l.arrived (Engine.resume d.engine) (k + 1) := .inl stopped
    have started : l.executed ≤ k + 1 := by
      rcases loop?_start loop with ⟨executed, _⟩ | ⟨_, executed, _⟩ <;> omega
    obtain ⟨j, later⟩ := Nat.exists_eq_add_of_le started
    obtain ⟨n, first⟩ := exists_stopsAfter obeys loop (later ▸ may)
    have least := (isLeast_of_stopsAfter obeys loop first).2 ⟨started, may⟩
    refine ⟨outcome ⟨(advance^[n] l.start).pause, l.executed + n⟩, fun patience enough => ?_⟩
    exact (perform_loop_eq_some_iff loop).mpr ⟨n, by omega, first, rfl⟩

/-- Without breakpoints and a bound, nothing but the engine itself stops a
run. -/
theorem run_of_free (obeys : Engine.Obeys ε) {d : Debugger ε τ} (free : d.breakpoints = .empty)
    (unlimited : d.budget = .unlimited) {patience : Nat} {o : Outcome ε τ Reply}
    (returns : d.perform patience .run = some o) :
    ∃ s, o.reply = .stopped s ∧ s ≠ .runnable ∧
      s = Engine.state (Engine.execute^[o.executed] (Engine.resume d.engine)) := by
  have loop : d.loop? .run = some ⟨fun _ => false, 0, d.resume⟩ := rfl
  obtain ⟨least, engine, reply, _⟩ := (stopsFirst_of_loop? obeys loop).stopped patience o returns
  have nowhere (e : ε) : ¬ Engine.OnBreakpoint .empty e := by
    simp [Engine.OnBreakpoint, Breakpoints.contains_empty]
  have stopped : Engine.state (Engine.execute^[o.executed] (Engine.resume d.engine)) ≠ .runnable := by
    simpa [MayStop, free, unlimited, Budget.unlimited, nowhere] using least.1.2
  rw [engine, Engine.pause, if_neg stopped] at reply
  exact ⟨_, reply, stopped, rfl⟩

end

variable {τ : Type} [Tracer τ]

/-- Every call on a machine whose scripts call each other in no circle
returns, whatever the state of the machine, the breakpoints and the budget
are. Without breakpoints and a bound, a run from the start of the program
halts or faults. -/
theorem acyclic_calls_return {p : Program} (acyclic : p.Acyclic) (ends : ∀ s ∈ p, s.HasEnd) :
    (∀ (d : Debugger Machine τ) (c : Command), d.engine.program = p → c.isLoop = true →
      ∃ enough o, ∀ patience, enough ≤ patience → d.perform patience c = some o) ∧
    (∀ d : Debugger Machine τ, d.engine = Machine.load p → d.breakpoints = .empty →
      d.budget = .unlimited →
      ∃ enough o, (∀ patience, enough ≤ patience → d.perform patience .run = some o) ∧
        (o.reply = .stopped .halted ∨ o.reply = .stopped .faulted)) := by
  obtain ⟨descent⟩ := acyclic.descent ends
  have obeys := Machine.keepsDepth.toObeys
  have returns (d : Debugger Machine τ) (c : Command) (program : d.engine.program = p)
      (loops : c.isLoop = true) :
      ∃ enough o, ∀ patience, enough ≤ patience → d.perform patience c = some o := by
    have resumed : (Engine.resume d.engine).program = p := by
      unfold Engine.resume
      split <;> exact program
    obtain ⟨k, _, ended⟩ := descent.exists_terminal resumed
    have stopped : Engine.state (Engine.execute^[k + 1] (Engine.resume d.engine)) ≠ .runnable := by
      intro runnable
      rw [runnable] at ended
      cases ended
    exact ⟨k + 1, perform_of_plain_stop obeys stopped loops⟩
  refine ⟨returns, ?_⟩
  intro d engine free unlimited
  obtain ⟨enough, o, call⟩ := returns d .run (by rw [engine]; rfl) rfl
  obtain ⟨s, reply, stopped, plain⟩ := run_of_free obeys free unlimited (call enough (Nat.le_refl _))
  -- A machine that is executed plainly from the start is never paused.
  have start : Engine.resume d.engine = Machine.load p := by rw [engine]; rfl
  have unpaused : s ≠ .paused := by
    rw [plain, start]
    exact ((Machine.Plain.start p ⟨0, 0⟩).after o.executed).unpaused
  refine ⟨enough, o, call, ?_⟩
  cases s with
  | halted => exact .inl reply
  | faulted => exact .inr reply
  | runnable => exact absurd rfl stopped
  | paused => exact absurd rfl unpaused

/-- `Program.nested`, whose scripts are ranked by how many calls deep they
go: out of the second script with a breakpoint in the third, and a run. -/
theorem nested_calls_return :
    let d : Debugger Machine Silent :=
      ⟨.inner, (Breakpoints.empty.insert ⟨[3], 1⟩).2, .unlimited, .silent⟩
    Program.nested.Acyclic ∧ (∀ s ∈ Program.nested, s.HasEnd) ∧
      (∃ enough o, ∀ patience, enough ≤ patience → d.perform patience .stepOut = some o) ∧
      ∃ enough o, (∀ patience, enough ≤ patience →
          (attach (Machine.load .nested) Silent.silent).perform patience .run = some o) ∧
        (o.reply = .stopped .halted ∨ o.reply = .stopped .faulted) := by
  intro d
  have acyclic : Program.nested.Acyclic := by
    refine ⟨fun number => 2 - number, ?_⟩
    intro caller callee calls
    obtain _ | _ | _ | number := caller <;>
      simp_all [Program.Calls, Program.script, Program.nested]
  have ends : ∀ s ∈ Program.nested, s.HasEnd := by
    intro s member
    apply Script.hasEnd_of_size_lt
    simp [Program.nested] at member
    rcases member with rfl | rfl | rfl <;> decide
  obtain ⟨returns, finishes⟩ := acyclic_calls_return (τ := Silent) acyclic ends
  exact ⟨acyclic, ends, returns d .stepOut rfl rfl, finishes _ rfl rfl rfl⟩

end Debugger

/-! ## A script without an end -/

namespace Program

/-- A program of one script that does nothing, so many times. -/
def idle (size : Nat) : Program := #[⟨[1], Array.replicate size .nop⟩]

theorem script_idle (size : Nat) : (idle size).script 0 = ⟨[1], Array.replicate size .nop⟩ := rfl

theorem not_calls_idle (size caller callee : Nat) : ¬ (idle size).Calls caller callee := by
  cases caller with
  | zero => simp [Calls, script_idle, Array.mem_replicate]
  | succ caller => simp [Calls, script, idle]

/-- With so many instructions there is one at each offset. -/
theorem instruction_idle {size : Nat} (large : UInt32.size ≤ size) (offset : UInt32) :
    ((idle size).script 0).instruction offset = .nop := by
  have within : offset.toNat < size := Nat.lt_of_lt_of_le offset.toNat_lt_size large
  rw [script_idle, Script.instruction, Array.getElem?_replicate, if_pos within, Option.getD_some]

end Program

/-- A machine that is runnable in script 0, at whatever offset, where that script
has nothing to do at any. -/
structure Machine.Idles (m : Machine) : Prop where
  nops : ∀ offset, (m.program.script 0).instruction offset = .nop
  alone : ∃ offset, m.stack.frames = [⟨0, offset⟩]
  runnable : m.state = .runnable

namespace Machine.Idles

variable {m : Machine}

theorem execute (h : m.Idles) : m.execute.Idles := by
  obtain ⟨offset, frames⟩ := h.alone
  have upcoming : m.upcoming ⟨0, offset⟩ = .nop := h.nops offset
  rw [execute_of_cons frames, upcoming]
  exact ⟨h.nops, ⟨offset + 1, rfl⟩, h.runnable⟩

theorem after (h : m.Idles) (k : Nat) : (Engine.execute^[k] m).Idles := by
  induction k with
  | zero => exact h
  | succ k ih =>
    rw [Function.iterate_succ_apply']
    exact ih.execute

end Machine.Idles

namespace Debugger

/-- A run of such a machine never stops, since its offset goes round. -/
theorem run_of_idles {τ : Type} [Tracer τ] {d : Debugger Machine τ} (idles : d.engine.Idles)
    (free : d.breakpoints = .empty) (unlimited : d.budget = .unlimited) (patience : Nat) :
    d.perform patience .run = none := by
  have resumed : Engine.resume d.engine = d.engine := by
    apply if_neg
    rw [show Engine.state d.engine = .runnable from idles.runnable]
    decide
  cases call : d.perform patience .run with
  | none => rfl
  | some o =>
    obtain ⟨s, _, stopped, plain⟩ := run_of_free Machine.keepsDepth.toObeys free unlimited call
    rw [resumed] at plain
    exact absurd (plain.trans (idles.after o.executed).runnable) stopped

/-- That each script has an end is needed. The script of this program has as
many instructions as there are offsets, so that no offset is past the last one,
and calls nothing: a run from the start never returns. -/
theorem endless_script_never_returns :
    let p : Program := .idle UInt32.size
    p.Acyclic ∧ (∀ caller callee, p.Calls caller callee → callee < p.size) ∧
      ∀ patience, (attach (Machine.load p) Silent.silent).perform patience .run = none := by
  intro p
  have no_call (caller callee : Nat) : ¬ p.Calls caller callee := Program.not_calls_idle _ _ _
  have idles : (Machine.load p).Idles :=
    ⟨Program.instruction_idle (Nat.le_refl _), ⟨0, rfl⟩, rfl⟩
  refine ⟨⟨fun _ => 0, ?_⟩, ?_, run_of_idles idles rfl rfl⟩
  · exact fun caller callee calls => absurd calls (no_call caller callee)
  · exact fun caller callee calls => absurd calls (no_call caller callee)

end Debugger

end ScriptDebugger

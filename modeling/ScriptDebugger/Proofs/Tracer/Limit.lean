/-
  Consoles with a limit

  A console looks at its limit after it has printed the line of an
  instruction. So it goes quiet with the instruction that its limit names, and
  with the first one if the limit is zero: a limit of zero lets one line
  through, which is one more than it says.

  What is proved:
    1. `Standing.report` — what holds of a console with a limit that was told
       of so many instructions, and how an event changes it; hence what holds
       after any events (`Standing.observeAll`).
    2. `stepLines_withLimit` — how many instructions have their line, and that
       this is what the limit says except for a limit of zero
       (`zero_limit_prints_a_line`).
    3. `withLimit_goes_quiet` — beside a console without a limit, what a
       console with one prints for each event until it goes quiet, there, and
       from then on.
-/
import Mathlib.Data.List.Induction
import ScriptDebugger.Proofs.Debugger.Events
import ScriptDebugger.Tracer.Console

namespace ScriptDebugger

/-- Whether an event tells of a change to the breakpoints. -/
def Event.isEdit : Event → Bool
  | .added _ | .removed _ => true
  | .step .. | .hit _ | .stateChange .. => false

namespace Console

/-! ## Lines -/

/-- Whether a line is that of an instruction. -/
def isStepLine (text : String) : Bool := text.startsWith "step  "

theorem line_step (depth : Nat) (state : RunState) :
    line (.step depth state) =
      "step  depth=" ++ Decimal.natText depth ++ "  state=" ++ state.name := rfl

theorem line_hit (l : Location) : line (.hit l) = "  !!! BREAK " ++ place l := rfl

theorem line_stateChange (old new : RunState) :
    line (.stateChange old new) = "  ... " ++ old.name ++ " -> " ++ new.name := rfl

theorem line_added (l : Location) : line (.added l) = "  +++ breakpoint " ++ place l := rfl

theorem line_removed (l : Location) : line (.removed l) = "  --- breakpoint " ++ place l := rfl

theorem limitLine_eq (limit : Nat) :
    limitLine limit = "--- trace limit reached (" ++ Decimal.natText limit ++ " steps) ---" := rfl

/-- The first character tells the lines of instructions from those of other
events, and both from the line that says that the limit is reached. -/
theorem head?_line (e : Event) :
    (line e).toList.head? = some (if e.isStep then 's' else ' ') := by
  cases e with
  | step depth state => simp [line_step, Event.isStep]
  | hit l => simp [line_hit, Event.isStep]
  | stateChange old new => simp [line_stateChange, Event.isStep]
  | added l => simp [line_added, Event.isStep]
  | removed l => simp [line_removed, Event.isStep]

theorem head?_limitLine (limit : Nat) : (limitLine limit).toList.head? = some '-' := by
  simp [limitLine_eq]

theorem isStepLine_eq_false {text : String} (h : text.toList.head? ≠ some 's') :
    isStepLine text = false := by
  apply eq_false_of_ne_true
  intro starts
  obtain ⟨rest, same⟩ := String.startsWith_string_iff.mp starts
  exact h (by rw [← same]; rfl)

@[simp] theorem isStepLine_line (e : Event) : isStepLine (line e) = e.isStep := by
  cases step : e.isStep with
  | false => exact isStepLine_eq_false (by simp [head?_line, step])
  | true =>
    cases e with
    | step depth state =>
      apply String.startsWith_string_iff.mpr
      simp [line_step]
    | hit | stateChange | added | removed => cases step

@[simp] theorem isStepLine_limitLine (limit : Nat) : isStepLine (limitLine limit) = false :=
  isStepLine_eq_false (by simp [head?_limitLine])

@[simp] theorem line_ne_limitLine (e : Event) (limit : Nat) : line e ≠ limitLine limit := by
  intro same
  have first := head?_line e
  rw [same, head?_limitLine] at first
  cases step : e.isStep <;> simp [step] at first

@[simp] theorem limitLine_ne_line (e : Event) (limit : Nat) : limitLine limit ≠ line e :=
  (line_ne_limitLine e limit).symm

/-! ## Consoles that were told of so many instructions -/

/-- The lines that a console prints for an event: those that it adds. -/
def printed (c : Console) (e : Event) : List String :=
  (Tracer.observe c e).lines.toList.drop c.lines.size

theorem printed_of_lines {c : Console} {e : Event} {lines : List String}
    (h : (Tracer.observe c e).lines = c.lines ++ lines) : c.printed e = lines := by
  simp [printed, h]

/-- A console takes no line back. -/
theorem lines_observe (c : Console) (e : Event) :
    (Tracer.observe c e).lines = c.lines ++ c.printed e := by
  have added : ∃ lines : List String, (c.report e).lines = c.lines ++ lines := by
    unfold report count checkLimit print
    repeat' split
    · exact ⟨[], by simp⟩
    · exact ⟨[line e], by simp⟩
    · rename_i limit _ _
      exact ⟨[line e, limitLine limit], by simp⟩
    · exact ⟨[line e], by simp⟩
    · exact ⟨[line e], by simp⟩
  obtain ⟨lines, same⟩ := added
  rw [printed_of_lines same]
  exact same

/-- The number of the instruction with which a console goes quiet. -/
def lastShown (limit : Nat) : Nat := max limit 1

/-- What holds of a console with a limit that was told of `told`
instructions. -/
structure Standing (limit told : Nat) (c : Console) : Prop where
  limited : c.limit = some limit
  counted : c.steps = min (lastShown limit) told
  quiet : c.quiet = decide (lastShown limit ≤ told)
  stepLines : c.lines.toList.countP isStepLine = min (lastShown limit) told
  limitLines : c.lines.toList.count (limitLine limit) = if lastShown limit ≤ told then 1 else 0

/-- What such a console prints for an event: the line of the event, and the
line that says that the limit is reached. -/
def answer (limit told : Nat) (e : Event) : List String :=
  (if told < lastShown limit ∨ e.isEdit then [line e] else []) ++
    if e.isStep ∧ lastShown limit = told + 1 then [limitLine limit] else []

/-- Of how many instructions a console was told with one more event. -/
def toldWith (told : Nat) (e : Event) : Nat := if e.isStep then told + 1 else told

theorem isStep_of_isEdit {e : Event} (edit : e.isEdit = true) : e.isStep = false := by
  cases e with
  | added | removed => rfl
  | step | hit | stateChange => cases edit

theorem stepLines_answer (limit told : Nat) (e : Event) :
    (answer limit told e).countP isStepLine =
      if e.isStep ∧ told < lastShown limit then 1 else 0 := by
  have no_step : (if e.isStep ∧ lastShown limit = told + 1 then [limitLine limit] else []).countP
      isStepLine = 0 := by
    split <;> simp
  rw [answer, List.countP_append, no_step]
  cases step : e.isStep with
  | false => split <;> simp [step]
  | true =>
    have no_edit : ¬ e.isEdit = true := fun edit => by simp [isStep_of_isEdit edit] at step
    by_cases shown : told < lastShown limit <;> simp [step, no_edit, shown]

theorem limitLines_answer (limit told : Nat) (e : Event) :
    (answer limit told e).count (limitLine limit) =
      if e.isStep ∧ lastShown limit = told + 1 then 1 else 0 := by
  have no_limit : (if told < lastShown limit ∨ e.isEdit then [line e] else []).count
      (limitLine limit) = 0 := by
    split <;> simp
  rw [answer, List.count_append, no_limit]
  split <;> simp

theorem report_of_quiet {c : Console} (quiet : c.quiet = true) (e : Event) :
    c.report e = if e.isEdit then c.print (line e) else c := by
  cases e <;> simp [report, quiet, optional, Event.isEdit, count, Event.isStep]

theorem report_of_loud {c : Console} (loud : c.quiet = false) (e : Event) :
    c.report e = (c.print (line e)).count e := by
  simp [report, loud]

theorem standing_withLimit (limit : Nat) : Standing limit 0 (withLimit limit) where
  limited := rfl
  counted := by simp [withLimit]
  quiet := by simp [withLimit, lastShown]
  stepLines := by simp [withLimit]
  limitLines := by simp [withLimit, lastShown]

namespace Standing

variable {limit told : Nat} {c : Console} (h : Standing limit told c)

include h

theorem report_eq (e : Event) :
    c.report e =
      { limit := some limit
        steps := min (lastShown limit) (toldWith told e)
        quiet := decide (lastShown limit ≤ toldWith told e)
        lines := c.lines ++ answer limit told e } := by
  obtain ⟨_, _, _, lines⟩ := c
  obtain rfl := h.limited
  obtain rfl := h.counted
  obtain rfl := h.quiet
  unfold toldWith answer
  by_cases done : lastShown limit ≤ told
  · have still : lastShown limit ≤ if e.isStep then told + 1 else told := by split <;> omega
    have behind : ¬ told < lastShown limit ∧ lastShown limit ≠ told + 1 := by omega
    rw [report_of_quiet (by simp [done]), Nat.min_eq_left done, Nat.min_eq_left still]
    cases e.isEdit <;> simp [print, done, still, behind]
  · have before : told < lastShown limit := by omega
    have reached : limit ≤ told + 1 ↔ lastShown limit = told + 1 := by
      simp only [lastShown] at before ⊢
      omega
    rw [report_of_loud (by simp [done]), Nat.min_eq_right (Nat.le_of_lt before)]
    cases step : e.isStep with
    | false => simp [count, print, step, before, Nat.le_of_lt before]
    | true =>
      by_cases last : lastShown limit = told + 1
      · simp [count, checkLimit, print, step, reached, last]
      · have more : told + 1 < lastShown limit := by omega
        have not_yet : ¬ lastShown limit ≤ told + 1 := by omega
        simp [count, checkLimit, print, step, reached, last, before, done, not_yet, Nat.le_of_lt more]

theorem report (e : Event) : Standing limit (toldWith told e) (c.report e) := by
  rw [h.report_eq e]
  refine ⟨rfl, rfl, rfl, ?stepLines, ?limitLines⟩
  case stepLines =>
    show (c.lines ++ answer limit told e).toList.countP isStepLine = _
    rw [Array.toList_appendList, List.countP_append, h.stepLines, stepLines_answer, toldWith]
    cases e.isStep with
    | false => simp
    | true =>
      simp only [true_and, if_true]
      split <;> omega
  case limitLines =>
    show (c.lines ++ answer limit told e).toList.count (limitLine limit) = _
    rw [Array.toList_appendList, List.count_append, h.limitLines, limitLines_answer, toldWith]
    cases e.isStep with
    | false => simp
    | true =>
      simp only [true_and, if_true]
      split <;> split <;> split <;> omega

theorem observeAll (events : List Event) :
    Standing limit (told + events.countP Event.isStep) (Tracer.observeAll c events) := by
  induction events generalizing told c with
  | nil => exact h
  | cons e events ih =>
    have later := ih (h.report e)
    have all : toldWith told e + events.countP Event.isStep =
        told + (e :: events).countP Event.isStep := by
      rw [toldWith, List.countP_cons]
      split <;> omega
    rwa [all] at later

theorem printed_eq (e : Event) : c.printed e = answer limit told e := by
  apply printed_of_lines
  show (c.report e).lines = _
  rw [h.report_eq e]

end Standing

/-! ## Instructions that have their line -/

/-- A console with a limit that was told of events. -/
abbrev limited (limit : Nat) (events : List Event) : Console :=
  Tracer.observeAll (withLimit limit) events

/-- A console without a limit that was told of events. -/
abbrev free (events : List Event) : Console := Tracer.observeAll unlimited events

theorem standing_limited (limit : Nat) (events : List Event) :
    Standing limit (events.countP Event.isStep) (limited limit events) := by
  have := (standing_withLimit limit).observeAll events
  rwa [Nat.zero_add] at this

/-- As many instructions have their line as there are, up to the limit, but up
to one if the limit is zero. So the limit is kept unless it is zero and there
is an instruction. -/
theorem stepLines_withLimit (limit : Nat) (events : List Event) :
    let shown := (limited limit events).lines.toList.countP isStepLine
    let steps := events.countP Event.isStep
    shown = min (max limit 1) steps ∧ (shown = min limit steps ↔ 1 ≤ limit ∨ steps = 0) := by
  intro shown steps
  have count : shown = min (max limit 1) steps := (standing_limited limit events).stepLines
  refine ⟨count, ?_⟩
  rw [count]
  omega

/-- One instruction, and its line, under a limit of zero. -/
theorem zero_limit_prints_a_line :
    let events : List Event := [.step 1 .runnable]
    (limited 0 events).lines.toList.countP isStepLine ≠ min 0 (events.countP Event.isStep) := by
  intro events
  rw [(standing_limited 0 events).stepLines]
  decide

/-! ## Going quiet -/

theorem free_eq (events : List Event) :
    free events = ⟨none, events.countP Event.isStep, false, (events.map line).toArray⟩ := by
  induction events using List.reverseRecOn with
  | nil => rfl
  | append_singleton events e ih =>
    have last : free (events ++ [e]) = (free events).report e := Tracer.observeAll_append _ _ _
    rw [last, ih, report_of_loud rfl, count]
    cases step : e.isStep <;> simp [print, checkLimit, List.countP_append, step]

theorem printed_free (events : List Event) (e : Event) : (free events).printed e = [line e] := by
  apply printed_of_lines
  show ((free events).report e).lines = _
  rw [free_eq, report_of_loud rfl, count]
  cases e.isStep <;> simp [print, checkLimit]

/-- What a console with a limit prints for an event after others, beside a
console without a limit that was told of the same. -/
structure GoesQuiet (limit : Nat) (before : List Event) (e : Event) : Prop where
  /-- Both print after what they have printed. -/
  appends : (limited limit (before ++ [e])).lines =
      (limited limit before).lines ++ (limited limit before).printed e ∧
    (free (before ++ [e])).lines = (free before).lines ++ (free before).printed e
  /-- What the console says when its limit is reached. -/
  text : limitLine limit = "--- trace limit reached (" ++ Decimal.natText limit ++ " steps) ---"
  /-- No event has this line. -/
  apart : ∀ e', line e' ≠ limitLine limit
  /-- The console has said that its limit is reached if it was told of as many
  instructions, or of one. -/
  said : limitLine limit ∈ (limited limit before).lines ↔
    max limit 1 ≤ before.countP Event.isStep
  /-- Before it says so, it prints what the other one prints. The instruction
  that reaches the limit has it say so after its own line. -/
  loud : limitLine limit ∉ (limited limit before).lines →
    (limited limit before).printed e = (free before).printed e ++
      if e.isStep ∧ max limit 1 = before.countP Event.isStep + 1 then [limitLine limit] else []
  /-- From then on it prints what the other one prints for a change to the
  breakpoints, and nothing else. -/
  quiet : limitLine limit ∈ (limited limit before).lines →
    (limited limit before).printed e = if e.isEdit then (free before).printed e else []
  /-- It says so once at most, and the other one never does. -/
  once : (limited limit (before ++ [e])).lines.toList.count (limitLine limit) ≤ 1
  never : ∀ n, limitLine n ∉ (free (before ++ [e])).lines

theorem Standing.said_iff {limit told : Nat} {c : Console} (h : Standing limit told c) :
    limitLine limit ∈ c.lines ↔ lastShown limit ≤ told := by
  rw [← Array.mem_toList_iff, ← List.count_pos_iff, h.limitLines]
  split <;> simp_all

/-- A console with a limit goes quiet with the instruction that reaches its
limit, and for good. -/
theorem withLimit_goes_quiet (limit : Nat) (before : List Event) (e : Event) :
    GoesQuiet limit before e := by
  have standing := standing_limited limit before
  have said := standing.said_iff
  have next (c : Console) :
      (Tracer.observeAll c (before ++ [e])).lines =
        (Tracer.observeAll c before).lines ++ (Tracer.observeAll c before).printed e := by
    rw [← lines_observe, Tracer.observeAll_append]
    rfl
  refine ⟨⟨next _, next _⟩, limitLine_eq limit, fun e' => line_ne_limitLine e' limit, said, ?loud,
    ?quiet, ?once, ?never⟩
  case loud =>
    intro unsaid
    have before_last : before.countP Event.isStep < lastShown limit := by
      rw [said] at unsaid
      omega
    rw [standing.printed_eq, printed_free, answer, if_pos (.inl before_last)]
    rfl
  case quiet =>
    intro done
    rw [said] at done
    have behind : ¬ before.countP Event.isStep < lastShown limit ∧
        lastShown limit ≠ before.countP Event.isStep + 1 := by omega
    rw [standing.printed_eq, printed_free, answer]
    simp [behind]
  case once =>
    rw [(standing_limited limit (before ++ [e])).limitLines]
    split <;> omega
  case never =>
    intro n
    simp [free_eq]

end Console

end ScriptDebugger

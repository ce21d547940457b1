/-
  What logs tell apart

  The lines of the console and the records of the journal are all that is left
  of the events of a session. Nothing is lost in them: events that have the
  same lines, or the same records, are the same events.

  For the console this rests on three facts about texts. The third character
  of a line tells the kind of its event (`mark`). Behind it, the parts of a
  line can be told from what separates them, since no hexadecimal digit is an
  at sign and no decimal digit is a blank (`eq_of_append_cons_eq`). And no two
  numbers, byte strings or run states are written alike.

  What is proved:
    1. `line_injective`, `record_injective` — no two events have one line or
       one record.
    2. `written_injective` — no line holds a line break, so lines can be told
       from the text in which they stand one below the other.
    3. `logs_determine_events` — either log of any events determines them, and
       has one line or one record for each.
-/
import Mathlib.Data.List.Basic
import ScriptDebugger.Proofs.Tracer.Limit
import ScriptDebugger.Tracer.Journal

namespace ScriptDebugger

/-! ## Separators -/

/-- What stands before the first separator, and what stands behind it. -/
theorem eq_of_append_cons_eq {α : Type} {separator : α} {xs ys rest rest' : List α}
    (left : separator ∉ xs) (right : separator ∉ ys)
    (h : xs ++ separator :: rest = ys ++ separator :: rest') : xs = ys ∧ rest = rest' := by
  induction xs generalizing ys with
  | nil =>
    cases ys with
    | nil => exact ⟨rfl, List.tail_eq_of_cons_eq h⟩
    | cons y ys => exact absurd (List.head_eq_of_cons_eq h ▸ List.mem_cons_self) right
  | cons x xs ih =>
    cases ys with
    | nil => exact absurd (List.head_eq_of_cons_eq h ▸ List.mem_cons_self) left
    | cons y ys =>
      obtain ⟨first, others⟩ := List.cons.inj h
      obtain ⟨same, behind⟩ :=
        ih (List.not_mem_of_not_mem_cons left) (List.not_mem_of_not_mem_cons right) others
      exact ⟨congrArg₂ List.cons first same, behind⟩

theorem RunState.not_mem_name {c : Char} (h : c.isUpper = false) (s : RunState) :
    c ∉ s.name.toList := by
  intro mem
  have upper : s.name.toList.all Char.isUpper = true := by cases s <;> rfl
  rw [List.all_eq_true.mp upper c mem] at h
  cases h

namespace Console

/-! ## Locations -/

theorem toList_place (l : Location) :
    (place l).toList = '0' :: 'x' :: (Hex.encode l.script ++ '@' :: Decimal.digits l.offset.toNat) := by
  simp [place, Hex.text, Decimal.natText]

theorem place_injective {l m : Location} (h : place l = place m) : l = m := by
  have no_separator (bytes : Bytes) : '@' ∉ Hex.encode bytes :=
    fun mem => absurd (Hex.mem_digits_of_mem_encode mem) (by decide)
  have chars := congrArg String.toList h
  rw [toList_place, toList_place, List.cons_inj_right, List.cons_inj_right] at chars
  obtain ⟨hash, position⟩ := eq_of_append_cons_eq (no_separator _) (no_separator _) chars
  obtain ⟨script, offset⟩ := l
  obtain ⟨script', offset'⟩ := m
  obtain rfl : script = script' := Hex.encode_injective hash
  obtain rfl : offset = offset' := UInt32.toNat_inj.mp (Decimal.digits_injective position)
  rfl

/-! ## Lines -/

/-- The third character of an event's line, of which each kind of event has its
own. -/
def mark : Event → Char
  | .step .. => 'e'
  | .hit _ => '!'
  | .stateChange .. => '.'
  | .added _ => '+'
  | .removed _ => '-'

theorem getElem?_line (e : Event) : (line e).toList[2]? = some (mark e) := by
  cases e with
  | step depth state => simp [line_step, mark]
  | hit l => simp [line_hit, mark]
  | stateChange old new => simp [line_stateChange, mark]
  | added l => simp [line_added, mark]
  | removed l => simp [line_removed, mark]

theorem mark_eq_of_line_eq {e f : Event} (h : line e = line f) : mark e = mark f := by
  have third := getElem?_line e
  rw [h, getElem?_line] at third
  exact (Option.some.inj third).symm

theorem line_step_injective {depth depth' : Nat} {state state' : RunState}
    (h : line (.step depth state) = line (.step depth' state')) :
    depth = depth' ∧ state = state' := by
  have no_separator (n : Nat) : ' ' ∉ Decimal.digits n := Decimal.not_mem_digits (by decide)
  have chars : Decimal.digits depth ++ ' ' :: (" state=".toList ++ state.name.toList) =
      Decimal.digits depth' ++ ' ' :: (" state=".toList ++ state'.name.toList) := by
    simpa [line_step, Decimal.natText] using congrArg String.toList h
  obtain ⟨digits, name⟩ := eq_of_append_cons_eq (no_separator _) (no_separator _) chars
  have name := List.append_cancel_left name
  exact ⟨Decimal.digits_injective digits, RunState.name_injective (String.toList_inj.mp name)⟩

theorem line_stateChange_injective {old old' new new' : RunState}
    (h : line (.stateChange old new) = line (.stateChange old' new')) : old = old' ∧ new = new' := by
  have no_separator (s : RunState) : ' ' ∉ s.name.toList := RunState.not_mem_name (by decide) s
  have chars : old.name.toList ++ ' ' :: ("-> ".toList ++ new.name.toList) =
      old'.name.toList ++ ' ' :: ("-> ".toList ++ new'.name.toList) := by
    simpa [line_stateChange] using congrArg String.toList h
  obtain ⟨before, after⟩ := eq_of_append_cons_eq (no_separator _) (no_separator _) chars
  have after := List.append_cancel_left after
  exact ⟨RunState.name_injective (String.toList_inj.mp before),
    RunState.name_injective (String.toList_inj.mp after)⟩

/-- No two events have one line. -/
theorem line_injective {e f : Event} (h : line e = line f) : e = f := by
  have marks := mark_eq_of_line_eq h
  cases e with
  | step depth state =>
    cases f with
    | step depth' state' =>
      obtain ⟨rfl, rfl⟩ := line_step_injective h
      rfl
    | hit | stateChange | added | removed => cases marks
  | hit l =>
    cases f with
    | hit m =>
      rw [line_hit, line_hit, String.append_right_inj] at h
      rw [place_injective h]
    | step | stateChange | added | removed => cases marks
  | stateChange old new =>
    cases f with
    | stateChange old' new' =>
      obtain ⟨rfl, rfl⟩ := line_stateChange_injective h
      rfl
    | step | hit | added | removed => cases marks
  | added l =>
    cases f with
    | added m =>
      rw [line_added, line_added, String.append_right_inj] at h
      rw [place_injective h]
    | step | hit | stateChange | removed => cases marks
  | removed l =>
    cases f with
    | removed m =>
      rw [line_removed, line_removed, String.append_right_inj] at h
      rw [place_injective h]
    | step | hit | stateChange | added => cases marks

/-! ## Line breaks -/

theorem no_break_in_place (l : Location) : '\n' ∉ (place l).toList := by
  have in_script : '\n' ∉ Hex.encode l.script :=
    fun mem => absurd (Hex.mem_digits_of_mem_encode mem) (by decide)
  have in_offset : '\n' ∉ Decimal.digits l.offset.toNat := Decimal.not_mem_digits (by decide)
  simp [toList_place, in_script, in_offset]

theorem no_break_in_line (e : Event) : '\n' ∉ (line e).toList := by
  have in_name (s : RunState) : '\n' ∉ s.name.toList := RunState.not_mem_name (by decide) s
  cases e with
  | step depth state =>
    have in_depth : '\n' ∉ Decimal.digits depth := Decimal.not_mem_digits (by decide)
    simp [line_step, Decimal.natText, in_depth, in_name]
  | hit l => simp [line_hit, no_break_in_place]
  | stateChange old new => simp [line_stateChange, in_name]
  | added l => simp [line_added, no_break_in_place]
  | removed l => simp [line_removed, no_break_in_place]

/-- The text that a console has written: its lines, each with a line break
behind it. -/
def written (c : Console) : List Char := c.lines.toList.flatMap fun text => text.toList ++ ['\n']

theorem written_free (events : List Event) :
    (free events).written = events.flatMap fun e => (line e).toList ++ ['\n'] := by
  rw [written, free_eq, List.flatMap_map]

theorem written_injective {events others : List Event}
    (h : (free events).written = (free others).written) : events = others := by
  rw [written_free, written_free] at h
  induction events generalizing others with
  | nil =>
    cases others with
    | nil => rfl
    | cons f others => simp at h
  | cons e events ih =>
    cases others with
    | nil => simp at h
    | cons f others =>
      -- The first line ends at the first line break of the text.
      rw [List.flatMap_cons, List.flatMap_cons, List.append_assoc, List.append_assoc] at h
      obtain ⟨first, below⟩ := eq_of_append_cons_eq (no_break_in_line e) (no_break_in_line f) h
      rw [line_injective (String.toList_inj.mp first), ih below]

theorem free_concat (events : List Event) (e : Event) :
    (free (events ++ [e])).lines = (free events).lines.push (line e) := by
  simp [free_eq]

end Console

/-! ## Records -/

namespace Journal

/-- A journal that was told of events. -/
abbrev kept (events : List Event) : Journal := Tracer.observeAll empty events

theorem kept_concat (events : List Event) (e : Event) :
    (kept (events ++ [e])).records = (kept events).records.push (record e) := by
  rw [kept, Tracer.observeAll_append]
  rfl

theorem records_kept (events : List Event) : (kept events).records = (events.map record).toArray := by
  induction events using List.reverseRecOn with
  | nil => rfl
  | append_singleton events e ih => simp [kept_concat, ih]

theorem place_injective {l m : Location} (h : place l = place m) : l = m := by
  obtain ⟨script, offset⟩ := l
  obtain ⟨script', offset'⟩ := m
  obtain ⟨hash, position⟩ : Hex.text script = Hex.text script' ∧ offset.toNat = offset'.toNat := by
    simpa [place] using h
  obtain rfl : script = script' := Hex.encode_injective (String.ofList_injective hash)
  obtain rfl : offset = offset' := UInt32.toNat_inj.mp position
  rfl

/-- No two events have one record. -/
theorem record_injective {e f : Event} (h : record e = record f) : e = f := by
  obtain ⟨-, messages, fields⟩ := Record.mk.inj h
  cases e with
  | step depth state =>
    cases f with
    | step depth' state' =>
      obtain ⟨rfl, names⟩ : depth = depth' ∧ state.name = state'.name := by simpa using fields
      rw [RunState.name_injective names]
    | hit | stateChange | added | removed => simp at messages
  | hit l =>
    cases f with
    | hit m => rw [place_injective fields]
    | step | stateChange | added | removed => simp at messages
  | stateChange old new =>
    cases f with
    | stateChange old' new' =>
      obtain ⟨before, after⟩ : old.name = old'.name ∧ new.name = new'.name := by simpa using fields
      rw [RunState.name_injective before, RunState.name_injective after]
    | step | hit | added | removed => simp at messages
  | added l =>
    cases f with
    | added m => rw [place_injective fields]
    | step | hit | stateChange | removed => simp at messages
  | removed l =>
    cases f with
    | removed m => rw [place_injective fields]
    | step | hit | stateChange | added => simp at messages

end Journal

/-! ## Logs -/

/-- The lines of a console without a limit, the text that it has written, and
the records of a journal: each determines the events. Every event adds one
line and one record. -/
theorem logs_determine_events (events others : List Event) :
    ((Console.free events).lines = (Console.free others).lines ↔ events = others) ∧
    ((Console.free events).written = (Console.free others).written ↔ events = others) ∧
    ((Journal.kept events).records = (Journal.kept others).records ↔ events = others) ∧
    ∀ e, ∃ line record, '\n' ∉ line.toList ∧
      (Console.free (events ++ [e])).lines = (Console.free events).lines.push line ∧
      (Console.free (events ++ [e])).written =
        (Console.free events).written ++ line.toList ++ ['\n'] ∧
      (Journal.kept (events ++ [e])).records = (Journal.kept events).records.push record := by
  refine ⟨⟨?lines, ?_⟩, ⟨Console.written_injective, ?_⟩, ⟨?records, ?_⟩, ?one⟩
  case lines =>
    intro same
    apply Console.written_injective
    rw [Console.written, same, Console.written]
  case records =>
    intro same
    have same : events.map Journal.record = others.map Journal.record := by
      simpa [Journal.records_kept] using same
    have distinct : Function.Injective Journal.record := fun _ _ => Journal.record_injective
    exact distinct.list_map same
  case one =>
    intro e
    refine ⟨Console.line e, Journal.record e, Console.no_break_in_line e,
      Console.free_concat events e, ?_, Journal.kept_concat events e⟩
    rw [Console.written_free, Console.written_free, List.flatMap_append, List.flatMap_singleton,
      List.append_assoc]
  all_goals
    rintro rfl
    rfl

end ScriptDebugger

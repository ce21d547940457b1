/-
  Reading when more bytes are to come

  Bytes may arrive piece by piece, and a reader may be tried on those that are
  there. `Resumable read` says what each verdict means for the bytes to come:

  1. a value stays, and so does the place where it ends (`of_ok`);
  2. bytes are truncated only if they can be completed, and a number that goes
     on for too long goes on for too long whatever follows; there is no other
     fault (`of_error`);
  3. there is a form that the reader takes (`readable`), so what was read so
     far never makes it impossible to go on.

  Of readers one after another the first must be readable for the third to be
  of use to the second, and so on: a completion is put together from one for
  the reader that ran out of bytes and forms for all the readers behind it
  (`Resumable.andThen`). From these follow when bytes are truncated
  (`Resumable.truncated_iff`), and that a form cut short always is
  (`Resumable.truncated_of_prefix`).
-/
import ScriptDebugger.Proofs.Wire.Forms

namespace ScriptDebugger.Wire

variable {α β : Type}

/-- What a reader takes, it takes also if more bytes follow. -/
theorem Reads.append {read : Reader α} {IsForm : Bytes → α → Prop} (reads : Reads read IsForm)
    {bytes rest : Bytes} {a : α} (taken : read bytes = .ok (a, rest)) (more : Bytes) :
    read (bytes ++ more) = .ok (a, rest ++ more) := by
  obtain ⟨form, is_form, rfl⟩ := reads.exists_form taken
  rw [List.append_assoc]
  exact reads.delimits is_form (rest ++ more)

/-- No verdict of the reader but a want of bytes depends on the bytes to come,
and a want of bytes can be met. -/
structure Resumable (read : Reader α) : Prop where
  of_ok : ∀ {bytes rest : Bytes} {a : α}, read bytes = .ok (a, rest) →
    ∀ more, read (bytes ++ more) = .ok (a, rest ++ more)
  of_error : ∀ {bytes : Bytes} {f : Fault}, read bytes = .error f →
    (f = .truncated ∧ ∃ more a, read (bytes ++ more) = .ok (a, [])) ∨
      (f = .unterminated ∧ ∀ more, read (bytes ++ more) = .error .unterminated)
  readable : ∃ bytes a, read bytes = .ok (a, [])

namespace Resumable

variable {read : Reader α}

theorem value (a : α) : Resumable (value a) where
  of_ok taken more := by
    cases taken
    rfl
  of_error failed := by cases failed
  readable := ⟨[], a, rfl⟩

theorem andThen {next : α → Reader β} (h : Resumable read) (later : ∀ a, Resumable (next a)) :
    Resumable (andThen read next) where
  of_ok taken more := by
    obtain ⟨⟨a, rest⟩, first, second⟩ := bind_eq_ok_iff.mp taken
    rw [andThen_of_ok (h.of_ok first more)]
    exact (later a).of_ok second more
  of_error {bytes f} failed := by
    cases first : read bytes with
    | error f' =>
      rw [andThen_of_error first] at failed
      cases failed
      rcases h.of_error first with ⟨rfl, more, a, whole⟩ | ⟨rfl, stays⟩
      · obtain ⟨form, b, second⟩ := (later a).readable
        refine .inl ⟨rfl, more ++ form, b, ?_⟩
        rw [← List.append_assoc, andThen_of_ok (h.of_ok whole form), List.nil_append, second]
      · exact .inr ⟨rfl, fun more => andThen_of_error (stays more)⟩
    | ok taken =>
      obtain ⟨a, rest⟩ := taken
      rw [andThen_of_ok first] at failed
      have first_of_more (more : Bytes) :
          Wire.andThen read next (bytes ++ more) = next a (rest ++ more) :=
        andThen_of_ok (h.of_ok first more)
      rcases (later a).of_error failed with ⟨rfl, more, b, whole⟩ | ⟨rfl, stays⟩
      · exact .inl ⟨rfl, more, b, (first_of_more more).trans whole⟩
      · exact .inr ⟨rfl, fun more => (first_of_more more).trans (stays more)⟩
  readable := by
    obtain ⟨front, a, first⟩ := h.readable
    obtain ⟨back, b, second⟩ := (later a).readable
    refine ⟨front ++ back, b, ?_⟩
    rw [andThen_of_ok (h.of_ok first back), List.nil_append, second]

/-! ## Numbers and sequences -/

/-- A group of zeros is a number wherever one is read. -/
theorem decode_zero (last extra : Nat) : Varint.decode last extra [0] = .ok (0, []) := by
  cases extra <;> simp [Varint.decode]

theorem decode {last : Nat} (group : last < 128) (extra : Nat) :
    Resumable (Varint.decode last extra) where
  of_ok := (@Varint.reads ⟨extra, last⟩ group).append
  of_error {bytes f} failed := by
    induction extra generalizing bytes with
    | zero =>
      cases bytes with
      | nil =>
        cases failed
        exact .inl ⟨rfl, [0], 0, decode_zero last 0⟩
      | cons b bytes =>
        rw [Varint.decode] at failed
        split at failed
        · cases failed
        · rename_i large
          cases failed
          refine .inr ⟨rfl, fun more => ?_⟩
          rw [List.cons_append, Varint.decode, if_neg large]
    | succ extra ih =>
      cases bytes with
      | nil =>
        cases failed
        exact .inl ⟨rfl, [0], 0, decode_zero last (extra + 1)⟩
      | cons b bytes =>
        by_cases short : b.toNat < 128
        · rw [Varint.decode, if_pos short] at failed
          cases failed
        · -- The verdict is the one on the groups above.
          have above (bytes : Bytes) : Varint.decode last (extra + 1) (b :: bytes) =
              (Varint.decode last extra bytes).map fun taken =>
                (b.toNat % 128 + 128 * taken.1, taken.2) := by
            rw [Varint.decode, if_neg short]
          rw [above] at failed
          rcases ih (map_eq_error_iff.mp failed) with ⟨rfl, more, n, whole⟩ | ⟨rfl, stays⟩
          · refine .inl ⟨rfl, more, b.toNat % 128 + 128 * n, ?_⟩
            rw [List.cons_append, above, whole]
            rfl
          · refine .inr ⟨rfl, fun more => ?_⟩
            rw [List.cons_append, above, stays]
            rfl
  readable := ⟨[0], 0, decode_zero last extra⟩

theorem varint {width : Width} (group : width.last < 128) : Resumable (Varint.read width) :=
  decode group width.extra

theorem varint_word64 : Resumable (Varint.read .word64) := varint (by decide)

theorem byte : Resumable byte where
  of_ok := Reads.byte.append
  of_error {bytes f} failed := by
    cases bytes with
    | nil =>
      cases failed
      exact .inl ⟨rfl, [0], 0, rfl⟩
    | cons b bytes => cases failed
  readable := ⟨[0], 0, rfl⟩

theorem times (h : Resumable read) (n : Nat) : Resumable (times read n) := by
  induction n with
  | zero => exact value []
  | succ n ih =>
    rw [times_succ]
    exact h.andThen fun first => ih.andThen fun others => value (first :: others)

theorem sequence (h : Resumable read) : Resumable (sequence read) := by
  rw [sequence_eq]
  exact varint_word64.andThen h.times

theorem byteString : Resumable byteString := byte.sequence

/-! ## Truncated bytes -/

/-- Bytes are truncated exactly if they hold no value and some longer bytes
that they begin do. -/
theorem truncated_iff (h : Resumable read) {bytes : Bytes} :
    read bytes = .error .truncated ↔
      (∀ taken, read bytes ≠ .ok taken) ∧ ∃ more taken, read (bytes ++ more) = .ok taken := by
  constructor
  · intro failed
    rcases h.of_error failed with ⟨_, more, a, whole⟩ | ⟨other, _⟩
    · exact ⟨by simp [failed], more, (a, []), whole⟩
    · cases other
  · intro ⟨no_value, more, taken, whole⟩
    cases verdict : read bytes with
    | ok taken' => exact absurd verdict (no_value taken')
    | error f =>
      rcases h.of_error verdict with ⟨rfl, _⟩ | ⟨_, stays⟩
      · rfl
      · rw [stays more] at whole
        cases whole

/-- A form without its last bytes is truncated. -/
theorem truncated_of_prefix (h : Resumable read) {form front : Bytes} {a : α}
    (delimits : Delimits read form a) (cut : front <+: form) (short : front ≠ form) :
    read front = .error .truncated := by
  obtain ⟨more, rfl⟩ := cut
  have whole : read (front ++ more) = .ok (a, []) := by
    simpa using delimits []
  refine h.truncated_iff.mpr ⟨?_, more, _, whole⟩
  intro ⟨a', rest⟩ taken
  -- The value would end before the form does.
  have early := h.of_ok taken more
  rw [whole, Except.ok.injEq, Prod.mk.injEq, eq_comm (a := []), List.append_eq_nil_iff] at early
  rw [early.2.2, List.append_nil] at short
  exact short rfl

end Resumable

end ScriptDebugger.Wire

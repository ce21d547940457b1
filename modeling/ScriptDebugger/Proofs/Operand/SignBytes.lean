/-
  Sign bytes

  A byte string may end in bytes that it would do without. What stands before
  them has its sign in its topmost bit, and further bytes that only repeat
  that sign, all zero or all ones, leave the integer as it is. Writing the
  integer that a byte string stands for takes those bytes away and no others.

  What is proved:
    1. `decode_append_iff` — what is put behind a byte string leaves its
       integer as it is exactly if every byte of it repeats the sign.
    2. `decode_concat_iff` — whether the last byte is one to do without can be
       seen from it and the byte before it (`RedundantLast`). A zero byte is,
       on its own; a byte of ones is not, since it is the sign. So nothing is
       left of a string of zeros, and one byte of a string of ones.
    3. `encode_decode_eq_iff` — a byte string is written again as it was read
       exactly if its last byte is none to do without (`Tight`).
    4. `reencoding_strips_sign_bytes` — all of this for the integers of the
       machine, and which byte strings an integer read from them equals.
-/
import ScriptDebugger.Proofs.Operand.Equality

namespace ScriptDebugger

namespace TwosComplement

/-! ## Bytes behind a byte string -/

/-- The byte that repeats the sign of an integer. -/
def signByte (n : Int) : UInt8 := if n < 0 then 255 else 0

theorem signed_signByte (n : Int) : signed (signByte n) = if n < 0 then -1 else 0 := by
  unfold signByte
  split <;> rfl

theorem signed_injective {b c : UInt8} (h : signed b = signed c) : b = c := by
  rw [← lowByte_signed b, h, lowByte_signed]

/-- Sign bytes alone stand for zero or minus one. -/
theorem decode_eq_sign_iff {bytes : Bytes} (some_byte : bytes ≠ []) (n : Int) :
    decode bytes = (if n < 0 then -1 else 0) ↔ ∀ b ∈ bytes, b = signByte n := by
  induction bytes with
  | nil => exact absurd rfl some_byte
  | cons b rest ih =>
    cases rest with
    | nil =>
      rw [← signed_signByte, decode, List.forall_mem_singleton]
      exact ⟨signed_injective, congrArg signed⟩
    | cons c rest =>
      have sign : b = signByte n ↔ b.toNat = if n < 0 then 255 else 0 := by
        unfold signByte
        split <;> simp [← UInt8.toNat_inj]
      have small := b.toNat_lt
      rw [List.forall_mem_cons, ← ih (by simp), decode_cons (by simp), sign]
      split <;> omega

theorem decode_append_of_ne_nil (front : Bytes) {tail : Bytes} (more : tail ≠ []) :
    decode (front ++ tail) = decode front ↔ decode tail = if decode front < 0 then -1 else 0 := by
  induction front with
  | nil => simp [decode]
  | cons b rest ih =>
    have small := b.toNat_lt
    rw [List.cons_append, decode_cons (by simp [more])]
    cases rest with
    | nil =>
      rw [List.nil_append, decode, signed]
      split <;> split <;> omega
    | cons c rest =>
      -- The lowest byte changes neither the sign nor what is to be compared.
      rw [decode_cons (List.cons_ne_nil c rest)]
      split at ih <;> split <;> omega

/-- What is put behind a byte string leaves its integer as it is exactly if it
only repeats the sign. -/
theorem decode_append_iff {front tail : Bytes} :
    decode (front ++ tail) = decode front ↔ ∀ b ∈ tail, b = signByte (decode front) := by
  by_cases more : tail = []
  · simp [more]
  · rw [decode_append_of_ne_nil front more, decode_eq_sign_iff more]

/-! ## The last byte -/

theorem decode_neg_iff (bytes : Bytes) : decode bytes < 0 ↔ ∃ b ∈ bytes.getLast?, 128 ≤ b := by
  induction bytes with
  | nil => simp [decode]
  | cons b rest ih =>
    cases rest with
    | nil =>
      have small := b.toNat_lt
      simp only [decode, signed, List.getLast?_singleton, Option.mem_some_iff, exists_eq_left',
        UInt8.le_iff_toNat_le, UInt8.reduceToNat]
      split <;> omega
    | cons c rest =>
      have small := b.toNat_lt
      rw [List.getLast?_cons_cons, ← ih, decode_cons (List.cons_ne_nil c rest)]
      omega

/-- A last byte to do without: a zero byte behind nothing or behind a byte
that is not negative, or a byte of ones behind one that is. -/
def RedundantLast (before : Option UInt8) (last : UInt8) : Prop :=
  last = 0 ∧ (∀ b ∈ before, b < 128) ∨ last = 255 ∧ ∃ b ∈ before, 128 ≤ b

instance : ∀ (before : Option UInt8) (last : UInt8), Decidable (RedundantLast before last)
  | none, last => decidable_of_iff (last = 0) (by simp [RedundantLast])
  | some b, last =>
    decidable_of_iff (last = 0 ∧ b < 128 ∨ last = 255 ∧ 128 ≤ b) (by simp [RedundantLast])

/-- The last byte, if there is one, is none to do without. -/
def Tight (bytes : Bytes) : Prop :=
  ∀ last ∈ bytes.getLast?, ¬ RedundantLast bytes.dropLast.getLast? last

instance (bytes : Bytes) : Decidable (Tight bytes) :=
  bytes.getLast?.decidableForallMem

theorem tight_concat {front : Bytes} {last : UInt8} :
    Tight (front ++ [last]) ↔ ¬ RedundantLast front.getLast? last := by
  simp [Tight]

theorem decode_concat_iff {front : Bytes} {last : UInt8} :
    decode (front ++ [last]) = decode front ↔ RedundantLast front.getLast? last := by
  have low : (∀ b ∈ front.getLast?, b < 128) ↔ ¬ decode front < 0 := by
    rw [decode_neg_iff]
    simp [UInt8.not_le]
  rw [decode_append_iff, List.forall_mem_singleton, signByte, RedundantLast, low, ← decode_neg_iff]
  by_cases negative : decode front < 0 <;> simp [negative]

/-! ## Writing what was read -/

/-- Behind what is written for an integer, sign bytes and nothing else leave
it as it is. -/
theorem decode_encode_append_iff {n : Int} {tail : Bytes} :
    decode (encode n ++ tail) = n ↔ ∀ b ∈ tail, b = signByte n := by
  have same := @decode_append_iff (encode n) tail
  rwa [decode_encode] at same

theorem encode_decode_eq_iff {bytes : Bytes} : encode (decode bytes) = bytes ↔ Tight bytes := by
  refine ⟨?_, ?_⟩
  · intro whole last there
    obtain ⟨front, rfl⟩ := List.getLast?_eq_some_iff.mp there
    rw [List.dropLast_concat, ← decode_concat_iff]
    intro same
    -- The front is shorter, and would be read as the same integer.
    have shorter := (prefix_encode_decode front).length_le
    rw [← same, whole, List.length_append, List.length_singleton] at shorter
    omega
  · intro tight
    obtain ⟨dropped, split⟩ := prefix_encode_decode bytes
    generalize value : decode bytes = n at split
    subst split
    cases last : dropped.getLast? with
    | none =>
      rw [List.getLast?_eq_none_iff.mp last, List.append_nil]
    | some b =>
      obtain ⟨others, rfl⟩ := List.getLast?_eq_some_iff.mp last
      -- Without its last byte it stands for `n` already, so that byte is redundant.
      have signs := decode_encode_append_iff.mp value
      have same : decode (encode n ++ others) = n := by
        apply decode_encode_append_iff.mpr
        intro c mem
        exact signs c (List.mem_append_left [b] mem)
      rw [← List.append_assoc] at value tight
      rw [tight_concat, ← decode_concat_iff, value, same] at tight
      exact absurd rfl tight

example : ¬ Tight [0] ∧ Tight [255] ∧ ¬ Tight [255, 255] := by decide

end TwosComplement

open TwosComplement (Tight)

variable {κ : Type} [HostKind κ] [DecidableEq κ]

/-- The integer read from a byte string is written as the front part of it.
What is missing are sign bytes, and nothing is missing exactly if the byte
string does not end in one to do without. Those are the byte strings that the
integer read from them equals. -/
theorem Integer.reencoding_strips_sign_bytes (t : HostTable κ) (bytes : Bytes) :
    let i := Integer.ofBytes bytes
    (∃ dropped, i.toBytes ++ dropped = bytes ∧
      (0 ≤ i.value → ∀ b ∈ dropped, b = 0) ∧ (i.value < 0 → ∀ b ∈ dropped, b = 255) ∧
      (dropped = [] ↔ Tight bytes)) ∧
    ((Operand.integer i).equals t (.bytes bytes) = true ↔ Tight bytes) := by
  intro i
  have whole : i.toBytes = bytes ↔ Tight bytes := TwosComplement.encode_decode_eq_iff
  refine ⟨?_, ?_⟩
  · obtain ⟨dropped, split⟩ : ∃ dropped, i.toBytes ++ dropped = bytes :=
      TwosComplement.prefix_encode_decode bytes
    have value : TwosComplement.decode (i.toBytes ++ dropped) = i.value :=
      congrArg TwosComplement.decode split
    have signs := TwosComplement.decode_encode_append_iff.mp value
    refine ⟨dropped, split, ?_, ?_, ?_⟩
    · intro positive b mem
      rw [signs b mem, TwosComplement.signByte, if_neg (by omega)]
    · intro negative b mem
      rw [signs b mem, TwosComplement.signByte, if_pos negative]
    · have missing : i.toBytes = i.toBytes ++ dropped ↔ dropped = [] := List.self_eq_append_right
      rw [split, whole] at missing
      exact missing.symm
  · rw [Operand.equals_integer_bytes, eq_comm, whole]

end ScriptDebugger

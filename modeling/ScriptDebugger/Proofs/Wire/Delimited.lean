/-
  Forms that say where they end

  A reader is right about a form of a value if it takes the value off the front
  and leaves what follows as it is (`Delimits`). This holds layer by layer, and
  each layer only asks it of the one below:

  1. a number in its shortest form, if it fits the width that is read
     (`decode_encode`);
  2. values one after another (`Delimits.times`);
  3. a sequence, its length in front (`Delimits.sequence`), and so a byte
     string (`Delimits.byteString`).

  Two readers are run one after another in `Except`; `bind_eq_ok_iff` and
  `map_eq_ok_iff` take a success apart.
-/
import Mathlib.Algebra.Group.Nat.Defs
import Mathlib.Data.List.Forall2
import ScriptDebugger.Wire.Sequence

namespace ScriptDebugger.Wire

section Results

variable {ε α β : Type} {x : Except ε α} {b : β}

theorem map_eq_ok_iff {f : α → β} : x.map f = .ok b ↔ ∃ a, x = .ok a ∧ f a = b := by
  cases x with
  | error e => simp [Except.map]
  | ok a => simp [Except.map]

theorem map_eq_error_iff {f : α → β} {e : ε} : x.map f = .error e ↔ x = .error e := by
  cases x with
  | error e => simp [Except.map]
  | ok a => simp [Except.map]

theorem bind_eq_ok_iff {f : α → Except ε β} :
    (x >>= f) = .ok b ↔ ∃ a, x = .ok a ∧ f a = .ok b := by
  cases x with
  | error e => simp [bind, Except.bind]
  | ok a => simp [bind, Except.bind]

end Results

/-- Whatever follows the form, the reader takes the value and leaves the rest. -/
def Delimits {α : Type} (read : Reader α) (form : Bytes) (a : α) : Prop :=
  ∀ tail, read (form ++ tail) = .ok (a, tail)

theorem Delimits.first {α : Type} {read : Reader α} {form : Bytes} {a : α}
    (h : Delimits read form a) (tail : Bytes) : read.first (form ++ tail) = .ok a := by
  rw [Reader.first, h tail]
  rfl

/-! ## Numbers -/

namespace Varint

/-- The shortest form of a number is read back if what is left of the number
after `extra` groups fits the last permitted byte. -/
theorem decode_encode {last extra n : Nat} (group : last < 128) (fits : n / 128 ^ extra ≤ last) :
    Delimits (decode last extra) (encode n) n := by
  intro tail
  induction extra generalizing n with
  | zero =>
    rw [Nat.pow_zero, Nat.div_one] at fits
    have short : n < 128 := by omega
    have byte : (UInt8.ofNat n).toNat = n := UInt8.toNat_ofNat_of_lt' (show n < 256 by omega)
    rw [encode, if_pos short, List.singleton_append, decode, byte, if_pos fits]
  | succ extra ih =>
    rw [encode]
    split
    · rename_i short
      have byte : (UInt8.ofNat n).toNat = n := UInt8.toNat_ofNat_of_lt' (show n < 256 by omega)
      rw [List.singleton_append, decode, byte, if_pos short]
    · have byte : (UInt8.ofNat (n % 128 + 128)).toNat = n % 128 + 128 :=
        UInt8.toNat_ofNat_of_lt' (show n % 128 + 128 < 256 by omega)
      have fits : n / 128 / 128 ^ extra ≤ last := by
        rwa [Nat.div_div_eq_div_mul, ← Nat.pow_succ']
      rw [List.cons_append, decode, byte, if_neg (by omega), ih fits, Nat.add_mod_right,
        Nat.mod_mod]
      show Except.ok (n % 128 + 128 * (n / 128), tail) = _
      rw [Nat.mod_add_div]

theorem read_word32 {n : Nat} (fits : n < UInt32.size) : Delimits (read .word32) (encode n) n := by
  apply decode_encode
  · decide
  · show n / 128 ^ 4 ≤ 15
    have : UInt32.size = 4294967296 := rfl
    omega

theorem read_word64 {n : Nat} (fits : n < UInt64.size) : Delimits (read .word64) (encode n) n := by
  apply decode_encode
  · decide
  · show n / 128 ^ 9 ≤ 1
    have : UInt64.size = 18446744073709551616 := rfl
    omega

end Varint

/-! ## Sequences -/

variable {α : Type} {read : Reader α} {write : α → Bytes}

theorem Delimits.times {forms : List Bytes} {members : List α}
    (each : List.Forall₂ (Delimits read) forms members) :
    Delimits (Wire.times read members.length) forms.flatten members := by
  intro tail
  induction each with
  | nil => rfl
  | cons form _ ih =>
    rw [List.flatten_cons, List.append_assoc, List.length_cons, Wire.times, form]
    show (Wire.times read _ _ >>= _) = _
    rw [ih]
    rfl

theorem Delimits.sequence {members : List α} (short : members.length < UInt64.size)
    (each : ∀ a ∈ members, Delimits read (write a) a) :
    Delimits (Wire.sequence read) (writeSequence write members) members := by
  have forms : List.Forall₂ (Delimits read) (members.map write) members :=
    List.forall₂_map_left_iff.mpr (List.forall₂_same.mpr each)
  intro tail
  rw [writeSequence, List.flatMap_def, List.append_assoc, Wire.sequence, Varint.read_word64 short]
  exact Delimits.times forms tail

theorem Delimits.byteString {bytes : Bytes} (short : bytes.length < UInt64.size) :
    Delimits Wire.byteString (writeByteString bytes) bytes :=
  Delimits.sequence short fun _ _ _ => rfl

end ScriptDebugger.Wire

/-
  Canonical bytes of integers

  Every byte string stands for an integer, and many stand for the same one: a
  further sign byte at the end changes nothing. Writing picks one of them.

  What is proved:
    1. `decode_encode` — reading what was written gives the integer back, so
       no two integers are written alike (`encode_injective`).
    2. `decode_eq_zero_iff` — a byte string stands for zero exactly if every
       byte of it is zero.
    3. `prefix_encode_decode` — writing the integer that a byte string stands
       for gives the front part of that byte string.
    4. `canonical_iff` — what is written for an integer is the only one of the
       shortest byte strings that stand for it.
    5. `fits_iff` — its length is the least number of bytes with room for the
       integer and its sign.
-/
import Mathlib.Algebra.Ring.Int.Defs
import Mathlib.Order.Bounds.Defs
import ScriptDebugger.Operand.TwosComplement

namespace ScriptDebugger.TwosComplement

/-! ## Single bytes -/

theorem toNat_lowByte (n : Int) : ((lowByte n).toNat : Int) = n % 256 := by
  have small : (n % 256).toNat < 256 := by omega
  rw [lowByte, UInt8.toNat_ofNat_of_lt' small]
  omega

/-- A byte is all that its value leaves when divided by 256. -/
theorem lowByte_of_emod {n : Int} {b : UInt8} (h : n % 256 = b.toNat) : lowByte n = b := by
  rw [lowByte, h, Int.toNat_natCast, UInt8.ofNat_toNat]

theorem signed_lowByte {n : Int} (small : -128 ≤ n ∧ n < 128) : signed (lowByte n) = n := by
  have low := toNat_lowByte n
  unfold signed
  split <;> omega

theorem signed_bounds (b : UInt8) : -128 ≤ signed b ∧ signed b < 128 := by
  have := b.toNat_lt
  unfold signed
  split <;> omega

theorem lowByte_signed (b : UInt8) : lowByte (signed b) = b := by
  apply lowByte_of_emod
  have := b.toNat_lt
  unfold signed
  split <;> omega

theorem signed_eq_zero_iff (b : UInt8) : signed b = 0 ↔ b = 0 := by
  constructor
  · intro zero
    rw [← lowByte_signed b, zero]
    rfl
  · rintro rfl
    rfl

/-! ## What is written is read back -/

theorem bytes_of_small {n : Int} (small : -128 ≤ n ∧ n < 128) : bytes n = [lowByte n] := by
  rw [bytes, if_pos small]

theorem bytes_of_large {n : Int} (large : ¬ (-128 ≤ n ∧ n < 128)) :
    bytes n = lowByte n :: bytes (n / 256) := by
  rw [bytes, if_neg large]

theorem bytes_ne_nil (n : Int) : bytes n ≠ [] := by
  by_cases small : -128 ≤ n ∧ n < 128
  · rw [bytes_of_small small]
    exact List.cons_ne_nil _ _
  · rw [bytes_of_large small]
    exact List.cons_ne_nil _ _

theorem decode_cons {b : UInt8} {rest : Bytes} (more : rest ≠ []) :
    decode (b :: rest) = b.toNat + 256 * decode rest := by
  obtain ⟨c, rest, rfl⟩ := List.exists_cons_of_ne_nil more
  rfl

theorem decode_bytes (n : Int) : decode (bytes n) = n := by
  induction n using bytes.induct with
  | case1 n small => rw [bytes_of_small small, decode, signed_lowByte small]
  | case2 n large ih =>
    calc decode (bytes n)
        = (lowByte n).toNat + 256 * decode (bytes (n / 256)) := by
          rw [bytes_of_large large, decode_cons (bytes_ne_nil _)]
      _ = n % 256 + 256 * (n / 256) := by rw [toNat_lowByte, ih]
      _ = n := Int.emod_add_mul_ediv n 256

theorem decode_encode (n : Int) : decode (encode n) = n := by
  unfold encode
  split
  · rename_i zero
    rw [zero]
    rfl
  · exact decode_bytes n

theorem encode_injective {m n : Int} (h : encode m = encode n) : m = n := by
  rw [← decode_encode m, h, decode_encode]

/-! ## Zero -/

theorem decode_eq_zero_iff (bytes : Bytes) : decode bytes = 0 ↔ ∀ b ∈ bytes, b = 0 := by
  induction bytes with
  | nil => simp [decode]
  | cons b rest ih =>
    rw [List.forall_mem_cons, ← ih]
    cases rest with
    | nil => simp [decode, signed_eq_zero_iff]
    | cons c rest =>
      -- A byte is less than 256, so what comes after it cannot cancel it.
      have small := b.toNat_lt
      have zero : b = 0 ↔ b.toNat = 0 := by rw [← UInt8.toNat_inj, UInt8.toNat_zero]
      rw [decode_cons (List.cons_ne_nil c rest), zero]
      omega

/-- A byte string has a byte other than zero exactly if the integer that it
stands for is not zero. -/
theorem any_eq_decode (bytes : Bytes) : bytes.any (· ≠ 0) = decide (decode bytes ≠ 0) := by
  rw [Bool.eq_iff_iff, List.any_eq_true, decide_eq_true_iff, ne_eq, decode_eq_zero_iff]
  simp only [decide_eq_true_iff, Classical.not_forall, exists_prop, ne_eq]

/-- What is written for an integer has a byte other than zero, unless the
integer is zero. -/
theorem any_encode (n : Int) : (encode n).any (· ≠ 0) = decide (n ≠ 0) := by
  rw [any_eq_decode, decode_encode]

/-! ## Writing what was read -/

theorem encode_of_ne_zero {n : Int} (h : n ≠ 0) : encode n = bytes n := if_neg h

/-- Writing what was read takes nothing but the front part. -/
theorem prefix_encode_decode (bytes : Bytes) : encode (decode bytes) <+: bytes := by
  induction bytes with
  | nil => exact List.nil_prefix
  | cons b rest ih =>
    by_cases zero : decode (b :: rest) = 0
    · rw [zero]
      exact List.nil_prefix
    rw [encode_of_ne_zero zero]
    by_cases last : rest = []
    · subst last
      have whole : TwosComplement.bytes (decode [b]) = [b] := by
        rw [decode, bytes_of_small (signed_bounds b), lowByte_signed]
      exact ⟨[], (List.append_nil _).trans whole⟩
    have small := b.toNat_lt
    have value := decode_cons (b := b) last
    have low : lowByte (decode (b :: rest)) = b := lowByte_of_emod (by omega)
    by_cases one : -128 ≤ decode (b :: rest) ∧ decode (b :: rest) < 128
    · rw [bytes_of_small one, low, List.prefix_cons_inj]
      exact List.nil_prefix
    · have high : decode (b :: rest) / 256 = decode rest := by omega
      rw [bytes_of_large one, low, high, List.prefix_cons_inj]
      -- A byte of 128 or more needs a zero byte for its sign.
      by_cases sign : decode rest = 0
      · obtain ⟨c, rest, rfl⟩ := List.exists_cons_of_ne_nil last
        have zeros := (decode_eq_zero_iff (c :: rest)).mp sign
        rw [sign, bytes_of_small (by omega), zeros c List.mem_cons_self]
        exact List.prefix_append [0] rest
      · rwa [encode_of_ne_zero sign] at ih

/-! ## The canonical bytes -/

/-- The bytes stand for the integer, and no fewer bytes do. -/
def Canonical (n : Int) (bytes : Bytes) : Prop :=
  decode bytes = n ∧ ∀ other, decode other = n → bytes.length ≤ other.length

theorem canonical_iff {n : Int} {bytes : Bytes} : Canonical n bytes ↔ bytes = encode n := by
  constructor
  · rintro ⟨rfl, shortest⟩
    have front := prefix_encode_decode bytes
    exact (front.eq_of_length_le (shortest _ (decode_encode _))).symm
  · rintro rfl
    refine ⟨decode_encode n, ?_⟩
    rintro other rfl
    exact (prefix_encode_decode other).length_le

/-! ## The number of bytes -/

theorem encode_eq_nil_iff {n : Int} : encode n = [] ↔ n = 0 := by
  constructor
  · intro empty
    rw [← decode_encode n, empty]
    rfl
  · rintro rfl
    rfl

/-- So many bytes have room for an integer and its sign. -/
def Fits (n : Int) (k : Nat) : Prop := 1 ≤ k ∧ -2 ^ (8 * k - 1) ≤ n ∧ n < 2 ^ (8 * k - 1)

theorem length_bytes_le_iff {n : Int} {k : Nat} :
    (bytes n).length ≤ k + 1 ↔ -2 ^ (8 * k + 7) ≤ n ∧ n < 2 ^ (8 * k + 7) := by
  induction n using bytes.induct generalizing k with
  | case1 n small =>
    have room : (1 : Int) ≤ 2 ^ (8 * k) := Int.pow_pos (by decide)
    rw [bytes_of_small small, pow_add, List.length_singleton]
    omega
  | case2 n large ih =>
    rw [bytes_of_large large, List.length_cons, Nat.add_le_add_iff_right]
    cases k with
    | zero =>
      have some_byte := List.length_pos_iff.mpr (bytes_ne_nil (n / 256))
      omega
    | succ k =>
      -- One byte more has 256 times the room, and takes one division by 256.
      have next : (2 : Int) ^ (8 * (k + 1) + 7) = 256 * 2 ^ (8 * k + 7) := by
        rw [show 8 * (k + 1) + 7 = 8 + (8 * k + 7) by omega, pow_add]
        rfl
      rw [ih, next]
      omega

theorem fits_iff {n : Int} (h : n ≠ 0) {k : Nat} : Fits n k ↔ (encode n).length ≤ k := by
  have some_byte := List.length_pos_iff.mpr (bytes_ne_nil n)
  rw [encode_of_ne_zero h]
  cases k with
  | zero =>
    unfold Fits
    omega
  | succ k =>
    rw [length_bytes_le_iff, Fits, show 8 * (k + 1) - 1 = 8 * k + 7 by omega]
    exact and_iff_right (Nat.succ_pos k)

theorem isLeast_length_encode {n : Int} (h : n ≠ 0) : IsLeast {k | Fits n k} (encode n).length :=
  ⟨(fits_iff h).mpr (Nat.le_refl _), fun _ fits => (fits_iff h).mp fits⟩

end ScriptDebugger.TwosComplement

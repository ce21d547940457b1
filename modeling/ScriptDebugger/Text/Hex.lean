/-
  Hexadecimal text of byte strings

  A byte is written as two digits, high half first, in lower case; letters of
  either case are read. `decode?_encode` says that reading undoes writing, so
  the text determines the bytes, and `length_encode` counts the digits.
-/
import ScriptDebugger.Bytes

namespace ScriptDebugger.Hex

/-- The digits, in order of their values. -/
def digits : List Char :=
  ['0', '1', '2', '3', '4', '5', '6', '7', '8', '9', 'a', 'b', 'c', 'd', 'e', 'f']

/-- The digit for a value below sixteen. -/
def digit (n : Nat) : Char :=
  if n < 10 then Char.ofNat (48 + n) else Char.ofNat (87 + n)

def value? (c : Char) : Option Nat :=
  if '0' ≤ c ∧ c ≤ '9' then some (c.toNat - 48)
  else if 'a' ≤ c ∧ c ≤ 'f' then some (c.toNat - 87)
  else if 'A' ≤ c ∧ c ≤ 'F' then some (c.toNat - 55)
  else none

/-- Two digits a byte. -/
def encode : Bytes → List Char
  | [] => []
  | b :: rest => digit (b.toNat / 16) :: digit (b.toNat % 16) :: encode rest

/-- Reads two digits a byte; `none` for another character or a digit left
over. -/
def decode? : List Char → Option Bytes
  | [] => some []
  | [_] => none
  | high :: low :: rest =>
    match value? high, value? low, decode? rest with
    | some h, some l, some bytes => some (UInt8.ofNat (16 * h + l) :: bytes)
    | _, _, _ => none

def text (bytes : Bytes) : String := String.ofList (encode bytes)

theorem value?_digit {n : Nat} (h : n < 16) : value? (digit n) = some n := by
  have all : ∀ m : Fin 16, value? (digit m) = some m.val := by decide
  exact all ⟨n, h⟩

theorem digit_mem {n : Nat} (h : n < 16) : digit n ∈ digits := by
  have all : ∀ m : Fin 16, digit m ∈ digits := by decide
  exact all ⟨n, h⟩

/-- Nothing but digits is written, and no letter of upper case. -/
theorem mem_digits_of_mem_encode {bytes : Bytes} {c : Char} (h : c ∈ encode bytes) : c ∈ digits := by
  induction bytes with
  | nil => cases h
  | cons b rest ih =>
    have hb := b.toNat_lt
    rcases List.mem_cons.mp h with rfl | h
    · exact digit_mem (by omega)
    rcases List.mem_cons.mp h with rfl | h
    · exact digit_mem (by omega)
    · exact ih h

theorem decode?_encode (bytes : Bytes) : decode? (encode bytes) = some bytes := by
  induction bytes with
  | nil => rfl
  | cons b rest ih =>
    have hb := b.toNat_lt
    simp only [encode, decode?, value?_digit (show b.toNat / 16 < 16 by omega),
      value?_digit (show b.toNat % 16 < 16 by omega), ih]
    rw [show 16 * (b.toNat / 16) + b.toNat % 16 = b.toNat by omega, UInt8.ofNat_toNat]

theorem encode_injective {a b : Bytes} (h : encode a = encode b) : a = b := by
  have read := decode?_encode a
  rw [h, decode?_encode] at read
  exact (Option.some.inj read).symm

theorem length_encode (bytes : Bytes) : (encode bytes).length = 2 * bytes.length := by
  induction bytes with
  | nil => rfl
  | cons b rest ih => simp only [encode, List.length_cons, ih]; omega

end ScriptDebugger.Hex

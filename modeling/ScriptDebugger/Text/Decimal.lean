/-
  Decimal text of integers

  Numbers are written in the fewest decimal digits, with a minus sign before a
  negative one. The reader takes an optional minus sign and at least one
  digit; leading zeros and a negative zero are read too. `nat?_digits` and
  `int?_chars` say that reading undoes writing, so no two numbers are written
  alike; `eq_zero_of_digits_eq_cons` says that no leading zeros are written.
-/

namespace ScriptDebugger.Decimal

def digits (n : Nat) : List Char := Nat.toDigits 10 n

/-- The number that a nonempty string of digits names. -/
def nat? (cs : List Char) : Option Nat :=
  if cs ≠ [] ∧ cs.all Char.isDigit then some (Nat.ofDigitChars 10 cs 0) else none

/-- The number that digits with an optional minus sign name. -/
def int? : List Char → Option Int
  | '-' :: rest => (nat? rest).map fun n => -(n : Int)
  | cs => (nat? cs).map Int.ofNat

def chars : Int → List Char
  | .ofNat n => digits n
  | .negSucc n => '-' :: digits (n + 1)

def text (n : Int) : String := String.ofList (chars n)

def natText (n : Nat) : String := String.ofList (digits n)

theorem digits_ne_nil (n : Nat) : digits n ≠ [] := Nat.toDigits_ne_nil

theorem isDigit_of_mem_digits {n : Nat} {c : Char} (h : c ∈ digits n) : c.isDigit = true :=
  Nat.isDigit_of_mem_toDigits (by decide) (by decide) h

theorem not_mem_digits {n : Nat} {c : Char} (h : c.isDigit = false) : c ∉ digits n := by
  intro mem
  rw [isDigit_of_mem_digits mem] at h
  cases h

theorem nat?_digits (n : Nat) : nat? (digits n) = some n := by
  have all : (digits n).all Char.isDigit = true :=
    List.all_eq_true.2 fun c hc => isDigit_of_mem_digits hc
  rw [nat?, if_pos ⟨digits_ne_nil n, all⟩]
  exact congrArg some Nat.ofDigitChars_ten_toDigits

theorem digits_injective {m n : Nat} (h : digits m = digits n) : m = n := by
  have read := nat?_digits m
  rw [h, nat?_digits] at read
  exact (Option.some.inj read).symm

/-- Only zero is written with a zero in front. -/
theorem eq_zero_of_digits_eq_cons {n : Nat} {rest : List Char} (h : digits n = '0' :: rest) :
    n = 0 := by
  induction n using Nat.strongRecOn generalizing rest with
  | _ n ih =>
    rw [digits, Nat.toDigits_eq_if (by decide)] at h
    split at h
    · exact Nat.digitChar_eq_zero.mp (List.head_eq_of_cons_eq h)
    · -- The digits begin with those of a smaller number, which is not zero.
      obtain ⟨d, ds, front⟩ := List.exists_cons_of_ne_nil (digits_ne_nil (n / 10))
      rw [← digits, front, List.cons_append] at h
      rw [List.head_eq_of_cons_eq h] at front
      have := ih (n / 10) (by omega) front
      omega

theorem int?_chars (n : Int) : int? (chars n) = some n := by
  cases n with
  | negSucc n => simp [chars, int?, nat?_digits, Int.negSucc_eq]
  | ofNat n =>
    have first : ∀ rest, digits n ≠ '-' :: rest := by
      intro rest h
      have : '-'.isDigit = true := isDigit_of_mem_digits (n := n) (by rw [h]; simp)
      exact absurd this (by decide)
    rw [chars, int?]
    · simp [nat?_digits]
    · exact first

/-- Nothing but digits and a minus sign is written. -/
theorem not_mem_chars {n : Int} {c : Char} (digit : c.isDigit = false) (sign : c ≠ '-') :
    c ∉ chars n := by
  cases n with
  | ofNat n => exact not_mem_digits digit
  | negSucc n => exact List.not_mem_cons_of_ne_of_not_mem sign (not_mem_digits digit)

end ScriptDebugger.Decimal

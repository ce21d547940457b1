/-
  Texts of operands

  Integers are shown in decimal digits, byte strings in hexadecimal digits
  behind `0x`, pointers in decimal digits behind an ampersand. No integer is
  shown with an x or an ampersand, so the text says which of the three it shows,
  also where the byte string is empty.

  `ofText?` reads texts back. It undoes showing (`ofText?_text`) but for a
  length that an integer remembers, which is not shown; so operands that are
  shown alike are the same (`text_identifies`).
-/
import ScriptDebugger.Proofs.Operand.Equality
import ScriptDebugger.Proofs.Operand.Measuring

namespace ScriptDebugger.Operand

/-- The operand that a text shows. -/
def ofText? : List Char → Option Operand
  | '0' :: 'x' :: digits => (Hex.decode? digits).map .bytes
  | '&' :: digits => (Decimal.nat? digits).map fun n => .pointer (UInt32.ofNat n)
  | chars => (Decimal.int? chars).map fun n => .integer (.ofInt n)

theorem ofText?_chars (n : Int) : ofText? (Decimal.chars n) = some (.integer (.ofInt n)) := by
  have no_hex : ∀ digits, Decimal.chars n ≠ '0' :: 'x' :: digits := by
    intro digits same
    have mem : 'x' ∈ Decimal.chars n := by simp [same]
    exact Decimal.not_mem_chars (by decide) (by decide) mem
  have no_position : ∀ digits, Decimal.chars n ≠ '&' :: digits := by
    intro digits same
    have mem : '&' ∈ Decimal.chars n := by simp [same]
    exact Decimal.not_mem_chars (by decide) (by decide) mem
  rw [ofText?]
  · rw [Decimal.int?_chars, Option.map_some]
  · exact no_hex
  · exact no_position

theorem text?_bytes (b : Bytes) :
    (Operand.bytes b).text? = some (String.ofList ('0' :: 'x' :: Hex.encode b)) :=
  congrArg some (String.toList_inj.mp (by simp [Hex.text]))

/-- Reading undoes showing, but for a length that is known. -/
theorem ofText?_text {x : Operand} {s : String} (h : x.text? = some s) :
    ofText? s.toList = some x.unmeasured := by
  cases x with
  | integer i =>
    cases h
    rw [Integer.text, Decimal.text, String.toList_ofList, ofText?_chars]
    rfl
  | bytes b =>
    rw [text?_bytes] at h
    cases h
    rw [String.toList_ofList, ofText?, Hex.decode?_encode]
    rfl
  | pointer position =>
    cases h
    have chars : ("&" ++ Decimal.natText position.toNat).toList =
        '&' :: Decimal.digits position.toNat := by simp [Decimal.natText]
    rw [chars, ofText?, Decimal.nat?_digits, Option.map_some, UInt32.ofNat_toNat]
    rfl
  | host => cases h

theorem exists_text_iff {x : Operand} : (∃ s, x.text? = some s) ↔ x.kind ≠ .host := by
  cases x <;> simp [text?, kind]

theorem sameValue?_eq_true_iff {x y : Operand} :
    x.sameValue? y = some true ↔ x.unmeasured = y.unmeasured ∧ x.kind ≠ .host := by
  have integers {i j : Integer} : (i == j) = true ↔ Integer.ofInt i.value = Integer.ofInt j.value :=
    Integer.beq_iff.trans ⟨congrArg Integer.ofInt, congrArg Integer.value⟩
  cases x <;> cases y <;> simp [sameValue?, unmeasured, kind, integers]

/-- Every integer, byte string and pointer has a text, and it is that of no
operand but those of the same kind and value. The text of a byte string is
`0x` and two digits for each byte, none of them in upper case, from which the
bytes can be read. -/
theorem text_identifies :
    (∀ x : Operand, (∃ s, x.text? = some s) ↔ x.kind ≠ .host) ∧
    (∀ x y : Operand, (∃ s, x.text? = some s ∧ y.text? = some s) ↔
      x.kind = y.kind ∧ x.sameValue? y = some true) ∧
    ∀ b, ∃ digits, (Operand.bytes b).text? = some (String.ofList ('0' :: 'x' :: digits)) ∧
      digits.length = 2 * b.length ∧ (∀ d ∈ digits, d ∈ Hex.digits) ∧
      Hex.decode? digits = some b := by
  refine ⟨fun x => exists_text_iff, ?alike, ?digits⟩
  case alike =>
    intro x y
    rw [sameValue?_eq_true_iff]
    constructor
    · rintro ⟨s, first, second⟩
      have read := ofText?_text first
      rw [ofText?_text second] at read
      have same : x.unmeasured = y.unmeasured := (Option.some.inj read).symm
      refine ⟨?_, same, exists_text_iff.mp ⟨s, first⟩⟩
      rw [← kind_unmeasured x, same, kind_unmeasured]
    · rintro ⟨-, same, shown⟩
      obtain ⟨s, text⟩ := exists_text_iff.mpr shown
      refine ⟨s, text, ?_⟩
      rw [← text?_unmeasured, ← same, text?_unmeasured, text]
  case digits =>
    intro b
    exact ⟨Hex.encode b, text?_bytes b, Hex.length_encode b,
      fun _ => Hex.mem_digits_of_mem_encode, Hex.decode?_encode b⟩

end ScriptDebugger.Operand

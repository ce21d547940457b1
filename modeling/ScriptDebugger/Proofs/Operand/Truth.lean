/-
  Truth

  A byte string counts as true if some byte of it is not zero, an integer if
  it is not zero. The two agree on every byte string, canonical or not, since
  what a sign byte takes away is never all that the bytes below it add
  (`any_eq_decode`). So it makes no difference whether bytes are read as data
  or as a number, nor how often: an operand counts as true exactly if what was
  made at its creation does (`Source.Yields.truthy_eq`).
-/
import ScriptDebugger.Operand.Samples
import ScriptDebugger.Proofs.Operand.Lineage

namespace ScriptDebugger

variable {κ : Type} [HostKind κ]

theorem Operand.truthy_bytes (bytes : Bytes) :
    (Operand.bytes bytes).truthy = (Operand.integer (.ofBytes bytes)).truthy :=
  TwosComplement.any_eq_decode bytes

theorem Operand.truthy_integer {i j : Integer} (value : i.value = j.value) :
    (Operand.integer i).truthy = (Operand.integer j).truthy := by
  rw [truthy, truthy, Integer.truthy, Integer.truthy, value]

namespace Bank

/-- Whether what is made counts as true. -/
def Source.truthy : Source κ → Bool
  | .integer n => n ≠ 0
  | .decoded b => TwosComplement.decode b ≠ 0
  | .bytes b => TwosComplement.decode b ≠ 0
  | .pointer _ => true
  | .null => false
  | .object _ => true

theorem Source.Yields.truthy_eq {t : HostTable κ} {source : Source κ} {x : Operand}
    (yields : source.Yields t x) : x.truthy = source.truthy := by
  cases yields with
  | integer number =>
    cases source with
    | integer | decoded | bytes =>
      rw [Operand.truthy, Integer.truthy, ← Option.some.inj number]
      rfl
    | pointer | null | object => cases number
  | bytes b => exact Operand.truthy_bytes b
  | pointer | null | object => rfl

variable [DecidableEq κ]

theorem Tracks.ask?_truthy {b : Bank κ} {known : Array (Creation κ)} (tracks : Tracks b known)
    (i : Nat) :
    b.ask? (.truthy i) = known[i]?.map fun creation => .flag creation.source.truthy := by
  rw [ask?]
  cases there : b.registers[i]? with
  | none =>
    have beyond : known[i]? = none := by
      rw [Array.getElem?_eq_none_iff] at there ⊢
      rwa [tracks.size]
    rw [beyond, Option.map_none, Option.map_none]
  | some x =>
    obtain ⟨creation, behind, yields⟩ := tracks.exists_creation there
    rw [behind, Option.map_some, Option.map_some, yields.truthy_eq]

end Bank

variable [DecidableEq κ]

/-- Bytes count as true whether they are read as data or as a number. Reading
an integer from the bytes of an operand keeps the truth value, and so does any
number of copies and readings in a session. -/
theorem Operand.decoding_keeps_truth :
    (∀ bytes, (Operand.bytes bytes).truthy = (Operand.integer (.ofBytes bytes)).truthy) ∧
    (∀ x : Operand, x.kind = .integer ∨ x.kind = .byteString →
      ∃ bytes, x.toBytes = .ok bytes ∧ (Operand.integer (.ofBytes bytes)).truthy = x.truthy) ∧
    ∀ steps replies (b : Bank κ), Bank.empty.performAll steps = some (replies, b) →
      ∀ i j : Nat, (Bank.creations steps)[i]? = (Bank.creations steps)[j]? →
        b.ask? (.truthy i) = b.ask? (.truthy j) := by
  refine ⟨Operand.truthy_bytes, ?operand, ?session⟩
  case operand =>
    intro x kind
    cases x with
    | integer i =>
      have value : (Integer.ofBytes i.toBytes).value = i.value := TwosComplement.decode_encode i.value
      exact ⟨i.toBytes, rfl, Operand.truthy_integer value⟩
    | bytes b => exact ⟨b, rfl, (Operand.truthy_bytes b).symm⟩
    | host | pointer => rcases kind with kind | kind <;> cases kind
  case session =>
    intro steps replies b session i j same
    have tracks := Bank.tracks_creations session
    rw [tracks.ask?_truthy, tracks.ask?_truthy, same]

/-- Bytes of which only the sign byte is not zero, and a copy of the integer
that was read from the integer that was read from them: all are true. Three
zero bytes, and the integer read from them, are false. -/
theorem Operand.decoding_keeps_truth_of_sign_byte :
    let steps : List (Bank.Step Sample) := [.make (.bytes [0, 0, 128]), .decode 0, .decode 1,
      .copy 2, .make (.bytes [0, 0, 0]), .decode 4]
    (∃ replies b, Bank.empty.performAll steps = some (replies, b) ∧
      b.ask? (.truthy 0) = b.ask? (.truthy 3) ∧ b.ask? (.truthy 3) = some (.flag true) ∧
      b.ask? (.truthy 4) = b.ask? (.truthy 5) ∧ b.ask? (.truthy 5) = some (.flag false)) ∧
    ∃ bytes, (Operand.bytes [0, 0, 128]).toBytes = .ok bytes ∧
      (Operand.integer (.ofBytes bytes)).truthy = true := by
  intro steps
  obtain ⟨-, operand, session⟩ := Operand.decoding_keeps_truth (κ := Sample)
  refine ⟨⟨_, _, rfl, ?_⟩, operand (.bytes [0, 0, 128]) (.inr rfl)⟩
  have data := session steps _ _ rfl 0 3 rfl
  have zeros := session steps _ _ rfl 4 5 rfl
  exact ⟨data, data.symm.trans rfl, zeros, zeros.symm.trans rfl⟩

end ScriptDebugger

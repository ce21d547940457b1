/-
  Asking for a length

  An integer finds out how many bytes it takes when it is first asked, and
  remembers it; a copy remembers what its source does. Nobody can tell. A bank
  and the same bank with everything remembered forgotten, `unmeasured`, give
  the same replies to every sequence of steps (`replies_eq_of_unmeasured`), so
  asking for lengths, of whatever registers, has no effect on any later reply,
  be it a length or the result of a comparison.

  A step leaves the values that are there as they are: all that it can do to a
  register is to make its operand remember its length (`perform_cases`). So
  the length of a register stays the right one through every sequence of steps
  (`integer_code`), whether it is the register of an integer as it was made or
  of a copy.
-/
import ScriptDebugger.Operand.Bank
import ScriptDebugger.Operand.Samples
import ScriptDebugger.Proofs.Operand.TwosComplement

namespace ScriptDebugger

open TwosComplement (encode decode Fits)

/-! ## Operands -/

namespace Operand

/-- The operand as it was before anyone asked for its length. -/
def unmeasured : Operand → Operand
  | .integer i => .integer (.ofInt i.value)
  | x => x

@[simp] theorem unmeasured_unmeasured (x : Operand) : x.unmeasured.unmeasured = x.unmeasured := by
  cases x <;> rfl

@[simp] theorem unmeasured_measured (x : Operand) : x.measured.unmeasured = x.unmeasured := by
  cases x <;> rfl

@[simp] theorem kind_unmeasured (x : Operand) : x.unmeasured.kind = x.kind := by
  cases x <;> rfl

@[simp] theorem truthy_unmeasured (x : Operand) : x.unmeasured.truthy = x.truthy := by
  cases x <;> rfl

@[simp] theorem toBytes_unmeasured (x : Operand) : x.unmeasured.toBytes = x.toBytes := by
  cases x <;> rfl

@[simp] theorem toInt_unmeasured (x : Operand) : x.unmeasured.toInt = x.toInt := by
  cases x <;> rfl

@[simp] theorem text?_unmeasured (x : Operand) : x.unmeasured.text? = x.text? := by
  cases x <;> rfl

/-- A remembered length is the one that is found out otherwise. -/
@[simp] theorem byteLength_unmeasured (x : Operand) : x.unmeasured.byteLength = x.byteLength := by
  cases x with
  | integer i => exact congrArg Except.ok ((Integer.ofInt i.value).byteLength_eq.trans i.byteLength_eq.symm)
  | bytes | host | pointer => rfl

@[simp] theorem sameValue?_unmeasured (x y : Operand) :
    x.unmeasured.sameValue? y.unmeasured = x.sameValue? y := by
  cases x <;> cases y <;> rfl

@[simp] theorem equals_unmeasured {κ : Type} [HostKind κ] [DecidableEq κ] (t : HostTable κ)
    (x y : Operand) : x.unmeasured.equals t y.unmeasured = x.equals t y := by
  cases x <;> cases y <;> rfl

end Operand

/-! ## Banks -/

namespace Bank

variable {κ : Type} [HostKind κ]

def unmeasured (b : Bank κ) : Bank κ := { b with registers := b.registers.map Operand.unmeasured }

@[simp] theorem table_unmeasured (b : Bank κ) : b.unmeasured.table = b.table := rfl

@[simp] theorem getElem?_unmeasured (b : Bank κ) (slot : Nat) :
    b.unmeasured.registers[slot]? = b.registers[slot]?.map Operand.unmeasured :=
  Array.getElem?_map

@[simp] theorem reference?_unmeasured (b : Bank κ) (slot : Nat) :
    b.unmeasured.reference? slot = b.reference? slot := by
  unfold reference?
  rw [getElem?_unmeasured]
  cases b.registers[slot]? with
  | none => rfl
  | some x => cases x <;> rfl

theorem map_unmeasured_modify (registers : Array Operand) (slot : Nat) :
    (registers.modify slot Operand.measured).map Operand.unmeasured =
      registers.map Operand.unmeasured := by
  apply Array.ext_getElem?
  intro i
  rw [Array.getElem?_map, Array.getElem?_map, Array.getElem?_modify]
  split
  · simp [Function.comp_def]
  · rfl

variable [DecidableEq κ] {b c : Bank κ}

theorem ask?_unmeasured (b : Bank κ) (s : Step κ) : b.unmeasured.ask? s = b.ask? s := by
  cases s with
  | equals i j | sameValue i j =>
    simp only [ask?, getElem?_unmeasured, table_unmeasured]
    cases b.registers[i]? <;> cases b.registers[j]? <;> simp
  | matrix => simp [ask?, unmeasured, Function.comp_def]
  | kind i | truthy i | toBytes i | toInt i | byteLength i | text i =>
    simp only [ask?, getElem?_unmeasured]
    cases b.registers[i]? <;> simp
  | isEmpty i | position i =>
    simp only [ask?, getElem?_unmeasured]
    cases b.registers[i]? with
    | none => rfl
    | some x => cases x <;> rfl
  | isNull | view | downcast | sameObject => simp only [ask?, reference?_unmeasured, table_unmeasured]
  | make | copy | share | decode => rfl

/-- A step replies the same, and does the same to the values. -/
theorem perform_unmeasured (b : Bank κ) (s : Step κ) :
    (b.unmeasured.perform s).map (Prod.map id unmeasured) =
      (b.perform s).map (Prod.map id unmeasured) := by
  have twice : b.unmeasured.unmeasured = b.unmeasured := by simp [unmeasured, Function.comp_def]
  have question (s : Step κ) : ((b.unmeasured.ask? s).map fun r => (r, b.unmeasured)).map
      (Prod.map id unmeasured) = ((b.ask? s).map fun r => (r, b)).map (Prod.map id unmeasured) := by
    rw [ask?_unmeasured, Option.map_map, Option.map_map]
    simp [Function.comp_def, twice]
  cases s with
  | make source => cases source <;> simp [perform, make, append, unmeasured, Function.comp_def]
  | copy i =>
    simp only [perform, getElem?_unmeasured]
    cases b.registers[i]? <;> simp [append, unmeasured, Function.comp_def]
  | share i =>
    simp only [perform, reference?_unmeasured]
    cases b.reference? i <;> simp [append, unmeasured, Function.comp_def]
  | decode i =>
    simp only [perform, getElem?_unmeasured]
    cases b.registers[i]? with
    | none => rfl
    | some x => cases bytes : x.toBytes <;> simp [bytes, append, unmeasured, Function.comp_def]
  | byteLength i =>
    simp only [perform, ask?_unmeasured]
    cases b.ask? (.byteLength i) <;> simp [unmeasured, Function.comp_def, map_unmeasured_modify]
  | matrix => exact question .matrix
  | _ => exact question _

theorem replies_cons (b : Bank κ) (s : Step κ) (steps : List (Step κ)) :
    (b.performAll (s :: steps)).map Prod.fst =
      (b.perform s).bind fun now => ((now.2.performAll steps).map Prod.fst).map (now.1 :: ·) := by
  rw [performAll]
  cases b.perform s with
  | none => rfl
  | some now =>
    simp only [Option.bind_eq_bind, Option.bind_some]
    cases now.2.performAll steps <;> rfl

/-- Banks of the same values give the same replies, and none where the other
gives none. -/
theorem replies_eq_of_unmeasured (same : b.unmeasured = c.unmeasured) (steps : List (Step κ)) :
    (b.performAll steps).map Prod.fst = (c.performAll steps).map Prod.fst := by
  induction steps generalizing b c with
  | nil => rfl
  | cons s steps ih =>
    have first : (b.perform s).map (Prod.map id unmeasured) =
        (c.perform s).map (Prod.map id unmeasured) := by
      rw [← perform_unmeasured b, same, perform_unmeasured c]
    rw [replies_cons, replies_cons]
    cases at_b : b.perform s with
    | none =>
      rw [at_b, Option.map_none, eq_comm, Option.map_eq_none_iff] at first
      rw [first]
    | some now =>
      rw [at_b, Option.map_some, eq_comm, Option.map_eq_some_iff] at first
      obtain ⟨now', at_c, alike⟩ := first
      obtain ⟨reply, values⟩ := Prod.mk.inj alike
      have reply : now'.1 = now.1 := reply
      rw [at_c, Option.bind_some, Option.bind_some, ih values, reply]

/-! ## Values stay -/

/-- All that a step does to the operands that are there: nothing, or it makes
one of them remember its length. -/
theorem perform_cases {s : Step κ} {r : Reply κ} (h : b.perform s = some (r, c)) :
    c = b ∨ (∃ table x, c = ⟨table, b.registers.push x⟩) ∨
      ∃ slot, c = { b with registers := b.registers.modify slot Operand.measured } := by
  have question {s : Step κ} (h : ((b.ask? s).map fun r => (r, b)) = some (r, c)) : c = b := by
    obtain ⟨_, _, same⟩ := Option.map_eq_some_iff.mp h
    exact (Prod.mk.inj same).2.symm
  cases s with
  | make source =>
    cases h
    cases source <;> exact .inr (.inl ⟨_, _, rfl⟩)
  | copy i | share i =>
    obtain ⟨_, _, same⟩ := Option.map_eq_some_iff.mp h
    cases same
    exact .inr (.inl ⟨_, _, rfl⟩)
  | decode i =>
    obtain ⟨x, _, same⟩ := Option.map_eq_some_iff.mp h
    cases bytes : x.toBytes with
    | ok bs =>
      rw [bytes] at same
      cases same
      exact .inr (.inl ⟨_, _, rfl⟩)
    | error r =>
      rw [bytes] at same
      cases same
      exact .inl rfl
  | byteLength i =>
    obtain ⟨_, _, same⟩ := Option.map_eq_some_iff.mp h
    cases same
    exact .inr (.inr ⟨i, rfl⟩)
  | matrix => exact .inl (question (s := .matrix) h)
  | _ => exact .inl (question h)

theorem ask?_toInt_iff {slot : Nat} {n : Int} :
    b.ask? (.toInt slot) = some (.integer n) ↔
      ∃ i : Integer, b.registers[slot]? = some (.integer i) ∧ i.value = n := by
  show (b.registers[slot]?.map fun x => reply .integer x.toInt) = _ ↔ _
  cases b.registers[slot]? with
  | none => simp
  | some x => cases x <;> simp [Operand.toInt, reply]

/-- No step changes the value of an integer that is there. -/
theorem toInt_perform {s : Step κ} {r : Reply κ} {slot : Nat} {n : Int}
    (value : b.ask? (.toInt slot) = some (.integer n)) (h : b.perform s = some (r, c)) :
    c.ask? (.toInt slot) = some (.integer n) := by
  rw [ask?_toInt_iff] at value ⊢
  obtain ⟨i, found, value⟩ := value
  rcases perform_cases h with rfl | ⟨table, x, rfl⟩ | ⟨slot', rfl⟩
  · exact ⟨i, found, value⟩
  · have bound := (Array.getElem?_eq_some_iff.mp found).1
    refine ⟨i, ?_, value⟩
    rwa [Array.getElem?_push_lt bound, ← Array.getElem?_eq_getElem bound]
  · simp only [Array.getElem?_modify, found]
    split
    · exact ⟨i.measured, rfl, value⟩
    · exact ⟨i, rfl, value⟩

theorem toInt_performAll {steps : List (Step κ)} {replies : List (Reply κ)} {slot : Nat} {n : Int}
    (value : b.ask? (.toInt slot) = some (.integer n))
    (h : b.performAll steps = some (replies, c)) : c.ask? (.toInt slot) = some (.integer n) := by
  induction steps generalizing b replies with
  | nil =>
    cases h
    exact value
  | cons s steps ih =>
    obtain ⟨_, _, _, now, later, _⟩ := performAll_cons_eq_some h
    exact ih (toInt_perform value now) later

/-- A copy has the value of its source. -/
theorem toInt_copy {slot : Nat} {n : Int} (value : b.ask? (.toInt slot) = some (.integer n)) :
    ∃ c, b.perform (.copy slot) = some (.kind .integer, c) ∧
      c.ask? (.toInt b.registers.size) = some (.integer n) := by
  obtain ⟨i, found, value⟩ := ask?_toInt_iff.mp value
  refine ⟨b.append (.integer i), ?_, ask?_toInt_iff.mpr ⟨i, Array.getElem?_push_size, value⟩⟩
  rw [perform, found]
  rfl

/-- Asking for a length changes no value. -/
theorem unmeasured_of_byteLength {slot : Nat} {r : Reply κ}
    (h : b.perform (.byteLength slot) = some (r, c)) : c.unmeasured = b.unmeasured := by
  obtain ⟨_, _, same⟩ := Option.map_eq_some_iff.mp h
  cases same
  rw [unmeasured, map_unmeasured_modify, unmeasured]

/-- An integer that is asked for its length replies with it and remembers
it. -/
theorem perform_byteLength {slot : Nat} {i : Integer}
    (found : b.registers[slot]? = some (.integer i)) :
    ∃ c, b.perform (.byteLength slot) = some (.count (encode i.value).length, c) ∧
      c.registers[slot]? = some (.integer i.measured) := by
  refine ⟨{ b with registers := b.registers.modify slot Operand.measured }, ?_, ?_⟩
  · rw [perform, ask?, found, ← Integer.toBytes, ← i.byteLength_eq]
    rfl
  · rw [Array.getElem?_modify, if_pos rfl, found]
    rfl

end Bank

/-! ## The code of integers -/

namespace Integer

variable {κ : Type} [HostKind κ] [DecidableEq κ]

theorem knownLength_eq (i : Integer) :
    i.knownLength = none ∨ i.knownLength = some (encode i.value).length := by
  cases h : i.knownLength with
  | none => exact .inl rfl
  | some length => exact .inr (congrArg some (i.known length h))

/-- The bytes of an integer are the shortest for it and lose nothing. Their
number is what a register replies after any steps, asked for the first time or
again, and its copies reply the same; asking changes no reply to anything. -/
theorem integer_code :
    (∀ i : Integer, (ofBytes i.toBytes).value = i.value ∧ (i.toBytes = [] ↔ i.value = 0) ∧
      (i.value ≠ 0 → IsLeast {k | Fits i.value k} i.toBytes.length) ∧
      ∀ bytes, (ofBytes bytes).value = i.value →
        i.toBytes.length ≤ bytes.length ∧
          (bytes.length = i.toBytes.length → bytes = i.toBytes)) ∧
    (∀ (b : Bank κ) slot n, b.ask? (.toInt slot) = some (.integer n) →
      ∀ steps replies c, b.performAll steps = some (replies, c) →
        ∃ i : Integer, c.registers[slot]? = some (.integer i) ∧
          (i.knownLength = none ∨ i.knownLength = some (encode n).length) ∧
          (∃ d, c.perform (.byteLength slot) = some (.count (encode n).length, d) ∧
            d.registers[slot]? = some (.integer i.measured)) ∧
          ∃ d, c.perform (.copy slot) = some (.kind .integer, d) ∧
            d.ask? (.toInt c.registers.size) = some (.integer n)) ∧
    (∀ (b c : Bank κ) slot r, b.perform (.byteLength slot) = some (r, c) →
      ∀ steps, (c.performAll steps).map Prod.fst = (b.performAll steps).map Prod.fst) := by
  refine ⟨?code, ?length, ?unnoticed⟩
  case code =>
    intro i
    refine ⟨TwosComplement.decode_encode i.value, TwosComplement.encode_eq_nil_iff,
      TwosComplement.isLeast_length_encode, ?_⟩
    intro bytes value
    have front := TwosComplement.prefix_encode_decode bytes
    rw [show encode (decode bytes) = i.toBytes from congrArg encode value] at front
    exact ⟨front.length_le, fun short => (front.eq_of_length_le (Nat.le_of_eq short)).symm⟩
  case length =>
    intro b slot n value steps replies c session
    have kept := Bank.toInt_performAll value session
    obtain ⟨i, found, rfl⟩ := Bank.ask?_toInt_iff.mp kept
    exact ⟨i, found, i.knownLength_eq, Bank.perform_byteLength found, Bank.toInt_copy kept⟩
  case unnoticed =>
    intro b c slot r asked steps
    exact Bank.replies_eq_of_unmeasured (Bank.unmeasured_of_byteLength asked) steps

/-- The integer -129 takes two bytes, and three that stand for it are not its
code. It is copied, the copy is asked for its length and compared with the
original, and then the original is asked. -/
theorem integer_code_of_two_bytes :
    let i := ofInt (-129)
    let b : Bank Sample := ⟨.empty, #[.integer i]⟩
    let steps : List (Bank.Step Sample) := [.copy 0, .byteLength 1, .equals 1 0]
    i.toBytes = [127, 255] ∧ IsLeast {k | Fits (-129) k} 2 ∧ decode [127, 255, 255] = -129 ∧
      i.toBytes.length ≤ 3 ∧
      (∃ replies c d, b.performAll steps = some (replies, c) ∧
        c.perform (.byteLength 0) = some (.count 2, d)) ∧
      ∃ c, b.perform (.byteLength 0) = some (.count 2, c) ∧
        (c.performAll steps).map Prod.fst = (b.performAll steps).map Prod.fst := by
  intro i b steps
  obtain ⟨code, length, unnoticed⟩ := integer_code (κ := Sample)
  have form : encode (-129) = [127, 255] := by decide +kernel
  have long : decode [127, 255, 255] = -129 := by decide
  have value : b.ask? (.toInt 0) = some (.integer (-129)) := rfl
  obtain ⟨_, _, least, shortest⟩ := code i
  have least := least (by decide)
  rw [show i.toBytes = [127, 255] from form] at least shortest
  have returns : (b.performAll steps).isSome = true := rfl
  obtain ⟨⟨replies, c⟩, session⟩ := Option.isSome_iff_exists.mp returns
  obtain ⟨_, _, _, ⟨d, asked, _⟩, _⟩ := length b 0 (-129) value steps replies c session
  obtain ⟨_, _, _, ⟨e, first, _⟩, _⟩ := length b 0 (-129) value [] [] b rfl
  rw [form] at asked first
  refine ⟨form, least, long, ?_, ⟨replies, c, d, session, asked⟩, e, first, ?_⟩
  · rw [show i.toBytes = [127, 255] from form]
    exact (shortest [127, 255, 255] long).1
  · exact unnoticed b e 0 _ first steps

end Integer

end ScriptDebugger

/-
  A bank of operands

  A bank holds operands in numbered registers, together with the host objects
  that they refer to. A step makes an operand, copies one, or asks something
  about one or two of them. Steps that make or copy append a register; no
  step changes the value of an operand that is there. A copy of a reference
  refers to the object of its source.
-/
import ScriptDebugger.Operand

namespace ScriptDebugger

/-- Registers and the host objects that they refer to. -/
structure Bank (κ : Type) [HostKind κ] where
  table : HostTable κ
  registers : Array Operand

namespace Bank

/-- What an operand can be made of. -/
inductive Source (κ : Type) [HostKind κ] where
  | integer (n : Int)
  /-- The integer that a byte string stands for. -/
  | decoded (bytes : Bytes)
  | bytes (b : Bytes)
  | pointer (position : UInt32)
  /-- A reference to nothing. -/
  | null
  /-- A reference to a new host object. -/
  | object (o : HostObject κ)

inductive Step (κ : Type) [HostKind κ] where
  | make (source : Source κ)
  | copy (i : Nat)
  /-- Makes a reference to the host object of a reference. -/
  | share (i : Nat)
  /-- Makes the integer that the bytes of an operand stand for. -/
  | decode (i : Nat)
  | equals (i j : Nat)
  | matrix
  /-- Compares the values of two operands of one kind. -/
  | sameValue (i j : Nat)
  | kind (i : Nat)
  | truthy (i : Nat)
  | toBytes (i : Nat)
  | toInt (i : Nat)
  | byteLength (i : Nat)
  | text (i : Nat)
  | isEmpty (i : Nat)
  | position (i : Nat)
  /-- Whether a reference refers to nothing. -/
  | isNull (i : Nat)
  | view (i : Nat) (kind : κ)
  | downcast (i : Nat) (kind : κ)
  /-- Whether two references refer to one host object. -/
  | sameObject (i j : Nat)

inductive Reply (κ : Type) [HostKind κ] where
  | kind (k : Operand.Kind)
  | flag (b : Bool)
  | flags (rows : List (List Bool))
  | bytes (b : Bytes)
  | integer (n : Int)
  | count (n : Nat)
  | text (s : String)
  | position (p : UInt32)
  | view (o : Option (HostObject κ))
  | shared (r : Option (Handle × HostObject κ))
  /-- Whether two references refer to one object; nothing is said where one
  refers to nothing. -/
  | sameObject (b : Option Bool)
  | refused (r : Operand.Refusal)

variable {κ : Type} [HostKind κ]

def empty : Bank κ := ⟨.empty, #[]⟩

def append (b : Bank κ) (x : Operand) : Bank κ := { b with registers := b.registers.push x }

/-- Makes an operand, and takes in its host object if it has one. -/
def make (b : Bank κ) : Source κ → Operand × Bank κ
  | .integer n => (.integer (.ofInt n), b)
  | .decoded bytes => (.integer (.ofBytes bytes), b)
  | .bytes bytes => (.bytes bytes, b)
  | .pointer position => (.pointer position, b)
  | .null => (.host none, b)
  | .object o =>
    match b.table.register o with
    | (handle, table) => (.host (some handle), { b with table })

/-- The handle of a register that holds a reference. -/
def reference? (b : Bank κ) (i : Nat) : Option (Option Handle) :=
  match b.registers[i]? with
  | some (.host handle) => some handle
  | _ => none

/-- The answer of an operand that may refuse. -/
def reply {α : Type} (answer : α → Reply κ) : Except Operand.Refusal α → Reply κ
  | .ok a => answer a
  | .error r => .refused r

variable [DecidableEq κ]

/-- The reply to a question, which changes nothing; `none` where the step is
no question, or is about a register that is not there or not of the kind the
question is about. -/
def ask? (b : Bank κ) : Step κ → Option (Reply κ)
  | .equals i j => do
    let x ← b.registers[i]?
    let y ← b.registers[j]?
    return .flag (x.equals b.table y)
  | .matrix =>
    let all := b.registers.toList
    some (.flags (all.map fun x => all.map fun y => x.equals b.table y))
  | .sameValue i j => do
    let x ← b.registers[i]?
    let y ← b.registers[j]?
    return .flag (← x.sameValue? y)
  | .kind i => b.registers[i]?.map fun x => .kind x.kind
  | .truthy i => b.registers[i]?.map fun x => .flag x.truthy
  | .toBytes i => b.registers[i]?.map fun x => reply .bytes x.toBytes
  | .toInt i => b.registers[i]?.map fun x => reply .integer x.toInt
  | .byteLength i => b.registers[i]?.map fun x => reply .count x.byteLength
  | .text i => do
    let x ← b.registers[i]?
    return .text (← x.text?)
  | .isEmpty i =>
    match b.registers[i]? with
    | some (.bytes bytes) => some (.flag bytes.isEmpty)
    | _ => none
  | .position i =>
    match b.registers[i]? with
    | some (.pointer position) => some (.position position)
    | _ => none
  | .isNull i => (b.reference? i).map fun handle => .flag handle.isNone
  | .view i kind => (b.reference? i).map fun handle =>
      .view ((handle.bind (b.table.view? · kind)).map (HostObject.mk kind))
  | .downcast i kind => (b.reference? i).map fun handle =>
      .shared ((handle.bind (b.table.downcast? · kind)).map fun r => (r.handle, ⟨kind, r.value⟩))
  | .sameObject i j => do
    let x ← b.reference? i
    let y ← b.reference? j
    return .sameObject (do return decide ((← x) = (← y)))
  | .make _ | .copy _ | .share _ | .decode _ => none

/-- Carries out a step; `none` where the step is about a register that is not
there or not of the kind the step is about. -/
def perform (b : Bank κ) : Step κ → Option (Reply κ × Bank κ)
  | .make source =>
    match b.make source with
    | (x, b) => some (.kind x.kind, b.append x)
  | .copy i => b.registers[i]?.map fun x => (.kind x.kind, b.append x)
  | .share i => (b.reference? i).map fun handle => (.kind .host, b.append (.host handle))
  | .decode i => b.registers[i]?.map fun x =>
      match x.toBytes with
      | .ok bytes =>
        let decoded := Integer.ofBytes bytes
        (.text decoded.text, b.append (.integer decoded))
      | .error r => (.refused r, b)
  | .byteLength i => (b.ask? (.byteLength i)).map fun r =>
      (r, { b with registers := b.registers.modify i Operand.measured })
  | question => (b.ask? question).map fun r => (r, b)

/-- Carries out steps in order; the replies are in the same order. -/
def performAll (b : Bank κ) : List (Step κ) → Option (List (Reply κ) × Bank κ)
  | [] => some ([], b)
  | step :: steps => do
    let (reply, b) ← b.perform step
    let (replies, b) ← performAll b steps
    return (reply :: replies, b)

theorem performAll_cons_eq_some {b c : Bank κ} {step : Step κ} {steps : List (Step κ)}
    {replies : List (Reply κ)} (h : b.performAll (step :: steps) = some (replies, c)) :
    ∃ reply next others, b.perform step = some (reply, next) ∧
      next.performAll steps = some (others, c) ∧ replies = reply :: others := by
  obtain ⟨⟨reply, next⟩, now, h⟩ := Option.bind_eq_some_iff.mp h
  obtain ⟨⟨others, last⟩, later, h⟩ := Option.bind_eq_some_iff.mp h
  cases h
  exact ⟨reply, next, others, now, later, rfl⟩

end Bank

end ScriptDebugger

/-
  Operands

  The values on a machine's operand stack: integers, byte strings, references
  to host objects, which may refer to nothing, and pointers into scripts.

  Comparing never fails. An integer on the left equals the byte string that is
  its shortest form; the byte string on the left equals byte strings only. Two
  references are equal if both refer to nothing, or to one object, or to
  objects that their type takes for the same. Reading an operand as bytes or
  as an integer is refused where the operand has no such form.

  Correspondence (stepvm ↔ here):
    `StackItem`, `StackItemType`          ↔ `Operand`, `Kind`
    `ByteString`                          ↔ `bytes`
    `InteropInterface`                    ↔ `host`
    `Pointer`                             ↔ `pointer`
    `item_type`, `to_boolean`             ↔ `kind`, `truthy`
    `byte_sequence`, `big_integer`        ↔ `toBytes`, `toInt`
    `UnsupportedCoercion`                 ↔ `Refusal`
-/
import ScriptDebugger.Operand.Host
import ScriptDebugger.Operand.Integer
import ScriptDebugger.Text.Hex

namespace ScriptDebugger

/-- A value on the operand stack. -/
inductive Operand where
  | integer (i : Integer)
  | bytes (b : Bytes)
  | host (handle : Option Handle)
  | pointer (position : UInt32)
  deriving Repr

namespace Operand

inductive Kind where
  | integer
  | byteString
  | host
  | pointer
  deriving DecidableEq, Repr

def Kind.name : Kind → String
  | .integer => "Integer"
  | .byteString => "ByteString"
  | .host => "InteropInterface"
  | .pointer => "Pointer"

def kind : Operand → Kind
  | .integer _ => .integer
  | .bytes _ => .byteString
  | .host _ => .host
  | .pointer _ => .pointer

/-- What an operand may be read as. -/
inductive Target where
  | byteString
  | integer
  deriving DecidableEq, Repr

def Target.name : Target → String
  | .byteString => "ByteString"
  | .integer => "Integer"

/-- An operand of one kind cannot be read as the target. -/
structure Refusal where
  source : Kind
  target : Target
  deriving DecidableEq, Repr

def Refusal.message (r : Refusal) : String :=
  "cannot convert " ++ r.source.name ++ " to " ++ r.target.name

/-- Whether an operand counts as true. -/
def truthy : Operand → Bool
  | .integer i => i.truthy
  | .bytes b => b.any (· ≠ 0)
  | .host handle => handle.isSome
  | .pointer _ => true

def toBytes : Operand → Except Refusal Bytes
  | .integer i => .ok i.toBytes
  | .bytes b => .ok b
  | x => .error ⟨x.kind, .byteString⟩

def toInt : Operand → Except Refusal Int
  | .integer i => .ok i.value
  | x => .error ⟨x.kind, .integer⟩

def byteLength : Operand → Except Refusal Nat
  | .integer i => .ok i.byteLength
  | .bytes b => .ok b.length
  | x => .error ⟨x.kind, .byteString⟩

/-- The operand once its length has been asked for. -/
def measured : Operand → Operand
  | .integer i => .integer i.measured
  | x => x

/-- The text of an operand that has one. -/
def text? : Operand → Option String
  | .integer i => some i.text
  | .bytes b => some ("0x" ++ Hex.text b)
  | .pointer position => some ("&" ++ Decimal.natText position.toNat)
  | .host _ => none

/-- Whether two operands of one kind, not references, have the same value. -/
def sameValue? : Operand → Operand → Option Bool
  | .integer a, .integer b => some (a == b)
  | .bytes a, .bytes b => some (a == b)
  | .pointer a, .pointer b => some (a == b)
  | _, _ => none

variable {κ : Type} [HostKind κ] [DecidableEq κ]

/-- Whether two references are equal. -/
def sameHost (t : HostTable κ) : Option Handle → Option Handle → Bool
  | none, none => true
  | some a, some b => a == b || t.same a b
  | _, _ => false

/-- Whether the left operand equals the right one. -/
def equals (t : HostTable κ) : Operand → Operand → Bool
  | .integer a, .integer b => a == b
  | .integer a, .bytes b => a.toBytes == b
  | .bytes a, .bytes b => a == b
  | .host a, .host b => sameHost t a b
  | .pointer a, .pointer b => a == b
  | _, _ => false

end Operand

end ScriptDebugger

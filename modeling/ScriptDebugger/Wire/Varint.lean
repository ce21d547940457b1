/-
  Variable-length numbers

  A number is written in groups of seven bits, the lowest group first; each
  byte but the last has its top bit set. The writer uses as few bytes as
  possible. The reader takes longer forms too, up to the number of bytes that
  the width of the number permits; in the last permitted byte only the bits
  that still fit the width may be set.
-/
import ScriptDebugger.Wire.Fault

namespace ScriptDebugger.Wire

/-- How many bytes a number may take: `extra` bytes and then one of value at
most `last`. -/
structure Width where
  extra : Nat
  last : Nat
  deriving DecidableEq, Repr

/-- Five bytes, the fifth with four bits. -/
def Width.word32 : Width := ⟨4, 15⟩

/-- Ten bytes, the tenth with one bit. -/
def Width.word64 : Width := ⟨9, 1⟩

namespace Varint

def encode (n : Nat) : Bytes :=
  if n < 128 then [UInt8.ofNat n] else UInt8.ofNat (n % 128 + 128) :: encode (n / 128)
  termination_by n
  decreasing_by omega

/-- Reads a number whose last permitted byte, after `extra` others, is at most
`last`. -/
def decode (last : Nat) : Nat → Reader Nat
  | _, [] => .error .truncated
  | 0, b :: rest => if b.toNat ≤ last then .ok (b.toNat, rest) else .error .unterminated
  | extra + 1, b :: rest =>
    if b.toNat < 128 then .ok (b.toNat, rest)
    else (decode last extra rest).map fun (high, rest) => (b.toNat % 128 + 128 * high, rest)

def read (width : Width) : Reader Nat := decode width.last width.extra

end Varint

end ScriptDebugger.Wire

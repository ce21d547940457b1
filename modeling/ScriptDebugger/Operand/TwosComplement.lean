/-
  Two's complement bytes of integers

  An integer is written with its lowest byte first, in as few bytes as leave
  its sign in the top bit of the last one; zero is written with no byte at
  all. Any byte string can be read, the last byte giving the sign, whether or
  not it is the shortest for its value.
-/
import ScriptDebugger.Bytes

namespace ScriptDebugger.TwosComplement

def lowByte (n : Int) : UInt8 := UInt8.ofNat (n % 256).toNat

/-- The value of a byte whose top bit is a sign. -/
def signed (b : UInt8) : Int := if b.toNat < 128 then b.toNat else b.toNat - 256

/-- The bytes of an integer, of which there is at least one. -/
def bytes (n : Int) : Bytes :=
  if -128 ≤ n ∧ n < 128 then [lowByte n] else lowByte n :: bytes (n / 256)
  termination_by n.natAbs
  decreasing_by omega

/-- The bytes of an integer, none for zero. -/
def encode (n : Int) : Bytes := if n = 0 then [] else bytes n

/-- The integer that a byte string stands for. -/
def decode : Bytes → Int
  | [] => 0
  | [b] => signed b
  | b :: c :: rest => b.toNat + 256 * decode (c :: rest)

end ScriptDebugger.TwosComplement

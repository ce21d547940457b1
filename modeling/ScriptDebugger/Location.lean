/-
  Locations

  An instruction is located by the script that holds it, known by its hash,
  and its offset in that script.
-/
import ScriptDebugger.Bytes

namespace ScriptDebugger

structure Location where
  script : Bytes
  offset : UInt32
  deriving DecidableEq, Repr

end ScriptDebugger

/-
  Byte strings

  Script hashes, operand contents and persisted values are all strings of
  bytes, kept as lists so that every statement about them is one about lists.
-/

namespace ScriptDebugger

abbrev Bytes := List UInt8

end ScriptDebugger

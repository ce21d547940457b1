/-
  JSON values

  A value keeps its numbers as written, because a limit may be a natural
  literal and nothing else: no sign, no fraction, no exponent. It keeps the
  members of an object in the order written, repeated names included. A text
  whose escapes name half of a surrogate pair without the other half is well
  formed but names no string of characters, so the characters are optional.
-/
import ScriptDebugger.Text.Decimal

namespace ScriptDebugger

inductive Json where
  | null
  | bool (value : Bool)
  | number (literal : List Char)
  | text (chars : Option (List Char))
  | array (items : List Json)
  | object (members : List (Option (List Char) × Json))

/-- The number that a literal of digits alone names. -/
def Json.natural? : Json → Option Nat
  | .number literal => Decimal.nat? literal
  | _ => none

end ScriptDebugger

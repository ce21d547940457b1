/-
  Persisted forms of a budget

  As bytes a budget is a byte that says whether there is a limit, and then the
  limit. As JSON it is an object with one member. The reader of JSON takes an
  object without that member as no limit and looks past members of other
  names; it takes an array of exactly one limit as well. A limit is null or a
  natural literal below 2^64.
-/
import ScriptDebugger.Budget
import ScriptDebugger.Json.Document
import ScriptDebugger.Wire.Varint

namespace ScriptDebugger.Budget

def toBytes (budget : Budget) : Bytes :=
  match budget.instructions with
  | none => [0]
  | some limit => 1 :: Wire.Varint.encode limit.toNat

/-- Takes a budget off the front of a byte string. -/
def read : Wire.Reader Budget
  | [] => .error .truncated
  | 0 :: bytes => .ok (.unlimited, bytes)
  | 1 :: bytes => (Wire.Varint.read .word64 bytes).map fun (limit, bytes) =>
      (atMost (UInt64.ofNat limit), bytes)
  | _ => .error .presence

/-- The budget at the front of a byte string. -/
def ofBytes (bytes : Bytes) : Except Wire.Fault Budget := Wire.Reader.first read bytes

def memberName : String := "max_instructions"

def toJson (budget : Budget) : String :=
  "\x7b\"" ++ memberName ++ "\":" ++
    (match budget.instructions with
      | none => "null"
      | some limit => Decimal.natText limit.toNat) ++ "\x7d"

/-- The budget whose limit a JSON value gives. -/
def ofLimit? : Json → Option Budget
  | .null => some .unlimited
  | value => match value.natural? with
    | some limit => if limit < UInt64.size then some (atMost (UInt64.ofNat limit)) else none
    | none => none

/-- The budget that the members of an object give: every name is a string of
characters, and at most one is the name of the limit. -/
def ofMembers? (members : List (Option (List Char) × Json)) : Option Budget :=
  if members.all (·.1.isSome) then
    match members.filter (·.1 == some memberName.toList) with
    | [] => some .unlimited
    | [(_, value)] => ofLimit? value
    | _ => none
  else none

def ofValue? : Json → Option Budget
  | .object members => ofMembers? members
  | .array [value] => ofLimit? value
  | _ => none

def ofJson? (text : String) : Option Budget := (Json.parse? text.toList).bind ofValue?

end ScriptDebugger.Budget

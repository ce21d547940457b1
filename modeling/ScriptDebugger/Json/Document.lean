/-
  JSON documents

  The tokens of a document are read one at a time. What has been read so far
  is a stack of containers still open, innermost first, and a word on what may
  come next: `Reading.step` is the whole grammar. A document is one value and
  nothing after it; a comma is always followed by another item or member.
-/
import ScriptDebugger.Json.Token

namespace ScriptDebugger.Json

/-- The members of an object read so far, newest first. -/
abbrev Members := List (Option (List Char) × Json)

/-- A container still open, around a value being read: what it holds so far,
newest first, and the name of the member that the value belongs to. -/
inductive Container where
  | array (items : List Json)
  | object (members : Members) (name : Option (List Char))

/-- How far a document has been read, and what may come next. -/
inductive Reading where
  | beforeValue (outer : List Container)
  | firstItem (outer : List Container)
  | afterItem (items : List Json) (outer : List Container)
  | firstMember (outer : List Container)
  | beforeName (members : Members) (outer : List Container)
  | colon (members : Members) (name : Option (List Char)) (outer : List Container)
  | afterMember (members : Members) (outer : List Container)
  /-- Nothing: the document is complete. -/
  | complete (value : Json)

namespace Reading

/-- Puts a value that has just been completed where it belongs. -/
def place (value : Json) : List Container → Reading
  | [] => .complete value
  | .array items :: outer => .afterItem (value :: items) outer
  | .object members name :: outer => .afterMember ((name, value) :: members) outer

def enter (outer : List Container) : Token → Option Reading
  | .atom value => some (place value outer)
  | .text chars => some (place (.text chars) outer)
  | .openArray => some (.firstItem outer)
  | .openObject => some (.firstMember outer)
  | _ => none

/-- Takes one token; `none` where the token may not come next. -/
def step : Reading → Token → Option Reading
  | .beforeValue outer, token => enter outer token
  | .firstItem outer, .closeArray => some (place (.array []) outer)
  | .firstItem outer, token => enter (.array [] :: outer) token
  | .afterItem items outer, .comma => some (.beforeValue (.array items :: outer))
  | .afterItem items outer, .closeArray => some (place (.array items.reverse) outer)
  | .firstMember outer, .closeObject => some (place (.object []) outer)
  | .firstMember outer, .text chars => some (.colon [] chars outer)
  | .beforeName members outer, .text chars => some (.colon members chars outer)
  | .colon members name outer, .colon => some (.beforeValue (.object members name :: outer))
  | .afterMember members outer, .comma => some (.beforeName members outer)
  | .afterMember members outer, .closeObject => some (place (.object members.reverse) outer)
  | _, _ => none

def steps : Reading → List Token → Option Reading
  | reading, [] => some reading
  | reading, token :: tokens => (reading.step token).bind (·.steps tokens)

end Reading

/-- The value that a text spells; `none` for a text that is no document. -/
def parse? (cs : List Char) : Option Json :=
  match (lex cs).bind (Reading.beforeValue []).steps with
  | some (.complete value) => some value
  | _ => none

end ScriptDebugger.Json

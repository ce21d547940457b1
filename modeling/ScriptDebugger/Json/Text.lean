/-
  JSON texts

  A text runs to the first quote that no backslash escapes. `scan` splits it
  into pieces: characters, and 16-bit units written as an escape of four
  hexadecimal digits. `join` puts the pieces together, two units of a
  surrogate pair giving one character; it fails exactly on a unit of a pair
  without its partner.
-/
import ScriptDebugger.Text.Hex

namespace ScriptDebugger.Json

/-- A piece of a text: a character, or a 16-bit unit. -/
inductive Piece where
  | char (c : Char)
  | unit (value : Nat)
  deriving DecidableEq, Repr

/-- Whether a unit is the first of a surrogate pair. -/
def leads (unit : Nat) : Bool := 0xD800 ≤ unit && unit < 0xDC00

def trails (unit : Nat) : Bool := 0xDC00 ≤ unit && unit < 0xE000

def pair (lead trail : Nat) : Char :=
  Char.ofNat (0x10000 + 0x400 * (lead - 0xD800) + (trail - 0xDC00))

/-- The characters that the pieces name. -/
def join : List Piece → Option (List Char)
  | [] => some []
  | .char c :: rest => (join rest).map (c :: ·)
  | .unit a :: .unit b :: rest =>
    if leads a then
      if trails b then (join rest).map (pair a b :: ·) else none
    else if trails a then none
    else (join (.unit b :: rest)).map (Char.ofNat a :: ·)
  | .unit a :: rest =>
    if leads a || trails a then none else (join rest).map (Char.ofNat a :: ·)

/-- The character that a backslash and a letter stand for. -/
def escape? : Char → Option Char
  | '"' => some '"'
  | '\\' => some '\\'
  | '/' => some '/'
  | 'b' => some (Char.ofNat 8)
  | 'f' => some (Char.ofNat 12)
  | 'n' => some '\n'
  | 'r' => some '\r'
  | 't' => some '\t'
  | _ => none

/-- The unit that four hexadecimal digits name. -/
def unit? (a b c d : Char) : Option Nat :=
  match Hex.value? a, Hex.value? b, Hex.value? c, Hex.value? d with
  | some a, some b, some c, some d => some (0x1000 * a + 0x100 * b + 0x10 * c + d)
  | _, _, _, _ => none

/-- The pieces up to the closing quote, and the characters after it; `none`
without a closing quote, at a control character or at an unknown escape. -/
def scan : List Char → Option (List Piece × List Char)
  | [] => none
  | '"' :: rest => some ([], rest)
  | '\\' :: 'u' :: a :: b :: c :: d :: rest =>
    match unit? a b c d, scan rest with
    | some unit, some (pieces, rest) => some (.unit unit :: pieces, rest)
    | _, _ => none
  | '\\' :: e :: rest =>
    match escape? e, scan rest with
    | some c, some (pieces, rest) => some (.char c :: pieces, rest)
    | _, _ => none
  | c :: rest =>
    if c.toNat < 0x20 then none
    else match scan rest with
      | some (pieces, rest) => some (.char c :: pieces, rest)
      | none => none

theorem length_lt_of_scan {cs rest : List Char} {pieces : List Piece}
    (h : scan cs = some (pieces, rest)) : rest.length < cs.length := by
  fun_induction scan cs generalizing pieces rest
  all_goals cases h
  case case2 => simp
  all_goals
    rename_i shorter
    have := shorter (by assumption)
    simp only [List.length_cons]
    omega

end ScriptDebugger.Json

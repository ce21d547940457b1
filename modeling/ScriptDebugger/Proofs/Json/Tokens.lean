/-
  The tokens of what is written

  Documents are written without blanks, so their tokens touch. The reader can
  tell all the same where a token ends: a bracket, a colon or a comma is a
  single character, a text ends at its closing quote, and a number before the
  first character that does not go on with it (`EndsNumber`). So the token at
  the front is taken, and what follows it is left:

  1. a text of characters that need no escape (`next?_text`);
  2. a natural number in its decimal digits (`next?_digits`): a zero in front
     would be a number of its own, but only zero is written with one.

  A blank begins no token, so the tokens of a text are the one at its front and
  those of the rest (`lex_of_next?`). From these follows what an object with
  one member is read as (`parse?_oneMember`).
-/
import Mathlib.Data.List.Basic
import ScriptDebugger.Json.Document

namespace ScriptDebugger.Json

/-! ## One token after another -/

theorem next?_of_isBlank {c : Char} (blank : isBlank c = true) (rest : List Char) :
    next? (c :: rest) = none := by
  simp only [isBlank, Bool.or_eq_true, decide_eq_true_eq] at blank
  rcases blank with ((rfl | rfl) | rfl) | rfl <;> rfl

/-- The token at the front is the first of the tokens. -/
theorem lex_of_next? {cs rest : List Char} {token : Token} (front : next? cs = some (token, rest)) :
    lex cs = (lex rest).map (token :: ·) := by
  cases cs with
  | nil => cases front
  | cons c cs =>
    rw [lex]
    split
    · rename_i blank
      rw [next?_of_isBlank blank] at front
      cases front
    · split
      · rename_i none
        rw [none] at front
        cases front
      · rename_i found
        rw [found] at front
        cases front
        rfl

/-! ## Texts -/

/-- Whether a character stands for itself in a text. -/
def isPlain (c : Char) : Bool := c ≠ '"' && c ≠ '\\' && 0x20 ≤ c.toNat

theorem scan_chars {cs : List Char} (plain : ∀ c ∈ cs, isPlain c = true) (rest : List Char) :
    scan (cs ++ '"' :: rest) = some (cs.map .char, rest) := by
  induction cs with
  | nil => rfl
  | cons c cs ih =>
    rw [List.forall_mem_cons] at plain
    obtain ⟨⟨quote, backslash⟩, control⟩ : (c ≠ '"' ∧ c ≠ '\\') ∧ 0x20 ≤ c.toNat := by
      simpa [isPlain] using plain.1
    rw [List.cons_append, scan, if_neg (by omega), ih plain.2]
    · rfl
    · exact quote
    · intro _ _ _ _ _ escape _
      exact backslash escape
    · intro _ _ escape _
      exact backslash escape

theorem join_chars (cs : List Char) : join (cs.map .char) = some cs := by
  induction cs with
  | nil => rfl
  | cons c cs ih => rw [List.map_cons, join, ih, Option.map_some]

theorem next?_text {cs : List Char} (plain : ∀ c ∈ cs, isPlain c = true) (rest : List Char) :
    next? ('"' :: (cs ++ '"' :: rest)) = some (.text (some cs), rest) := by
  show (scan (cs ++ '"' :: rest)).map _ = _
  rw [scan_chars plain]
  show some (Token.text (join (cs.map .char)), rest) = _
  rw [join_chars]

/-! ## Natural numbers -/

/-- A number before these characters ends there. -/
def EndsNumber (rest : List Char) : Prop :=
  ∀ c ∈ rest.head?, c.isDigit = false ∧ c ≠ '.' ∧ c ≠ 'e' ∧ c ≠ 'E'

theorem endsNumber_closeObject (rest : List Char) : EndsNumber ('\x7d' :: rest) := by
  rintro _ ⟨⟩
  decide

variable {rest : List Char}

theorem digits?_append {ds : List Char} (nonempty : ds ≠ [])
    (digits : ∀ c ∈ ds, c.isDigit = true) (ends : EndsNumber rest) :
    digits? (ds ++ rest) = some (ds, rest) := by
  have none_left : rest.takeWhile Char.isDigit = [] ∧ rest.dropWhile Char.isDigit = rest := by
    cases rest with
    | nil => exact ⟨rfl, rfl⟩
    | cons c rest => simp [(ends c rfl).1]
  rw [digits?, List.takeWhile_append_of_pos digits, List.dropWhile_append_of_pos digits,
    none_left.1, none_left.2, List.append_nil, if_neg]
  simpa using nonempty

theorem whole?_digits (n : Nat) (ends : EndsNumber rest) :
    whole? (Decimal.digits n ++ rest) = some (Decimal.digits n, rest) := by
  by_cases zero : n = 0
  · subst zero
    rfl
  · rw [whole?]
    · exact digits?_append (Decimal.digits_ne_nil n) (fun _ => Decimal.isDigit_of_mem_digits) ends
    · intro tail same
      obtain ⟨d, ds, front⟩ := List.exists_cons_of_ne_nil (Decimal.digits_ne_nil n)
      rw [front, List.cons_append] at same
      rw [List.head_eq_of_cons_eq same] at front
      exact zero (Decimal.eq_zero_of_digits_eq_cons front)

theorem fraction?_of_endsNumber (ends : EndsNumber rest) : fraction? rest = some ([], rest) := by
  rw [fraction?]
  rintro _ rfl
  exact (ends '.' rfl).2.1 rfl

theorem exponent?_of_endsNumber (ends : EndsNumber rest) : exponent? rest = some ([], rest) := by
  rw [exponent?]
  · rintro _ rfl
    exact (ends 'e' rfl).2.2.1 rfl
  · rintro _ rfl
    exact (ends 'E' rfl).2.2.2 rfl

theorem magnitude?_digits (n : Nat) (ends : EndsNumber rest) :
    magnitude? (Decimal.digits n ++ rest) = some (Decimal.digits n, rest) := by
  simp [magnitude?, whole?_digits n ends, fraction?_of_endsNumber ends,
    exponent?_of_endsNumber ends]

/-- A digit begins a number without a sign. -/
theorem next?_of_isDigit {c : Char} (digit : c.isDigit = true) (cs : List Char) :
    next? (c :: cs) =
      (magnitude? (c :: cs)).map fun (literal, rest) => (.atom (.number literal), rest) := by
  unfold next?
  split
  case h_11 =>
    rw [number?]
    intro _ same
    cases same
    cases digit
  -- What begins each of the other tokens is no digit.
  all_goals
    rename_i same
    cases same
    cases digit

theorem next?_digits (n : Nat) (ends : EndsNumber rest) :
    next? (Decimal.digits n ++ rest) = some (.atom (.number (Decimal.digits n)), rest) := by
  obtain ⟨d, ds, front⟩ := List.exists_cons_of_ne_nil (Decimal.digits_ne_nil n)
  have digit : d.isDigit = true := Decimal.isDigit_of_mem_digits (n := n) (by simp [front])
  have whole := magnitude?_digits n ends
  rw [front, List.cons_append] at whole ⊢
  rw [next?_of_isDigit digit, whole]
  rfl

/-! ## Objects with one member -/

/-- An object with one member, from its name and the characters of its value. -/
def oneMember (name value : List Char) : List Char :=
  '\x7b' :: '"' :: (name ++ '"' :: ':' :: (value ++ ['\x7d']))

section

variable {name value : List Char} {a : Json}

theorem lex_oneMember (plain : ∀ c ∈ name, isPlain c = true)
    (atom : ∀ rest, EndsNumber rest → next? (value ++ rest) = some (.atom a, rest)) :
    lex (oneMember name value) =
      some [.openObject, .text (some name), .colon, .atom a, .closeObject] := by
  have opens (rest : List Char) : next? ('\x7b' :: rest) = some (.openObject, rest) := rfl
  have colon (rest : List Char) : next? (':' :: rest) = some (.colon, rest) := rfl
  have closes : next? ['\x7d'] = some (.closeObject, []) := rfl
  rw [oneMember, lex_of_next? (opens _), lex_of_next? (next?_text plain _),
    lex_of_next? (colon _), lex_of_next? (atom _ (endsNumber_closeObject [])),
    lex_of_next? closes, lex]
  rfl

theorem parse?_oneMember (plain : ∀ c ∈ name, isPlain c = true)
    (atom : ∀ rest, EndsNumber rest → next? (value ++ rest) = some (.atom a, rest)) :
    parse? (oneMember name value) = some (.object [(some name, a)]) := by
  rw [parse?, lex_oneMember plain atom]
  rfl

end

end ScriptDebugger.Json

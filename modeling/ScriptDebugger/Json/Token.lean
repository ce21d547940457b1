/-
  JSON tokens

  A token is a bracket, a colon, a comma, a text, or a value that stands for
  itself. Blanks are space, line feed, carriage return and tab, and separate
  nothing: two tokens may touch, and it is the document that says which may.
-/
import ScriptDebugger.Json.Value
import ScriptDebugger.Json.Text

namespace ScriptDebugger.Json

inductive Token where
  | openArray
  | closeArray
  | openObject
  | closeObject
  | colon
  | comma
  | text (chars : Option (List Char))
  | atom (value : Json)

/-- Whether a character separates tokens. -/
def isBlank (c : Char) : Bool := c = ' ' || c = '\n' || c = '\r' || c = '\t'

/-- The digits at the front, of which there is at least one. -/
def digits? (cs : List Char) : Option (List Char × List Char) :=
  if (cs.takeWhile Char.isDigit).isEmpty then none
  else some (cs.takeWhile Char.isDigit, cs.dropWhile Char.isDigit)

/-- The whole part of a number: a zero, or digits that start otherwise. -/
def whole? : List Char → Option (List Char × List Char)
  | '0' :: rest => some (['0'], rest)
  | cs => digits? cs

def fraction? : List Char → Option (List Char × List Char)
  | '.' :: rest => (digits? rest).map fun (ds, rest) => ('.' :: ds, rest)
  | cs => some ([], cs)

/-- The sign of an exponent, empty without one. -/
def sign : List Char → List Char × List Char
  | '+' :: rest => (['+'], rest)
  | '-' :: rest => (['-'], rest)
  | cs => ([], cs)

def exponent? : List Char → Option (List Char × List Char)
  | 'e' :: rest => (digits? (sign rest).2).map fun (ds, after) => ('e' :: (sign rest).1 ++ ds, after)
  | 'E' :: rest => (digits? (sign rest).2).map fun (ds, after) => ('E' :: (sign rest).1 ++ ds, after)
  | cs => some ([], cs)

def magnitude? (cs : List Char) : Option (List Char × List Char) :=
  (whole? cs).bind fun (whole, cs) =>
    (fraction? cs).bind fun (fraction, cs) =>
      (exponent? cs).map fun (exponent, cs) => (whole ++ fraction ++ exponent, cs)

/-- The number at the front, as written. -/
def number? : List Char → Option (List Char × List Char)
  | '-' :: rest => (magnitude? rest).map fun (literal, rest) => ('-' :: literal, rest)
  | cs => magnitude? cs

/-- The token at the front, and the characters after it. -/
def next? : List Char → Option (Token × List Char)
  | '[' :: rest => some (.openArray, rest)
  | ']' :: rest => some (.closeArray, rest)
  | '\x7b' :: rest => some (.openObject, rest)
  | '\x7d' :: rest => some (.closeObject, rest)
  | ':' :: rest => some (.colon, rest)
  | ',' :: rest => some (.comma, rest)
  | '"' :: rest => (scan rest).map fun (pieces, rest) => (.text (join pieces), rest)
  | 'n' :: 'u' :: 'l' :: 'l' :: rest => some (.atom .null, rest)
  | 't' :: 'r' :: 'u' :: 'e' :: rest => some (.atom (.bool true), rest)
  | 'f' :: 'a' :: 'l' :: 's' :: 'e' :: rest => some (.atom (.bool false), rest)
  | cs => (number? cs).map fun (literal, rest) => (.atom (.number literal), rest)

/-! ## What a token takes -/

theorem length_lt_of_digits? {cs ds rest : List Char} (h : digits? cs = some (ds, rest)) :
    rest.length < cs.length := by
  have whole := congrArg List.length (List.takeWhile_append_dropWhile (p := Char.isDigit) (l := cs))
  rw [List.length_append] at whole
  unfold digits? at h
  split at h
  · cases h
  · rename_i nonempty
    simp only [Option.some.injEq, Prod.mk.injEq] at h
    have : 0 < (cs.takeWhile Char.isDigit).length :=
      List.length_pos_iff.2 (by simpa using nonempty)
    rw [← h.2]
    omega

theorem length_lt_of_whole? {cs ds rest : List Char} (h : whole? cs = some (ds, rest)) :
    rest.length < cs.length := by
  unfold whole? at h
  split at h
  · grind
  · exact length_lt_of_digits? h

theorem length_le_of_fraction? {cs ds rest : List Char} (h : fraction? cs = some (ds, rest)) :
    rest.length ≤ cs.length := by
  unfold fraction? at h
  split at h
  · obtain ⟨⟨ds, after⟩, hd, e⟩ := Option.map_eq_some_iff.1 h
    have := length_lt_of_digits? hd
    grind
  · grind

theorem length_sign_le (cs : List Char) : (sign cs).2.length ≤ cs.length := by
  unfold sign
  split <;> simp

theorem length_le_of_exponent? {cs ds rest : List Char} (h : exponent? cs = some (ds, rest)) :
    rest.length ≤ cs.length := by
  unfold exponent? at h
  split at h
  case h_3 => grind
  all_goals
    rename_i tail
    obtain ⟨⟨ds, after⟩, hd, e⟩ := Option.map_eq_some_iff.1 h
    have := length_lt_of_digits? hd
    have := length_sign_le tail
    grind

theorem length_lt_of_magnitude? {cs ds rest : List Char} (h : magnitude? cs = some (ds, rest)) :
    rest.length < cs.length := by
  unfold magnitude? at h
  obtain ⟨⟨w, cs₁⟩, hw, h⟩ := Option.bind_eq_some_iff.1 h
  obtain ⟨⟨f, cs₂⟩, hf, h⟩ := Option.bind_eq_some_iff.1 h
  obtain ⟨⟨e, cs₃⟩, he, h⟩ := Option.map_eq_some_iff.1 h
  have := length_lt_of_whole? hw
  have := length_le_of_fraction? hf
  have := length_le_of_exponent? he
  grind

theorem length_lt_of_number? {cs ds rest : List Char} (h : number? cs = some (ds, rest)) :
    rest.length < cs.length := by
  unfold number? at h
  split at h
  · obtain ⟨⟨ds, after⟩, hd, e⟩ := Option.map_eq_some_iff.1 h
    have := length_lt_of_magnitude? hd
    grind
  · exact length_lt_of_magnitude? h

theorem length_lt_of_next? {cs rest : List Char} {token : Token}
    (h : next? cs = some (token, rest)) : rest.length < cs.length := by
  unfold next? at h
  split at h
  case h_7 =>
    obtain ⟨⟨pieces, after⟩, hs, e⟩ := Option.map_eq_some_iff.1 h
    have := length_lt_of_scan hs
    grind
  case h_11 =>
    obtain ⟨⟨literal, after⟩, hn, e⟩ := Option.map_eq_some_iff.1 h
    have := length_lt_of_number? hn
    grind
  all_goals grind

/-- The tokens of a text; `none` where some character starts none. -/
def lex (cs : List Char) : Option (List Token) :=
  match cs with
  | [] => some []
  | c :: rest =>
    if isBlank c then lex rest
    else match h : next? (c :: rest) with
      | none => none
      | some (token, after) =>
        have := length_lt_of_next? h
        (lex after).map (token :: ·)
  termination_by cs.length
  decreasing_by
    · exact Nat.lt_succ_self rest.length
    · assumption

end ScriptDebugger.Json

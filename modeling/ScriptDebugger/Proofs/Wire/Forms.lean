/-
  The forms that a reader takes

  A value may have many forms: a number has its shortest one and longer ones,
  which end in groups that add nothing. `Reads read IsForm` says exactly what a
  reader takes. It takes every form of a value off the front, whatever follows,
  and nothing but a form of the value it hands back.

  Forms are described without a reader:

  1. a number is written in groups of seven bits, the lowest first, and every
     byte but the last has its top bit set (`Varint.IsForm`);
  2. a sequence is a form of its length and then forms of its members in order
     (`IsSequence`), and a byte string is a sequence of bytes (`IsByteString`).

  Readers are put together in two ways only, and each keeps `Reads`: handing a
  value back without taking anything (`Reads.value`), and reading one value
  after another (`Reads.andThen`). So the readers of sequences follow from the
  reader of numbers, `Varint.reads`. The writer uses the shortest form of a
  number (`Varint.length_encode_le`).
-/
import Mathlib.Data.Nat.Digits.Defs
import ScriptDebugger.Proofs.Wire.Delimited

namespace ScriptDebugger.Wire

variable {α β : Type}

/-! ## Readers one after another -/

/-- Hands a value back and takes nothing. -/
def value (a : α) : Reader α := fun bytes => .ok (a, bytes)

/-- Reads a value, and then another one in a way that may depend on it. -/
def andThen (read : Reader α) (next : α → Reader β) : Reader β := fun bytes =>
  read bytes >>= fun (a, rest) => next a rest

theorem andThen_of_ok {read : Reader α} {next : α → Reader β} {bytes rest : Bytes} {a : α}
    (first : read bytes = .ok (a, rest)) : andThen read next bytes = next a rest := by
  rw [andThen, first]
  rfl

theorem andThen_of_error {read : Reader α} {next : α → Reader β} {bytes : Bytes} {f : Fault}
    (first : read bytes = .error f) : andThen read next bytes = .error f := by
  rw [andThen, first]
  rfl

theorem times_succ (read : Reader α) (n : Nat) :
    times read (n + 1) =
      andThen read fun first => andThen (times read n) fun others => value (first :: others) := rfl

theorem sequence_eq (read : Reader α) :
    sequence read = andThen (Varint.read .word64) (times read) := rfl

/-! ## What a reader takes -/

/-- The reader takes the forms of a value and nothing else. -/
structure Reads (read : Reader α) (IsForm : Bytes → α → Prop) : Prop where
  delimits : ∀ {form : Bytes} {a : α}, IsForm form a → Delimits read form a
  exists_form : ∀ {bytes rest : Bytes} {a : α}, read bytes = .ok (a, rest) →
    ∃ form, IsForm form a ∧ bytes = form ++ rest

namespace Reads

variable {read : Reader α} {IsForm : Bytes → α → Prop}

theorem congr {IsForm' : Bytes → α → Prop} (reads : Reads read IsForm)
    (same : ∀ form a, IsForm form a ↔ IsForm' form a) : Reads read IsForm' where
  delimits form := reads.delimits ((same _ _).mpr form)
  exists_form taken := by
    obtain ⟨form, is_form, split⟩ := reads.exists_form taken
    exact ⟨form, (same _ _).mp is_form, split⟩

/-- What the reader takes whole, whatever follows, is a form. -/
theorem isForm_iff (reads : Reads read IsForm) {form : Bytes} {a : α} :
    IsForm form a ↔ Delimits read form a := by
  constructor
  · exact reads.delimits
  · intro delimits
    obtain ⟨form', is_form, split⟩ := reads.exists_form (delimits [])
    rw [List.append_nil, List.append_nil] at split
    rwa [split]

/-- The value at the front of the bytes is the one of which they begin with a
form. -/
theorem first_eq_ok_iff (reads : Reads read IsForm) {bytes : Bytes} {a : α} :
    read.first bytes = .ok a ↔ ∃ form, IsForm form a ∧ form <+: bytes := by
  rw [Reader.first, map_eq_ok_iff]
  constructor
  · rintro ⟨⟨a, rest⟩, taken, rfl⟩
    obtain ⟨form, is_form, rfl⟩ := reads.exists_form taken
    exact ⟨form, is_form, List.prefix_append form rest⟩
  · rintro ⟨form, is_form, rest, rfl⟩
    exact ⟨(a, rest), reads.delimits is_form rest, rfl⟩

theorem value (a : α) : Reads (value a) fun form a' => form = [] ∧ a' = a where
  delimits := by
    rintro _ _ ⟨rfl, rfl⟩ tail
    rfl
  exists_form taken := by
    cases taken
    exact ⟨[], ⟨rfl, rfl⟩, rfl⟩

theorem andThen {next : α → Reader β} {IsNext : α → Bytes → β → Prop} (reads : Reads read IsForm)
    (later : ∀ a, Reads (next a) (IsNext a)) :
    Reads (andThen read next) fun form b =>
      ∃ front a back, IsForm front a ∧ IsNext a back b ∧ form = front ++ back where
  delimits := by
    rintro _ b ⟨front, a, back, first, second, rfl⟩ tail
    rw [List.append_assoc, andThen_of_ok (reads.delimits first (back ++ tail))]
    exact (later a).delimits second tail
  exists_form taken := by
    obtain ⟨⟨a, rest⟩, first, second⟩ := bind_eq_ok_iff.mp taken
    obtain ⟨front, is_front, rfl⟩ := reads.exists_form first
    obtain ⟨back, is_back, rfl⟩ := (later a).exists_form second
    exact ⟨front ++ back, ⟨front, a, back, is_front, is_back, rfl⟩,
      (List.append_assoc front back _).symm⟩

end Reads

/-! ## Numbers -/

/-- One more than the greatest number that fits. -/
def Width.bound (width : Width) : Nat := 128 ^ width.extra * (width.last + 1)

example : Width.word32.bound = UInt32.size ∧ Width.word64.bound = UInt64.size := by decide

namespace Varint

/-- The number that groups of seven bits make, the lowest group first. -/
def number (form : Bytes) : Nat := Nat.ofDigits 128 (form.map fun b => b.toNat % 128)

theorem number_cons (b : UInt8) (form : Bytes) :
    number (b :: form) = b.toNat % 128 + 128 * number form := by
  rw [number, List.map_cons, Nat.ofDigits_cons]
  rfl

/-- The bytes are a form of the number, of at most as many bytes as the width
permits. The number fits the width; the form need not be the shortest. -/
structure IsForm (width : Width) (form : Bytes) (n : Nat) : Prop where
  continued : ∀ b ∈ form.dropLast, 128 ≤ b.toNat
  ended : ∃ b ∈ form.getLast?, b.toNat < 128
  length_le : form.length ≤ width.extra + 1
  number_eq : number form = n
  fits : n < width.bound

instance (width : Width) (form : Bytes) (n : Nat) : Decidable (IsForm width form n) :=
  decidable_of_iff (form.dropLast.all (fun b => decide (128 ≤ b.toNat)) = true ∧
      form.getLast?.any (fun b => decide (b.toNat < 128)) = true ∧
      form.length ≤ width.extra + 1 ∧ number form = n ∧ n < width.bound) <| by
    simp only [List.all_eq_true, Option.any_eq_true, decide_eq_true_eq]
    exact ⟨fun ⟨continued, ended, length_le, number_eq, fits⟩ =>
        ⟨continued, ended, length_le, number_eq, fits⟩,
      fun ⟨continued, ended, length_le, number_eq, fits⟩ =>
        ⟨continued, ended, length_le, number_eq, fits⟩⟩

example : IsForm .word32 [172, 2] 300 ∧ IsForm .word32 [172, 130, 128, 0] 300 ∧
    ¬ IsForm .word32 [172, 130, 128, 128, 128, 0] 300 := by decide

/-- Where the last permitted byte is the first one, it is the number. -/
theorem isForm_last_iff {last : Nat} (group : last < 128) {form : Bytes} {n : Nat} :
    IsForm ⟨0, last⟩ form n ↔ ∃ b, form = [b] ∧ b.toNat ≤ last ∧ b.toNat = n := by
  constructor
  · intro ⟨_, ended, length_le, number_eq, fits⟩
    match form, length_le with
    | [], _ => simp at ended
    | [b], _ =>
      have short : b.toNat < 128 := by simpa using ended
      rw [number_cons, Nat.mod_eq_of_lt short] at number_eq
      simp [number, Width.bound] at number_eq fits
      exact ⟨b, rfl, by omega, number_eq⟩
  · rintro ⟨b, rfl, small, rfl⟩
    have short : b.toNat < 128 := by omega
    refine ⟨by simp, by simpa using short, Nat.le_refl _, ?_, ?_⟩
    · simp [number, Nat.mod_eq_of_lt short]
    · simp [Width.bound]
      omega

/-- Where more bytes are permitted, a form is one byte or goes on with a form
of the groups above. -/
theorem isForm_cons_iff {extra last : Nat} {b : UInt8} {form : Bytes} {n : Nat} :
    IsForm ⟨extra + 1, last⟩ (b :: form) n ↔
      (b.toNat < 128 ∧ form = [] ∧ b.toNat = n) ∨
        (128 ≤ b.toNat ∧ ∃ high, IsForm ⟨extra, last⟩ form high ∧
          b.toNat % 128 + 128 * high = n) := by
  have more : Width.bound ⟨extra + 1, last⟩ = 128 * Width.bound ⟨extra, last⟩ := by
    simp only [Width.bound]
    rw [Nat.pow_succ', Nat.mul_assoc]
  cases form with
  | nil =>
    have room : 0 < Width.bound ⟨extra, last⟩ := by simp [Width.bound]
    constructor
    · intro ⟨_, ended, _, number_eq, _⟩
      have short : b.toNat < 128 := by simpa using ended
      rw [number_cons, Nat.mod_eq_of_lt short] at number_eq
      exact .inl ⟨short, rfl, number_eq⟩
    · rintro (⟨short, _, rfl⟩ | ⟨_, high, form, _⟩)
      · refine ⟨by simp, by simpa using short, by simp, ?_, by omega⟩
        simp [number, Nat.mod_eq_of_lt short]
      · simpa using form.ended
  | cons c form =>
    constructor
    · intro ⟨continued, ended, length_le, number_eq, fits⟩
      rw [List.dropLast_cons_cons, List.forall_mem_cons] at continued
      rw [number_cons] at number_eq
      refine .inr ⟨continued.1, number (c :: form), ⟨continued.2, ?_, ?_, rfl, by omega⟩, number_eq⟩
      · rwa [List.getLast?_cons_cons] at ended
      · simpa using length_le
    · rintro (⟨_, none, _⟩ | ⟨top, high, ⟨continued, ended, length_le, rfl, fits⟩, rfl⟩)
      · cases none
      · refine ⟨?_, ?_, by simpa using length_le, number_cons b _, by omega⟩
        · rw [List.dropLast_cons_cons, List.forall_mem_cons]
          exact ⟨top, continued⟩
        · rwa [List.getLast?_cons_cons]

theorem delimits_of_isForm {last : Nat} (group : last < 128) {extra : Nat} {form : Bytes} {n : Nat}
    (is_form : IsForm ⟨extra, last⟩ form n) : Delimits (decode last extra) form n := by
  intro tail
  induction extra generalizing form n with
  | zero =>
    obtain ⟨b, rfl, small, rfl⟩ := (isForm_last_iff group).mp is_form
    rw [List.singleton_append, decode, if_pos small]
  | succ extra ih =>
    cases form with
    | nil => simpa using is_form.ended
    | cons b form =>
      rw [List.cons_append, decode]
      rcases isForm_cons_iff.mp is_form with ⟨short, rfl, rfl⟩ | ⟨top, high, above, rfl⟩
      · rw [if_pos short, List.nil_append]
      · rw [if_neg (by omega), ih above]
        rfl

theorem exists_isForm {last : Nat} (group : last < 128) {extra : Nat} {bytes rest : Bytes} {n : Nat}
    (taken : decode last extra bytes = .ok (n, rest)) :
    ∃ form, IsForm ⟨extra, last⟩ form n ∧ bytes = form ++ rest := by
  induction extra generalizing bytes n with
  | zero =>
    cases bytes with
    | nil => cases taken
    | cons b bytes =>
      rw [decode] at taken
      split at taken
      · rename_i small
        cases taken
        exact ⟨[b], (isForm_last_iff group).mpr ⟨b, rfl, small, rfl⟩, rfl⟩
      · cases taken
  | succ extra ih =>
    cases bytes with
    | nil => cases taken
    | cons b bytes =>
      rw [decode] at taken
      split at taken
      · rename_i short
        cases taken
        exact ⟨[b], isForm_cons_iff.mpr (.inl ⟨short, rfl, rfl⟩), rfl⟩
      · rename_i long
        obtain ⟨⟨high, rest'⟩, above, same⟩ := map_eq_ok_iff.mp taken
        cases same
        obtain ⟨form, is_form, rfl⟩ := ih above
        exact ⟨b :: form, isForm_cons_iff.mpr (.inr ⟨by omega, high, is_form, rfl⟩), rfl⟩

/-- The reader takes all forms of a number and nothing else. -/
theorem reads {width : Width} (group : width.last < 128) : Reads (read width) (IsForm width) :=
  ⟨delimits_of_isForm group, exists_isForm group⟩

theorem reads_word64 : Reads (read .word64) (IsForm .word64) := reads (by decide)

/-! ## The shortest form -/

theorem length_encode_pos (n : Nat) : 0 < (encode n).length := by
  rw [encode]
  split <;> simp

/-- So many groups of seven bits are enough for numbers that fit them. -/
theorem length_encode_le_iff {n k : Nat} : (encode n).length ≤ k + 1 ↔ n < 128 ^ (k + 1) := by
  induction k generalizing n with
  | zero =>
    rw [encode]
    split
    · simpa
    · have := length_encode_pos (n / 128)
      rw [List.length_cons]
      omega
  | succ k ih =>
    have groups : 128 ^ (k + 1 + 1) = 128 * 128 ^ (k + 1) := Nat.pow_succ'
    have positive : 0 < 128 ^ (k + 1) := Nat.pow_pos (by decide)
    rw [encode]
    split
    · simp
      omega
    · have := @ih (n / 128)
      rw [List.length_cons]
      omega

/-- A smaller number takes no more bytes. -/
theorem length_encode_mono {m n : Nat} (le : m ≤ n) : (encode m).length ≤ (encode n).length := by
  obtain ⟨k, length⟩ := Nat.exists_eq_succ_of_ne_zero (length_encode_pos n).ne'
  have fits : n < 128 ^ (k + 1) := length_encode_le_iff.mp length.le
  rw [length]
  exact length_encode_le_iff.mpr (by omega)

/-- No form of a number is shorter than the one that is written. -/
theorem length_encode_le {width : Width} {form : Bytes} {n : Nat} (is_form : IsForm width form n) :
    (encode n).length ≤ form.length := by
  obtain ⟨_, ended, _, rfl, _⟩ := is_form
  cases form with
  | nil => simp at ended
  | cons b form =>
    rw [List.length_cons, length_encode_le_iff, ← List.length_cons (a := b)]
    have small : ∀ digit ∈ (b :: form).map fun b => b.toNat % 128, digit < 128 := by
      intro digit mem
      obtain ⟨c, _, rfl⟩ := List.mem_map.mp mem
      exact Nat.mod_lt _ (by decide)
    have groups := Nat.ofDigits_lt_base_pow_length (by decide) small
    rwa [List.length_map] at groups

end Varint

/-! ## Sequences -/

/-- A form of the length and then forms of the members. -/
def IsSequence (IsForm : Bytes → α → Prop) (form : Bytes) (members : List α) : Prop :=
  ∃ count forms, Varint.IsForm .word64 count members.length ∧
    List.Forall₂ IsForm forms members ∧ form = count ++ forms.flatten

/-- A form of the length and then the bytes. -/
def IsByteString (form bytes : Bytes) : Prop :=
  ∃ count, Varint.IsForm .word64 count bytes.length ∧ form = count ++ bytes

namespace Reads

variable {read : Reader α} {IsForm : Bytes → α → Prop}

theorem times (reads : Reads read IsForm) (n : Nat) :
    Reads (times read n) fun form members =>
      members.length = n ∧ ∃ forms, List.Forall₂ IsForm forms members ∧ form = forms.flatten where
  delimits := by
    rintro _ members ⟨rfl, forms, each, rfl⟩
    exact Delimits.times (each.imp fun _ _ => reads.delimits)
  exists_form {bytes rest members} taken := by
    induction n generalizing bytes members with
    | zero =>
      cases taken
      exact ⟨[], ⟨rfl, [], .nil, rfl⟩, rfl⟩
    | succ n ih =>
      rw [times_succ] at taken
      obtain ⟨⟨first, between⟩, one, taken⟩ := bind_eq_ok_iff.mp taken
      obtain ⟨⟨others, last⟩, more, same⟩ := bind_eq_ok_iff.mp taken
      cases same
      obtain ⟨form, is_form, rfl⟩ := reads.exists_form one
      obtain ⟨_, ⟨rfl, forms, each, rfl⟩, rfl⟩ := ih more
      exact ⟨form ++ forms.flatten, ⟨rfl, form :: forms, .cons is_form each, rfl⟩,
        (List.append_assoc ..).symm⟩

theorem sequence (reads : Reads read IsForm) : Reads (sequence read) (IsSequence IsForm) := by
  rw [sequence_eq]
  apply (Varint.reads_word64.andThen reads.times).congr
  intro form members
  constructor
  · rintro ⟨count, _, _, is_count, ⟨rfl, forms, each, rfl⟩, rfl⟩
    exact ⟨count, forms, is_count, each, rfl⟩
  · rintro ⟨count, forms, is_count, each, rfl⟩
    exact ⟨count, _, forms.flatten, is_count, ⟨rfl, forms, each, rfl⟩, rfl⟩

theorem byte : Reads byte fun form b => form = [b] where
  delimits := by
    rintro _ b rfl tail
    rfl
  exists_form {bytes _ _} taken := by
    cases bytes with
    | nil => cases taken
    | cons _ _ =>
      cases taken
      exact ⟨_, rfl, rfl⟩

theorem byteString : Reads byteString IsByteString := by
  apply byte.sequence.congr
  intro form bytes
  -- The forms of the members are the members.
  have single (forms : List Bytes) :
      List.Forall₂ (fun form b => form = [b]) forms bytes ↔ forms = bytes.map fun b => [b] := by
    rw [← List.forall₂_map_right_iff (R := Eq), List.forall₂_eq_eq_eq]
  constructor
  · rintro ⟨count, forms, is_count, each, rfl⟩
    rw [(single forms).mp each, ← List.flatMap_def, List.flatMap_singleton']
    exact ⟨count, is_count, rfl⟩
  · rintro ⟨count, is_count, rfl⟩
    refine ⟨count, _, is_count, (single _).mpr rfl, ?_⟩
    rw [← List.flatMap_def, List.flatMap_singleton']

end Reads

end ScriptDebugger.Wire

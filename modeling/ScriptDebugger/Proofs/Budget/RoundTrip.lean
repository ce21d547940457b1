/-
  Persisted budgets come back

  As bytes a budget has more than one form, since a number has. `IsForm`
  describes them without the reader:

  1. the reader takes the forms of a budget and nothing else (`reads`), so a
     budget is read back from each of them, whatever follows;
  2. the one that is written is a form (`isForm_toBytes`), and none is shorter
     (`IsForm.length_toBytes_le`);
  3. a form that ends too early is truncated (`IsForm.truncated`): the first
     byte says whether a number is to come, and a number says of each of its
     bytes whether another one is.

  As JSON a budget is written as an object with one member, whose value is null
  or the digits of the limit. The reader finds five tokens in it, and the limit
  is small enough for the reader since it is a 64-bit number
  (`ofJson?_toJson`).
-/
import ScriptDebugger.Budget.Forms
import ScriptDebugger.Proofs.Json.Tokens
import ScriptDebugger.Proofs.Wire.Resumable

namespace ScriptDebugger.Budget

open Wire (Reads Resumable)

/-! ## Bytes -/

/-- A byte that says whether there is a limit, and then a form of the limit. -/
inductive IsForm : Bytes → Budget → Prop where
  | unlimited : IsForm [0] .unlimited
  | atMost {number : Bytes} {limit : UInt64}
      (is_number : Wire.Varint.IsForm .word64 number limit.toNat) :
      IsForm (1 :: number) (.atMost limit)

theorem reads : Reads read IsForm where
  delimits is_form := by
    intro tail
    cases is_form with
    | unlimited => rfl
    | @atMost number limit is_number =>
      rw [List.cons_append, read, Wire.Varint.reads_word64.delimits is_number tail]
      show Except.ok (atMost (UInt64.ofNat limit.toNat), tail) = _
      rw [UInt64.ofNat_toNat]
  exists_form taken := by
    unfold read at taken
    split at taken
    · cases taken
    · cases taken
      exact ⟨[0], .unlimited, rfl⟩
    · obtain ⟨⟨limit, rest⟩, number_taken, same⟩ := Wire.map_eq_ok_iff.mp taken
      cases same
      obtain ⟨number, is_number, rfl⟩ := Wire.Varint.reads_word64.exists_form number_taken
      refine ⟨1 :: number, .atMost ?_, rfl⟩
      rwa [UInt64.toNat_ofNat_of_lt' is_number.fits]
    · cases taken

theorem isForm_toBytes (budget : Budget) : IsForm budget.toBytes budget := by
  obtain ⟨_ | limit⟩ := budget
  · exact .unlimited
  · exact .atMost (Wire.Varint.reads_word64.isForm_iff.mpr (Wire.Varint.read_word64 limit.toNat_lt))

namespace IsForm

variable {form : Bytes} {budget : Budget}

theorem length_toBytes_le (is_form : IsForm form budget) :
    budget.toBytes.length ≤ form.length := by
  cases is_form with
  | unlimited => exact Nat.le_refl _
  | atMost is_number => exact Nat.succ_le_succ (Wire.Varint.length_encode_le is_number)

theorem truncated (is_form : IsForm form budget) {front : Bytes} (cut : front <+: form)
    (short : front ≠ form) : read front = .error .truncated := by
  cases front with
  | nil => rfl
  | cons b front =>
    cases is_form with
    | unlimited =>
      obtain ⟨rfl, nothing⟩ := List.cons_prefix_cons.mp cut
      rw [List.prefix_nil.mp nothing] at short
      exact absurd rfl short
    | atMost is_number =>
      obtain ⟨rfl, number_cut⟩ := List.cons_prefix_cons.mp cut
      rw [ne_eq, List.cons_inj_right] at short
      have delimits := Wire.Varint.reads_word64.delimits is_number
      rw [read, Resumable.varint_word64.truncated_of_prefix delimits number_cut short]
      rfl

end IsForm

/-! ## JSON -/

/-- The characters of the limit. -/
def limitChars (budget : Budget) : List Char :=
  match budget.instructions with
  | none => ['n', 'u', 'l', 'l']
  | some limit => Decimal.digits limit.toNat

theorem toList_toJson (budget : Budget) :
    budget.toJson.toList = Json.oneMember memberName.toList budget.limitChars := by
  obtain ⟨_ | limit⟩ := budget <;> simp [toJson, limitChars, Decimal.natText, Json.oneMember]

theorem ofLimit?_digits (limit : UInt64) :
    ofLimit? (.number (Decimal.digits limit.toNat)) = some (atMost limit) := by
  have fits : limit.toNat < UInt64.size := limit.toNat_lt
  rw [ofLimit?, Json.natural?, Decimal.nat?_digits]
  · simp [fits]
  · nofun

/-- The limit is one token, of which the reader makes the budget. -/
theorem exists_limit (budget : Budget) :
    ∃ value, ofLimit? value = some budget ∧ ∀ rest, Json.EndsNumber rest →
      Json.next? (budget.limitChars ++ rest) = some (.atom value, rest) := by
  obtain ⟨_ | limit⟩ := budget
  · exact ⟨.null, rfl, fun _ _ => rfl⟩
  · exact ⟨.number _, ofLimit?_digits limit, fun _ => Json.next?_digits limit.toNat⟩

theorem ofValue?_member (value : Json) :
    ofValue? (.object [(some memberName.toList, value)]) = ofLimit? value := by
  simp [ofValue?, ofMembers?]

theorem ofJson?_toJson (budget : Budget) : ofJson? budget.toJson = some budget := by
  have plain : memberName.toList.all Json.isPlain = true := rfl
  obtain ⟨value, limit, atom⟩ := budget.exists_limit
  rw [ofJson?, toList_toJson, Json.parse?_oneMember (List.all_eq_true.mp plain) atom,
    Option.bind_some, ofValue?_member, limit]

/-- A budget comes back from its bytes, whatever follows them, and from its
JSON; its bytes are recognised as truncated if any are missing; and no fewer
bytes give the budget. -/
theorem persisted_unchanged (budget : Budget) :
    (∀ tail, ofBytes (budget.toBytes ++ tail) = .ok budget) ∧
    (∀ front, front <+: budget.toBytes → front ≠ budget.toBytes →
      ofBytes front = .error .truncated) ∧
    ofJson? budget.toJson = some budget ∧
    ∀ bytes, ofBytes bytes = .ok budget → budget.toBytes.length ≤ bytes.length := by
  have is_form := isForm_toBytes budget
  refine ⟨?followed, ?cut, ofJson?_toJson budget, ?shortest⟩
  case followed =>
    exact (reads.delimits is_form).first
  case cut =>
    intro front cut short
    exact Wire.map_eq_error_iff.mpr (is_form.truncated cut short)
  case shortest =>
    intro bytes decoded
    obtain ⟨form, is_form, front⟩ := reads.first_eq_ok_iff.mp decoded
    exact Nat.le_trans is_form.length_toBytes_le front.length_le

/-- The greatest limit takes all ten bytes that a number may have. The limit
300 takes two, and is read from four here. -/
theorem greatest_limit_unchanged :
    let greatest := atMost 18446744073709551615
    let cut : Bytes := [1, 255, 255, 255, 255, 255, 255, 255, 255, 255]
    greatest.toBytes = cut ++ [1] ∧
      ofBytes (greatest.toBytes ++ [7]) = .ok greatest ∧
      ofBytes cut = .error .truncated ∧
      ofJson? greatest.toJson = some greatest ∧
      ofBytes [1, 172, 130, 128, 0] = .ok (atMost 300) ∧ (atMost 300).toBytes.length ≤ 5 := by
  intro greatest cut
  have whole : greatest.toBytes = cut ++ [1] := by decide +kernel
  obtain ⟨followed, truncated, json, _⟩ := persisted_unchanged greatest
  have padded : ofBytes [1, 172, 130, 128, 0] = .ok (atMost 300) := by decide +kernel
  exact ⟨whole, followed [7], truncated cut (by decide +kernel) (by decide +kernel), json, padded,
    (persisted_unchanged (atMost 300)).2.2.2 _ padded⟩

end ScriptDebugger.Budget

/-
  Equality of operands

  Equality is decided operand by operand; `Equal` says what it comes to, rule
  by rule. It is reflexive whatever the host types compare, transitive if they
  are, and symmetric if they are but for one pair of kinds: an integer on the
  left equals its canonical bytes on the right, and no byte string on the left
  equals an integer.

  What is proved:
    1. `equals_iff` — the two descriptions agree.
    2. `equals_preorder` — reflexivity, also between a register and its copy,
       transitivity, all pairs of different kinds, and all pairs that are
       equal one way only.
    3. `equals_congruence` — equal operands have the same truth value, the
       same bytes and the same length, or the same refusals. Where an integer
       equals a byte string, that crosses two rules of truth and two ways of
       measuring, and it holds since canonical bytes are all zero only for
       zero (`any_encode`) and a remembered length is the right one.
-/
import Mathlib.Logic.ExistsUnique
import ScriptDebugger.Operand.Bank
import ScriptDebugger.Operand.Samples
import ScriptDebugger.Proofs.Operand.TwosComplement

namespace ScriptDebugger

open TwosComplement (Canonical)

variable {κ : Type} [HostKind κ] [DecidableEq κ]

/-! ## Host objects -/

/-- Two objects are the same if they are of one type and their values are the
same to it. -/
theorem HostObject.same_iff {a b : HostObject κ} :
    a.same b = true ↔
      ∃ kind x y, a = ⟨kind, x⟩ ∧ b = ⟨kind, y⟩ ∧ HostKind.same kind x y = true := by
  constructor
  · intro same
    obtain ⟨kind, x⟩ := a
    obtain ⟨kind', y⟩ := b
    by_cases h : kind' = kind
    · subst h
      exact ⟨kind', x, y, rfl, rfl, by simpa [HostObject.same, HostObject.as?] using same⟩
    · simp [HostObject.same, HostObject.as?, h] at same
  · rintro ⟨kind, x, y, rfl, rfl, same⟩
    simpa [HostObject.same, HostObject.as?] using same

namespace HostTable

theorem same_iff {t : HostTable κ} {a b : Handle} :
    t.same a b = true ↔ ∃ kind x y, t.find? a = some ⟨kind, x⟩ ∧ t.find? b = some ⟨kind, y⟩ ∧
      HostKind.same kind x y = true := by
  unfold same
  cases t.find? a with
  | none => simp
  | some first =>
    cases t.find? b with
    | none => simp
    | some second => simp [HostObject.same_iff]

omit [DecidableEq κ] in
/-- The comparison of every host type with an object in the table is
transitive. -/
def Transitive (t : HostTable κ) : Prop :=
  ∀ o ∈ t.objects, ∀ x y z : HostKind.Value o.kind, HostKind.same o.kind x y = true →
    HostKind.same o.kind y z = true → HostKind.same o.kind x z = true

omit [DecidableEq κ] in
/-- The comparison of every host type with an object in the table is
symmetric. -/
def Symmetric (t : HostTable κ) : Prop :=
  ∀ o ∈ t.objects, ∀ x y : HostKind.Value o.kind, HostKind.same o.kind x y = true →
    HostKind.same o.kind y x = true

omit [DecidableEq κ] in
theorem mem_of_find? {t : HostTable κ} {h : Handle} {o : HostObject κ} (found : t.find? h = some o) :
    o ∈ t.objects :=
  Array.mem_of_getElem? found

theorem Transitive.same_trans {t : HostTable κ} (transitive : t.Transitive) {a b c : Handle}
    (first : t.same a b = true) (second : t.same b c = true) : t.same a c = true := by
  obtain ⟨kind, x, y, at_a, at_b, same⟩ := same_iff.mp first
  obtain ⟨kind', y', z, at_b', at_c, same'⟩ := same_iff.mp second
  -- The middle handle has one object, so there is one type and one value.
  rw [at_b] at at_b'
  cases at_b'
  exact same_iff.mpr ⟨kind, x, z, at_a, at_c, transitive _ (mem_of_find? at_a) x y z same same'⟩

theorem Symmetric.same_symm {t : HostTable κ} (symmetric : t.Symmetric) {a b : Handle}
    (same : t.same a b = true) : t.same b a = true := by
  obtain ⟨kind, x, y, at_a, at_b, same⟩ := same_iff.mp same
  exact same_iff.mpr ⟨kind, y, x, at_b, at_a, symmetric _ (mem_of_find? at_a) x y same⟩

end HostTable

/-! ## The rules -/

namespace Integer

theorem beq_iff {i j : Integer} : (i == j) = true ↔ i.value = j.value := decide_eq_true_iff

theorem canonical_toBytes (i : Integer) : Canonical i.value i.toBytes :=
  TwosComplement.canonical_iff.mpr rfl

end Integer

namespace Operand

/-- What makes an operand on the left equal to one on the right. -/
inductive Equal (t : HostTable κ) : Operand → Operand → Prop
  | integers {i j : Integer} (value : i.value = j.value) : Equal t (.integer i) (.integer j)
  | canonical (i : Integer) : Equal t (.integer i) (.bytes i.toBytes)
  | bytes (b : Bytes) : Equal t (.bytes b) (.bytes b)
  | nothing : Equal t (.host none) (.host none)
  /-- An object equals itself, whatever its type says. -/
  | object (h : Handle) : Equal t (.host (some h)) (.host (some h))
  | values {h k : Handle} (same : t.same h k = true) : Equal t (.host (some h)) (.host (some k))
  | pointers (position : UInt32) : Equal t (.pointer position) (.pointer position)

variable {t : HostTable κ} {a b c : Operand}

theorem equal_of_equals (h : a.equals t b = true) : Equal t a b := by
  cases a with
  | integer i =>
    cases b with
    | integer j => exact .integers (Integer.beq_iff.mp h)
    | bytes b =>
      rw [← eq_of_beq (show (i.toBytes == b) = true from h)]
      exact .canonical i
    | host _ | pointer _ => cases h
  | bytes a =>
    cases b with
    | bytes b =>
      rw [eq_of_beq (show (a == b) = true from h)]
      exact .bytes b
    | integer _ | host _ | pointer _ => cases h
  | host a =>
    cases b with
    | host b =>
      cases a with
      | none =>
        cases b with
        | none => exact .nothing
        | some _ => cases h
      | some a =>
        cases b with
        | none => cases h
        | some b =>
          rcases Bool.or_eq_true_iff.mp (show (a == b || t.same a b) = true from h) with one | same
          · rw [eq_of_beq one]
            exact .object b
          · exact .values same
    | integer _ | bytes _ | pointer _ => cases h
  | pointer a =>
    cases b with
    | pointer b =>
      rw [eq_of_beq (show (a == b) = true from h)]
      exact .pointers b
    | integer _ | bytes _ | host _ => cases h

theorem equals_iff : a.equals t b = true ↔ Equal t a b := by
  constructor
  · exact equal_of_equals
  · intro h
    cases h with
    | integers value => exact Integer.beq_iff.mpr value
    | canonical i => exact beq_self_eq_true i.toBytes
    | bytes b => exact beq_self_eq_true b
    | nothing => rfl
    | object h => simp [equals, sameHost]
    | values same => simp [equals, sameHost, same]
    | pointers position => exact beq_self_eq_true position

namespace Equal

theorem refl (t : HostTable κ) (a : Operand) : Equal t a a := by
  cases a with
  | integer i => exact .integers rfl
  | bytes b => exact .bytes b
  | host handle =>
    cases handle with
    | none => exact .nothing
    | some h => exact .object h
  | pointer position => exact .pointers position

theorem trans (transitive : t.Transitive) (first : Equal t a b) (second : Equal t b c) :
    Equal t a c := by
  cases first with
  | @integers i j value =>
    cases second with
    | integers value' => exact .integers (value.trans value')
    | canonical =>
      have one_form : i.toBytes = j.toBytes := congrArg TwosComplement.encode value
      rw [← one_form]
      exact .canonical i
  | canonical i =>
    cases second with
    | bytes => exact .canonical i
  | bytes => exact second
  | nothing => exact second
  | object => exact second
  | values same =>
    cases second with
    | object => exact .values same
    | values same' => exact .values (transitive.same_trans same same')
  | pointers => exact second

/-- Operands of different kinds are equal only as an integer and its canonical
bytes. -/
theorem kinds (h : Equal t a b) : a.kind = b.kind ∨ ∃ i, a = .integer i ∧ b = .bytes i.toBytes := by
  cases h with
  | canonical i => exact .inr ⟨i, rfl, rfl⟩
  | integers | bytes | nothing | object | values | pointers => exact .inl rfl

theorem not_bytes_integer (b : Bytes) (i : Integer) : ¬ Equal t (.bytes b) (.integer i) := nofun

theorem symm (symmetric : t.Symmetric) (h : Equal t a b) :
    Equal t b a ∨ ∃ i, a = .integer i ∧ b = .bytes i.toBytes := by
  cases h with
  | integers value => exact .inl (.integers value.symm)
  | canonical i => exact .inr ⟨i, rfl, rfl⟩
  | bytes b => exact .inl (.bytes b)
  | nothing => exact .inl .nothing
  | object h => exact .inl (.object h)
  | values same => exact .inl (.values (symmetric.same_symm same))
  | pointers position => exact .inl (.pointers position)

end Equal

theorem equals_integer_bytes {i : Integer} {bytes : Bytes} :
    (Operand.integer i).equals t (.bytes bytes) = true ↔ bytes = i.toBytes := by
  rw [equals_iff]
  constructor
  · rintro ⟨⟩
    rfl
  · rintro rfl
    exact .canonical i

theorem equals_ne_iff (symmetric : t.Symmetric) :
    a.equals t b ≠ b.equals t a ↔
      ∃ i, a = .integer i ∧ b = .bytes i.toBytes ∨ b = .integer i ∧ a = .bytes i.toBytes := by
  constructor
  · intro differ
    -- One of the two comparisons holds and the other does not.
    rcases Bool.eq_false_or_eq_true (a.equals t b) with left | left
    · have right : ¬ Equal t b a := fun h => differ (left.trans (equals_iff.mpr h).symm)
      obtain ⟨i, pair⟩ := ((equals_iff.mp left).symm symmetric).resolve_left right
      exact ⟨i, .inl pair⟩
    · have right : b.equals t a = true := by
        rw [left] at differ
        exact eq_true_of_ne_false differ.symm
      have left : ¬ Equal t a b := fun h => differ ((equals_iff.mpr h).trans right.symm)
      obtain ⟨i, pair⟩ := ((equals_iff.mp right).symm symmetric).resolve_left left
      exact ⟨i, .inr pair⟩
  · have one_way (i : Integer) :
        (Operand.integer i).equals t (.bytes i.toBytes) ≠ (Operand.bytes i.toBytes).equals t (.integer i) := by
      rw [equals_iff.mpr (.canonical i)]
      exact fun h => Equal.not_bytes_integer _ _ (equals_iff.mp h.symm)
    rintro ⟨i, ⟨rfl, rfl⟩ | ⟨rfl, rfl⟩⟩
    · exact one_way i
    · exact (one_way i).symm

end Operand

/-! ## The laws of equality -/

/-- A copy goes to a new register, and leaves the others as they are. -/
theorem Bank.perform_copy {b b' : Bank κ} {i : Nat} {r : Bank.Reply κ}
    (h : b.perform (.copy i) = some (r, b')) :
    ∃ a, b.registers[i]? = some a ∧ b' = b.append a := by
  obtain ⟨a, found, same⟩ := Option.map_eq_some_iff.mp h
  cases same
  exact ⟨a, found, rfl⟩

namespace Operand

/-- Equality is a preorder if the host types compare transitively, and but for
integers and their canonical bytes it is an equivalence if they also compare
symmetrically. -/
theorem equals_preorder (t : HostTable κ) :
    (∀ a : Operand, a.equals t a = true) ∧
    (∀ (b b' : Bank κ) i r, b.perform (.copy i) = some (r, b') →
      ∃ a copy, b'.registers[i]? = some a ∧ b'.registers[b.registers.size]? = some copy ∧
        a.equals b'.table copy = true ∧ copy.equals b'.table a = true) ∧
    (t.Transitive → ∀ a b c : Operand,
      a.equals t b = true → b.equals t c = true → a.equals t c = true) ∧
    (∀ a b : Operand, a.kind ≠ b.kind →
      (a.equals t b = true ↔ ∃ i, a = .integer i ∧ b = .bytes i.toBytes)) ∧
    (t.Symmetric → ∀ a b : Operand, a.equals t b ≠ b.equals t a ↔
      ∃ i, a = .integer i ∧ b = .bytes i.toBytes ∨ b = .integer i ∧ a = .bytes i.toBytes) ∧
    (∀ i : Integer, Canonical i.value i.toBytes ∧
      ∃! bytes, (Operand.integer i).equals t (.bytes bytes) = true) ∧
    (∀ (i j : Integer) bytes, (Operand.integer i).equals t (.bytes bytes) = true →
      (Operand.integer j).equals t (.bytes bytes) = true → i.value = j.value) := by
  refine ⟨?reflexive, ?copy, ?transitive, ?kinds, ?one_way, ?one_form, ?one_value⟩
  case reflexive =>
    intro a
    exact equals_iff.mpr (Equal.refl t a)
  case copy =>
    intro b b' i r h
    obtain ⟨a, found, rfl⟩ := Bank.perform_copy h
    have bound := (Array.getElem?_eq_some_iff.mp found).1
    have same := equals_iff.mpr (Equal.refl b.table a)
    refine ⟨a, a, ?_, Array.getElem?_push_size, same, same⟩
    rwa [Bank.append, Array.getElem?_push_lt bound, ← Array.getElem?_eq_getElem bound]
  case transitive =>
    intro transitive a b c first second
    exact equals_iff.mpr ((equals_iff.mp first).trans transitive (equals_iff.mp second))
  case kinds =>
    intro a b differ
    rw [equals_iff]
    constructor
    · intro h
      exact h.kinds.resolve_left differ
    · rintro ⟨i, rfl, rfl⟩
      exact .canonical i
  case one_way =>
    intro symmetric a b
    exact equals_ne_iff symmetric
  case one_form =>
    intro i
    refine ⟨i.canonical_toBytes, i.toBytes, equals_integer_bytes.mpr rfl, ?_⟩
    intro bytes h
    exact equals_integer_bytes.mp h
  case one_value =>
    intro i j bytes first second
    have same : i.toBytes = j.toBytes :=
      (equals_integer_bytes.mp first).symm.trans (equals_integer_bytes.mp second)
    exact TwosComplement.encode_injective same

/-- Two host objects that are equal numbers and one that its type takes for
different from itself, and an integer with and without a known length beside
its canonical bytes. -/
def assorted : Bank Sample where
  table := ⟨#[⟨.never, (7 : Int)⟩, ⟨.number, (3 : Int)⟩, ⟨.number, (3 : Int)⟩]⟩
  registers := #[.host (some ⟨0⟩), .host (some ⟨1⟩), .host (some ⟨2⟩), .integer (.ofInt 128),
    .integer (Integer.ofInt 128).measured, .bytes [128, 0]]

theorem assorted_comparisons : assorted.table.Transitive ∧ assorted.table.Symmetric := by
  have kinds : ∀ o ∈ assorted.table.objects, o.kind = .never ∨ o.kind = .number := by
    simp [assorted]
  constructor
  · rintro ⟨kind, value⟩ mem x y z first second
    rcases kinds _ mem with rfl | rfl
    · cases first
    · have first : x = y := eq_of_beq (α := Int) first
      rwa [first]
  · rintro ⟨kind, value⟩ mem x y same
    rcases kinds _ mem with rfl | rfl
    · cases same
    · have same : x = y := eq_of_beq (α := Int) same
      rw [same]
      exact beq_self_eq_true (α := Int) y

theorem assorted_equals :
    let t := assorted.table
    let never := Operand.host (some ⟨0⟩)
    let i := Integer.ofInt 128
    let x := Operand.integer i
    let y := Operand.integer i.measured
    let z := Operand.bytes [128, 0]
    t.same ⟨0⟩ ⟨0⟩ = false ∧ never.equals t never = true ∧
      (∃ b, assorted.perform (.copy 0) = some (.kind .host, b) ∧
        ∃ a copy, b.registers[0]? = some a ∧ b.registers[6]? = some copy ∧
          a.equals b.table copy = true ∧ copy.equals b.table a = true) ∧
      x.equals t y = true ∧ y.equals t z = true ∧ x.equals t z = true ∧
      x.equals t z ≠ z.equals t x ∧ i.value = i.measured.value := by
  intro t never i x y z
  obtain ⟨reflexive, copy, transitive, kinds, one_way, _, one_value⟩ :=
    equals_preorder (κ := Sample) assorted.table
  obtain ⟨transitive_here, symmetric_here⟩ := assorted_comparisons
  have form : Operand.bytes [128, 0] = .bytes i.toBytes := by
    rw [show i.toBytes = [128, 0] by decide +kernel]
  have first : x.equals t y = true := rfl
  have second : y.equals t z = true := (kinds y z (by decide)).mpr ⟨i.measured, rfl, form⟩
  have third : x.equals t z = true := transitive transitive_here x y z first second
  refine ⟨rfl, reflexive never, ⟨_, rfl, copy assorted _ 0 _ rfl⟩, first, second, third, ?_, ?_⟩
  · exact (one_way symmetric_here x z).mpr ⟨i, .inl ⟨rfl, form⟩⟩
  · exact one_value i i.measured [128, 0] third second

/-- Equal operands are alike as truth values, as bytes and in length. -/
theorem equals_congruence {t : HostTable κ} {a b : Operand} (h : a.equals t b = true) :
    a.truthy = b.truthy ∧ a.toBytes = b.toBytes ∧ a.byteLength = b.byteLength := by
  cases equals_iff.mp h with
  | @integers i j value =>
    have one_form : i.toBytes = j.toBytes := congrArg TwosComplement.encode value
    have one_length : i.byteLength = j.byteLength := by
      rw [i.byteLength_eq, j.byteLength_eq, one_form]
    refine ⟨?_, congrArg Except.ok one_form, congrArg Except.ok one_length⟩
    show decide (i.value ≠ 0) = decide (j.value ≠ 0)
    rw [value]
  | canonical i => exact ⟨(TwosComplement.any_encode i.value).symm, rfl, congrArg Except.ok i.byteLength_eq⟩
  | bytes | nothing | object | values | pointers => exact ⟨rfl, rfl, rfl⟩

/-- An integer whose length is known, and its bytes: both are true, and of two
bytes. -/
theorem equals_congruence_of_measured :
    let x := Operand.integer (Integer.ofInt 128).measured
    let z := Operand.bytes [128, 0]
    x.equals assorted.table z = true ∧
      x.truthy = z.truthy ∧ x.toBytes = z.toBytes ∧ x.byteLength = z.byteLength := by
  intro x z
  have form : (Integer.ofInt 128).measured.toBytes = [128, 0] := by decide +kernel
  have same : x.equals assorted.table z = true := equals_integer_bytes.mpr form.symm
  exact ⟨same, equals_congruence same⟩

end Operand

end ScriptDebugger

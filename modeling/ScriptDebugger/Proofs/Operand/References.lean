/-
  References to host objects

  A session makes references, to new host objects or to nothing, and copies
  references, as operands or by sharing the object. Which references have one
  object can be told from the steps alone: those that come from one creation.

  What is proved:
    1. `Tracks.handle_eq_iff` — two references have one object exactly if one
       creation is behind both.
    2. `Interchangeable.refl` — a reference equals itself, whatever the type of
       its object takes for the same.
    3. `HostTable.downcast?_eq_map_view?` — a look at an object and a reference
       to it are given by two checks of its type, and these agree; hence what
       a host gets that asks for an object of a type (`ask?_view`,
       `ask?_downcast`).
    4. `references_interchangeable` — all of this for the registers of any
       session, by their creations.
-/
import ScriptDebugger.Operand.Samples
import ScriptDebugger.Proofs.Operand.Equality
import ScriptDebugger.Proofs.Operand.Lineage

namespace ScriptDebugger

variable {κ : Type} [HostKind κ]

namespace Bank

variable {b : Bank κ} {i : Nat} {h : Handle}

/-! ## References and their creations -/

namespace Tracks

variable {known : Array (Creation κ)} (tracks : Tracks b known)

include tracks

theorem reference_cases {x : Option Handle} (reference : b.reference? i = some x) :
    (x = none ∧ ∃ n, known[i]? = some ⟨n, .null⟩) ∨
      ∃ h n o, x = some h ∧ known[i]? = some ⟨n, .object o⟩ ∧ b.table.find? h = some o := by
  obtain ⟨⟨n, source⟩, behind, yields⟩ := tracks.exists_creation (reference?_eq_some_iff.mp reference)
  cases yields with
  | null => exact .inl ⟨rfl, n, behind⟩
  | object found => exact .inr ⟨_, n, _, rfl, behind, found⟩

/-- Two references have one object exactly if one creation is behind both. -/
theorem handle_eq_iff {j : Nat} {k : Handle} (first : b.reference? i = some (some h))
    (second : b.reference? j = some (some k)) : h = k ↔ known[i]? = known[j]? := by
  have there := reference?_eq_some_iff.mp first
  have there' := reference?_eq_some_iff.mp second
  obtain ⟨c, behind, -⟩ := tracks.exists_creation there
  obtain ⟨d, behind', -⟩ := tracks.exists_creation there'
  rw [tracks.object_iff ⟨i, behind, there⟩ ⟨j, behind', there'⟩, behind, behind', Option.some_inj]

/-- References that come from one creation are the same. -/
theorem reference_eq {j : Nat} {x y : Option Handle} (first : b.reference? i = some x)
    (second : b.reference? j = some y) (same : known[i]? = known[j]?) : x = y := by
  rcases tracks.reference_cases first with ⟨rfl, n, behind⟩ | ⟨h, n, o, rfl, behind, -⟩
  · rcases tracks.reference_cases second with ⟨rfl, -⟩ | ⟨k, m, p, rfl, behind', -⟩
    · rfl
    · rw [behind, behind'] at same
      cases same
  · rcases tracks.reference_cases second with ⟨rfl, m, behind'⟩ | ⟨k, m, p, rfl, behind', -⟩
    · rw [behind, behind'] at same
      cases same
    · exact congrArg some ((tracks.handle_eq_iff first second).mpr same)

end Tracks

end Bank

variable [DecidableEq κ]

/-! ## Comparisons -/

/-- Two operands are equal both ways, and no comparison with an operand tells
them apart. -/
structure Operand.Interchangeable (t : HostTable κ) (x y : Operand) : Prop where
  equal : x.equals t y = true
  equal_back : y.equals t x = true
  left : ∀ z : Operand, x.equals t z = y.equals t z
  right : ∀ z : Operand, z.equals t x = z.equals t y

theorem Operand.Interchangeable.refl (t : HostTable κ) (x : Operand) : Interchangeable t x x where
  equal := equals_iff.mpr (Equal.refl t x)
  equal_back := equals_iff.mpr (Equal.refl t x)
  left _ := rfl
  right _ := rfl

/-! ## Objects of a type -/

theorem HostObject.map_as? (o : HostObject κ) (kind : κ) :
    (o.as? kind).map (HostObject.mk kind) = if o.kind = kind then some o else none := by
  unfold as?
  split
  · rename_i same
    cases same
    rfl
  · rfl

/-- The two ways to an object check its type alike: one gives a reference
exactly where the other gives a look, and the look is at what is referred
to. -/
theorem HostTable.downcast?_eq_map_view? (t : HostTable κ) (h : Handle) (kind : κ) :
    t.downcast? h kind = (t.view? h kind).map (Shared.mk h) := by
  unfold downcast? view?
  cases t.find? h with
  | none => rfl
  | some o =>
    rw [Option.bind_some, HostObject.as?]
    by_cases same : o.kind = kind <;> simp [same]

namespace Bank

variable {b : Bank κ} {i : Nat} {h : Handle} {o : HostObject κ}

/-- A look at the object of a reference. -/
theorem ask?_view (reference : b.reference? i = some (some h)) (found : b.table.find? h = some o)
    (kind : κ) :
    b.ask? (.view i kind) = some (.view (if o.kind = kind then some o else none)) := by
  rw [ask?, reference, ← o.map_as? kind]
  simp [HostTable.view?, found]

/-- A reference to the object of a reference. -/
theorem ask?_downcast (reference : b.reference? i = some (some h))
    (found : b.table.find? h = some o) (kind : κ) :
    b.ask? (.downcast i kind) = some (.shared (if o.kind = kind then some (h, o) else none)) := by
  have paired : (if o.kind = kind then some (h, o) else none) =
      (if o.kind = kind then some o else none).map fun p => (h, p) := by
    split <;> rfl
  rw [ask?, reference, paired, ← o.map_as? kind]
  simp [HostTable.downcast?_eq_map_view?, HostTable.view?, found, Function.comp_def]

theorem ask?_view_null (reference : b.reference? i = some none) (kind : κ) :
    b.ask? (.view i kind) = some (.view none) := by
  rw [ask?, reference]
  rfl

theorem ask?_downcast_null (reference : b.reference? i = some none) (kind : κ) :
    b.ask? (.downcast i kind) = some (.shared none) := by
  rw [ask?, reference]
  rfl

/-- The operand in a register was made as a reference to the object, or comes
from one that was. -/
def MadeOf (steps : List (Step κ)) (i : Nat) (o : HostObject κ) : Prop :=
  ∃ n, (creations steps)[i]? = some ⟨n, .object o⟩

/-- What a host gets from a reference that it asks for an object of a type. -/
structure Retrieves (b : Bank κ) (steps : List (Step κ)) (i : Nat) (x : Option Handle) (kind : κ) :
    Prop where
  view_iff : (∃ o, b.ask? (.view i kind) = some (.view (some o))) ↔
    x ≠ none ∧ ∃ o, MadeOf steps i o ∧ o.kind = kind
  downcast_iff : (∃ r, b.ask? (.downcast i kind) = some (.shared (some r))) ↔
    x ≠ none ∧ ∃ o, MadeOf steps i o ∧ o.kind = kind
  /-- The value is that of the object the reference was made of, and so is the
  reference that is handed out. -/
  original : ∀ o, MadeOf steps i o → o.kind = kind → ∃ h, x = some h ∧
    b.ask? (.view i kind) = some (.view (some o)) ∧
    b.ask? (.downcast i kind) = some (.shared (some (h, o)))

theorem Tracks.retrieves {steps : List (Step κ)} (tracks : Tracks b (creations steps))
    {x : Option Handle} (reference : b.reference? i = some x) (kind : κ) :
    Retrieves b steps i x kind := by
  rcases tracks.reference_cases reference with ⟨rfl, n, behind⟩ | ⟨h, n, o, rfl, behind, found⟩
  · have no_object (o : HostObject κ) : ¬ MadeOf steps i o := by
      rintro ⟨m, behind'⟩
      rw [behind] at behind'
      cases behind'
    refine ⟨?_, ?_, fun o made => absurd made (no_object o)⟩
    · rw [ask?_view_null reference]
      simp
    · rw [ask?_downcast_null reference]
      simp
  · have made : MadeOf steps i o := ⟨n, behind⟩
    have unique {p : HostObject κ} (made' : MadeOf steps i p) : p = o := by
      obtain ⟨m, behind'⟩ := made'
      rw [behind] at behind'
      cases behind'
      rfl
    have view := ask?_view reference found kind
    have downcast := ask?_downcast reference found kind
    by_cases same : o.kind = kind
    · rw [if_pos same] at view downcast
      have asked : some h ≠ none ∧ ∃ p, MadeOf steps i p ∧ p.kind = kind := ⟨nofun, o, made, same⟩
      refine ⟨iff_of_true ⟨o, view⟩ asked, iff_of_true ⟨(h, o), downcast⟩ asked, ?_⟩
      rintro p made' -
      obtain rfl := unique made'
      exact ⟨h, rfl, view, downcast⟩
    · rw [if_neg same] at view downcast
      have other {p : HostObject κ} (made' : MadeOf steps i p) : p.kind ≠ kind := by
        rwa [unique made']
      have asked : ¬ (some h ≠ none ∧ ∃ p, MadeOf steps i p ∧ p.kind = kind) :=
        fun ⟨_, _, made', of_kind⟩ => other made' of_kind
      refine ⟨iff_of_false ?_ asked, iff_of_false ?_ asked, ?_⟩
      · simp [view]
      · simp [downcast]
      · intro p made' of_kind
        exact absurd of_kind (other made')

/-! ## References of a session -/

/-- Two references have one object exactly if they come from one creation;
then nothing tells them apart, and neither does anything where both refer to
nothing. A host gets the object that a reference was made of, asked for as one
of its type, and nothing otherwise. -/
theorem references_interchangeable {steps : List (Step κ)} {replies : List (Reply κ)} {b : Bank κ}
    (session : empty.performAll steps = some (replies, b)) :
    (∀ (i j : Nat) h k, b.reference? i = some (some h) → b.reference? j = some (some k) →
      (h = k ↔ (creations steps)[i]? = (creations steps)[j]?)) ∧
    (∀ (i j : Nat) x y, b.reference? i = some x → b.reference? j = some y →
      (creations steps)[i]? = (creations steps)[j]? ∨ x = none ∧ y = none →
      Operand.Interchangeable b.table (.host x) (.host y)) ∧
    ∀ i x kind, b.reference? i = some x → Retrieves b steps i x kind := by
  have tracks := tracks_creations session
  refine ⟨?object, ?comparisons, ?retrieval⟩
  case object =>
    intro i j h k first second
    exact tracks.handle_eq_iff first second
  case comparisons =>
    intro i j x y first second alike
    obtain rfl : x = y := by
      rcases alike with same | ⟨rfl, rfl⟩
      · exact tracks.reference_eq first second same
      · rfl
    exact Operand.Interchangeable.refl b.table (.host x)
  case retrieval =>
    intro i x kind reference
    exact tracks.retrieves reference kind

/-- Three references to one object that does not equal itself, one to another
object with the same value, and two to nothing. -/
theorem references_interchangeable_of_never :
    let o : HostObject Sample := ⟨.never, (7 : Int)⟩
    let steps : List (Step Sample) := [.make (.object o), .copy 0, .share 1, .make (.object o),
      .make .null, .make .null]
    ∃ replies b, empty.performAll steps = some (replies, b) ∧ o.same o = false ∧
      b.reference? 0 = some (some ⟨0⟩) ∧ b.reference? 2 = some (some ⟨0⟩) ∧
      (Operand.host (some ⟨0⟩)).equals b.table (.host (some ⟨0⟩)) = true ∧
      b.reference? 3 = some (some ⟨1⟩) ∧ (creations steps)[0]? ≠ (creations steps)[3]? ∧
      (Operand.host none).equals b.table (.host none) = true ∧
      b.ask? (.view 2 .never) = some (.view (some o)) ∧
      b.ask? (.downcast 2 .never) = some (.shared (some (⟨0⟩, o))) ∧
      ¬ ∃ p, b.ask? (.view 2 .number) = some (.view (some p)) := by
  intro o steps
  refine ⟨_, _, rfl, rfl, rfl, rfl, ?_⟩
  obtain ⟨object, comparisons, retrieval⟩ := @references_interchangeable Sample _ _ steps _ _ rfl
  have alike := comparisons 0 2 _ _ rfl rfl (.inl rfl)
  have nothing := comparisons 4 5 _ _ rfl rfl (.inr ⟨rfl, rfl⟩)
  have distinct : (creations steps)[0]? ≠ (creations steps)[3]? :=
    fun same => absurd ((object 0 3 ⟨0⟩ ⟨1⟩ rfl rfl).mpr same) (by decide)
  obtain ⟨h, first, view, downcast⟩ := (retrieval 2 _ .never rfl).original o ⟨0, rfl⟩ rfl
  cases first
  refine ⟨alike.equal, rfl, distinct, nothing.equal, view, downcast, ?_⟩
  rw [(retrieval 2 _ .number rfl).view_iff]
  rintro ⟨-, p, ⟨n, made⟩, kind⟩
  cases made
  cases kind

end Bank

end ScriptDebugger

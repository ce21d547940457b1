/-
  Where operands come from

  A bank makes operands, copies them, and reads integers from the bytes of
  operands. Whatever is in a register comes down, in the end, from one operand
  that was made: its creation. `creations` finds out from the steps alone, of
  which none is carried out, which creation is behind each register.

  What is proved:
    1. `Source.Yields.decode` — an integer that is read from the bytes of an
       operand is of the number that was made.
    2. `Tracks.perform` — a step keeps the creations in step with the
       registers. Two references have one object exactly if they have one
       creation.
    3. `tracks_creations` — so they are in step after any session.
-/
import ScriptDebugger.Operand.Bank
import ScriptDebugger.Proofs.Operand.TwosComplement

namespace ScriptDebugger.Bank

variable {κ : Type} [HostKind κ]

/-! ## Creations -/

/-- What an operand comes from: the register that was made, and of what. -/
structure Creation (κ : Type) [HostKind κ] where
  register : Nat
  source : Source κ

/-- The integer that the bytes of what is made stand for, if it has bytes. -/
def Source.number? : Source κ → Option Int
  | .integer n => some n
  | .decoded b => some (TwosComplement.decode b)
  | .bytes b => some (TwosComplement.decode b)
  | .pointer _ | .null | .object _ => none

/-- The creations behind the registers after one more step: a new one for an
operand that is made, that of its source for a copy and for an integer that is
read. -/
def note (known : Array (Creation κ)) : Step κ → Array (Creation κ)
  | .make source => known.push ⟨known.size, source⟩
  | .copy i | .share i =>
    match known[i]? with
    | some creation => known.push creation
    | none => known
  | .decode i =>
    match known[i]? with
    | some creation => if creation.source.number?.isSome then known.push creation else known
    | none => known
  | _ => known

/-- The creations behind the registers that steps fill. -/
def creations (steps : List (Step κ)) : Array (Creation κ) := steps.foldl note #[]

/-! ## What a creation yields -/

/-- The operands that come from what was made: the operand itself, and integers
of its number, however they were read and whether or not their length is
known. -/
inductive Source.Yields (t : HostTable κ) : Source κ → Operand → Prop
  | integer {source : Source κ} {i : Integer} (number : source.number? = some i.value) :
      Yields t source (.integer i)
  | bytes (b : Bytes) : Yields t (.bytes b) (.bytes b)
  | pointer (position : UInt32) : Yields t (.pointer position) (.pointer position)
  | null : Yields t .null (.host none)
  | object {o : HostObject κ} {h : Handle} (found : t.find? h = some o) :
      Yields t (.object o) (.host (some h))

namespace Source.Yields

variable {t t' : HostTable κ} {source : Source κ} {x : Operand}

theorem mono (grows : ∀ h o, t.find? h = some o → t'.find? h = some o)
    (yields : source.Yields t x) : source.Yields t' x := by
  cases yields with
  | integer number => exact .integer number
  | bytes b => exact .bytes b
  | pointer position => exact .pointer position
  | null => exact .null
  | object found => exact .object (grows _ _ found)

theorem measured (yields : source.Yields t x) : source.Yields t x.measured := by
  cases yields with
  | integer number => exact .integer number
  | bytes b => exact .bytes b
  | pointer position => exact .pointer position
  | null => exact .null
  | object found => exact .object found

/-- An integer that is read from the bytes of an operand comes from the
creation of the operand. -/
theorem decode {bytes : Bytes} (yields : source.Yields t x) (form : x.toBytes = .ok bytes) :
    source.Yields t (.integer (.ofBytes bytes)) := by
  cases yields with
  | @integer _ i number =>
    cases form
    have same : (Integer.ofBytes i.toBytes).value = i.value := TwosComplement.decode_encode i.value
    exact .integer (same ▸ number)
  | bytes b =>
    cases form
    exact .integer rfl
  | pointer | null | object => cases form

/-- What has no number has no bytes to read either. -/
theorem toBytes_cases (yields : source.Yields t x) :
    (∃ bytes, x.toBytes = .ok bytes ∧ source.number?.isSome = true) ∨
      ∃ refusal, x.toBytes = .error refusal ∧ source.number?.isSome = false := by
  cases yields with
  | @integer _ i number => exact .inl ⟨i.toBytes, rfl, by rw [number, Option.isSome_some]⟩
  | bytes b => exact .inl ⟨b, rfl, rfl⟩
  | pointer | null | object => exact .inr ⟨_, rfl, rfl⟩

end Source.Yields

/-! ## Creations in step with registers -/

theorem getElem?_push_of_some {α : Type} {xs : Array α} {i : Nat} {x : α} (there : xs[i]? = some x)
    (y : α) : (xs.push y)[i]? = some x := by
  have bound := (Array.getElem?_eq_some_iff.mp there).1
  rwa [Array.getElem?_push_lt bound, ← Array.getElem?_eq_getElem bound]

/-- A register holds the operand, and the creation is behind it. -/
def Comes (registers : Array Operand) (known : Array (Creation κ)) (creation : Creation κ)
    (x : Operand) : Prop :=
  ∃ i : Nat, known[i]? = some creation ∧ registers[i]? = some x

section

variable {registers : Array Operand} {known : Array (Creation κ)} {creation new : Creation κ}
  {x y : Operand}

theorem comes_push (size : known.size = registers.size) :
    Comes (registers.push y) (known.push new) creation x ↔
      Comes registers known creation x ∨ creation = new ∧ x = y := by
  constructor
  · rintro ⟨i, behind, holds⟩
    rw [Array.getElem?_push, size] at behind
    rw [Array.getElem?_push] at holds
    by_cases last : i = registers.size
    · rw [if_pos last] at behind holds
      exact .inr ⟨(Option.some.inj behind).symm, (Option.some.inj holds).symm⟩
    · rw [if_neg last] at behind holds
      exact .inl ⟨i, behind, holds⟩
  · rintro (⟨i, behind, holds⟩ | ⟨rfl, rfl⟩)
    · exact ⟨i, getElem?_push_of_some behind new, getElem?_push_of_some holds y⟩
    · exact ⟨registers.size, size ▸ Array.getElem?_push_size, Array.getElem?_push_size⟩

theorem comes_of_measured {slot : Nat}
    (comes : Comes (registers.modify slot Operand.measured) known creation x) :
    ∃ y, Comes registers known creation y ∧ (x = y ∨ x = y.measured) := by
  obtain ⟨i, behind, holds⟩ := comes
  rw [Array.getElem?_modify] at holds
  split at holds
  · obtain ⟨y, there, rfl⟩ := Option.map_eq_some_iff.mp holds
    exact ⟨y, ⟨i, behind, there⟩, .inr rfl⟩
  · exact ⟨x, ⟨i, behind, holds⟩, .inl rfl⟩

theorem comes_host_of_measured {slot : Nat} {handle : Option Handle}
    (comes : Comes (registers.modify slot Operand.measured) known creation (.host handle)) :
    Comes registers known creation (.host handle) := by
  obtain ⟨y, there, rfl | same⟩ := comes_of_measured comes
  · exact there
  · cases y with
    | host => rwa [same]
    | integer | bytes | pointer => cases same

end

/-- The creations are those of the registers: every operand is one that its
creation yields, and two references have one object exactly if they have one
creation. -/
structure Tracks (b : Bank κ) (known : Array (Creation κ)) : Prop where
  size : known.size = b.registers.size
  earlier : ∀ {creation x}, Comes b.registers known creation x → creation.register < known.size
  yields : ∀ {creation x}, Comes b.registers known creation x → creation.source.Yields b.table x
  object_iff : ∀ {c d h k}, Comes b.registers known c (.host (some h)) →
    Comes b.registers known d (.host (some k)) → (h = k ↔ c = d)

theorem tracks_empty : Tracks (empty : Bank κ) #[] where
  size := rfl
  earlier := fun ⟨_, behind, _⟩ => nomatch behind
  yields := fun ⟨_, behind, _⟩ => nomatch behind
  object_iff := fun ⟨_, behind, _⟩ => nomatch behind

namespace Tracks

variable {b : Bank κ} {known : Array (Creation κ)} (tracks : Tracks b known)

include tracks

/-- The creation behind a register, if there is the register. -/
theorem exists_creation {i : Nat} {x : Operand} (there : b.registers[i]? = some x) :
    ∃ creation, known[i]? = some creation ∧ creation.source.Yields b.table x := by
  have bound : i < known.size := tracks.size ▸ (Array.getElem?_eq_some_iff.mp there).1
  have behind := Array.getElem?_eq_getElem bound
  exact ⟨known[i], behind, tracks.yields ⟨i, behind, there⟩⟩

theorem index_lt {creation : Creation κ} {h : Handle}
    (comes : Comes b.registers known creation (.host (some h))) :
    h.index < b.table.objects.size := by
  obtain ⟨register, source⟩ := creation
  cases tracks.yields comes with
  | object found => exact (Array.getElem?_eq_some_iff.mp found).1

/-- A further operand and its creation, where the creation says which of the
objects the operand refers to. -/
theorem push {table : HostTable κ} {new : Creation κ} {x : Operand}
    (grows : ∀ h o, b.table.find? h = some o → table.find? h = some o)
    (bound : new.register ≤ known.size) (yield : new.source.Yields table x)
    (object_iff : ∀ {h k d}, x = .host (some h) →
      Comes b.registers known d (.host (some k)) → (h = k ↔ new = d)) :
    Tracks ⟨table, b.registers.push x⟩ (known.push new) where
  size := by rw [Array.size_push, Array.size_push, tracks.size]
  earlier := by
    intro creation y comes
    rw [Array.size_push, Nat.lt_succ_iff]
    rcases (comes_push tracks.size).mp comes with before | ⟨rfl, rfl⟩
    · exact Nat.le_of_lt (tracks.earlier before)
    · exact bound
  yields := by
    intro creation y comes
    rcases (comes_push tracks.size).mp comes with before | ⟨rfl, rfl⟩
    · exact (tracks.yields before).mono grows
    · exact yield
  object_iff := by
    intro c d h k first second
    rcases (comes_push tracks.size).mp first with old | ⟨rfl, holds⟩
    · rcases (comes_push tracks.size).mp second with old' | ⟨rfl, holds'⟩
      · exact tracks.object_iff old old'
      · rw [eq_comm, object_iff holds'.symm old, eq_comm]
    · rcases (comes_push tracks.size).mp second with old' | ⟨rfl, holds'⟩
      · exact object_iff holds.symm old'
      · have same := holds.trans holds'.symm
        cases same
        exact iff_of_true rfl rfl

/-- A further operand of a creation that is behind a register already. -/
theorem again {i : Nat} {creation : Creation κ} {x y : Operand}
    (behind : known[i]? = some creation) (there : b.registers[i]? = some x)
    (yield : creation.source.Yields b.table y) (object : ∀ h, y = .host (some h) → y = x) :
    Tracks (b.append y) (known.push creation) := by
  have comes : Comes b.registers known creation x := ⟨i, behind, there⟩
  refine tracks.push (fun _ _ found => found) (Nat.le_of_lt (tracks.earlier comes)) yield ?_
  rintro h k d rfl other
  rw [← object h rfl] at comes
  exact tracks.object_iff comes other

theorem measure (slot : Nat) :
    Tracks { b with registers := b.registers.modify slot Operand.measured } known where
  size := by rw [Array.size_modify, tracks.size]
  earlier := by
    intro creation x comes
    obtain ⟨y, there, -⟩ := comes_of_measured comes
    exact tracks.earlier there
  yields := by
    intro creation x comes
    obtain ⟨y, there, rfl | rfl⟩ := comes_of_measured comes
    · exact tracks.yields there
    · exact (tracks.yields there).measured
  object_iff := fun first second =>
    tracks.object_iff (comes_host_of_measured first) (comes_host_of_measured second)

theorem make (source : Source κ) :
    Tracks ((b.make source).2.append (b.make source).1) (known.push ⟨known.size, source⟩) := by
  have bound : (⟨known.size, source⟩ : Creation κ).register ≤ known.size := Nat.le_refl _
  cases source with
  | integer n => exact tracks.push (fun _ _ found => found) bound (.integer rfl) nofun
  | decoded bytes => exact tracks.push (fun _ _ found => found) bound (.integer rfl) nofun
  | bytes bytes => exact tracks.push (fun _ _ found => found) bound (.bytes bytes) nofun
  | pointer position => exact tracks.push (fun _ _ found => found) bound (.pointer position) nofun
  | null => exact tracks.push (fun _ _ found => found) bound .null nofun
  | object o =>
    have grows : ∀ h p, b.table.find? h = some p → (b.table.register o).2.find? h = some p :=
      fun h p found => getElem?_push_of_some found o
    refine tracks.push grows bound (.object Array.getElem?_push_size) ?_
    -- No register has the new handle yet, and none the new creation.
    rintro h k d ⟨⟩ other
    refine iff_of_false ?_ ?_
    · rintro rfl
      exact absurd (tracks.index_lt other) (Nat.lt_irrefl _)
    · rintro rfl
      exact absurd (tracks.earlier other) (Nat.lt_irrefl _)

end Tracks

/-! ## Sessions -/

theorem reference?_eq_some_iff {b : Bank κ} {i : Nat} {handle : Option Handle} :
    b.reference? i = some handle ↔ b.registers[i]? = some (.host handle) := by
  unfold reference?
  cases b.registers[i]? with
  | none => simp
  | some x => cases x <;> simp

variable [DecidableEq κ]

/-- A step keeps the creations in step with the registers. -/
theorem Tracks.perform {b c : Bank κ} {known : Array (Creation κ)} (tracks : Tracks b known)
    {s : Step κ} {r : Reply κ} (h : b.perform s = some (r, c)) : Tracks c (note known s) := by
  have question {s : Step κ} (h : ((b.ask? s).map fun r => (r, b)) = some (r, c)) :
      Tracks c known := by
    obtain ⟨_, _, same⟩ := Option.map_eq_some_iff.mp h
    cases same
    exact tracks
  cases s with
  | make source =>
    cases h
    exact tracks.make source
  | copy i =>
    obtain ⟨x, there, same⟩ := Option.map_eq_some_iff.mp h
    cases same
    obtain ⟨creation, behind, yields⟩ := tracks.exists_creation there
    rw [note, behind]
    exact tracks.again behind there yields (fun _ _ => rfl)
  | share i =>
    obtain ⟨handle, reference, same⟩ := Option.map_eq_some_iff.mp h
    cases same
    have there := reference?_eq_some_iff.mp reference
    obtain ⟨creation, behind, yields⟩ := tracks.exists_creation there
    rw [note, behind]
    exact tracks.again behind there yields (fun _ _ => rfl)
  | decode i =>
    obtain ⟨x, there, same⟩ := Option.map_eq_some_iff.mp h
    obtain ⟨creation, behind, yields⟩ := tracks.exists_creation there
    rcases yields.toBytes_cases with ⟨bytes, form, has⟩ | ⟨refusal, form, has⟩
    · rw [form] at same
      cases same
      simp only [note, behind, has, if_true]
      exact tracks.again behind there (yields.decode form) nofun
    · rw [form] at same
      cases same
      simpa only [note, behind, has, Bool.false_eq_true, if_false] using tracks
  | byteLength i =>
    obtain ⟨_, _, same⟩ := Option.map_eq_some_iff.mp h
    cases same
    exact tracks.measure i
  | matrix => exact question (s := .matrix) h
  | _ => exact question h

theorem Tracks.performAll {b c : Bank κ} {known : Array (Creation κ)} (tracks : Tracks b known)
    {steps : List (Step κ)} {replies : List (Reply κ)}
    (h : b.performAll steps = some (replies, c)) : Tracks c (steps.foldl note known) := by
  induction steps generalizing b known replies with
  | nil =>
    cases h
    exact tracks
  | cons s steps ih =>
    obtain ⟨_, _, _, now, later, _⟩ := performAll_cons_eq_some h
    exact ih (tracks.perform now) later

/-- The creations that the steps of a session tell of are those of its
registers. -/
theorem tracks_creations {b : Bank κ} {steps : List (Step κ)} {replies : List (Reply κ)}
    (session : empty.performAll steps = some (replies, b)) : Tracks b (creations steps) :=
  tracks_empty.performAll session

/-- The shared object is that of register 0, through its copy. -/
example (o : HostObject κ) :
    (creations [.make (.object o), .copy 0, .make (.object o), .share 1]).toList.map
      (·.register) = [0, 0, 2, 0] := rfl

end ScriptDebugger.Bank

/-
  Indexes and the sets they stand for

  Hosts keep any number of indexes, change them, copy them and read them from
  bytes. To each of these operations corresponds one on finite sets of
  locations (`effect`), which also says what the operation replies
  (`answer`). A shelf of indexes, all empty at first, follows the shelf of
  sets through every history of operations: each index shows of its set
  whatever can be shown (`Holds`), and indexes are equal exactly if their sets
  are (`history_refines`).

  Reading has a set of its own: the one that the decoded entries describe.
-/
import Mathlib.Logic.Function.Basic
import ScriptDebugger.Proofs.Breakpoints.Contents
import ScriptDebugger.Proofs.Wire.Delimited

namespace ScriptDebugger.Breakpoints

/-- What a host does with the indexes in its slots. -/
inductive Operation where
  | insert (slot : Nat) (l : Location)
  | remove (slot : Nat) (l : Location)
  | clear (slot : Nat)
  /-- Puts a copy of one index into the slot of another. -/
  | copy (source target : Nat)
  /-- Puts the index at the front of the bytes into a slot. -/
  | load (slot : Nat) (bytes : Bytes)
  deriving DecidableEq, Repr

/-- The locations that the bytes of an index describe. -/
def decoded (bytes : Bytes) : Finset Location :=
  match readEntries bytes with
  | .ok (entries, _) => locationsOf entries
  | .error _ => ∅

theorem holds_of_load {bytes : Bytes} {b : Breakpoints} (h : load bytes = .ok b) :
    b.Holds (decoded bytes) := by
  obtain ⟨entries, first, rfl⟩ := Wire.map_eq_ok_iff.mp h
  obtain ⟨⟨entries', rest⟩, read, rfl⟩ := Wire.map_eq_ok_iff.mp first
  rw [decoded, read]
  exact holds_ofEntries entries'

namespace Operation

/-- Carries out an operation; the reply tells whether it changed something, as
far as the operation lets a host know. It fails if there is no index to be
read. -/
def perform : Operation → (Nat → Breakpoints) → Except Wire.Fault (Bool × (Nat → Breakpoints))
  | .insert slot l, shelf =>
    let (absent, b) := (shelf slot).insert l
    .ok (absent, Function.update shelf slot b)
  | .remove slot l, shelf =>
    let (present, b) := (shelf slot).remove l
    .ok (present, Function.update shelf slot b)
  | .clear slot, shelf => .ok (true, Function.update shelf slot .empty)
  | .copy source target, shelf => .ok (true, Function.update shelf target (shelf source))
  | .load slot bytes, shelf =>
    (Breakpoints.load bytes).map fun b => (true, Function.update shelf slot b)

/-- Carries out operations in order, until one fails. -/
def performAll : List Operation → (Nat → Breakpoints) →
    Except Wire.Fault (List Bool × (Nat → Breakpoints))
  | [], shelf => .ok ([], shelf)
  | op :: ops, shelf => do
    let (reply, shelf) ← op.perform shelf
    let (replies, shelf) ← performAll ops shelf
    return (reply :: replies, shelf)

/-- What an operation does to the sets of locations. -/
def effect : Operation → (Nat → Finset Location) → (Nat → Finset Location)
  | .insert slot l, sets => Function.update sets slot (Insert.insert l (sets slot))
  | .remove slot l, sets => Function.update sets slot ((sets slot).erase l)
  | .clear slot, sets => Function.update sets slot ∅
  | .copy source target, sets => Function.update sets target (sets source)
  | .load slot bytes, sets => Function.update sets slot (decoded bytes)

def effects (ops : List Operation) (sets : Nat → Finset Location) : Nat → Finset Location :=
  ops.foldl (fun sets op => op.effect sets) sets

/-- What an operation replies, by the sets of locations before it. -/
def answer : Operation → (Nat → Finset Location) → Bool
  | .insert slot l, sets => decide (l ∉ sets slot)
  | .remove slot l, sets => decide (l ∈ sets slot)
  | _, _ => true

/-- Every index on the shelf holds its set. -/
def Follows (shelf : Nat → Breakpoints) (sets : Nat → Finset Location) : Prop :=
  ∀ slot, (shelf slot).Holds (sets slot)

variable {shelf shelf' : Nat → Breakpoints} {sets : Nat → Finset Location}

theorem Follows.update (h : Follows shelf sets) {b : Breakpoints} {S : Finset Location}
    (holds : b.Holds S) (slot : Nat) :
    Follows (Function.update shelf slot b) (Function.update sets slot S) := by
  intro i
  by_cases same : i = slot
  · subst same
    rwa [Function.update_self, Function.update_self]
  · rw [Function.update_of_ne same, Function.update_of_ne same]
    exact h i

/-- All that an operation does: it puts an index into one slot, which holds the
set that its effect puts there, and which is the one that was there if the
reply is that nothing was to be done. -/
theorem Follows.perform (h : Follows shelf sets) {op : Operation} {reply : Bool}
    (done : op.perform shelf = .ok (reply, shelf')) :
    ∃ slot b S, shelf' = Function.update shelf slot b ∧ op.effect sets = Function.update sets slot S ∧
      b.Holds S ∧ reply = op.answer sets ∧ (reply = false → b = shelf slot) := by
  cases op with
  | insert slot l =>
    cases done
    refine ⟨slot, _, _, rfl, rfl, (h slot).insert l, ?_, ?_⟩
    · rw [answer, decide_not, ← (h slot).contains_eq]
    · intro kept
      exact insert_of_contains (Bool.not_eq_eq_eq_not.mp kept)
  | remove slot l =>
    cases done
    exact ⟨slot, _, _, rfl, rfl, (h slot).remove l, (h slot).contains_eq l, remove_of_not_contains⟩
  | clear slot =>
    cases done
    exact ⟨slot, _, _, rfl, rfl, Holds.empty, rfl, Bool.noConfusion⟩
  | copy source target =>
    cases done
    exact ⟨target, _, _, rfl, rfl, h source, rfl, Bool.noConfusion⟩
  | load slot bytes =>
    obtain ⟨b, read, same⟩ := Wire.map_eq_ok_iff.mp done
    cases same
    exact ⟨slot, _, _, rfl, rfl, holds_of_load read, rfl, Bool.noConfusion⟩

theorem Follows.performAll (h : Follows shelf sets) {ops : List Operation} {replies : List Bool}
    (done : Operation.performAll ops shelf = .ok (replies, shelf')) :
    Follows shelf' (effects ops sets) := by
  induction ops generalizing shelf sets replies with
  | nil =>
    cases done
    exact h
  | cons op ops ih =>
    obtain ⟨⟨reply, next⟩, first, done⟩ := Wire.bind_eq_ok_iff.mp done
    obtain ⟨⟨replies', last⟩, others, done⟩ := Wire.bind_eq_ok_iff.mp done
    cases done
    obtain ⟨slot, b, S, rfl, effect, holds, _, _⟩ := h.perform first
    rw [effects, List.foldl_cons, effect]
    exact ih (h.update holds slot) others

end Operation

open Operation

/-- After every history each index shows what its set has, and whatever is done
next is answered as the sets say. -/
theorem history_refines {ops : List Operation} {replies : List Bool} {shelf : Nat → Breakpoints}
    (done : performAll ops (fun _ => .empty) = .ok (replies, shelf)) :
    let sets := effects ops fun _ => ∅
    (∀ slot, (shelf slot).Holds (sets slot)) ∧
    (∀ slot slot', (shelf slot == shelf slot') = true ↔ sets slot = sets slot') ∧
    (∀ (op : Operation) (reply : Bool) (shelf' : Nat → Breakpoints),
      op.perform shelf = .ok (reply, shelf') →
      reply = op.answer sets ∧ (reply = false → shelf' = shelf)) := by
  have follows : Follows shelf (effects ops fun _ => ∅) :=
    Follows.performAll (fun _ => Holds.empty) done
  refine ⟨follows, fun slot slot' => (follows slot).beq_iff (follows slot'), ?_⟩
  intro op reply shelf' next
  obtain ⟨slot, b, S, rfl, _, _, answers, unchanged⟩ := follows.perform next
  refine ⟨answers, ?_⟩
  intro kept
  rw [unchanged kept, Function.update_eq_self]

/-- A location is inserted twice, the index copied and the original emptied;
then an index is read that lists a script twice. -/
theorem history_of_three_slots :
    ∃ replies shelf, performAll
        [.insert 0 ⟨[1], 5⟩, .insert 0 ⟨[1], 5⟩, .copy 0 1, .remove 0 ⟨[1], 5⟩, .clear 3,
          .load 2 [2, 1, 1, 1, 5, 1, 1, 1, 7, 99]] (fun _ => .empty) = .ok (replies, shelf) ∧
      replies = [true, false, true, true, true, true] ∧
      (shelf 0).Holds ∅ ∧ (shelf 1).Holds {⟨[1], 5⟩} ∧ (shelf 2).Holds {⟨[1], 7⟩} ∧
      (shelf 1 == shelf 2) = false ∧ (shelf 0 == shelf 3) = true := by
  obtain ⟨⟨replies, shelf⟩, done, told⟩ := Wire.map_eq_ok_iff.mp
    (show Except.map Prod.fst (performAll
        [.insert 0 ⟨[1], 5⟩, .insert 0 ⟨[1], 5⟩, .copy 0 1, .remove 0 ⟨[1], 5⟩, .clear 3,
          .load 2 [2, 1, 1, 1, 5, 1, 1, 1, 7, 99]] (fun _ => .empty)) =
      .ok [true, false, true, true, true, true] by decide)
  obtain ⟨holds, equal, _⟩ := history_refines done
  refine ⟨replies, shelf, done, told, holds 0, holds 1, holds 2, ?_, (equal 0 3).mpr rfl⟩
  rw [← Bool.not_eq_true, equal 1 2]
  decide

end ScriptDebugger.Breakpoints

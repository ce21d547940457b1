/-
  The breakpoint index

  Breakpoints are kept in two levels: for each script the set of offsets that
  carry a breakpoint. A script is kept only while it has at least one, which
  is part of the type, so an index is determined by the locations it holds
  (`ext`), and looking at the outer level is enough to see whether there are
  any. `contains_insert`, `contains_remove` and `contains_empty` say what each
  operation does to the locations held. Scripts and offsets are listed in
  ascending order.

  Correspondence (stepvm ↔ here):
    `new`, `clear`                ↔ `empty`
    `insert`, `remove`            ↔ `insert`, `remove`
    `contains`                    ↔ `contains`
    `len`, `is_empty`             ↔ `size`, `isEmpty`
    `script_count`                ↔ `scriptCount`
    `offsets`, `iter`             ↔ `offsets`, `toList`
    a `script_hash`, an `offset`  ↔ `Location.script`, `Location.offset`
  The two levels are hash tables there, with no order; `insert` and `remove`
  change an index in place and return the flag alone.
-/
import ScriptDebugger.Location
import Std.Data.ExtTreeMap
import Std.Data.ExtTreeSet

namespace ScriptDebugger

/-- A set of locations, by script. -/
structure Breakpoints where
  scripts : Std.ExtTreeMap Bytes (Std.ExtTreeSet UInt32)
  occupied : ∀ (script : Bytes) (offsets : Std.ExtTreeSet UInt32),
    scripts[script]? = some offsets → offsets.isEmpty = false

namespace Breakpoints

theorem ext_scripts {b c : Breakpoints} (h : b.scripts = c.scripts) : b = c := by
  cases b; cases c; cases h; rfl

instance : DecidableEq Breakpoints := fun b c =>
  if h : b.scripts = c.scripts then isTrue (ext_scripts h)
  else isFalse fun e => h (congrArg scripts e)

def empty : Breakpoints := ⟨∅, fun _ _ h => by simp at h⟩

instance : Inhabited Breakpoints := ⟨empty⟩

def offsetsOf (b : Breakpoints) (script : Bytes) : Std.ExtTreeSet UInt32 :=
  b.scripts[script]?.getD ∅

def contains (b : Breakpoints) (l : Location) : Bool := (b.offsetsOf l.script).contains l.offset

/-- Adds a location, and tells whether it was absent. -/
def insert (b : Breakpoints) (l : Location) : Bool × Breakpoints :=
  (!b.contains l,
    ⟨b.scripts.insert l.script ((b.offsetsOf l.script).insert l.offset), by
      intro script offsets h
      rw [Std.ExtTreeMap.getElem?_insert] at h
      split at h
      · cases h
        simp
      · exact b.occupied script offsets h⟩)

/-- Takes a location out, and tells whether it was present. A script that
loses its last offset goes too. -/
def remove (b : Breakpoints) (l : Location) : Bool × Breakpoints :=
  let rest := (b.offsetsOf l.script).erase l.offset
  (b.contains l,
    if h : rest.isEmpty then
      ⟨b.scripts.erase l.script, by
        intro script offsets h
        rw [Std.ExtTreeMap.getElem?_erase] at h
        split at h
        · cases h
        · exact b.occupied script offsets h⟩
    else
      ⟨b.scripts.insert l.script rest, by
        intro script offsets e
        rw [Std.ExtTreeMap.getElem?_insert] at e
        split at e
        · cases e
          exact eq_false_of_ne_true h
        · exact b.occupied script offsets e⟩)

def size (b : Breakpoints) : Nat :=
  b.scripts.toList.foldr (fun entry n => entry.2.size + n) 0

def scriptCount (b : Breakpoints) : Nat := b.scripts.size

def isEmpty (b : Breakpoints) : Bool := b.scripts.isEmpty

def offsets (b : Breakpoints) (script : Bytes) : List UInt32 := (b.offsetsOf script).toList

/-- The locations in the index, by script and then by offset. -/
def toList (b : Breakpoints) : List Location :=
  b.scripts.toList.flatMap fun entry => entry.2.toList.map (Location.mk entry.1)

/-! ## What the operations do to the locations held -/

theorem contains_empty (l : Location) : empty.contains l = false := by
  simp [contains, offsetsOf, empty]

theorem offsetsOf_insert (b : Breakpoints) (l : Location) (script : Bytes) :
    (b.insert l).2.offsetsOf script =
      if l.script = script then (b.offsetsOf script).insert l.offset else b.offsetsOf script := by
  by_cases h : l.script = script
  · simp [offsetsOf, insert, h]
  · simp [offsetsOf, insert, h, Std.ExtTreeMap.getElem?_insert]

theorem offsetsOf_remove (b : Breakpoints) (l : Location) (script : Bytes) :
    (b.remove l).2.offsetsOf script =
      if l.script = script then (b.offsetsOf script).erase l.offset else b.offsetsOf script := by
  simp only [remove]
  split
  · rename_i none_left
    have none_left := Std.ExtTreeSet.isEmpty_iff.1 none_left
    by_cases h : l.script = script
    · subst h
      rw [if_pos rfl, none_left]
      simp [offsetsOf]
    · simp [offsetsOf, h, Std.ExtTreeMap.getElem?_erase]
  · by_cases h : l.script = script
    · simp [offsetsOf, h]
    · simp [offsetsOf, h, Std.ExtTreeMap.getElem?_insert]

theorem contains_insert (b : Breakpoints) (l m : Location) :
    (b.insert l).2.contains m = (decide (l = m) || b.contains m) := by
  obtain ⟨script, offset⟩ := l
  obtain ⟨script', offset'⟩ := m
  by_cases h : script = script'
  · rw [Bool.eq_iff_iff]
    simp [contains, offsetsOf_insert, h, Std.ExtTreeSet.contains_insert]
  · simp [contains, offsetsOf_insert, h]

theorem contains_remove (b : Breakpoints) (l m : Location) :
    (b.remove l).2.contains m = (decide (l ≠ m) && b.contains m) := by
  obtain ⟨script, offset⟩ := l
  obtain ⟨script', offset'⟩ := m
  by_cases h : script = script'
  · rw [Bool.eq_iff_iff]
    simp [contains, offsetsOf_remove, h, Std.ExtTreeSet.contains_erase]
  · simp [contains, offsetsOf_remove, h]

/-- The offsets determine what is kept for a script. -/
theorem getElem?_scripts (b : Breakpoints) (script : Bytes) :
    b.scripts[script]? =
      if (b.offsetsOf script).isEmpty then none else some (b.offsetsOf script) := by
  cases h : b.scripts[script]? with
  | none => simp [offsetsOf, h]
  | some offsets => simp [offsetsOf, h, b.occupied script offsets h]

/-- Two indexes that hold the same locations are equal. -/
theorem ext {b c : Breakpoints} (h : ∀ l, b.contains l = c.contains l) : b = c := by
  apply ext_scripts
  apply Std.ExtTreeMap.ext_getElem?
  intro script
  have : b.offsetsOf script = c.offsetsOf script :=
    Std.ExtTreeSet.ext_contains fun offset => h ⟨script, offset⟩
  rw [getElem?_scripts, getElem?_scripts, this]

end Breakpoints

end ScriptDebugger

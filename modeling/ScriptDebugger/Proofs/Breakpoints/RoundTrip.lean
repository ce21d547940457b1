/-
  Persisted indexes come back

  A host may write the scripts of an index, and the offsets of a script, in any
  order. `Lists es b` says that the entries `es` are those of `b` in some
  order. Three facts make the order irrelevant and what follows harmless:

  1. the form of an entry says where it ends (`Entry.delimits`), and so does
     the form of a listing (`Lists.delimits`);
  2. a listing describes the index (`Lists.ofEntries_eq`), since it names no
     script twice;
  3. forms of listings of one index are permutations of one another
     (`Lists.writeEntries_perm`), so they are of one length.

  `load_undoes_dump` puts them together. Lengths are written as 64-bit numbers;
  an index that is too large for that cannot be held either (`Addressable`).
-/
import Mathlib.Data.Fintype.Card
import Mathlib.Data.List.Perm.Basic
import ScriptDebugger.Proofs.Breakpoints.Contents
import ScriptDebugger.Proofs.Wire.Delimited

namespace ScriptDebugger.Breakpoints

open Wire (Delimits)
open scoped List

variable {b : Breakpoints} {es : List Entry}

/-- The entries are those of the index, scripts and offsets in any order. -/
structure Lists (es : List Entry) (b : Breakpoints) : Prop where
  scripts : (es.map Entry.script).Perm b.scripts.keys
  offsets : ∀ e ∈ es, e.offsets.Perm (b.offsets e.script)

/-- The script hashes, and the index, have lengths of 64 bits. -/
structure Addressable (b : Breakpoints) : Prop where
  script_length : ∀ script ∈ b.scripts.keys, script.length < UInt64.size
  scriptCount : b.scriptCount < UInt64.size

/-! ## The entries of an index -/

theorem entries_eq (b : Breakpoints) :
    b.entries = b.scripts.keys.map fun script => ⟨script, b.offsets script⟩ := by
  rw [entries, ← Std.ExtTreeMap.map_fst_toList_eq_keys, List.map_map]
  apply List.map_congr_left
  intro entry listed
  have stored := Std.ExtTreeMap.mem_toList_iff_getElem?_eq_some.mp listed
  rw [Function.comp_apply, offsets, offsetsOf, stored]
  rfl

theorem lists_entries (b : Breakpoints) : Lists b.entries b := by
  rw [entries_eq]
  constructor
  · rw [List.map_map]
    exact List.Perm.of_eq (List.map_id _)
  · intro e listed
    obtain ⟨script, _, rfl⟩ := List.mem_map.mp listed
    exact List.Perm.refl _

/-! ## Reading entries back -/

theorem Entry.delimits_offset (offset : UInt32) :
    Delimits readOffset (writeOffset offset) offset := by
  intro tail
  rw [readOffset, writeOffset, Wire.Varint.read_word32 offset.toNat_lt]
  show Except.ok (UInt32.ofNat offset.toNat, tail) = _
  rw [UInt32.ofNat_toNat]

theorem Entry.delimits {e : Entry} (script : e.script.length < UInt64.size)
    (offsets : e.offsets.length < UInt64.size) : Delimits Entry.read e.write e := by
  intro tail
  rw [Entry.write, List.append_assoc, Entry.read, Delimits.byteString script]
  show (Wire.sequence readOffset _ >>= _) = _
  rw [Delimits.sequence offsets fun offset _ => delimits_offset offset]
  rfl

/-- There are only so many offsets. -/
theorem length_lt_of_nodup {offsets : List UInt32} (distinct : offsets.Nodup) :
    offsets.length < UInt64.size := by
  have bound := (distinct.map fun _ _ => UInt32.toFin_inj.mp).length_le_card
  rw [List.length_map, Fintype.card_fin] at bound
  exact Nat.lt_of_le_of_lt bound (by decide)

namespace Lists

theorem mem_keys (lists : Lists es b) {e : Entry} (listed : e ∈ es) :
    e.script ∈ b.scripts.keys :=
  lists.scripts.mem_iff.mp (List.mem_map.mpr ⟨e, listed, rfl⟩)

theorem length_eq (lists : Lists es b) : es.length = b.scriptCount := by
  rw [scriptCount, ← Std.ExtTreeMap.length_keys, ← lists.scripts.length_eq, List.length_map]

theorem delimits (lists : Lists es b) (addressable : b.Addressable) :
    Delimits readEntries (writeEntries es) es := by
  apply Delimits.sequence
  · rw [lists.length_eq]
    exact addressable.scriptCount
  · intro e listed
    apply Entry.delimits (addressable.script_length e.script (lists.mem_keys listed))
    exact length_lt_of_nodup ((lists.offsets e listed).nodup_iff.mpr (nodup_offsets b e.script))

theorem ofEntries_eq (lists : Lists es b) : ofEntries es = b := by
  have distinct : (es.map Entry.script).Nodup :=
    lists.scripts.nodup_iff.mpr Std.ExtTreeMap.nodup_keys
  apply ext
  intro l
  rw [Bool.eq_iff_iff, contains_ofEntries, mem_locationsOf_of_nodup distinct]
  constructor
  · rintro ⟨e, listed, same, offset⟩
    rw [(lists.offsets e listed).mem_iff, same] at offset
    exact mem_offsets.mp offset
  · intro held
    have stored := Breakpoints.mem_keys.mpr ⟨l.offset, held⟩
    obtain ⟨e, listed, same⟩ := List.mem_map.mp (lists.scripts.mem_iff.mpr stored)
    refine ⟨e, listed, same, (lists.offsets e listed).mem_iff.mpr ?_⟩
    rw [same]
    exact mem_offsets.mpr held

/-! ## The length of a dump -/

theorem write_perm (lists : Lists es b) {e : Entry} (listed : e ∈ es) :
    e.write.Perm (Entry.write ⟨e.script, b.offsets e.script⟩) := by
  have offsets := lists.offsets e listed
  rw [Entry.write, Entry.write, Wire.writeSequence, Wire.writeSequence, offsets.length_eq]
  exact ((offsets.flatMap_right _).append_left _).append_left _

/-- A listing of an index is written with the bytes of its dump. -/
theorem writeEntries_perm (lists : Lists es b) : (writeEntries es).Perm b.dump := by
  rw [dump, entries_eq, writeEntries, writeEntries, Wire.writeSequence, Wire.writeSequence,
    List.length_map, ← lists.scripts.length_eq, List.length_map, List.flatMap_map]
  apply List.Perm.append_left
  calc es.flatMap Entry.write
    _ ~ es.flatMap fun e => Entry.write ⟨e.script, b.offsets e.script⟩ :=
        List.Perm.flatMap_left _ fun _ => lists.write_perm
    _ = (es.map Entry.script).flatMap fun script => Entry.write ⟨script, b.offsets script⟩ :=
        by rw [List.flatMap_map]
    _ ~ b.scripts.keys.flatMap fun script => Entry.write ⟨script, b.offsets script⟩ :=
        lists.scripts.flatMap_right _

end Lists

/-! ## Loading -/

theorem Lists.load_writeEntries (lists : Lists es b) (addressable : b.Addressable) (tail : Bytes) :
    load (writeEntries es ++ tail) = .ok b := by
  rw [load, (lists.delimits addressable).first tail]
  show Except.ok (ofEntries es) = _
  rw [lists.ofEntries_eq]

/-- A dump is read back, whatever follows it. So is the index written in any
other order, and the order makes no difference to the length. -/
theorem load_undoes_dump (addressable : b.Addressable) :
    (∀ tail, load (b.dump ++ tail) = .ok b) ∧
    Lists b.entries b ∧
    ∀ es, Lists es b → ∀ tail,
      load (writeEntries es ++ tail) = .ok b ∧ (writeEntries es).length = b.dump.length := by
  refine ⟨(lists_entries b).load_writeEntries addressable, lists_entries b, ?_⟩
  intro es lists tail
  exact ⟨lists.load_writeEntries addressable tail, lists.writeEntries_perm.length_eq⟩

/-- The dump, and the same with the empty hash written last and its offsets in
descending order. -/
theorem load_undoes_dump_of_two_scripts :
    let b := ofEntries [⟨[], [7, 300]⟩, ⟨[1, 2], [0]⟩]
    b.Addressable ∧
    b.dump = [2, 0, 2, 7, 172, 2, 2, 1, 2, 1, 0] ∧ load (b.dump ++ [9, 9]) = .ok b ∧
    load (writeEntries [⟨[1, 2], [0]⟩, ⟨[], [300, 7]⟩] ++ [9, 9]) = .ok b ∧
    (writeEntries [⟨[1, 2], [0]⟩, ⟨[], [300, 7]⟩]).length = b.dump.length := by
  have addressable : (ofEntries [⟨[], [7, 300]⟩, ⟨[1, 2], [0]⟩]).Addressable :=
    ⟨by decide +kernel, by decide +kernel⟩
  have lists : Lists [⟨[1, 2], [0]⟩, ⟨[], [300, 7]⟩] (ofEntries [⟨[], [7, 300]⟩, ⟨[1, 2], [0]⟩]) :=
    ⟨by decide +kernel, by decide +kernel⟩
  obtain ⟨dumped, _, listed⟩ := load_undoes_dump addressable
  exact ⟨addressable, by decide +kernel, dumped [9, 9], listed _ lists [9, 9]⟩

end ScriptDebugger.Breakpoints

/-
  How large a loaded index is

  Loading may drop entries and offsets, and never makes any up. So an index is
  no larger than the bytes it was loaded from, whatever numbers those bytes
  declare: it is dumped to at most as many bytes as loading took.

  1. `surviving` is what is left of the entries of a listing: the last one for
     each script if it lists something, with each offset once. These are the
     entries of the index that the listing describes (`lists_surviving`).
  2. A number that is smaller, or written in its shortest form, takes no more
     bytes; so the surviving entries are written in at most as many bytes as
     the listing had (`IsListing.length_dump_le`).
  3. Each number of a dump takes a byte at least (`length_dump_ge`).

  The bytes that loading takes are known from outside: they are the shortest
  front that can be loaded.
-/
import Mathlib.Algebra.BigOperators.Group.List.Basic
import Mathlib.Data.List.Dedup
import Mathlib.Data.List.Flatten
import ScriptDebugger.Proofs.Breakpoints.Truncation

namespace ScriptDebugger.Breakpoints

open scoped List

/-! ## The entries that survive -/

/-- The entries that an index keeps of a listing, each offset once. An entry
that is followed by another one for its script is not kept, nor is one that
lists nothing. -/
def surviving : List Entry → List Entry
  | [] => []
  | e :: later =>
    if e.offsets = [] ∨ e.script ∈ later.map Entry.script then surviving later
    else ⟨e.script, e.offsets.dedup⟩ :: surviving later

theorem lastFor_cons {script : Bytes} {first e : Entry} {later : List Entry} :
    LastFor script (first :: later) e ↔
      LastFor script later e ∨
        (first = e ∧ e.script = script ∧ script ∉ later.map Entry.script) := by
  constructor
  · intro ⟨same, earlier, after, split, others⟩
    cases earlier with
    | nil =>
      cases split
      refine .inr ⟨rfl, same, ?_⟩
      intro listed
      obtain ⟨e', mem, same'⟩ := List.mem_map.mp listed
      exact others e' mem same'
    | cons _ earlier =>
      cases split
      exact .inl ⟨same, earlier, after, rfl, others⟩
  · rintro (⟨same, earlier, after, rfl, others⟩ | ⟨rfl, same, absent⟩)
    · exact ⟨same, first :: earlier, after, rfl, others⟩
    · refine ⟨same, [], later, rfl, ?_⟩
      intro e' mem same'
      exact absent (List.mem_map.mpr ⟨e', mem, same'⟩)

theorem mem_surviving {entries : List Entry} {e : Entry} :
    e ∈ surviving entries ↔
      ∃ e', LastFor e.script entries e' ∧ e'.offsets ≠ [] ∧ e.offsets = e'.offsets.dedup := by
  induction entries with
  | nil => simp [surviving, lastFor_nil]
  | cons first later ih =>
    simp only [surviving, lastFor_cons]
    split
    · rename_i gone
      rw [ih]
      constructor
      · intro ⟨e', counts, kept⟩
        exact ⟨e', .inl counts, kept⟩
      · rintro ⟨e', counts | ⟨rfl, same, absent⟩, some_offset, kept⟩
        · exact ⟨e', counts, some_offset, kept⟩
        · -- The first entry lists nothing, or another one for its script follows.
          rw [← same] at absent
          exact absurd gone (not_or.mpr ⟨some_offset, absent⟩)
    · rename_i stays
      obtain ⟨some_offset, absent⟩ := not_or.mp stays
      rw [List.mem_cons, ih]
      constructor
      · rintro (rfl | ⟨e', counts, kept⟩)
        · exact ⟨first, .inr ⟨rfl, rfl, absent⟩, some_offset, rfl⟩
        · exact ⟨e', .inl counts, kept⟩
      · rintro ⟨e', counts | ⟨rfl, same, _⟩, kept⟩
        · exact .inr ⟨e', counts, kept⟩
        · left
          rw [same, ← kept.2]

theorem script_mem_of_surviving {entries : List Entry} {script : Bytes}
    (kept : script ∈ (surviving entries).map Entry.script) : script ∈ entries.map Entry.script := by
  obtain ⟨e, mem, rfl⟩ := List.mem_map.mp kept
  obtain ⟨e', ⟨same, earlier, later, rfl, _⟩, _⟩ := mem_surviving.mp mem
  exact List.mem_map.mpr ⟨e', by simp, same⟩

theorem nodup_surviving (entries : List Entry) : ((surviving entries).map Entry.script).Nodup := by
  induction entries with
  | nil => exact List.nodup_nil
  | cons first later ih =>
    rw [surviving]
    split
    · exact ih
    · rename_i stays
      rw [List.map_cons, List.nodup_cons]
      exact ⟨fun kept => stays (.inr (script_mem_of_surviving kept)), ih⟩

/-- What survives of a listing are the entries of its index. -/
theorem lists_surviving (entries : List Entry) : Lists (surviving entries) (ofEntries entries) := by
  have describes := describes_ofEntries entries
  constructor
  · rw [List.perm_ext_iff_of_nodup (nodup_surviving entries) Std.ExtTreeMap.nodup_keys]
    intro script
    rw [describes.stored_iff, List.mem_map]
    constructor
    · rintro ⟨e, kept, rfl⟩
      obtain ⟨e', counts, some_offset, _⟩ := mem_surviving.mp kept
      exact ⟨e', counts, some_offset⟩
    · intro ⟨e, counts, some_offset⟩
      exact ⟨⟨script, e.offsets.dedup⟩, mem_surviving.mpr ⟨e, counts, some_offset, rfl⟩, rfl⟩
  · intro e kept
    obtain ⟨e', counts, _, same⟩ := mem_surviving.mp kept
    rw [same, List.perm_ext_iff_of_nodup (List.nodup_dedup _) (nodup_offsets _ _)]
    intro offset
    rw [List.mem_dedup, mem_offsets, describes.contains_iff]
    constructor
    · exact fun listed => ⟨e', counts, listed⟩
    · intro ⟨e'', counts', listed⟩
      rwa [counts.unique counts']

/-! ## Bytes taken and bytes written -/

theorem length_surviving_le (entries : List Entry) :
    (surviving entries).length ≤ entries.length := by
  induction entries with
  | nil => exact Nat.le_refl 0
  | cons first later ih =>
    rw [surviving]
    split <;> simp only [List.length_cons] <;> omega

namespace Entry

theorem length_write (e : Entry) :
    e.write.length =
      (Wire.Varint.encode e.script.length).length + e.script.length +
        ((Wire.Varint.encode e.offsets.length).length +
          (e.offsets.flatMap writeOffset).length) := by
  simp only [write, Wire.writeByteString, Wire.writeSequence, List.flatMap_singleton',
    List.length_append]

theorem length_writeOffsets_le {forms : List Bytes} {offsets : List UInt32}
    (each : List.Forall₂ IsOffset forms offsets) :
    (offsets.flatMap writeOffset).length ≤ forms.flatten.length := by
  induction each with
  | nil => exact Nat.le_refl 0
  | cons first _ ih =>
    have shortest := Wire.Varint.length_encode_le first
    simp only [List.flatMap_cons, List.flatten_cons, List.length_append, writeOffset] at ih ⊢
    omega

/-- An entry takes no more bytes if each of its offsets is written once, and
in its shortest form. -/
theorem length_write_le {form : Bytes} {e : Entry} (is_form : IsForm form e) :
    (write ⟨e.script, e.offsets.dedup⟩).length ≤ form.length := by
  obtain ⟨_, _, ⟨length, is_length, rfl⟩, ⟨count, forms, is_count, each, rfl⟩, rfl⟩ := is_form
  have script : (Wire.Varint.encode e.script.length).length ≤ length.length :=
    Wire.Varint.length_encode_le is_length
  have once : e.offsets.dedup <+ e.offsets := List.dedup_sublist e.offsets
  have counted : (Wire.Varint.encode e.offsets.dedup.length).length ≤ count.length := by
    calc (Wire.Varint.encode e.offsets.dedup.length).length
        ≤ (Wire.Varint.encode e.offsets.length).length :=
          Wire.Varint.length_encode_mono once.length_le
      _ ≤ count.length := Wire.Varint.length_encode_le is_count
  have offsets : (e.offsets.dedup.flatMap writeOffset).length ≤ forms.flatten.length := by
    calc (e.offsets.dedup.flatMap writeOffset).length
        ≤ (e.offsets.flatMap writeOffset).length := (once.flatMap writeOffset).length_le
      _ ≤ forms.flatten.length := length_writeOffsets_le each
  simp only [length_write, List.length_append]
  omega

end Entry

theorem length_surviving_write_le {forms : List Bytes} {entries : List Entry}
    (each : List.Forall₂ Entry.IsForm forms entries) :
    ((surviving entries).flatMap Entry.write).length ≤ forms.flatten.length := by
  induction each with
  | nil => exact Nat.le_refl 0
  | @cons form first forms later is_form _ ih =>
    have shorter := Entry.length_write_le is_form
    rw [surviving, List.flatten_cons, List.length_append]
    split
    · omega
    · rw [List.flatMap_cons, List.length_append]
      omega

/-- The index of a listing is dumped to at most as many bytes. -/
theorem IsListing.length_dump_le {form : Bytes} {entries : List Entry}
    (listing : IsListing form entries) : (ofEntries entries).dump.length ≤ form.length := by
  rw [← (lists_surviving entries).writeEntries_perm.length_eq]
  obtain ⟨count, forms, is_count, each, rfl⟩ := listing
  have counted : (Wire.Varint.encode (surviving entries).length).length ≤ count.length := by
    calc (Wire.Varint.encode (surviving entries).length).length
        ≤ (Wire.Varint.encode entries.length).length :=
          Wire.Varint.length_encode_mono (length_surviving_le entries)
      _ ≤ count.length := Wire.Varint.length_encode_le is_count
  have written := length_surviving_write_le each
  rw [writeEntries, Wire.writeSequence, List.length_append, List.length_append]
  omega

theorem Entry.length_write_ge (e : Entry) :
    2 + e.script.length + e.offsets.length ≤ e.write.length := by
  have each : e.offsets.length ≤ (e.offsets.flatMap writeOffset).length := by
    induction e.offsets with
    | nil => exact Nat.le_refl 0
    | cons offset offsets ih =>
      have := Wire.Varint.length_encode_pos offset.toNat
      simp only [List.flatMap_cons, List.length_append, List.length_cons, writeOffset] at ih ⊢
      omega
  have length := Wire.Varint.length_encode_pos e.script.length
  have count := Wire.Varint.length_encode_pos e.offsets.length
  rw [length_write]
  omega

/-- Each number of a dump takes a byte at least: one counts the scripts, two
stand with each script, and one is an offset. -/
theorem length_dump_ge (b : Breakpoints) :
    1 + 2 * b.scriptCount + (b.scripts.keys.map List.length).sum + b.size ≤ b.dump.length := by
  have count := Wire.Varint.length_encode_pos b.entries.length
  have body : 2 * b.scripts.toList.length + (b.scripts.keys.map List.length).sum + b.size ≤
      (b.entries.flatMap Entry.write).length := by
    rw [← Std.ExtTreeMap.map_fst_toList_eq_keys, size, entries]
    induction b.scripts.toList with
    | nil => exact Nat.le_refl 0
    | cons stored others ih =>
      have first := Entry.length_write_ge ⟨stored.1, stored.2.toList⟩
      simp only [Std.ExtTreeSet.length_toList] at first
      simp only [List.map_cons, List.sum_cons, List.foldr_cons, List.flatMap_cons,
        List.length_cons, List.length_append]
      omega
  rw [Std.ExtTreeMap.length_toList] at body
  rw [dump, writeEntries, Wire.writeSequence, List.length_append, scriptCount]
  omega

/-! ## Loading -/

/-- An index is no larger than the bytes that it was loaded from. Loading takes
the shortest front that can be loaded; what it gives is dumped to at most as
many bytes, in whatever order, and so has no more in it than these bytes have
room for. -/
theorem loaded_no_larger {bytes : Bytes} {b : Breakpoints} (loaded : load bytes = .ok b) :
    ∃ taken rest entries, bytes = taken ++ rest ∧ readEntries bytes = .ok (entries, rest) ∧
      load taken = .ok b ∧
      (∀ front, front <+: bytes → front.length < taken.length → load front = .error .truncated) ∧
      b.dump.length ≤ taken.length ∧
      (∀ es, Lists es b → (writeEntries es).length ≤ taken.length) ∧
      1 + 2 * b.scriptCount + (b.scripts.keys.map List.length).sum + b.size ≤ taken.length ∧
      taken.length ≤ bytes.length := by
  obtain ⟨entries, rest, read, rfl⟩ := load_eq_ok_iff.mp loaded
  obtain ⟨taken, listing, rfl⟩ := readEntries_reads.exists_form read
  have delimits := readEntries_reads.delimits listing
  have alone : readEntries taken = .ok (entries, []) := by
    simpa using delimits []
  have dumped := listing.length_dump_le
  refine ⟨taken, rest, entries, rfl, read, load_eq_ok_iff.mpr ⟨_, _, alone, rfl⟩, ?shortest,
    dumped, ?listed, ?room, by simp⟩
  case shortest =>
    intro front start shorter
    have cut : front <+: taken :=
      List.prefix_of_prefix_length_le start (List.prefix_append taken rest) shorter.le
    apply load_eq_error_iff.mpr
    apply readEntries_resumable.truncated_of_prefix delimits cut
    rintro rfl
    exact Nat.lt_irrefl _ shorter
  case listed =>
    intro es lists
    rw [lists.writeEntries_perm.length_eq]
    exact dumped
  case room => exact (length_dump_ge _).trans dumped

/-- Of three entries in sixteen bytes one is left, which takes five. -/
theorem loaded_no_larger_than_three_entries :
    let bytes : Bytes := [131, 0, 1, 1, 2, 133, 0, 5, 129, 0, 2, 1, 7, 1, 1, 0, 9]
    let b := ofEntries [⟨[2], [7]⟩]
    load bytes = .ok b ∧ b.dump.length = 5 ∧
      ∃ taken rest entries, bytes = taken ++ rest ∧ readEntries bytes = .ok (entries, rest) ∧
        load taken = .ok b ∧
        (∀ front, front <+: bytes → front.length < taken.length → load front = .error .truncated) ∧
        b.dump.length ≤ taken.length ∧
        (∀ es, Lists es b → (writeEntries es).length ≤ taken.length) ∧
        1 + 2 * b.scriptCount + (b.scripts.keys.map List.length).sum + b.size ≤ taken.length ∧
        taken.length ≤ bytes.length := by
  intro bytes b
  have loaded : load bytes = .ok b := by decide +kernel
  exact ⟨loaded, by decide +kernel, loaded_no_larger loaded⟩

end ScriptDebugger.Breakpoints

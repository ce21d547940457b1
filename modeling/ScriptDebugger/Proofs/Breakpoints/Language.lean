/-
  The bytes that describe an index

  What can be loaded is a language of its own, wider than what is dumped: any
  forms of the counts, lengths and offsets will do, a script may be listed more
  than once, an offset may be repeated, and a script may be listed with no
  offsets at all. `IsListing` describes the language without a reader.

  What is proved:
    1. `readEntries_reads` — the reader of an index takes the listings off the
       front and nothing else, layer by layer.
    2. `mem_locationsOf_iff` — of the entries of a listing the last one for a
       script counts, whatever stands before it (`LastFor`).
    3. `describes_ofEntries` — the index of a listing holds what the last
       entries list, and a script whose last entry lists nothing is not stored.
    4. `load_takes_listings` — so loading succeeds on the byte strings that
       begin with a listing and on no others, and what it gives is the index
       that the listing describes.
-/
import ScriptDebugger.Proofs.Breakpoints.Contents
import ScriptDebugger.Proofs.Wire.Forms

namespace ScriptDebugger.Breakpoints

open Wire (Reads)

/-! ## Listings -/

namespace Entry

/-- Any form of the offset. -/
def IsOffset (form : Bytes) (offset : UInt32) : Prop :=
  Wire.Varint.IsForm .word32 form offset.toNat

instance (form : Bytes) (offset : UInt32) : Decidable (IsOffset form offset) :=
  inferInstanceAs (Decidable (Wire.Varint.IsForm .word32 form offset.toNat))

/-- A form of the script hash and then one of the offsets. -/
def IsForm (form : Bytes) (e : Entry) : Prop :=
  ∃ script offsets, Wire.IsByteString script e.script ∧
    Wire.IsSequence IsOffset offsets e.offsets ∧ form = script ++ offsets

theorem readOffset_eq :
    readOffset = Wire.andThen (Wire.Varint.read .word32) fun n => Wire.value (UInt32.ofNat n) := by
  funext bytes
  unfold readOffset Wire.andThen
  cases Wire.Varint.read .word32 bytes <;> rfl

theorem read_eq :
    read = Wire.andThen Wire.byteString fun script =>
      Wire.andThen (Wire.sequence readOffset) fun offsets => Wire.value ⟨script, offsets⟩ := rfl

theorem readOffset_reads : Reads readOffset IsOffset := by
  rw [readOffset_eq]
  have word32 : Reads (Wire.Varint.read .word32) (Wire.Varint.IsForm .word32) :=
    Wire.Varint.reads (by decide)
  apply (word32.andThen fun n => Reads.value (UInt32.ofNat n)).congr
  intro form offset
  constructor
  · rintro ⟨front, n, _, is_form, ⟨rfl, rfl⟩, rfl⟩
    have fits : n < UInt32.size := is_form.fits
    rwa [IsOffset, List.append_nil, UInt32.toNat_ofNat_of_lt' fits]
  · intro is_form
    exact ⟨form, offset.toNat, [], is_form, ⟨rfl, UInt32.ofNat_toNat.symm⟩,
      (List.append_nil form).symm⟩

theorem read_reads : Reads read IsForm := by
  rw [read_eq]
  apply (Reads.byteString.andThen fun script =>
    readOffset_reads.sequence.andThen fun offsets =>
      Reads.value (Entry.mk script offsets)).congr
  intro form e
  constructor
  · rintro ⟨front, script, _, is_script, ⟨back, offsets, _, is_offsets, ⟨rfl, rfl⟩, rfl⟩, rfl⟩
    exact ⟨front, back, is_script, is_offsets, by rw [List.append_nil]⟩
  · rintro ⟨script, offsets, is_script, is_offsets, rfl⟩
    exact ⟨script, e.script, offsets, is_script,
      ⟨offsets, e.offsets, [], is_offsets, ⟨rfl, rfl⟩, (List.append_nil offsets).symm⟩, rfl⟩

end Entry

/-- The bytes list the entries in order, in any forms. -/
def IsListing (form : Bytes) (entries : List Entry) : Prop :=
  Wire.IsSequence Entry.IsForm form entries

theorem readEntries_reads : Reads readEntries IsListing := Entry.read_reads.sequence

/-! ## The entries that count -/

/-- The last of the entries for a script. -/
def LastFor (script : Bytes) (entries : List Entry) (e : Entry) : Prop :=
  e.script = script ∧ ∃ earlier later, entries = earlier ++ e :: later ∧
    ∀ e' ∈ later, e'.script ≠ script

theorem lastFor_nil {script : Bytes} {e : Entry} : ¬ LastFor script [] e := by
  intro ⟨_, earlier, later, split, _⟩
  simp at split

theorem lastFor_concat {script : Bytes} {entries : List Entry} {last e : Entry} :
    LastFor script (entries ++ [last]) e ↔
      if last.script = script then e = last else LastFor script entries e := by
  constructor
  · intro ⟨same, earlier, later, split, others⟩
    rcases List.eq_nil_or_concat later with rfl | ⟨between, final, rfl⟩
    · obtain ⟨rfl, final⟩ := List.append_inj' split rfl
      cases final
      rw [if_pos same]
    · rw [List.concat_eq_append, ← List.cons_append, ← List.append_assoc] at split
      obtain ⟨rfl, final'⟩ := List.append_inj' split rfl
      cases final'
      rw [if_neg (others last (by simp))]
      exact ⟨same, earlier, between, rfl, fun e' mem => others e' (by simp [mem])⟩
  · intro counts
    split at counts
    · rename_i same
      subst counts
      exact ⟨same, entries, [], rfl, by simp⟩
    · rename_i other
      obtain ⟨same, earlier, later, rfl, others⟩ := counts
      refine ⟨same, earlier, later ++ [last], by simp, ?_⟩
      intro e' mem
      rcases List.mem_append.mp mem with before | final
      · exact others e' before
      · rwa [List.mem_singleton.mp final]

/-- An entry for a script is the only one to count for it. -/
theorem LastFor.unique {script : Bytes} {entries : List Entry} {e e' : Entry}
    (counts : LastFor script entries e) (counts' : LastFor script entries e') : e = e' := by
  induction entries using List.reverseRecOn with
  | nil => exact absurd counts lastFor_nil
  | append_singleton entries last ih =>
    rw [lastFor_concat] at counts counts'
    split at counts
    · rename_i same
      rw [if_pos same] at counts'
      exact counts.trans counts'.symm
    · rename_i other
      rw [if_neg other] at counts'
      exact ih counts counts'

theorem mem_locationsOf_iff {entries : List Entry} {l : Location} :
    l ∈ locationsOf entries ↔ ∃ e, LastFor l.script entries e ∧ l.offset ∈ e.offsets := by
  induction entries using List.reverseRecOn with
  | nil => simp [locationsOf, lastFor_nil]
  | append_singleton entries last ih =>
    rw [mem_locationsOf_concat]
    by_cases same : last.script = l.script
    · simp [lastFor_concat, same]
    · simp [lastFor_concat, same, ih]

/-- The entries describe the index: it holds what the last entry for each
script lists, and it stores the scripts whose last entry lists something. -/
structure Describes (entries : List Entry) (b : Breakpoints) : Prop where
  contains_iff : ∀ script offset, b.contains ⟨script, offset⟩ = true ↔
    ∃ e, LastFor script entries e ∧ offset ∈ e.offsets
  stored_iff : ∀ script, script ∈ b.scripts.keys ↔
    ∃ e, LastFor script entries e ∧ e.offsets ≠ []
  /-- No script is stored without an offset. -/
  occupied : ∀ (script : Bytes) (offsets : Std.ExtTreeSet UInt32),
    b.scripts[script]? = some offsets → ∃ offset, offset ∈ offsets

theorem describes_ofEntries (entries : List Entry) : Describes entries (ofEntries entries) := by
  have held (script : Bytes) (offset : UInt32) :
      (ofEntries entries).contains ⟨script, offset⟩ = true ↔
        ∃ e, LastFor script entries e ∧ offset ∈ e.offsets := by
    rw [contains_ofEntries, mem_locationsOf_iff]
  refine ⟨held, ?_, ?_⟩
  · intro script
    rw [mem_keys]
    constructor
    · intro ⟨offset, there⟩
      obtain ⟨e, counts, listed⟩ := (held script offset).mp there
      exact ⟨e, counts, List.ne_nil_of_mem listed⟩
    · intro ⟨e, counts, some_offset⟩
      obtain ⟨offset, listed⟩ := List.exists_mem_of_ne_nil _ some_offset
      exact ⟨offset, (held script offset).mpr ⟨e, counts, listed⟩⟩
  · intro script offsets present
    obtain ⟨offset, listed, _⟩ := (holds_ofEntries entries).stored script offsets present
    exact ⟨offset, listed⟩

/-! ## Loading -/

theorem load_eq_ok_iff {bytes : Bytes} {b : Breakpoints} :
    load bytes = .ok b ↔ ∃ entries rest, readEntries bytes = .ok (entries, rest) ∧
      ofEntries entries = b := by
  rw [load, Wire.map_eq_ok_iff]
  constructor
  · intro ⟨entries, first, same⟩
    obtain ⟨⟨_, rest⟩, taken, rfl⟩ := Wire.map_eq_ok_iff.mp first
    exact ⟨_, rest, taken, same⟩
  · intro ⟨entries, rest, taken, same⟩
    exact ⟨entries, Wire.map_eq_ok_iff.mpr ⟨_, taken, rfl⟩, same⟩

/-- Every listing is loaded, whatever follows it, and gives the index that it
describes; and nothing else is loaded. -/
theorem load_takes_listings :
    (∀ entries form, IsListing form entries → ∀ tail,
      ∃ b, load (form ++ tail) = .ok b ∧ Describes entries b) ∧
    ∀ bytes b, load bytes = .ok b →
      ∃ entries form tail, IsListing form entries ∧ bytes = form ++ tail ∧ Describes entries b := by
  constructor
  · intro entries form listing tail
    have taken := readEntries_reads.delimits listing tail
    exact ⟨ofEntries entries, load_eq_ok_iff.mpr ⟨entries, tail, taken, rfl⟩,
      describes_ofEntries entries⟩
  · intro bytes b loaded
    obtain ⟨entries, tail, taken, rfl⟩ := load_eq_ok_iff.mp loaded
    obtain ⟨form, listing, split⟩ := readEntries_reads.exists_form taken
    exact ⟨entries, form, tail, listing, split, describes_ofEntries entries⟩

/-- Three entries in forms longer than needed, and a byte behind them. The
first entry lists an offset twice, and the last one takes it back. -/
theorem load_takes_three_entries :
    let entries : List Entry := [⟨[1], [5, 5]⟩, ⟨[2], [7]⟩, ⟨[1], []⟩]
    let form : Bytes := [131, 0, 1, 1, 2, 133, 0, 5, 129, 0, 2, 1, 7, 1, 1, 0]
    IsListing form entries ∧
      (∃ b, load (form ++ [9]) = .ok b ∧ Describes entries b) ∧
      load (form ++ [9]) = .ok (ofEntries [⟨[2], [7]⟩]) ∧
      ∃ entries' form' tail', IsListing form' entries' ∧ form ++ [9] = form' ++ tail' ∧
        Describes entries' (ofEntries [⟨[2], [7]⟩]) := by
  intro entries form
  have listing : IsListing form entries := by
    refine ⟨[131, 0], [[1, 1, 2, 133, 0, 5], [129, 0, 2, 1, 7], [1, 1, 0]], by decide,
      .cons ?first (.cons ?second (.cons ?third .nil)), rfl⟩
    case first =>
      exact ⟨[1, 1], [2, 133, 0, 5], ⟨[1], by decide, rfl⟩,
        ⟨[2], [[133, 0], [5]], by decide, .cons (by decide) (.cons (by decide) .nil), rfl⟩, rfl⟩
    case second =>
      exact ⟨[129, 0, 2], [1, 7], ⟨[129, 0], by decide, rfl⟩,
        ⟨[1], [[7]], by decide, .cons (by decide) .nil, rfl⟩, rfl⟩
    case third =>
      exact ⟨[1, 1], [0], ⟨[1], by decide, rfl⟩, ⟨[0], [], by decide, .nil, rfl⟩, rfl⟩
  have loaded : load (form ++ [9]) = .ok (ofEntries [⟨[2], [7]⟩]) := by decide +kernel
  exact ⟨listing, load_takes_listings.1 entries form listing [9], loaded,
    load_takes_listings.2 _ _ loaded⟩

end ScriptDebugger.Breakpoints

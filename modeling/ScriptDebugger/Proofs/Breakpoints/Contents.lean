/-
  What an index holds

  An index is looked at in many ways: by location, by script, as a list, by
  its counts. All of them are about one set of locations. `Holds b S` says of
  each way of looking at `b` what it shows of the finite set `S`, and
  `Holds.of_contains` derives it all from the look-up of single locations. So
  to know what an operation does it is enough to know what it does to
  look-ups.

  The counts and the test for emptiness look at the outer level only. They are
  right because a script is stored with at least one offset (`mem_keys`).

  The second half is about the index that a list of entries describes:
  `locationsOf` is the set, read off the entries in order, and
  `holds_ofEntries` says that the index holds it.
-/
import Mathlib.Data.Finset.Card
import Mathlib.Data.Finset.Image
import Mathlib.Data.List.Nodup
import ScriptDebugger.Breakpoints.Dump

namespace ScriptDebugger.Breakpoints

variable {b c : Breakpoints} {script : Bytes} {offset : UInt32}

/-! ## Looking at an index -/

theorem nodup_offsetSet (offsets : Std.ExtTreeSet UInt32) : offsets.toList.Nodup :=
  offsets.distinct_toList.imp fun differ same => differ (by rw [same]; exact Std.ReflCmp.compare_self)

theorem mem_offsets : offset ∈ b.offsets script ↔ b.contains ⟨script, offset⟩ = true := by
  rw [offsets, Std.ExtTreeSet.mem_toList, Std.ExtTreeSet.mem_iff_contains, contains]

theorem nodup_offsets (b : Breakpoints) (script : Bytes) : (b.offsets script).Nodup :=
  nodup_offsetSet _

theorem contains_iff_stored {l : Location} :
    b.contains l = true ↔ ∃ offsets, b.scripts[l.script]? = some offsets ∧ l.offset ∈ offsets := by
  unfold contains offsetsOf
  cases b.scripts[l.script]? with
  | none => simp
  | some offsets => simp

/-- A script is stored where some offset of it is held. -/
theorem mem_keys : script ∈ b.scripts.keys ↔ ∃ offset, b.contains ⟨script, offset⟩ = true := by
  rw [Std.ExtTreeMap.mem_keys, Std.ExtTreeMap.mem_iff_isSome_getElem?, Option.isSome_iff_exists]
  constructor
  · rintro ⟨offsets, stored⟩
    have some_offset : offsets.toList ≠ [] := by
      rw [ne_eq, Std.ExtTreeSet.toList_eq_nil_iff, ← Std.ExtTreeSet.isEmpty_iff,
        b.occupied script offsets stored]
      exact Bool.false_ne_true
    obtain ⟨offset, listed⟩ := List.exists_mem_of_ne_nil _ some_offset
    exact ⟨offset, contains_iff_stored.mpr ⟨offsets, stored, Std.ExtTreeSet.mem_toList.mp listed⟩⟩
  · rintro ⟨offset, held⟩
    obtain ⟨offsets, stored, _⟩ := contains_iff_stored.mp held
    exact ⟨offsets, stored⟩

theorem mem_toList {l : Location} : l ∈ b.toList ↔ b.contains l = true := by
  obtain ⟨script, offset⟩ := l
  rw [contains_iff_stored, toList, List.mem_flatMap]
  constructor
  · rintro ⟨⟨_, offsets⟩, stored, listed⟩
    obtain ⟨_, listed, same⟩ := List.mem_map.mp listed
    cases same
    exact ⟨offsets, Std.ExtTreeMap.mem_toList_iff_getElem?_eq_some.mp stored,
      Std.ExtTreeSet.mem_toList.mp listed⟩
  · rintro ⟨offsets, stored, listed⟩
    exact ⟨(script, offsets), Std.ExtTreeMap.mem_toList_iff_getElem?_eq_some.mpr stored,
      List.mem_map.mpr ⟨offset, Std.ExtTreeSet.mem_toList.mpr listed, rfl⟩⟩

theorem nodup_toList (b : Breakpoints) : b.toList.Nodup := by
  rw [toList, List.nodup_flatMap]
  constructor
  · intro entry _
    apply List.Nodup.map _ (nodup_offsetSet entry.2)
    intro offset offset' same
    exact congrArg Location.offset same
  · -- Locations of different entries have different scripts.
    apply b.scripts.distinct_keys_toList.imp
    intro entry entry' differ l listed listed'
    obtain ⟨_, _, rfl⟩ := List.mem_map.mp listed
    obtain ⟨_, _, same⟩ := List.mem_map.mp listed'
    have same : entry'.1 = entry.1 := congrArg Location.script same
    apply differ
    rw [same]
    exact Std.ReflCmp.compare_self

theorem size_eq_length (b : Breakpoints) : b.size = b.toList.length := by
  unfold size toList
  induction b.scripts.toList with
  | nil => rfl
  | cons entry entries ih =>
    rw [List.foldr_cons, ih, List.flatMap_cons, List.length_append, List.length_map,
      Std.ExtTreeSet.length_toList]

/-- All that an index shows of the locations in it. -/
structure Holds (b : Breakpoints) (S : Finset Location) : Prop where
  contains_iff : ∀ l, b.contains l = true ↔ l ∈ S
  /-- What is stored for a script is never an empty set. -/
  stored : ∀ script offsets, b.scripts[script]? = some offsets →
    ∃ offset, offset ∈ offsets ∧ ⟨script, offset⟩ ∈ S
  isEmpty_iff : b.isEmpty = true ↔ S = ∅
  size_eq : b.size = S.card
  scriptCount_eq : b.scriptCount = (S.image Location.script).card
  offsets_nodup : ∀ script, (b.offsets script).Nodup
  mem_offsets_iff : ∀ script offset, offset ∈ b.offsets script ↔ ⟨script, offset⟩ ∈ S
  toList_nodup : b.toList.Nodup
  mem_toList_iff : ∀ l, l ∈ b.toList ↔ l ∈ S

namespace Holds

variable {S T : Finset Location}

theorem of_contains (h : ∀ l, b.contains l = true ↔ l ∈ S) : b.Holds S := by
  have listed : b.toList.toFinset = S := by
    ext l
    rw [List.mem_toFinset, mem_toList, h]
  have stored : b.scripts.keys.toFinset = S.image Location.script := by
    ext script
    rw [List.mem_toFinset, mem_keys, Finset.mem_image]
    constructor
    · rintro ⟨offset, held⟩
      exact ⟨⟨script, offset⟩, (h _).mp held, rfl⟩
    · rintro ⟨l, held, rfl⟩
      exact ⟨l.offset, (h l).mpr held⟩
  have count : b.scriptCount = (S.image Location.script).card := by
    rw [← stored, List.toFinset_card_of_nodup Std.ExtTreeMap.nodup_keys,
      Std.ExtTreeMap.length_keys, scriptCount]
  refine ⟨h, ?_, ?_, ?_, count, nodup_offsets b, fun _ _ => mem_offsets.trans (h _),
    nodup_toList b, fun _ => mem_toList.trans (h _)⟩
  · intro script offsets present
    have key : script ∈ b.scripts.keys := by
      rw [Std.ExtTreeMap.mem_keys, Std.ExtTreeMap.mem_iff_isSome_getElem?, present]
      rfl
    obtain ⟨offset, held⟩ := mem_keys.mp key
    obtain ⟨offsets', present', member⟩ := contains_iff_stored.mp held
    rw [present] at present'
    cases present'
    exact ⟨offset, member, (h _).mp held⟩
  · rw [isEmpty, Std.ExtTreeMap.isEmpty_eq_size_beq_zero, beq_iff_eq, ← scriptCount, count,
      Finset.card_eq_zero, Finset.image_eq_empty]
  · rw [size_eq_length, ← listed, List.toFinset_card_of_nodup (nodup_toList b)]

theorem contains_eq (h : b.Holds S) (l : Location) : b.contains l = decide (l ∈ S) := by
  rw [Bool.eq_iff_iff, decide_eq_true_iff, h.contains_iff]

theorem empty : Breakpoints.empty.Holds ∅ :=
  of_contains fun l => by simp [contains_empty]

theorem insert (h : b.Holds S) (l : Location) : (b.insert l).2.Holds (Insert.insert l S) := by
  apply of_contains
  intro m
  rw [contains_insert, Bool.or_eq_true, decide_eq_true_iff, h.contains_iff, Finset.mem_insert,
    eq_comm]

theorem remove (h : b.Holds S) (l : Location) : (b.remove l).2.Holds (S.erase l) := by
  apply of_contains
  intro m
  rw [contains_remove, Bool.and_eq_true, decide_eq_true_iff, h.contains_iff, Finset.mem_erase,
    ne_comm]

/-- Indexes are equal if and only if what they hold is. -/
theorem beq_iff (hb : b.Holds S) (hc : c.Holds T) : (b == c) = true ↔ S = T := by
  rw [beq_iff_eq]
  constructor
  · rintro rfl
    ext l
    rw [← hb.contains_iff, hc.contains_iff]
  · rintro rfl
    apply ext
    intro l
    rw [Bool.eq_iff_iff, hb.contains_iff, hc.contains_iff]

end Holds

theorem insert_of_contains {l : Location} (held : b.contains l = true) : (b.insert l).2 = b := by
  apply ext
  intro m
  rw [contains_insert, Bool.or_eq_right_iff_imp, decide_eq_true_iff]
  rintro rfl
  exact held

theorem remove_of_not_contains {l : Location} (absent : b.contains l = false) :
    (b.remove l).2 = b := by
  apply ext
  intro m
  rw [contains_remove, Bool.and_eq_right_iff_imp, decide_eq_true_iff]
  rintro held rfl
  rw [absent] at held
  cases held

/-! ## The index that entries describe -/

/-- The locations that entries describe: of several entries for one script the
last one counts. -/
def locationsOf (entries : List Entry) : Finset Location :=
  entries.foldl (fun S e => S.filter (·.script ≠ e.script) ∪
    (e.offsets.map (Location.mk e.script)).toFinset) ∅

theorem mem_locationsOf_concat {entries : List Entry} {e : Entry} {l : Location} :
    l ∈ locationsOf (entries ++ [e]) ↔
      if e.script = l.script then l.offset ∈ e.offsets else l ∈ locationsOf entries := by
  obtain ⟨script, offset⟩ := l
  simp only [locationsOf, List.foldl_append, List.foldl_cons, List.foldl_nil, Finset.mem_union,
    Finset.mem_filter, List.mem_toFinset, List.mem_map, Location.mk.injEq, ne_eq]
  by_cases same : e.script = script
  · simp [same]
  · simp [same, Ne.symm same]

/-- No entry replaces another one if each is for a script of its own. -/
theorem mem_locationsOf_of_nodup {entries : List Entry}
    (distinct : (entries.map Entry.script).Nodup) {l : Location} :
    l ∈ locationsOf entries ↔ ∃ e ∈ entries, e.script = l.script ∧ l.offset ∈ e.offsets := by
  induction entries using List.reverseRecOn with
  | nil => simp [locationsOf]
  | append_singleton entries e ih =>
    rw [List.map_append, List.map_singleton, List.nodup_append_comm, List.singleton_append,
      List.nodup_cons] at distinct
    rw [mem_locationsOf_concat, ih distinct.2]
    by_cases same : e.script = l.script
    · rw [if_pos same]
      constructor
      · exact fun offset => ⟨e, List.mem_concat_self, same, offset⟩
      · rintro ⟨e', member, same', offset⟩
        obtain earlier | last := List.mem_append.mp member
        · exact absurd (List.mem_map.mpr ⟨e', earlier, same'.trans same.symm⟩) distinct.1
        · rwa [← List.mem_singleton.mp last]
    · simp [same]

/-- Dropping the scripts without offsets takes no location away. -/
theorem offsetsOf_ofEntries (entries : List Entry) (script : Bytes) :
    (ofEntries entries).offsetsOf script =
      (Std.ExtTreeMap.ofList (entries.map fun e =>
        (e.script, Std.ExtTreeSet.ofList e.offsets)))[script]?.getD ∅ := by
  unfold offsetsOf ofEntries
  rw [Std.ExtTreeMap.getElem?_filter]
  cases (Std.ExtTreeMap.ofList (entries.map fun e =>
    (e.script, Std.ExtTreeSet.ofList e.offsets)))[script]? with
  | none => rfl
  | some offsets =>
    by_cases none_left : offsets = ∅
    · simp [none_left, Option.filter]
    · have kept : offsets.isEmpty = false := by
        rw [← Bool.not_eq_true, Std.ExtTreeSet.isEmpty_iff]
        exact none_left
      simp [kept, Option.filter]

theorem offsetsOf_ofEntries_concat (entries : List Entry) (e : Entry) (script : Bytes) :
    (ofEntries (entries ++ [e])).offsetsOf script =
      if e.script = script then Std.ExtTreeSet.ofList e.offsets
      else (ofEntries entries).offsetsOf script := by
  rw [offsetsOf_ofEntries, offsetsOf_ofEntries, List.map_append, List.map_singleton,
    Std.ExtTreeMap.ofList_eq_insertMany_empty, Std.ExtTreeMap.insertMany_append,
    ← Std.ExtTreeMap.ofList_eq_insertMany_empty, Std.ExtTreeMap.insertMany_list_singleton,
    Std.ExtTreeMap.getElem?_insert]
  by_cases same : e.script = script
  · simp [same]
  · simp [same]

theorem contains_ofEntries (entries : List Entry) (l : Location) :
    (ofEntries entries).contains l = true ↔ l ∈ locationsOf entries := by
  induction entries using List.reverseRecOn with
  | nil => simp [contains, offsetsOf_ofEntries, locationsOf]
  | append_singleton entries e ih =>
    rw [contains, offsetsOf_ofEntries_concat, mem_locationsOf_concat, ← ih]
    split
    · rw [Std.ExtTreeSet.contains_ofList, List.contains_iff_mem]
    · rfl

theorem holds_ofEntries (entries : List Entry) : (ofEntries entries).Holds (locationsOf entries) :=
  Holds.of_contains (contains_ofEntries entries)

end ScriptDebugger.Breakpoints

/-
  Loading an index when more bytes are to come

  The verdict on the bytes of an index is a success, or that they are
  truncated, or that a number in them goes on for too long; and only the second
  may change when more bytes arrive. That comes from the readers that an index
  is read with, each of which is `Resumable`. Bytes are called truncated exactly
  if they cannot be loaded and can be completed, and so are the bytes of every
  dump that was cut short.
-/
import ScriptDebugger.Proofs.Breakpoints.Language
import ScriptDebugger.Proofs.Breakpoints.RoundTrip
import ScriptDebugger.Proofs.Wire.Resumable

namespace ScriptDebugger.Breakpoints

open Wire (Resumable)

namespace Entry

theorem readOffset_resumable : Resumable readOffset := by
  rw [readOffset_eq]
  have word32 : Resumable (Wire.Varint.read .word32) := Resumable.varint (by decide)
  exact word32.andThen fun n => Resumable.value (UInt32.ofNat n)

theorem read_resumable : Resumable read := by
  rw [read_eq]
  exact Resumable.byteString.andThen fun script =>
    readOffset_resumable.sequence.andThen fun offsets => Resumable.value (Entry.mk script offsets)

end Entry

theorem readEntries_resumable : Resumable readEntries := Entry.read_resumable.sequence

theorem load_eq_error_iff {bytes : Bytes} {f : Wire.Fault} :
    load bytes = .error f ↔ readEntries bytes = .error f := by
  rw [load, Wire.map_eq_error_iff, Wire.Reader.first, Wire.map_eq_error_iff]

theorem exists_load_eq_ok_iff {bytes : Bytes} :
    (∃ b, load bytes = .ok b) ↔ ∃ taken, readEntries bytes = .ok taken := by
  constructor
  · intro ⟨b, loaded⟩
    obtain ⟨entries, rest, taken, _⟩ := load_eq_ok_iff.mp loaded
    exact ⟨_, taken⟩
  · intro ⟨⟨entries, rest⟩, taken⟩
    exact ⟨ofEntries entries, load_eq_ok_iff.mpr ⟨entries, rest, taken, rfl⟩⟩

theorem load_append {bytes : Bytes} {b : Breakpoints} (loaded : load bytes = .ok b) (more : Bytes) :
    load (bytes ++ more) = .ok b := by
  obtain ⟨entries, rest, taken, same⟩ := load_eq_ok_iff.mp loaded
  exact load_eq_ok_iff.mpr ⟨entries, rest ++ more, readEntries_resumable.of_ok taken more, same⟩

theorem load_truncated_iff {bytes : Bytes} :
    load bytes = .error .truncated ↔
      (¬ ∃ b, load bytes = .ok b) ∧ ∃ more b, load (bytes ++ more) = .ok b := by
  simp only [load_eq_error_iff, exists_load_eq_ok_iff, readEntries_resumable.truncated_iff,
    not_exists, ne_eq]

/-- A listing of an index that was cut short is truncated. -/
theorem Lists.truncated_of_cut {b : Breakpoints} {es : List Entry} (lists : Lists es b)
    (addressable : b.Addressable) {bytes : Bytes} (cut : bytes <+: writeEntries es)
    (short : bytes ≠ writeEntries es) : load bytes = .error .truncated := by
  apply load_eq_error_iff.mpr
  exact readEntries_resumable.truncated_of_prefix (lists.delimits addressable) cut short

/-- What is said of bytes stays true when more arrive, unless they are
truncated; and they are that exactly if some bytes to come make them whole. -/
theorem load_verdict_stable (bytes : Bytes) :
    ((∃ b, load bytes = .ok b) ∨ load bytes = .error .truncated ∨
      load bytes = .error .unterminated) ∧
    (∀ b, load bytes = .ok b → ∀ more, load (bytes ++ more) = .ok b) ∧
    (load bytes = .error .unterminated → ∀ more, load (bytes ++ more) = .error .unterminated) ∧
    (load bytes = .error .truncated ↔
      (¬ ∃ b, load bytes = .ok b) ∧ ∃ more b, load (bytes ++ more) = .ok b) ∧
    (∀ b : Breakpoints, b.Addressable → bytes <+: b.dump → bytes ≠ b.dump →
      load bytes = .error .truncated) ∧
    ∀ b es, b.Addressable → Lists es b → bytes <+: writeEntries es → bytes ≠ writeEntries es →
      load bytes = .error .truncated := by
  refine ⟨?verdicts, fun b => load_append, ?stays, load_truncated_iff,
    fun b addressable => (lists_entries b).truncated_of_cut addressable,
    fun b es addressable lists => lists.truncated_of_cut addressable⟩
  case verdicts =>
    cases verdict : load bytes with
    | ok b => exact .inl ⟨b, rfl⟩
    | error f =>
      rcases readEntries_resumable.of_error (load_eq_error_iff.mp verdict) with ⟨rfl, _⟩ | ⟨rfl, _⟩
      · exact .inr (.inl rfl)
      · exact .inr (.inr rfl)
  case stays =>
    intro failed more
    rcases readEntries_resumable.of_error (load_eq_error_iff.mp failed) with ⟨other, _⟩ | ⟨_, stays⟩
    · cases other
    · exact load_eq_error_iff.mpr (stays more)

/-- A dump that is cut after the hash, a listing that is cut within an offset,
and a count of ten bytes that all go on. -/
theorem load_verdict_of_cut_offset :
    let b := ofEntries [⟨[], [300]⟩]
    let overlong : Bytes := [255, 255, 255, 255, 255, 255, 255, 255, 255, 255]
    b.Addressable ∧ Lists [⟨[], [300]⟩] b ∧ b.dump = [1, 0, 1, 172, 2] ∧
      load [1, 0] = .error .truncated ∧ load [1, 0, 1, 172] = .error .truncated ∧
      (∃ more b', load ([1, 0, 1, 172] ++ more) = .ok b') ∧
      load overlong = .error .unterminated ∧ (∀ more, load (overlong ++ more) = .error .unterminated) ∧
      load [0] = .ok .empty ∧ (∀ more, load ([0] ++ more) = .ok .empty) := by
  intro b overlong
  have addressable : b.Addressable := ⟨by decide +kernel, by decide +kernel⟩
  have lists : Lists [⟨[], [300]⟩] b := ⟨by decide +kernel, by decide +kernel⟩
  have dump : b.dump = [1, 0, 1, 172, 2] := by decide +kernel
  have short : load [1, 0] = .error .truncated := by
    apply (load_verdict_stable [1, 0]).2.2.2.2.1 b addressable <;> rw [dump] <;> decide
  obtain ⟨_, _, _, truncated_iff, _, cut⟩ := load_verdict_stable [1, 0, 1, 172]
  have truncated := cut b _ addressable lists (by decide +kernel) (by decide +kernel)
  have unterminated : load overlong = .error .unterminated := by decide
  have empty : load [0] = .ok .empty := by decide +kernel
  exact ⟨addressable, lists, dump, short, truncated, (truncated_iff.mp truncated).2,
    unterminated, (load_verdict_stable overlong).2.2.1 unterminated,
    empty, (load_verdict_stable [0]).2.1 .empty empty⟩

end ScriptDebugger.Breakpoints

/-
  Persisted breakpoints

  An index is persisted as a sequence of entries, each a script hash and a
  sequence of offsets. `dump` writes the scripts and their offsets in
  ascending order. `load` takes entries in any order: an offset that is
  repeated counts once, of several entries for one script the last one counts,
  and then scripts that have no offsets are dropped.

  Correspondence (stepvm ↔ here):
    `dump`, `load`                         ↔ `dump`, `load`
    the serialized table of scripts        ↔ the entries, in `writeEntries`
    a script hash and its set of offsets   ↔ `Entry.script`, `Entry.offsets`
  There the order of a dump is that of the hash tables; here it is ascending.
-/
import ScriptDebugger.Breakpoints
import ScriptDebugger.Wire.Sequence

namespace ScriptDebugger.Breakpoints

/-- A script and the offsets listed for it. -/
structure Entry where
  script : Bytes
  offsets : List UInt32
  deriving DecidableEq, Repr

namespace Entry

def writeOffset (offset : UInt32) : Bytes := Wire.Varint.encode offset.toNat

def readOffset : Wire.Reader UInt32 := fun bytes =>
  (Wire.Varint.read .word32 bytes).map fun (offset, bytes) => (UInt32.ofNat offset, bytes)

def write (e : Entry) : Bytes :=
  Wire.writeByteString e.script ++ Wire.writeSequence writeOffset e.offsets

def read : Wire.Reader Entry := fun bytes => do
  let (script, bytes) ← Wire.byteString bytes
  let (offsets, bytes) ← Wire.sequence readOffset bytes
  return (⟨script, offsets⟩, bytes)

end Entry

/-- The entries of an index, ascending. -/
def entries (b : Breakpoints) : List Entry :=
  b.scripts.toList.map fun entry => ⟨entry.1, entry.2.toList⟩

/-- The index that entries describe. -/
def ofEntries (entries : List Entry) : Breakpoints where
  scripts := (Std.ExtTreeMap.ofList
    (entries.map fun e => (e.script, Std.ExtTreeSet.ofList e.offsets))).filter
      fun _ offsets => !offsets.isEmpty
  occupied := by
    intro script offsets h
    rw [Std.ExtTreeMap.getElem?_filter, Option.pfilter_eq_some_iff] at h
    obtain ⟨_, h⟩ := h
    simpa using h

def writeEntries (entries : List Entry) : Bytes := Wire.writeSequence Entry.write entries

def readEntries : Wire.Reader (List Entry) := Wire.sequence Entry.read

def dump (b : Breakpoints) : Bytes := writeEntries b.entries

/-- The index at the front of a byte string. -/
def load (bytes : Bytes) : Except Wire.Fault Breakpoints :=
  (Wire.Reader.first readEntries bytes).map ofEntries

end ScriptDebugger.Breakpoints

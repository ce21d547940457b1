/-
  Host objects

  A host hands objects of its own to a machine. The machine passes references
  to them around and compares them, but never sees what is inside: only the
  host, which knows the type, gets a value back. Each host type comes with a
  comparison of its values, of which nothing is assumed, not even that a value
  equals itself.

  Objects are kept in a table; a handle is a place in it, so that two handles
  are equal when they refer to one and the same object.

  Correspondence (stepvm ↔ here):
    a type with `InteropObject`              ↔ a kind of the class `HostKind`
    its `==`                                 ↔ `HostKind.same`
    `dyn_eq`                                 ↔ `HostObject.same`
    a shared reference, by its identity      ↔ `Handle`
    `get_interface`                          ↔ `view?`
    `downcast_rc`                            ↔ `downcast?`
-/

namespace ScriptDebugger

class HostKind (κ : Type) where
  Value : κ → Type
  /-- The host type's own comparison. -/
  same : (kind : κ) → Value kind → Value kind → Bool

structure HostObject (κ : Type) [HostKind κ] where
  kind : κ
  value : HostKind.Value kind

structure Handle where
  index : Nat
  deriving DecidableEq, Repr

/-- A value of a host type, and the object that it is the value of. -/
structure Shared {κ : Type} [HostKind κ] (kind : κ) where
  handle : Handle
  value : HostKind.Value kind

variable {κ : Type} [HostKind κ] [DecidableEq κ]

/-- The value of an object, if it is of the given type. -/
def HostObject.as? (o : HostObject κ) (kind : κ) : Option (HostKind.Value kind) :=
  if h : o.kind = kind then some (h ▸ o.value) else none

/-- Whether two objects are of one type and its comparison takes them for the
same. -/
def HostObject.same (a b : HostObject κ) : Bool :=
  match b.as? a.kind with
  | some value => HostKind.same a.kind a.value value
  | none => false

/-- The host objects that a machine has references to. -/
structure HostTable (κ : Type) [HostKind κ] where
  objects : Array (HostObject κ)

namespace HostTable

omit [DecidableEq κ] in
def empty : HostTable κ := ⟨#[]⟩

omit [DecidableEq κ] in
/-- Takes in an object that no handle refers to yet. -/
def register (t : HostTable κ) (o : HostObject κ) : Handle × HostTable κ :=
  (⟨t.objects.size⟩, ⟨t.objects.push o⟩)

omit [DecidableEq κ] in
def find? (t : HostTable κ) (h : Handle) : Option (HostObject κ) := t.objects[h.index]?

/-- Whether the objects of two handles are the same by their type's
comparison. -/
def same (t : HostTable κ) (a b : Handle) : Bool :=
  match t.find? a, t.find? b with
  | some a, some b => a.same b
  | _, _ => false

/-- A look at the value of an object as one of the given type. -/
def view? (t : HostTable κ) (h : Handle) (kind : κ) : Option (HostKind.Value kind) :=
  (t.find? h).bind (·.as? kind)

/-- A reference to an object as one of the given type. -/
def downcast? (t : HostTable κ) (h : Handle) (kind : κ) : Option (Shared kind) :=
  match t.find? h with
  | none => none
  | some o => if same : o.kind = kind then some ⟨h, same ▸ o.value⟩ else none

end HostTable

end ScriptDebugger

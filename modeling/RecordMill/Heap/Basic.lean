import RecordMill.Heap.Object
import RecordMill.Heap.Packed

/-!
# The heap

A table of counted objects. Handle `n + 1` names slot `n`; handle 0 names nothing and may be counted up
and down freely. Released slots are used again, the last released first.
-/

namespace RecordMill

structure Slot where
  /-- The references to the object, of which there are fewer than `2 ^ 63`. -/
  count : Nat
  object : Object

structure Heap where
  literals : Array Bytes := #[]
  slots : Array Slot := #[]
  /-- Released slots, the next to be used in front. -/
  free : List Nat := []
  live : Nat := 0
  destroyed : Nat := 0

inductive HeapFault where
  | corruptTag (tag : Nat)
  | invalidHandle (handle : UInt64)
  | releasedHandle (handle : UInt64)
  | notMap (handle : UInt64) (found : ObjectKind)
  | notIterator (handle : UInt64) (found : ObjectKind)
  /-- The handle of a packed string names another kind of object. -/
  | notString
  /-- A literal's index lies outside the table. -/
  | noLiteral
  deriving DecidableEq, Repr

def HeapFault.message? : HeapFault → Option Bytes
  | .corruptTag t => some ("runtime: corrupt string tag 0x" ++ Bytes.hex t)
  | .invalidHandle h => some ("runtime: invalid handle " ++ Bytes.decimal h.toNat)
  | .releasedHandle h => some ("runtime: use of released handle " ++ Bytes.decimal h.toNat)
  | .notMap h found =>
    some ("runtime: handle " ++ Bytes.decimal h.toNat ++ " is " ++ found.name ++ ", not a map")
  | .notIterator h found =>
    some ("runtime: handle " ++ Bytes.decimal h.toNat ++ " is " ++ found.name ++ ", not an iterator")
  | .notString | .noLiteral => none

namespace Heap

def ofLiterals (literals : List Bytes) : Heap := { literals := literals.toArray }

/-! ## Handles -/

/-- The last released slot is used first; a new one is added when there is none. -/
def alloc (h : Heap) (o : Object) : UInt64 × Heap :=
  match h.free with
  | i :: free =>
    ((i + 1).toUInt64, { h with slots := h.slots.setIfInBounds i ⟨1, o⟩, free, live := h.live + 1 })
  | [] =>
    ((h.slots.size + 1).toUInt64, { h with slots := h.slots.push ⟨1, o⟩, live := h.live + 1 })

def slot (h : Heap) (handle : UInt64) : Except HeapFault Slot :=
  if handle = 0 then .error (.invalidHandle handle)
  else match h.slots[handle.toNat - 1]? with
    | none => .error (.invalidHandle handle)
    | some s => if s.count = 0 then .error (.releasedHandle handle) else .ok s

def ref (h : Heap) (handle : UInt64) : Except HeapFault Heap :=
  if handle = 0 then .ok h
  else do
    let s ← h.slot handle
    return { h with slots := h.slots.setIfInBounds (handle.toNat - 1) { s with count := s.count + 1 } }

/-- Counts down; at zero the object is gone and its slot is free. -/
def drop (h : Heap) (handle : UInt64) : Except HeapFault Heap :=
  if handle = 0 then .ok h
  else do
    let s ← h.slot handle
    let i := handle.toNat - 1
    if s.count = 1 then
      return { h with
        slots := h.slots.setIfInBounds i ⟨0, .str []⟩
        free := i :: h.free
        live := h.live - 1
        destroyed := h.destroyed + 1 }
    else return { h with slots := h.slots.setIfInBounds i { s with count := s.count - 1 } }

def count (h : Heap) (handle : UInt64) : Nat :=
  if handle = 0 then 0 else ((h.slots[handle.toNat - 1]?).map Slot.count).getD 0

/-! ## Strings -/

/-- An owned copy of `s`; a short one costs no slot. -/
def newStr (h : Heap) (s : Bytes) : Packed × Heap :=
  if s.length ≤ Packed.maxInline then (Packed.inline s, h)
  else
    let (handle, h) := h.alloc (.str s)
    (Packed.shared handle, h)

def literal (h : Heap) (i : Nat) : Except HeapFault Packed :=
  match h.literals[i]? with
  | some s => .ok (Packed.literal i s)
  | none => .error .noLiteral

def storage (s : Packed) : Except HeapFault Storage :=
  match s.storage? with
  | some k => .ok k
  | none => .error (.corruptTag s.tag.toNat)

def sharedBytes (h : Heap) (handle : UInt64) : Except HeapFault Bytes := do
  let o ← h.slot handle
  match o.object.asStr? with
  | some s => return s
  | none => throw .notString

def string (h : Heap) (s : Packed) : Except HeapFault Bytes := do
  match ← storage s with
  | .inline => return s.inlineBytes
  | .literal =>
    match h.literals[s.lo.toNat]? with
    | some b => return b
    | none => throw .noLiteral
  | .shared => h.sharedBytes s.lo

def strLen (h : Heap) (s : Packed) : Except HeapFault Nat := do
  match ← storage s with
  | .inline => return s.tag.toNat
  | .literal => return (s.hi &&& Packed.lengthMask).toNat
  | .shared => return (← h.sharedBytes s.lo).length

def refStr (h : Heap) (s : Packed) : Except HeapFault Heap := h.ref s.handle

def dropStr (h : Heap) (s : Packed) : Except HeapFault Heap := h.drop s.handle

/-! ## Maps and iterators -/

def newMap (h : Heap) (k : Key) (v : Scalar) : UInt64 × Heap := h.alloc (.map k v ∅)

def map (h : Heap) (k : Key) (v : Scalar) (handle : UInt64) : Except HeapFault (Entries k v) := do
  let s ← h.slot handle
  match s.object.asMap? k v with
  | some m => return m
  | none => throw (.notMap handle s.object.kind)

def setMap (h : Heap) (k : Key) (v : Scalar) (handle : UInt64) (m : Entries k v) : Heap :=
  { h with slots := h.slots.modify (handle.toNat - 1) fun s => { s with object := .map k v m } }

def updateMap (h : Heap) (k : Key) (v : Scalar) (handle : UInt64) (f : Entries k v → Entries k v) :
    Except HeapFault Heap := do
  let m ← h.map k v handle
  return h.setMap k v handle (f m)

def newKeys (h : Heap) (k : Key) (items : List k.Carrier) : UInt64 × Heap :=
  h.alloc (.keys k items.toArray)

def keys (h : Heap) (k : Key) (handle : UInt64) : Except HeapFault (Array k.Carrier) := do
  let s ← h.slot handle
  match s.object.asKeys? k with
  | some items => return items
  | none => throw (.notIterator handle s.object.kind)

end Heap

end RecordMill

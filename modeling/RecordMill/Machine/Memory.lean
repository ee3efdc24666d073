import RecordMill.Text.Bytes

/-!
# Traps and memory

A call that cannot go on ends in a trap. Most traps come from the memory.
-/

namespace RecordMill.Machine

inductive TrapCode where
  | divisionByZero
  | outOfBounds
  | stackOverflow
  | host
  | other (code : Nat)
  deriving DecidableEq, Repr

namespace TrapCode

def ofCode : Nat → TrapCode
  | 1 => .divisionByZero
  | 2 => .outOfBounds
  | 3 => .stackOverflow
  | 4 => .host
  | n => .other n

def name : TrapCode → Bytes
  | .divisionByZero => "integer division by zero"
  | .outOfBounds => "heap out of bounds"
  | .stackOverflow => "stack overflow"
  | .host => "host function fault"
  | .other n => "trap(" ++ Bytes.decimal n ++ ")"

end TrapCode

/-- The end of a call that could not go on. -/
structure Trap where
  code : TrapCode
  /-- The function that was called from outside. -/
  func : Bytes := []
  address : UInt64 := 0
  cause : Option Bytes := none
  deriving DecidableEq, Repr

namespace Trap

def detail (t : Trap) : Bytes :=
  match t.code, t.cause with
  | .outOfBounds, _ => " at 0x" ++ Bytes.hex t.address.toNat
  | _, some cause => ": " ++ cause
  | _, none => []

def message (t : Trap) : Bytes :=
  "jit: trap" ++ (if t.func.isEmpty then [] else text " in " ++ t.func) ++ ": " ++ t.code.name ++ t.detail

/-- The use of a place that is not in a row of so many words. -/
def outOfRange (place size : Nat) : Trap :=
  { code := .host
    cause := some ("runtime error: index out of range [" ++ Bytes.decimal place ++ "] with length "
      ++ Bytes.decimal size) }

/-- The use of places up to one that is not in a row of so many words. -/
def overrun (stop size : Nat) : Trap :=
  { code := .host
    cause := some ("runtime error: slice bounds out of range [:" ++ Bytes.decimal stop ++ "] with capacity "
      ++ Bytes.decimal size) }

def reversed (start stop : Nat) : Trap :=
  { code := .host
    cause := some ("runtime error: slice bounds out of range [" ++ Bytes.decimal start ++ ":"
      ++ Bytes.decimal stop ++ "]") }

/-- Names the function called from outside, unless one is named already. -/
def within (t : Trap) (func : Bytes) : Trap := if t.func.isEmpty then { t with func } else t

end Trap

/-!
## Memory

The memory of an instance is a row of words. Addresses count bytes and must be multiples of eight;
address 0 is never used. Data objects stand at the low end and the stack follows them. Sizes are signed
numbers of sixty-four bits and their sums wrap, so that a size can turn out to be negative.
-/

structure Memory where
  /-- The words up to the last one ever stored; all others are zero. -/
  words : Array UInt64
  length : Nat
  stackBase : UInt64
  /-- The first word of the stack that is free. -/
  sp : UInt64

namespace Memory

def defaultStack : Int64 := 65536

def maxLength : Int64 := 35184372088832

/-- `none` if there can be no memory of that size. -/
def ofSizes? (dataWords stackWords : Int64) : Option Memory :=
  let base := 1 + dataWords
  let length := base + stackWords
  if length < 0 ∨ maxLength < length then none
  else some { words := #[], length := length.toNatClampNeg, stackBase := base.toUInt64, sp := base.toUInt64 }

def size (m : Memory) : Nat := m.length * 8

def index (m : Memory) (address : UInt64) : Except Trap Nat :=
  if address = 0 ∨ address % 8 ≠ 0 ∨ m.length ≤ address.toNat / 8 then
    .error { code := .outOfBounds, address }
  else .ok (address.toNat / 8)

def load (m : Memory) (address : UInt64) : Except Trap UInt64 := do
  return m.words.getD (← m.index address) 0

/-- Sets a word, after zeros up to it if it lies behind all others. -/
def put (words : Array UInt64) (i : Nat) (w : UInt64) : Array UInt64 :=
  if i < words.size then words.setIfInBounds i w else (words ++ Array.replicate (i - words.size) 0).push w

def store (m : Memory) (address w : UInt64) : Except Trap Memory := do
  let i ← m.index address
  return { m with words := put m.words i w }

def loadAll (m : Memory) (address : UInt64) : Nat → Except Trap (List UInt64)
  | 0 => .ok []
  | n + 1 => do
    let w ← m.load address
    return w :: (← loadAll m (address + 8) n)

/-- Words in front of one that cannot be stored are stored. -/
def storeAll (m : Memory) (address : UInt64) : List UInt64 → Except Trap Unit × Memory
  | [] => (.ok (), m)
  | w :: ws => match m.index address with
    | .ok i => storeAll { m with words := put m.words i w } (address + 8) ws
    | .error t => (.error t, m)

/-- Words `[at_, at_ + n)` set to zero, as far as they were ever stored. -/
def clear (words : Array UInt64) (at_ : Nat) : Nat → Array UInt64
  | 0 => words
  | n + 1 => clear (words.setIfInBounds at_ 0) (at_ + 1) n

/-- Reserves zeroed words on the stack and yields their address. -/
def push (m : Memory) (n : Int64) : Except Trap (UInt64 × Memory) :=
  match m with
  | ⟨words, length, stackBase, sp⟩ =>
    let stop := sp + n.toUInt64
    if n = 0 then .ok (sp * 8, ⟨words, length, stackBase, sp⟩)
    else if length < stop.toNat then .error { code := .stackOverflow }
    else if stop < sp then .error (.reversed sp.toNat stop.toNat)
    else
      let stored := min stop.toNat words.size - sp.toNat
      .ok (sp * 8, ⟨clear words sp.toNat stored, length, stackBase, stop⟩)

def pop (m : Memory) (base : UInt64) : Memory := { m with sp := base / 8 }

def reset (m : Memory) : Memory := { m with sp := m.stackBase }

end Memory

end RecordMill.Machine

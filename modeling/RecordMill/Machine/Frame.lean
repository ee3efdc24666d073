import RecordMill.Machine.Builder

/-!
# Flat frames

A call keeps its values, its variables and some scratch space side by side in one row of words. Each
instruction becomes a step that reads and writes fixed places of that row.
-/

namespace RecordMill.Machine

/-- A run of words in a frame. -/
structure Span where
  offset : Nat
  words : Nat
  deriving DecidableEq, Repr, Inhabited

namespace Span

def consecutive : Nat → List Kind → List Span
  | _, [] => []
  | at_, k :: ks => ⟨at_, k.words⟩ :: consecutive (at_ + k.words) ks

def total (ss : List Span) : Nat := ss.foldr (·.words + ·) 0

end Span

/-! ## Steps -/

inductive Step where
  | const (out : Nat) (imm : UInt64)
  | pair (out lo hi : Nat)
  /-- A narrow operation works on the low 32 bits. -/
  | int (op : IntOp) (narrow : Bool) (out x y : Nat)
  | shift (op : ShiftOp) (out x y : Nat)
  | intUnary (op : IntUnary) (narrow : Bool) (out x : Nat)
  | float (op : FloatOp) (out x y : Nat)
  | floatUnary (op : FloatUnary) (out x : Nat)
  | icmp (cond : IntCond) (narrow : Bool) (out x y : Nat)
  | fcmp (cond : FloatCond) (out x y : Nat)
  | bint (out x : Nat)
  | toInt (narrow : Bool) (out x : Nat)
  | ofInt (narrow : Bool) (out x : Nat)
  | load (out pointer : Nat) (offset : UInt64) (words : Nat)
  | store (x pointer : Nat) (offset : UInt64) (words : Nat)
  | stackAddr (out : Nat) (offset : UInt64)
  | copy (out source words : Nat)
  /-- The arguments are gathered from `moves` at `scratch`, and the results go to `out`. -/
  | call (callee : FuncId) (scratch : Nat) (moves : List Span) (words : Nat) (out : Nat)
  deriving DecidableEq, Repr

/-- How a block passes control on. -/
inductive Exit where
  /-- The words of `sources` go to `targets` by way of `scratch`, so that both may overlap. -/
  | jump (dest : BlockId) (sources : List Span) (scratch : Nat) (targets : List Span)
  | branch (cond : Nat) (dest alt : BlockId)
  | ret (sources : List Span)
  deriving DecidableEq, Repr

structure CodeBlock where
  steps : List Step
  exit : Exit
  deriving DecidableEq, Repr

instance : Inhabited CodeBlock := ⟨⟨[], .ret []⟩⟩

/-! ## Layout -/

/-- The places of the values and variables of a body. -/
structure Layout where
  values : Array Span
  vars : Array Span
  /-- The first word of every stack slot, counted from the start of the stack area. -/
  slots : Array Int64
  deriving DecidableEq, Repr

namespace Layout

def slotOffsets : Int64 → List Int64 → List Int64
  | _, [] => []
  | at_, w :: ws => at_ :: slotOffsets (at_ + w) ws

def ofBody (f : Body) : Layout :=
  { values := (Span.consecutive 0 f.values.toList).toArray
    vars := (Span.consecutive (Kind.total f.values.toList) f.vars.toList).toArray
    slots := (slotOffsets 0 f.slots.toList).toArray }

def size (f : Body) : Nat := Kind.total f.values.toList + Kind.total f.vars.toList

end Layout

/-! ## Laying out code -/

/-- Keeps the number of words in use, and fails on a value or a condition that does not exist. -/
abbrev Lay := StateT Nat Option

namespace Lay

def alloc (n : Nat) : Lay Nat := do
  let at_ ← get
  set (at_ + n)
  return at_

def span (l : Layout) (v : Value) : Lay Span := liftM l.values[v]?

def spans (l : Layout) (vs : List Value) : Lay (List Span) := vs.mapM (span l)

def place (l : Layout) (v : Value) : Lay Nat := do return (← span l v).offset

def varPlace (l : Layout) (v : VarId) : Lay Nat := do return (← liftM l.vars[v]?).offset

def result (l : Layout) (i : Inst) : Lay Nat := do place l (← liftM i.results.head?)

def call (f : Body) (l : Layout) (i : Inst) (r : RefId) (args : List Value) : Lay Step := do
  let c ← liftM f.callees[r]?
  let words := Kind.total c.sig.params
  let scratch ← alloc words
  let moves ← spans l args
  let out ← match i.results with
    | [] => pure 0
    | v :: _ => place l v
  return .call c.id scratch moves words out

/-- The step of an instruction that does not end its block. -/
def step (f : Body) (l : Layout) (i : Inst) : Lay Step := do
  match i.action with
  | .iconst _ imm | .fconst imm => return .const (← result l i) imm
  | .concat lo hi => return .pair (← result l i) (← place l lo) (← place l hi)
  | .int op k x y => return .int op (k == .i32) (← result l i) (← place l x) (← place l y)
  | .shift op x y => return .shift op (← result l i) (← place l x) (← place l y)
  | .intUnary op k x => return .intUnary op (k == .i32) (← result l i) (← place l x)
  | .float op x y => return .float op (← result l i) (← place l x) (← place l y)
  | .floatUnary op x => return .floatUnary op (← result l i) (← place l x)
  | .icmp c k x y => return .icmp c (k == .i32) (← result l i) (← place l x) (← place l y)
  | .fcmp c x y => return .fcmp c (← result l i) (← place l x) (← place l y)
  | .bint _ x => return .bint (← result l i) (← place l x)
  | .toInt k x => return .toInt (k == .i32) (← result l i) (← place l x)
  | .ofInt _ narrow x => return .ofInt narrow (← result l i) (← place l x)
  | .load k p off => return .load (← result l i) (← place l p) off.toInt64.toUInt64 k.words
  | .store k x p off => return .store (← place l x) (← place l p) off.toInt64.toUInt64 k.words
  | .stackAddr _ s off =>
    return .stackAddr (← result l i) (((← liftM l.slots[s]?) * 8).toUInt64 + off.toInt64.toUInt64)
  | .call r args => call f l i r args
  | .useVar k v => return .copy (← result l i) (← varPlace l v) k.words
  | .defVar k v x => return .copy (← varPlace l v) (← place l x) k.words
  | .jump .. | .brif .. | .ret _ => failure

def exit (f : Body) (l : Layout) : Action → Lay Exit
  | .jump dest [] => return .jump dest [] 0 []
  | .jump dest args => do
    let sources ← spans l args
    let targets ← spans l (f.blocks.getD dest {}).params
    return .jump dest sources (← alloc (Span.total sources)) targets
  | .brif c dest alt => return .branch (← place l c) dest alt
  | .ret vals => return .ret (← spans l vals)
  | _ => failure

def block (f : Body) (l : Layout) (b : Block) : Lay CodeBlock := do
  let insts := f.instsOf b
  let steps ← insts.dropLast.mapM (step f l)
  return { steps, exit := ← exit f l (← liftM insts.getLast?).action }

end Lay

end RecordMill.Machine

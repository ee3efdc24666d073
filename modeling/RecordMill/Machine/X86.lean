import RecordMill.Machine.Frame

/-!
# Machine code

A function made only of word arithmetic, comparisons, variables and branches also has an x86-64 form.
It works on the same frame, whose address is in DI: every instruction loads its operands into AX and
CX, computes, and stores the result back. A return leaves the results in a row of their own.
-/

namespace RecordMill.Machine.X86

inductive Register where
  | ax
  | cx
  deriving DecidableEq, Repr

/-- Operations that leave their result in AX. -/
inductive Alu where
  | add
  | sub
  | imul
  | and
  | or
  | xor
  | shl
  | shr
  | sar
  deriving DecidableEq, Repr

/-- The instruction forms in use. Frame words are addressed by their index. -/
inductive Code where
  | load (r : Register) (word : Nat)
  | store (word : Nat) (r : Register)
  | moveImm (imm : UInt64)
  | alu (op : Alu)
  | neg
  | not
  | cmp
  | setcc (cond : UInt8)
  | zeroExtend
  | lowBit
  | test
  | jumpNonZero (b : BlockId)
  | jump (b : BlockId)
  | ret
  deriving DecidableEq, Repr

/-! ## Encoding -/

/-- The four low bytes of a number, least significant first. -/
def bytes32 (n : Int) : Bytes :=
  let w := (n % 4294967296).toNat
  [w.toUInt8, (w / 256).toUInt8, (w / 65536).toUInt8, (w / 16777216).toUInt8]

def bytes64 (w : UInt64) : Bytes := (List.range 8).map fun i => (w >>> (8 * i).toUInt64).toUInt8

def operand (r : Register) (word : Nat) : Bytes :=
  (match r with
    | .ax => 0x87
    | .cx => 0x8F) :: bytes32 (word * 8)

def aluBytes : Alu → Bytes
  | .add => [0x48, 0x01, 0xC8]
  | .sub => [0x48, 0x29, 0xC8]
  | .imul => [0x48, 0x0F, 0xAF, 0xC1]
  | .and => [0x48, 0x21, 0xC8]
  | .or => [0x48, 0x09, 0xC8]
  | .xor => [0x48, 0x31, 0xC8]
  | .shl => [0x48, 0xD3, 0xE0]
  | .shr => [0x48, 0xD3, 0xE8]
  | .sar => [0x48, 0xD3, 0xF8]

/-- The bytes of an instruction; `jumpBy` is the distance to a block from the end of the instruction. -/
def Code.bytes (jumpBy : BlockId → Int) : Code → Bytes
  | .load r w => 0x48 :: 0x8B :: operand r w
  | .store w r => 0x48 :: 0x89 :: operand r w
  | .moveImm imm => 0x48 :: 0xB8 :: bytes64 imm
  | .alu op => aluBytes op
  | .neg => [0x48, 0xF7, 0xD8]
  | .not => [0x48, 0xF7, 0xD0]
  | .cmp => [0x48, 0x39, 0xC8]
  | .setcc cond => [0x0F, cond, 0xC0]
  | .zeroExtend => [0x0F, 0xB6, 0xC0]
  | .lowBit => [0x48, 0x83, 0xE0, 0x01]
  | .test => [0x48, 0x85, 0xC0]
  | .jumpNonZero b => 0x0F :: 0x85 :: bytes32 (jumpBy b)
  | .jump b => 0xE9 :: bytes32 (jumpBy b)
  | .ret => [0xC3]

def Code.size (c : Code) : Nat := (c.bytes fun _ => 0).length

def size (cs : List Code) : Nat := cs.foldr (·.size + ·) 0

def starts : Nat → List (List Code) → List Nat
  | _, [] => []
  | at_, b :: bs => at_ :: starts (at_ + size b) bs

/-- The bytes of instructions that begin at `at_`. -/
def encodeFrom (starts : Array Nat) : Nat → List Code → Bytes
  | _, [] => []
  | at_, c :: cs =>
    let next := at_ + c.size
    c.bytes (fun b => (starts.getD b 0 : Int) - next) ++ encodeFrom starts next cs

def encode (blocks : List (List Code)) : Bytes := encodeFrom (starts 0 blocks).toArray 0 blocks.flatten

/-! ## From instructions -/

def intAlu? : IntOp → Option Alu
  | .add => some .add
  | .sub => some .sub
  | .mul => some .imul
  | .and => some .and
  | .or => some .or
  | .xor => some .xor
  | .div | .rem => none

def shiftAlu : ShiftOp → Alu
  | .left => .shl
  | .right => .shr
  | .signedRight => .sar

def condByte? : IntCond → Option UInt8
  | .eq => some 0x94
  | .ne => some 0x95
  | .lt => some 0x9C
  | .le => some 0x9E
  | .gt => some 0x9F
  | .ge => some 0x9D
  | .unknown _ => none

def covers : Action → Bool
  | .iconst .. | .fconst _ | .concat .. | .bint .. | .useVar .. | .defVar .. | .jump .. | .brif .. | .ret _
  | .shift .. => true
  | .int op k _ _ => (intAlu? op).isSome && k == .i64
  | .intUnary _ k _ | .icmp _ k _ _ => k == .i64
  | _ => false

def copyWords (out source n : Nat) : List Code :=
  (List.range n).flatMap fun k => [.load .ax (source + k), .store (out + k) .ax]

/-- Copies spans one after another to a row of words. -/
def gather : Nat → List Span → List Code
  | _, [] => []
  | out, s :: ss => copyWords out s.offset s.words ++ gather (out + s.words) ss

def scatter : Nat → List Span → List Code
  | _, [] => []
  | source, s :: ss => copyWords s.offset source s.words ++ scatter (source + s.words) ss

def binary (out x y : Nat) (op : Alu) : List Code := [.load .ax x, .load .cx y, .alu op, .store out .ax]

/-- The code of an instruction that `covers` admits and that does not end its block. -/
def code (l : Layout) (i : Inst) : Lay (List Code) := do
  match i.action with
  | .iconst _ imm | .fconst imm => return [.moveImm imm, .store (← Lay.result l i) .ax]
  | .concat lo hi =>
    let out ← Lay.result l i
    return copyWords out (← Lay.place l lo) 1 ++ copyWords (out + 1) (← Lay.place l hi) 1
  | .int op _ x y => return binary (← Lay.result l i) (← Lay.place l x) (← Lay.place l y) (← liftM (intAlu? op))
  | .shift op x y => return binary (← Lay.result l i) (← Lay.place l x) (← Lay.place l y) (shiftAlu op)
  | .intUnary op _ x =>
    let c : Code := match op with
      | .neg => .neg
      | .not => .not
    return [.load .ax (← Lay.place l x), c, .store (← Lay.result l i) .ax]
  | .icmp c _ x y =>
    return [.load .ax (← Lay.place l x), .load .cx (← Lay.place l y), .cmp, .setcc (← liftM (condByte? c)),
      .zeroExtend, .store (← Lay.result l i) .ax]
  | .bint _ x => return [.load .ax (← Lay.place l x), .lowBit, .store (← Lay.result l i) .ax]
  | .useVar k v => return copyWords (← Lay.result l i) (← Lay.varPlace l v) k.words
  | .defVar k v x => return copyWords (← Lay.varPlace l v) (← Lay.place l x) k.words
  | _ => failure

/-- A jump without arguments has its place in the scratch space, too. -/
def exit (f : Body) (l : Layout) : Action → Lay Exit
  | .jump dest args => do
    let sources ← Lay.spans l args
    let scratch ← Lay.alloc (Span.total sources)
    return .jump dest sources scratch (← Lay.spans l (f.blocks.getD dest {}).params)
  | a => Lay.exit f l a

/-- Results are returned at `returns`. -/
def exitCode (returns : Nat) : Exit → List Code
  | .jump dest sources scratch targets => gather scratch sources ++ scatter scratch targets ++ [.jump dest]
  | .branch cond dest alt => [.load .ax cond, .test, .jumpNonZero dest, .jump alt]
  | .ret sources => gather returns sources ++ [.ret]

/-- The code of a block, and how it passes control on. -/
def block (f : Body) (l : Layout) (returns : Nat) (b : Block) : Lay (List Code × Exit) := do
  let insts := f.instsOf b
  let cs ← insts.dropLast.mapM (code l)
  let e ← exit f l (← liftM insts.getLast?).action
  return (cs.flatten ++ exitCode returns e, e)

def blocks (f : Body) (l : Layout) : Lay (List (List Code × Exit) × Nat) := do
  let returns ← Lay.alloc (Kind.total f.sig.returns)
  return (← f.blocks.toList.mapM (block f l returns), returns)

end RecordMill.Machine.X86

import RecordMill.Machine.X86

/-!
# The processor

The meaning of the x86-64 instruction forms in use, from their bytes on. Registers have their hardware
numbers, memory is addressed by the byte, and the code stands apart from the memory. Flags that an
instruction leaves undefined, or that no form in use looks at afterwards, are unknown.
-/

namespace RecordMill.Machine

/-- The conditions of the flags, signed. -/
inductive Cpu.Condition where
  | equal
  | notEqual
  | less
  | notLess
  | notGreater
  | greater
  deriving DecidableEq, Repr

/-- Operations on two registers that leave their result in the first; the last two only set flags. -/
inductive Cpu.Binary where
  | add
  | sub
  | and
  | or
  | xor
  | imul
  | cmp
  | test
  deriving DecidableEq, Repr

inductive Cpu.Shift where
  | shl
  | shr
  | sar
  deriving DecidableEq, Repr

/-- A decoded instruction. Registers are numbers below 8. -/
inductive Cpu.Instr where
  | load (r base : Nat) (disp : Int)
  | store (base : Nat) (disp : Int) (r : Nat)
  | moveImm (r : Nat) (imm : UInt64)
  | binary (op : Cpu.Binary) (dst src : Nat)
  | shiftByCount (op : Cpu.Shift) (r : Nat)
  | not (r : Nat)
  | neg (r : Nat)
  | andImm (r : Nat) (imm : Int)
  | setByte (cond : Cpu.Condition) (r : Nat)
  /-- A register gets the lowest byte of another one. -/
  | zeroExtend (dst src : Nat)
  /-- Distances count from the end of the instruction. -/
  | jumpIf (cond : Cpu.Condition) (by_ : Int)
  | jump (by_ : Int)
  | ret
  deriving DecidableEq, Repr

namespace Cpu

/-! ## Decoding -/

def littleEndian : Bytes → Nat
  | [] => 0
  | b :: bs => b.toNat + 256 * littleEndian bs

def signed32 (bs : Bytes) : Int :=
  let n := littleEndian bs
  if n < 2147483648 then n else (n : Int) - 4294967296

def signed8 (b : UInt8) : Int := if b < 128 then b.toNat else (b.toNat : Int) - 256

/-- What the byte behind an opcode says of its operands. -/
structure Operands where
  mode : Nat
  reg : Nat
  rm : Nat

def Operands.ofByte (b : UInt8) : Operands := ⟨b.toNat / 64, b.toNat / 8 % 8, b.toNat % 8⟩

def registers? (b : UInt8) : Option (Nat × Nat) :=
  let o := Operands.ofByte b
  if o.mode = 3 then some (o.reg, o.rm) else none

def extended? (b : UInt8) (ext : Nat) : Option Nat :=
  let o := Operands.ofByte b
  if o.mode = 3 ∧ o.reg = ext then some o.rm else none

/-- A register, and a place in memory at a distance of 32 bits from another one. Number 4 would need one
more byte. -/
def memory? : Bytes → Option (Nat × Nat × Int)
  | b :: b₀ :: b₁ :: b₂ :: b₃ :: _ =>
    let o := Operands.ofByte b
    if o.mode = 2 ∧ o.rm ≠ 4 then some (o.reg, o.rm, signed32 [b₀, b₁, b₂, b₃]) else none
  | _ => none

def condition? (opcode : UInt8) : Option Condition :=
  match opcode % 16 with
  | 4 => some .equal
  | 5 => some .notEqual
  | 12 => some .less
  | 13 => some .notLess
  | 14 => some .notGreater
  | 15 => some .greater
  | _ => none

/-- Instructions on 64 bits, behind their prefix; with the bytes that they take in all. -/
def decodeWide : Bytes → Option (Instr × Nat)
  | 0x8B :: bs => (memory? bs).map fun (r, base, disp) => (.load r base disp, 7)
  | 0x89 :: bs => (memory? bs).map fun (r, base, disp) => (.store base disp r, 7)
  | 0xB8 :: b₀ :: b₁ :: b₂ :: b₃ :: b₄ :: b₅ :: b₆ :: b₇ :: _ =>
    some (.moveImm 0 (UInt64.ofNat (littleEndian [b₀, b₁, b₂, b₃, b₄, b₅, b₆, b₇])), 10)
  | 0x01 :: b :: _ => (registers? b).map fun (src, dst) => (.binary .add dst src, 3)
  | 0x29 :: b :: _ => (registers? b).map fun (src, dst) => (.binary .sub dst src, 3)
  | 0x21 :: b :: _ => (registers? b).map fun (src, dst) => (.binary .and dst src, 3)
  | 0x09 :: b :: _ => (registers? b).map fun (src, dst) => (.binary .or dst src, 3)
  | 0x31 :: b :: _ => (registers? b).map fun (src, dst) => (.binary .xor dst src, 3)
  | 0x39 :: b :: _ => (registers? b).map fun (src, dst) => (.binary .cmp dst src, 3)
  | 0x85 :: b :: _ => (registers? b).map fun (src, dst) => (.binary .test dst src, 3)
  | 0x0F :: 0xAF :: b :: _ => (registers? b).map fun (dst, src) => (.binary .imul dst src, 4)
  | 0xD3 :: b :: _ =>
    ((extended? b 4).map fun r => (.shiftByCount .shl r, 3)) <|>
    ((extended? b 5).map fun r => (.shiftByCount .shr r, 3))
      <|> ((extended? b 7).map fun r => (.shiftByCount .sar r, 3))
  | 0xF7 :: b :: _ => ((extended? b 2).map fun r => (.not r, 3)) <|> ((extended? b 3).map fun r => (.neg r, 3))
  | 0x83 :: b :: imm :: _ => (extended? b 4).map fun r => (.andImm r (signed8 imm), 4)
  | _ => none

/-- Without a prefix, the registers 4 to 7 would be the second bytes of others. -/
def decodeTwoByte : Bytes → Option (Instr × Nat)
  | 0xB6 :: b :: _ => do
    let (dst, src) ← registers? b
    if src < 4 then some (.zeroExtend dst src, 3) else none
  | opcode :: bs => do
    let c ← condition? opcode
    if opcode / 16 = 8 then
      match bs with
      | b₀ :: b₁ :: b₂ :: b₃ :: _ => some (.jumpIf c (signed32 [b₀, b₁, b₂, b₃]), 6)
      | _ => none
    else if opcode / 16 = 9 then
      let r ← extended? (← bs.head?) 0
      if r < 4 then some (.setByte c r, 3) else none
    else none
  | [] => none

def decode : Bytes → Option (Instr × Nat)
  | 0x48 :: bs => decodeWide bs
  | 0x0F :: bs => decodeTwoByte bs
  | 0xE9 :: b₀ :: b₁ :: b₂ :: b₃ :: _ => some (.jump (signed32 [b₀, b₁, b₂, b₃]), 5)
  | 0xC3 :: _ => some (.ret, 1)
  | _ => none

end Cpu

/-! ## Execution -/

structure Cpu.Flags where
  zero : Bool
  sign : Bool
  overflow : Bool
  deriving DecidableEq, Repr

structure Cpu where
  regs : Nat → UInt64
  /-- `none` while unknown. -/
  flags : Option Cpu.Flags
  memory : UInt64 → UInt8
  /-- The place of the next instruction in the code. -/
  ip : Nat

namespace Cpu

def sign (x : UInt64) : Bool := 9223372036854775808 ≤ x

/-- Flags after an addition of `x` and `y`. -/
def addFlags (x y : UInt64) : Flags :=
  { zero := x + y == 0, sign := sign (x + y), overflow := sign x == sign y && sign (x + y) != sign x }

/-- Flags after a subtraction of `y` from `x`. -/
def subFlags (x y : UInt64) : Flags :=
  { zero := x - y == 0, sign := sign (x - y), overflow := sign x != sign y && sign (x - y) != sign x }

def logicFlags (r : UInt64) : Flags := { zero := r == 0, sign := sign r, overflow := false }

def Condition.holds (f : Flags) : Condition → Bool
  | .equal => f.zero
  | .notEqual => !f.zero
  | .less => f.sign != f.overflow
  | .notLess => f.sign == f.overflow
  | .notGreater => f.zero || f.sign != f.overflow
  | .greater => !f.zero && f.sign == f.overflow

def Binary.eval (x y : UInt64) : Binary → Option UInt64 × Option Flags
  | .add => (some (x + y), some (addFlags x y))
  | .sub => (some (x - y), some (subFlags x y))
  | .and => (some (x &&& y), some (logicFlags (x &&& y)))
  | .or => (some (x ||| y), some (logicFlags (x ||| y)))
  | .xor => (some (x ^^^ y), some (logicFlags (x ^^^ y)))
  | .imul => (some (x * y), none)
  | .cmp => (none, some (subFlags x y))
  | .test => (none, some (logicFlags (x &&& y)))

def Shift.eval (x count : UInt64) : Shift → UInt64
  | .shl => x <<< (count &&& 63)
  | .shr => x >>> (count &&& 63)
  | .sar => (x.toInt64 >>> (count &&& 63).toInt64).toUInt64

/-- Eight bytes from an address on, the lowest first. -/
def readWord (m : UInt64 → UInt8) (a : UInt64) : UInt64 :=
  UInt64.ofNat (littleEndian [m a, m (a + 1), m (a + 2), m (a + 3), m (a + 4), m (a + 5), m (a + 6), m (a + 7)])

def writeWord (m : UInt64 → UInt8) (a w : UInt64) : UInt64 → UInt8 :=
  fun b => if b - a < 8 then UInt8.ofNat (w.toNat >>> (8 * (b - a).toNat)) else m b

def set (c : Cpu) (r : Nat) (w : UInt64) : Cpu := { c with regs := fun s => if s = r then w else c.regs s }

/-- The address at a distance from what a register holds. -/
def address (c : Cpu) (base : Nat) (disp : Int) : UInt64 := c.regs base + (Int64.ofInt disp).toUInt64

inductive Outcome where
  | next (c : Cpu)
  | returned (c : Cpu)

/-- `none` where control leaves the code, or where a condition is unknown. -/
def goTo (c : Cpu) (target : Int) : Option Outcome :=
  if 0 ≤ target then some (.next { c with ip := target.toNat }) else none

/-- One instruction; `ip` stands behind it already. -/
def execute (c : Cpu) : Instr → Option Outcome
  | .load r base disp => some (.next (c.set r (readWord c.memory (c.address base disp))))
  | .store base disp r => some (.next { c with memory := writeWord c.memory (c.address base disp) (c.regs r) })
  | .moveImm r imm => some (.next (c.set r imm))
  | .binary op dst src =>
    match op.eval (c.regs dst) (c.regs src) with
    | (some w, flags) => some (.next { c.set dst w with flags })
    | (none, flags) => some (.next { c with flags })
  | .shiftByCount op r => some (.next { c.set r (op.eval (c.regs r) (c.regs 1)) with flags := none })
  | .not r => some (.next (c.set r (~~~c.regs r)))
  | .neg r => some (.next { c.set r (0 - c.regs r) with flags := some (subFlags 0 (c.regs r)) })
  | .andImm r imm =>
    let w := c.regs r &&& (Int64.ofInt imm).toUInt64
    some (.next { c.set r w with flags := some (logicFlags w) })
  | .setByte cond r => c.flags.map fun f =>
    .next (c.set r (c.regs r / 256 * 256 + if cond.holds f then 1 else 0))
  | .zeroExtend dst src => some (.next (c.set dst (c.regs src % 256)))
  | .jumpIf cond by_ => c.flags.bind fun f => if cond.holds f then c.goTo (c.ip + by_) else some (.next c)
  | .jump by_ => c.goTo (c.ip + by_)
  | .ret => some (.returned c)

/-- Fetches, decodes and executes the instruction at `ip`. -/
def step (code : Bytes) (c : Cpu) : Option Outcome := do
  let (i, n) ← decode (code.drop c.ip)
  execute { c with ip := c.ip + n } i

/-- At most `n` instructions. -/
def run (code : Bytes) : Nat → Cpu → Option Outcome
  | 0, c => some (.next c)
  | n + 1, c => match step code c with
    | some (.next c) => run code n c
    | o => o

theorem run_add (code : Bytes) (a b : Nat) (c : Cpu) : run code (a + b) c = match run code a c with
    | some (.next c) => run code b c
    | o => o := by
  induction a generalizing c with
  | zero => rw [Nat.zero_add]; rfl
  | succ a ih =>
    rw [Nat.succ_add, run, run]
    rcases step code c with _ | ⟨c | c⟩
    · rfl
    · exact ih c
    · rfl

theorem run_of_next {code : Bytes} {n : Nat} {c c' : Cpu} (h : run code n c = some (.next c')) (k : Nat) :
    run code (n + k) c = run code k c' := by
  rw [run_add, h]

theorem run_of_returned {code : Bytes} {n k : Nat} {c s : Cpu} (h : run code n c = some (.returned s)) (hk : n ≤ k) :
    run code k c = some (.returned s) := by
  obtain ⟨b, rfl⟩ := Nat.exists_eq_add_of_le hk
  rw [run_add, h]

/-- The word `i` of the row of words that register 7, DI, points to. -/
def word (c : Cpu) (i : Nat) : UInt64 := readWord c.memory (c.regs 7 + 8 * UInt64.ofNat i)

end Cpu

end RecordMill.Machine

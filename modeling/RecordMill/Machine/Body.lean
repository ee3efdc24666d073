import RecordMill.Machine.Kind
import RecordMill.Number.Notation

/-!
# Function bodies

A body is a list of blocks. Every value is defined once, by an instruction or as a parameter of a
block; variables can be assigned again. A block ends with an instruction that passes control on.
-/

namespace RecordMill.Machine

/-! ## Names within a body -/

abbrev Value := Nat

abbrev BlockId := Nat

abbrev VarId := Nat

abbrev SlotId := Nat

abbrev RefId := Nat

abbrev FuncId := Nat

/-! ## Instructions -/

inductive IntOp where
  | add
  | sub
  | mul
  | div
  | rem
  | and
  | or
  | xor
  deriving DecidableEq, Repr

/-- Shift counts are taken modulo 64. -/
inductive ShiftOp where
  | left
  | right
  | signedRight
  deriving DecidableEq, Repr

inductive IntUnary where
  | neg
  | not
  deriving DecidableEq, Repr

inductive FloatOp where
  | add
  | sub
  | mul
  | div
  deriving DecidableEq, Repr

inductive FloatUnary where
  | neg
  | sqrt
  deriving DecidableEq, Repr

inductive Action where
  | iconst (kind : Kind) (imm : UInt64)
  | fconst (imm : UInt64)
  | concat (lo hi : Value)
  | int (op : IntOp) (kind : Kind) (x y : Value)
  | shift (op : ShiftOp) (x y : Value)
  | intUnary (op : IntUnary) (kind : Kind) (x : Value)
  | float (op : FloatOp) (x y : Value)
  | floatUnary (op : FloatUnary) (x : Value)
  | icmp (cond : IntCond) (kind : Kind) (x y : Value)
  | fcmp (cond : FloatCond) (x y : Value)
  | bint (kind : Kind) (x : Value)
  /-- Toward zero, held within the range of the kind. -/
  | toInt (kind : Kind) (x : Value)
  /-- `narrow` when the operand has 32 bits. -/
  | ofInt (kind : Kind) (narrow : Bool) (x : Value)
  | load (kind : Kind) (pointer : Value) (offset : Int32)
  | store (kind : Kind) (x pointer : Value) (offset : Int32)
  | stackAddr (kind : Kind) (slot : SlotId) (offset : Int32)
  | call (callee : RefId) (args : List Value)
  | useVar (kind : Kind) (var : VarId)
  | defVar (kind : Kind) (var : VarId) (x : Value)
  | jump (dest : BlockId) (args : List Value)
  | brif (cond : Value) (dest alt : BlockId)
  | ret (vals : List Value)
  deriving DecidableEq, Repr

namespace Action

def intOpName : IntOp → Bytes
  | .add => "iadd"
  | .sub => "isub"
  | .mul => "imul"
  | .div => "sdiv"
  | .rem => "srem"
  | .and => "band"
  | .or => "bor"
  | .xor => "bxor"

def shiftName : ShiftOp → Bytes
  | .left => "ishl"
  | .right => "ushr"
  | .signedRight => "sshr"

def intUnaryName : IntUnary → Bytes
  | .neg => "ineg"
  | .not => "bnot"

def floatOpName : FloatOp → Bytes
  | .add => "fadd"
  | .sub => "fsub"
  | .mul => "fmul"
  | .div => "fdiv"

def floatUnaryName : FloatUnary → Bytes
  | .neg => "fneg"
  | .sqrt => "sqrt"

def name : Action → Bytes
  | .iconst .. => "iconst"
  | .fconst _ => "f64const"
  | .concat .. => "iconcat"
  | .int op .. => intOpName op
  | .shift op .. => shiftName op
  | .intUnary op .. => intUnaryName op
  | .float op .. => floatOpName op
  | .floatUnary op _ => floatUnaryName op
  | .icmp .. => "icmp"
  | .fcmp .. => "fcmp"
  | .bint .. => "bint"
  | .toInt .. => "fcvt_to_sint_sat"
  | .ofInt .. => "fcvt_from_sint"
  | .load .. => "load"
  | .store .. => "store"
  | .stackAddr .. => "stack_addr"
  | .call .. => "call"
  | .useVar .. => "use_var"
  | .defVar .. => "def_var"
  | .jump .. => "jump"
  | .brif .. => "brif"
  | .ret _ => "return"

def isTerminator : Action → Bool
  | .jump .. | .brif .. | .ret _ => true
  | _ => false

def args : Action → List Value
  | .iconst .. | .fconst _ | .stackAddr .. | .useVar .. => []
  | .concat x y | .int _ _ x y | .shift _ x y | .float _ x y | .icmp _ _ x y | .fcmp _ x y
  | .store _ x y _ => [x, y]
  | .intUnary _ _ x | .floatUnary _ x | .bint _ x | .toInt _ x | .ofInt _ _ x | .load _ x _
  | .defVar _ _ x | .brif x _ _ => [x]
  | .call _ xs | .jump _ xs | .ret xs => xs

end Action

structure Inst where
  action : Action
  results : List Value := []
  deriving DecidableEq, Repr

structure Block where
  params : List Value := []
  /-- Instructions by their number in the body. -/
  insts : Array Nat := #[]
  terminated : Bool := false
  deriving DecidableEq, Repr, Inhabited

structure Callee where
  id : FuncId
  sig : Signature
  deriving DecidableEq, Repr

structure Body where
  name : Bytes
  sig : Signature
  values : Array Kind := #[]
  insts : Array Inst := #[]
  blocks : Array Block := #[]
  /-- The kind of every variable; `invalid` for one not declared. -/
  vars : Array Kind := #[]
  slots : Array Int64 := #[]
  callees : Array Callee := #[]
  deriving DecidableEq, Repr

/-! ## Listings -/

namespace Body

def valueText (v : Value) : Bytes := "v" ++ Bytes.decimal v

def offsetText (n : Int32) : Bytes := if n < 0 then Bytes.integer n.toInt else 43 :: Bytes.integer n.toInt

/-- What stands between the name of an instruction and its operands; `none` if it cannot be named. -/
def modifier? : Action → Option Bytes
  | .iconst k imm => some ("." ++ k.name ++ " " ++ Bytes.integer imm.toInt64.toInt)
  | .fconst imm => some (" " ++ Double.shortestText (Float.ofBits imm))
  | .icmp c .. => c.name?.map (32 :: ·)
  | .fcmp c .. => c.name?.map (32 :: ·)
  | .load k .. | .bint k _ | .toInt k _ | .ofInt k .. => some ("." ++ k.name)
  | .stackAddr k slot _ => some ("." ++ k.name ++ " ss" ++ Bytes.decimal slot)
  | .call callee _ => some (" fn" ++ Bytes.decimal callee)
  | .useVar _ v | .defVar _ v _ => some (" var" ++ Bytes.decimal v)
  | .jump dest _ => some (" block" ++ Bytes.decimal dest)
  | .brif _ dest alt => some (" block" ++ Bytes.decimal dest ++ ", block" ++ Bytes.decimal alt)
  | _ => some []

def operandsText (a : Action) : Bytes :=
  let args := Bytes.join ", " (a.args.map valueText)
  match a with
  | .jump .. | .brif .. => if a.args.isEmpty then [] else text ", " ++ args
  | _ => if a.args.isEmpty then [] else 32 :: args

def trailer : Action → Bytes
  | .load _ _ off | .store _ _ _ off | .stackAddr _ _ off => offsetText off
  | _ => []

def instText? (i : Inst) : Option Bytes := do
  let m ← modifier? i.action
  let results := if i.results.isEmpty then [] else Bytes.join ", " (i.results.map valueText) ++ text " = "
  return results ++ i.action.name ++ m ++ operandsText i.action ++ trailer i.action

def instsOf (f : Body) (b : Block) : List Inst := b.insts.toList.filterMap (f.insts[·]?)

def paramsText (f : Body) (b : Block) : Bytes :=
  if b.params.isEmpty then []
  else "(" ++ Bytes.join ", " (b.params.map fun p => valueText p ++ text ": " ++ (f.values.getD p .invalid).name)
    ++ ")"

def blockText? (f : Body) (i : Nat) (b : Block) : Option Bytes := do
  let lines ← (f.instsOf b).mapM instText?
  return text "block" ++ Bytes.decimal i ++ f.paramsText b ++ text ":\n"
    ++ (lines.map fun l => text "    " ++ l ++ [10]).flatten

/-- `none` if an instruction has a condition without a name. -/
def listing? (f : Body) : Option Bytes := do
  let blocks ← f.blocks.toList.zipIdx.mapM fun (b, i) => f.blockText? i b
  let slots := f.slots.toList.zipIdx.map fun (w, i) =>
    text "    ss" ++ Bytes.decimal i ++ text " = stack_slot " ++ Bytes.integer (w * 8).toInt ++ text "\n"
  let callees := f.callees.toList.zipIdx.map fun (c, i) =>
    text "    fn" ++ Bytes.decimal i ++ text " = func" ++ Bytes.decimal c.id ++ text " " ++ c.sig.text ++ text "\n"
  return text "function %" ++ f.name ++ f.sig.text ++ text " \x7b\n" ++ slots.flatten ++ callees.flatten
    ++ blocks.flatten ++ text "\x7d\n"

def clear (f : Body) : Body := { name := f.name, sig := {} }

end Body

end RecordMill.Machine

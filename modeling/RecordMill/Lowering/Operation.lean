import RecordMill.Service.Basic
import RecordMill.Machine.Builder

/-! # Operations: what an instruction computes from values, and what may be wrong with them -/

namespace RecordMill

inductive ValueOp where
  /-- Whole numbers or doubles; the result is 0 or 1. -/
  | compare (float : Bool) (op : Cmp)
  | arith (float : Bool) (op : Arith)
  | bit (op : Bitwise)
  | math (fn : MathFn)
  | div
  | pow
  /-- Toward zero, held within the signed words. -/
  | floatToInt
  | intToFloat
  | service (s : Service)
  /-- The service at an address where there is none. -/
  | unknown (address : UInt64)
  deriving DecidableEq, Repr

namespace ValueOp

def arity? : ValueOp → Option Nat
  | .compare .. | .div | .pow => some 2
  | .arith _ op => some op.arity
  | .bit op => some op.arity
  | .math fn => some fn.arity
  | .floatToInt | .intToFloat => some 1
  | .service _ | .unknown _ => none

def domain (float : Bool) : Bytes := if float then text "f" else text "i"

def name : ValueOp → Bytes
  | .compare float op => domain float ++ op.name
  | .arith float op => domain float ++ op.name
  | .bit op => op.name
  | .math fn => fn.name
  | .div => "div"
  | .pow => "pow"
  | .floatToInt => "float_to_int"
  | .intToFloat => "int_to_float"
  | .service s => s.name
  | .unknown address => "intrinsic@0x" ++ Bytes.hex address.toNat

end ValueOp

/-! ## Why a program cannot be lowered -/

/-- A register that cannot be read or written the way an instruction asks. -/
inductive BindingProblem where
  | storeIterator
  | unbound
  | loadIterator
  | loadUnbound
  | unboundIterator
  deriving DecidableEq, Repr

def BindingProblem.message : BindingProblem → Bytes
  | .storeIterator => "attempting to store an iterator value"
  | .unbound => "unbound reference in current frame"
  | .loadIterator => "attempting to load an iterator"
  | .loadUnbound => "loading an unbound variable"
  | .unboundIterator => "unbound iterator"

/-- The program is malformed. -/
inductive LowerError where
  | binding (reg : Reg) (problem : BindingProblem)
  | arity (op : ValueOp) (want got : Nat)
  | unsupported (op : ValueOp)
  | noConversion (source target : Ty)
  | missingInstr
  | iteratorText
  deriving DecidableEq, Repr

namespace LowerError

def message : LowerError → Bytes
  | .binding r p => "codegen: : " ++ p.message ++ ": " ++ r.text
  | .arity op want got =>
    "codegen: " ++ op.name ++ " takes " ++ Bytes.decimal want ++ " operands, got " ++ Bytes.decimal got
  | .unsupported op => "codegen: unsupported operation " ++ op.name
  | .noConversion a b => "codegen: cannot convert " ++ a.name ++ " to " ++ b.name
  | .missingInstr => "codegen: cannot lower <nil>"
  | .iteratorText => "recorder: iterator load"

/-- The index in brackets; a negative one stands for no instruction at all. -/
def place (func : Bytes) (index : Int) : Bytes := func ++ "[" ++ Bytes.integer index ++ "]"

def located (e : LowerError) (func : Bytes) (index : Int) : Bytes :=
  match e with
  | .binding r p =>
    "codegen: " ++ (if index < 0 then func else place func index) ++ ": " ++ p.message ++ ": " ++ r.text
  | e => "codegen: " ++ place func index ++ ": " ++ e.message

def isBinding : LowerError → Bool
  | .binding .. => true
  | _ => false

end LowerError

inductive Stop where
  | error (e : LowerError)
  /-- The body under construction was misused. -/
  | misuse (f : Machine.BuildFault)
  | iteratorKind
  | unknownKind (ty : Ty)
  | noService (address : UInt64)
  /-- A function, a map or a service that does not exist. -/
  | outOfRange
  deriving DecidableEq, Repr

/-- A stop that is no error of the program has at most a text. -/
def Stop.message? : Stop → Option Bytes
  | .error e => some e.message
  | .misuse f => f.message?
  | .iteratorKind => some "taking the type of an iterator"
  | .unknownKind ty => some ("codegen: unknown type " ++ ty.name)
  | .noService a => some ("codegen: no external function registered at 0x" ++ Bytes.hex a.toNat)
  | .outOfRange => none

end RecordMill

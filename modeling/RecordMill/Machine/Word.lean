import RecordMill.Machine.Frame
import RecordMill.Machine.Memory
import RecordMill.Number.Double

/-! # Arithmetic on words -/

namespace RecordMill.Machine.Word

def ofBool (b : Bool) : UInt64 := if b then 1 else 0

def low (x : UInt64) : UInt64 := x &&& 0xFFFFFFFF

def signed32 (x : UInt64) : UInt64 := x.toUInt32.toInt32.toInt64.toUInt64

/-! ## Whole numbers -/

def int (op : IntOp) (x y : UInt64) : Except Trap UInt64 :=
  match op with
  | .add => .ok (x + y)
  | .sub => .ok (x - y)
  | .mul => .ok (x * y)
  | .div => if y = 0 then .error { code := .divisionByZero } else .ok (x.toInt64 / y.toInt64).toUInt64
  | .rem => if y = 0 then .error { code := .divisionByZero } else .ok (x.toInt64 % y.toInt64).toUInt64
  | .and => .ok (x &&& y)
  | .or => .ok (x ||| y)
  | .xor => .ok (x ^^^ y)

def int32 (op : IntOp) (x y : UInt64) : Except Trap UInt64 := do return low (← int op (signed32 x) (signed32 y))

def shift (op : ShiftOp) (x y : UInt64) : UInt64 :=
  match op with
  | .left => x <<< (y % 64)
  | .right => x >>> (y % 64)
  | .signedRight => (x.toInt64 >>> (y % 64).toInt64).toUInt64

def intUnary (op : IntUnary) (x : UInt64) : UInt64 :=
  match op with
  | .neg => 0 - x
  | .not => ~~~x

/-! ## Doubles -/

def isNan (x : UInt64) : Bool := (x &&& 0x7FFFFFFFFFFFFFFF) > 0x7FF0000000000000

/-- What is no number stays the same, up to the bit that marks it as quiet. -/
def quiet (x : UInt64) : UInt64 := x ||| 0x0008000000000000

/-- The result of an operation on numbers that has no value. -/
def noValue : UInt64 := 0xFFF8000000000000

def ofDouble (f : Float) : UInt64 := if f.isNaN then noValue else f.toBits

def floatOp (op : FloatOp) (x y : Float) : Float :=
  match op with
  | .add => x + y
  | .sub => x - y
  | .mul => x * y
  | .div => x / y

def float (op : FloatOp) (x y : UInt64) : UInt64 :=
  if isNan x then quiet x
  else if isNan y then quiet y
  else ofDouble (floatOp op (Float.ofBits x) (Float.ofBits y))

def floatUnary (op : FloatUnary) (x : UInt64) : UInt64 :=
  match op with
  | .neg => x ^^^ 0x8000000000000000
  | .sqrt => if isNan x then quiet x else ofDouble (Float.ofBits x).sqrt

/-! ## Conversions -/

/-- Toward zero, held within the signed 32-bit numbers. -/
def toInt32 (x : UInt64) : UInt64 :=
  let n := (Double.toInt64 (Float.ofBits x)).toInt
  low (Int64.ofInt (max (-2147483648) (min 2147483647 n))).toUInt64

def toInt64 (x : UInt64) : UInt64 := (Double.toInt64 (Float.ofBits x)).toUInt64

def ofInt64 (x : UInt64) : UInt64 := (Double.ofInt x.toInt64.toInt).toBits

end RecordMill.Machine.Word

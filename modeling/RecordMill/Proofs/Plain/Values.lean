import RecordMill.Machine.Word
import RecordMill.Number.Functions
import RecordMill.Program.Instr
import RecordMill.Record.Printing

/-!
# Plain values

What registers hold when nothing is packed and nothing is counted: whole numbers of sixty-four bits,
doubles by their bit patterns, byte strings, and references to maps.
-/

namespace RecordMill.Plain

inductive Val where
  | int (n : Int64)
  | float (bits : UInt64)
  | str (s : Bytes)
  /-- The index of a map among all that were ever made. -/
  | map (ref : Nat)

namespace Val

/-! A value of another type reads as zero. -/

def toInt : Val → Int64
  | .int n => n
  | _ => 0

def toFloat : Val → UInt64
  | .float w => w
  | _ => 0

def toStr : Val → Bytes
  | .str s => s
  | _ => []

def toRef : Val → Nat
  | .map r => r
  | _ => 0

def ofBool (b : Bool) : Val := .int (if b then 1 else 0)

end Val

/-! ## Maps -/

structure Table where
  key : Key
  val : Scalar
  entries : Entries key val

def keyOf : (k : Key) → Val → k.Carrier
  | .int, x => x.toInt
  | .str, x => x.toStr

def ofKey : (k : Key) → k.Carrier → Val
  | .int, n => .int n
  | .str, s => .str s

def scalarOf : (v : Scalar) → Val → v.Carrier
  | .int, x => x.toInt
  | .float, x => Float.ofBits x.toFloat
  | .str, x => x.toStr

def ofScalar : (v : Scalar) → v.Carrier → Val
  | .int, n => .int n
  | .float, f => .float (Machine.Word.ofDouble f)
  | .str, s => .str s

namespace Table

def empty (k : Key) (v : Scalar) : Table := ⟨k, v, ∅⟩

def lookup (t : Table) (x : Val) : Val := ofScalar t.val ((t.entries[keyOf t.key x]?).getD t.val.zero)

def insert (t : Table) (x y : Val) : Table := { t with entries := t.entries.insert (keyOf t.key x) (scalarOf t.val y) }

def contains (t : Table) (x : Val) : Bool := t.entries.contains (keyOf t.key x)

def delete (t : Table) (x : Val) : Table := { t with entries := t.entries.erase (keyOf t.key x) }

def size (t : Table) : Nat := t.entries.size

def pieceKey : (k : Key) → Nat → k.Carrier
  | .int, n => Int64.ofNat n
  | .str, n => Bytes.decimal n

def ofPieces (k : Key) (parts : List Bytes) : Table :=
  ⟨k, .str, parts.zipIdx.foldl (fun m (p, i) => m.insert (pieceKey k (i + 1)) p) ∅⟩

end Table

/-- The keys of a map as they were when the iteration began, in ascending order, and how many of them
were taken. -/
structure Cursor where
  key : Key
  items : List key.Carrier
  position : Int64 := 0

namespace Cursor

def ofTable (t : Table) : Cursor := { key := t.key, items := t.entries.keys }

def hasNext (c : Cursor) : Bool := c.position < Int64.ofNat c.items.length

def current (c : Cursor) : Val :=
  ofKey c.key (if c.position < 0 then c.key.zero else (c.items[c.position.toNatClampNeg]?).getD c.key.zero)

def advance (c : Cursor) : Cursor := { c with position := c.position + 1 }

end Cursor

/-! ## Operators -/

def compareInts (op : Cmp) (x y : Int64) : Bool :=
  match op with
  | .eq | .unknown _ => x == y
  | .lt => x < y
  | .lte => x ≤ y
  | .gt => y < x
  | .gte => y ≤ x

/-- False whenever one of the operands is no number. -/
def compareFloats (op : Cmp) (x y : Float) : Bool :=
  match op with
  | .eq | .unknown _ => x == y
  | .lt => x < y
  | .lte => x ≤ y
  | .gt => y < x
  | .gte => y ≤ x

/-- The operands of a comparison have the type `ty`. -/
def compareVals (ty : Ty) (op : Cmp) (x y : Val) : Bool :=
  match ty with
  | .str => compareInts op (Act.orderOf x.toStr y.toStr) 0
  | .float => compareFloats op (Float.ofBits x.toFloat) (Float.ofBits y.toFloat)
  | _ => compareInts op x.toInt y.toInt

/-- `none` for a division by zero. -/
def arithInts (op : Arith) (xs : List Int64) : Option Int64 :=
  match op, xs with
  | .add, [x, y] => some (x + y)
  | .minus, [x, y] => some (x - y)
  | .mul, [x, y] => some (x * y)
  | .neg, [x] => some (-x)
  | .mod, [x, y] => if y = 0 then none else some (x % y)
  | _, _ => some 0

def arithFloats (op : Arith) (xs : List UInt64) : UInt64 :=
  match op, xs with
  | .add, [x, y] => Machine.Word.float .add x y
  | .minus, [x, y] => Machine.Word.float .sub x y
  | .mul, [x, y] => Machine.Word.float .mul x y
  | .neg, [x] => Machine.Word.floatUnary .neg x
  | .mod, [x, y] => Machine.Word.ofDouble (Double.remainder (Float.ofBits x) (Float.ofBits y))
  | _, _ => 0

def bitwise (op : Bitwise) (xs : List Int64) : Int64 :=
  match op, xs with
  | .and, [x, y] => x &&& y
  | .or, [x, y] => x ||| y
  | .xor, [x, y] => x ^^^ y
  | .leftShift, [x, y] => (x.toUInt64 <<< (y.toUInt64 % 64)).toInt64
  | .logicalRightShift, [x, y] => (x.toUInt64 >>> (y.toUInt64 % 64)).toInt64
  | .arithmeticRightShift, [x, y] => x >>> (y.toUInt64 % 64).toInt64
  | .complement, [x] => ~~~x
  | _, _ => 0

def onDouble (f : Float → Float) (x : UInt64) : UInt64 := Machine.Word.ofDouble (f (Float.ofBits x))

def onDoubles (f : Float → Float → Float) (x y : UInt64) : UInt64 :=
  Machine.Word.ofDouble (f (Float.ofBits x) (Float.ofBits y))

def math (fn : MathFn) (xs : List UInt64) : UInt64 :=
  match fn, xs with
  | .sin, [x] => onDouble Double.sin x
  | .cos, [x] => onDouble Double.cos x
  | .atan, [x] => onDouble Double.atan x
  | .atan2, [x, y] => onDoubles Double.atan2 x y
  | .log, [x] => onDouble Double.log x
  | .log2, [x] => onDouble Double.log2 x
  | .log10, [x] => onDouble Double.log10 x
  | .sqrt, [x] => Machine.Word.floatUnary .sqrt x
  | .exp, [x] => onDouble Double.exp x
  | _, _ => 0

/-! ## Conversions -/

/-- The double of a number of type `ty`. -/
def asFloat (ty : Ty) (x : Val) : UInt64 :=
  if ty = .int then (Double.ofInt x.toInt.toInt).toBits else x.toFloat

def convert (source target : Ty) (x : Val) : Val :=
  match source, target with
  | .int, .float => .float (Double.ofInt x.toInt.toInt).toBits
  | .float, .int => .int (Double.toInt64 (Float.ofBits x.toFloat))
  | .int, .str => .str (Bytes.integer x.toInt.toInt)
  | .float, .str => .str (Double.plainText (Float.ofBits x.toFloat))
  | .str, .int => .int (Reading.leadingInt x.toStr)
  | .str, .float => .float (Machine.Word.ofDouble (Reading.leadingDouble x.toStr))
  | _, _ => x

/-- What a format makes of a value of type `ty`. -/
def formatArg (ty : Ty) (x : Val) : Format.Arg :=
  match ty with
  | .float => .double (Float.ofBits x.toFloat)
  | .str => .str x.toStr
  | _ => .int x.toInt

end RecordMill.Plain

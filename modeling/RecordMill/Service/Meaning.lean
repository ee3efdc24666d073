import RecordMill.Machine.Execution
import RecordMill.Number.Functions
import RecordMill.Record.Printing
import RecordMill.Record.Fields
import RecordMill.Service.Basic

/-!
# What services do

Arguments arrive as words in the order of the signature. Results of string and map type are owned by
the caller.
-/

namespace RecordMill.Service

open Machine (HostM Trap Outside)

/-! ## Steps of a run as host functions -/

def trapOf (f : Fault) : Trap :=
  { code := .host
    cause := match f with
      | .tooManyFields => some (text "runtime error: makeslice: len out of range")
      | _ => f.message? }

def lift {α : Type} (act : Act α) : HostM Context α := fun ⟨memory, host⟩ =>
  match act host with
  | (.ok a, host) => (.ok a, ⟨memory, host⟩)
  | (.error f, host) => (.error (trapOf f), ⟨memory, host⟩)

def load (address : UInt64) : HostM Context UInt64 := do
  match (← get).memory.load address with
  | .ok w => return w
  | .error t => throw t

/-! ## Argument blocks -/

/-- Strings stand one after another, two words each. -/
def loadStrings (address : UInt64) : Nat → HostM Context (List Packed)
  | 0 => return []
  | n + 1 => do
    let lo ← load address
    let hi ← load (address + 8)
    return ⟨lo, hi⟩ :: (← loadStrings (address + 16) n)

/-- A format argument takes three words: what it is, and its value. -/
def loadArg (address : UInt64) : HostM Context Format.Arg := do
  let kind ← load address
  let lo ← load (address + 8)
  if kind = 0 then return .int lo.toInt64
  else if kind = 1 then return .double (Float.ofBits lo)
  else if kind = 2 then
    let hi ← load (address + 16)
    return .str (← lift (Act.bytes ⟨lo, hi⟩))
  else
    throw { code := .host, cause := text "codegen: bad format argument kind " ++ Bytes.decimal (kind.toNat % 256) }

def loadArgs (address : UInt64) : Nat → HostM Context (List Format.Arg)
  | 0 => return []
  | n + 1 => do
    let a ← loadArg address
    return a :: (← loadArgs (address + 24) n)

/-! ## Keys and values in words -/

def takeKey : (k : Key) → List UInt64 → Act (k.Carrier × List UInt64)
  | .int, w :: rest => return (w.toInt64, rest)
  | .str, lo :: hi :: rest => return (← Act.bytes ⟨lo, hi⟩, rest)
  | .int, [] => return ((0 : Int64), [])
  | .str, _ => return (([] : Bytes), [])

def takeScalar : (v : Scalar) → List UInt64 → Act v.Carrier
  | .int, w :: _ => return w.toInt64
  | .float, w :: _ => return Float.ofBits w
  | .str, lo :: hi :: _ => Act.bytes ⟨lo, hi⟩
  | v, _ => return v.zero

def ofPacked (s : Packed) : List UInt64 := [s.lo, s.hi]

def ofInt (n : Int64) : List UInt64 := [n.toUInt64]

def ofFloat (f : Float) : List UInt64 := [Machine.Word.ofDouble f]

def giveKey : (k : Key) → k.Carrier → Act (List UInt64)
  | .int, n => return ofInt n
  | .str, s => return ofPacked (← Act.newStr s)

def giveScalar : (v : Scalar) → v.Carrier → Act (List UInt64)
  | .int, n => return ofInt n
  | .float, f => return ofFloat f
  | .str, s => return ofPacked (← Act.newStr s)

/-! ## Maps and iterators -/

def allocate (f : Heap → UInt64 × Heap) : Act (List UInt64) := do
  let (handle, heap) := f (← get).heap
  modify fun c => { c with heap }
  return [handle]

def onMap (k : Key) (v : Scalar) (m : UInt64) (rest : List UInt64) : MapService → Act (List UInt64)
  | .alloc => allocate fun h => h.newMap k v
  | .lookup => do
    let (key, _) ← takeKey k rest
    let entries ← Act.look (·.map k v m)
    giveScalar v ((entries[key]?).getD v.zero)
  | .insert => do
    let (key, rest) ← takeKey k rest
    let val ← takeScalar v rest
    Act.change (·.updateMap k v m (·.insert key val))
    return []
  | .contains => do
    let (key, _) ← takeKey k rest
    let entries ← Act.look (·.map k v m)
    return [Machine.Word.ofBool (entries.contains key)]
  | .delete => do
    let (key, _) ← takeKey k rest
    Act.change (·.updateMap k v m (·.erase key))
    return []
  | .len => do
    let entries ← Act.look (·.map k v m)
    return [entries.size.toUInt64]
  | .iterBegin => do
    let entries ← Act.look (·.map k v m)
    allocate fun h => h.newKeys k entries.keys

/-- The key at a position, or the zero key beyond the end. -/
def keyAt (k : Key) (iter : UInt64) (pos : Int64) : Act (List UInt64) := do
  let keys ← Act.look (·.keys k iter)
  giveKey k (if pos < 0 then k.zero else (keys[pos.toNatClampNeg]?).getD k.zero)

/-! ## All services -/

/-- Where a word says that output goes: the low half, signed. -/
def destination (w : UInt64) : Destination := Destination.ofCode (w.toUInt32.toInt32.toInt)

def variableOf (w : UInt64) : Variable := Variable.ofCode (w.toNat % 256)

def onDouble (f : Float → Float) (x : UInt64) : List UInt64 := ofFloat (f (Float.ofBits x))

def onDoubles (f : Float → Float → Float) (x y : UInt64) : List UInt64 :=
  ofFloat (f (Float.ofBits x) (Float.ofBits y))

/-- Words that do not fit the signature of the service. -/
def misfit {α : Type} : HostM Context α := throw { code := .host }

def perform : Service → List UInt64 → HostM Context (List UInt64)
  | .refStr, [_, lo, hi] => lift do Act.change (·.refStr ⟨lo, hi⟩); return []
  | .dropStr, [_, lo, hi] => lift do Act.change (·.dropStr ⟨lo, hi⟩); return []
  | .ref, [_, h] => lift do Act.change (·.ref h); return []
  | .drop, [_, h] => lift do Act.change (·.drop h); return []
  | .remainder, [x, y] => return onDoubles Double.remainder x y
  | .power, [x, y] => return onDoubles Double.power x y
  | .sin, [x] => return onDouble Double.sin x
  | .cos, [x] => return onDouble Double.cos x
  | .atan, [x] => return onDouble Double.atan x
  | .atan2, [x, y] => return onDoubles Double.atan2 x y
  | .log, [x] => return onDouble Double.log x
  | .log2, [x] => return onDouble Double.log2 x
  | .log10, [x] => return onDouble Double.log10 x
  | .exp, [x] => return onDouble Double.exp x
  | .intToStr, [_, n] => lift do return ofPacked (← Act.newStr (Bytes.integer n.toInt64.toInt))
  | .floatToStr, [_, x] => lift do return ofPacked (← Act.newStr (Double.plainText (Float.ofBits x)))
  | .strToInt, [_, lo, hi] => lift do return ofInt (Reading.leadingInt (← Act.bytes ⟨lo, hi⟩))
  | .strToFloat, [_, lo, hi] => lift do return ofFloat (Reading.leadingDouble (← Act.bytes ⟨lo, hi⟩))
  | .concat, [_, a, b, c, d] => lift do return ofPacked (← Act.concat ⟨a, b⟩ ⟨c, d⟩)
  | .strLen, [_, lo, hi] => lift do return [(← Act.look (·.strLen ⟨lo, hi⟩)).toUInt64]
  | .compareStr, [_, a, b, c, d] => lift do return ofInt (← Act.compareStr ⟨a, b⟩ ⟨c, d⟩)
  | .matchPattern, [_, a, b, c, d] => lift do return ofInt (← Act.isMatch ⟨a, b⟩ ⟨c, d⟩)
  | .split .int, [_, a, b, m, c, d] => lift do return ofInt (← Act.splitInt ⟨a, b⟩ m ⟨c, d⟩)
  | .split .str, [_, a, b, m, c, d] => lift do return ofInt (← Act.splitStr ⟨a, b⟩ m ⟨c, d⟩)
  | .nextLine, [_] => lift do return ofInt (← Act.nextLine)
  | .getColumn, [_, i] => lift do return ofPacked (← Act.column i.toInt64)
  | .setColumn, [_, i, lo, hi] => lift do Act.setColumn i.toInt64 ⟨lo, hi⟩; return []
  | .readFileLine, [_, lo, hi] => lift do return ofPacked (← Act.readFileLine ⟨lo, hi⟩).1
  | .lineStatus, [_] => lift do return ofInt (← get).status
  | .loadInt, [_, v] => lift do return ofInt (← Act.loadInt (variableOf v))
  | .storeInt, [_, v, n] => lift do Act.storeInt (variableOf v) n.toInt64; return []
  | .loadStr, [_, v] => lift do
    let s ← Act.loadStr (variableOf v)
    Act.change (·.refStr s)
    return ofPacked s
  | .storeStr, [_, v, lo, hi] => lift do Act.storeStr (variableOf v) ⟨lo, hi⟩; return []
  | .loadMap, [_, v] => lift do
    let m ← Act.loadMap (variableOf v)
    Act.change (·.ref m)
    return [m]
  | .storeMap, [_, v, m] => lift do Act.storeMap (variableOf v) m; return []
  | .printAll, [_, dest, lo, hi, address, n] => do
    let args ← loadStrings address n.toNat
    lift do return ofInt (← Act.printAll (destination dest) ⟨lo, hi⟩ args)
  | .printf, [_, dest, lo, hi, a, b, address, n] => do
    let args ← loadArgs address n.toNat
    lift do return ofInt (← Act.printf (destination dest) ⟨lo, hi⟩ ⟨a, b⟩ args)
  | .sprintf, [_, a, b, address, n] => do
    let args ← loadArgs address n.toNat
    lift do return ofPacked (← Act.sprintf ⟨a, b⟩ args)
  | .iterLen k, [_, it] => lift do return [(← Act.look (·.keys k it)).size.toUInt64]
  | .iterGet k, [_, it, pos] => lift (keyAt k it pos.toInt64)
  | .map k v .alloc, [_] => lift (onMap k v 0 [] .alloc)
  | .map k v what, _ :: m :: rest => lift (onMap k v m rest what)
  | _, _ => misfit

end RecordMill.Service

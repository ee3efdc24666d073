import Std.Data.ExtTreeMap
import RecordMill.Program.Ty

/-! # Counted objects: strings, maps and key lists -/

namespace RecordMill

abbrev Key.Carrier : Key → Type
  | .int => Int64
  | .str => List UInt8

abbrev Scalar.Carrier : Scalar → Type
  | .int => Int64
  | .float => Float
  | .str => List UInt8

namespace Key

instance : (k : Key) → Ord k.Carrier
  | .int => inferInstanceAs (Ord Int64)
  | .str => inferInstanceAs (Ord (List UInt8))

instance : (k : Key) → Std.TransOrd k.Carrier
  | .int => inferInstanceAs (Std.TransOrd Int64)
  | .str => inferInstanceAs (Std.TransOrd (List UInt8))

instance : (k : Key) → Std.LawfulEqOrd k.Carrier
  | .int => inferInstanceAs (Std.LawfulEqOrd Int64)
  | .str => inferInstanceAs (Std.LawfulEqOrd (List UInt8))

end Key

def Key.zero : (k : Key) → k.Carrier
  | .int => (0 : Int64)
  | .str => ([] : List UInt8)

/-- What a map yields for a key that it does not hold. -/
def Scalar.zero : (v : Scalar) → v.Carrier
  | .int => (0 : Int64)
  | .float => (0.0 : Float)
  | .str => ([] : List UInt8)

/-- The entries of a map in ascending order of their keys. -/
abbrev Entries (k : Key) (v : Scalar) : Type := Std.ExtTreeMap k.Carrier v.Carrier compare

inductive Object where
  | str (s : Bytes)
  | map (k : Key) (v : Scalar) (entries : Entries k v)
  | keys (k : Key) (items : Array k.Carrier)

/-- The kind of an object, without its contents. -/
inductive ObjectKind where
  | str
  | map (k : Key) (v : Scalar)
  | keys (k : Key)
  deriving DecidableEq, Repr

namespace ObjectKind

def keyWord : Key → Bytes
  | .int => "int64"
  | .str => "string"

def scalarWord : Scalar → Bytes
  | .int => "int64"
  | .float => "float64"
  | .str => "string"

def name : ObjectKind → Bytes
  | .str => "string"
  | .map k v => "*runtime.SharedMap[" ++ keyWord k ++ "," ++ scalarWord v ++ "]"
  | .keys k => "[]" ++ keyWord k

end ObjectKind

namespace Object

def kind : Object → ObjectKind
  | .str _ => .str
  | .map k v _ => .map k v
  | .keys k _ => .keys k

def asStr? : Object → Option Bytes
  | .str s => some s
  | _ => none

def asMap? (k : Key) (v : Scalar) : Object → Option (Entries k v)
  | .map k' v' m => if h : k' = k ∧ v' = v then some (h.1 ▸ h.2 ▸ m) else none
  | _ => none

def asKeys? (k : Key) : Object → Option (Array k.Carrier)
  | .keys k' items => if h : k' = k then some (h ▸ items) else none
  | _ => none

end Object

end RecordMill

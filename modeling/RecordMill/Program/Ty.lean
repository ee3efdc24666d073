import RecordMill.Text.Bytes

/-!
# Value types and registers

Every register has one type for its whole life. A register is its number together with its type, so
equal numbers of different types name different registers.
-/

namespace RecordMill

/-- What a map is indexed by and what an iterator yields. -/
inductive Key where
  | int
  | str
  deriving DecidableEq, Repr

/-- What a map holds, and what an instruction can compare, convert or print. -/
inductive Scalar where
  | int
  | float
  | str
  deriving DecidableEq, Repr

/-- `other` is a type number that names no type. -/
inductive Ty where
  | null
  | int
  | float
  | str
  | map (key : Key) (val : Scalar)
  | iter (key : Key)
  | other (code : Nat)
  deriving DecidableEq, Repr, Inhabited

def Key.ty : Key → Ty
  | .int => .int
  | .str => .str

def Scalar.ty : Scalar → Ty
  | .int => .int
  | .float => .float
  | .str => .str

namespace Ty

/-- Types by number, in the order of their declaration. -/
def ofCode : Nat → Ty
  | 0 => .null
  | 1 => .int
  | 2 => .float
  | 3 => .str
  | 4 => .map .int .int
  | 5 => .map .int .float
  | 6 => .map .int .str
  | 7 => .map .str .int
  | 8 => .map .str .float
  | 9 => .map .str .str
  | 10 => .iter .int
  | 11 => .iter .str
  | n => .other n

def code : Ty → Nat
  | .null => 0
  | .int => 1
  | .float => 2
  | .str => 3
  | .map .int .int => 4
  | .map .int .float => 5
  | .map .int .str => 6
  | .map .str .int => 7
  | .map .str .float => 8
  | .map .str .str => 9
  | .iter .int => 10
  | .iter .str => 11
  | .other n => n

theorem ofCode_code (t : Ty) (h : ∀ n, t = .other n → 12 ≤ n) : ofCode t.code = t := by
  match t with
  | .null | .int | .float | .str | .iter .int | .iter .str => rfl
  | .map .int .int | .map .int .float | .map .int .str => rfl
  | .map .str .int | .map .str .float | .map .str .str => rfl
  | .other n =>
    have := h n rfl
    unfold ofCode
    split <;> simp_all [code]

def keyName : Key → Bytes
  | .int => "int"
  | .str => "str"

def scalarName : Scalar → Bytes
  | .int => "int"
  | .float => "float"
  | .str => "str"

def name : Ty → Bytes
  | .null => "null"
  | .int => "int"
  | .float => "float"
  | .str => "str"
  | .map k v => "map[" ++ keyName k ++ "]" ++ scalarName v
  | .iter k => "iter[" ++ keyName k ++ "]"
  | .other n => "ty(" ++ Bytes.decimal n ++ ")"

def isValid : Ty → Bool
  | .other _ => false
  | _ => true

def isMap : Ty → Bool
  | .map .. => true
  | _ => false

def isIter : Ty → Bool
  | .iter _ => true
  | _ => false

def isHeap : Ty → Bool
  | .str | .map .. => true
  | _ => false

def isScalar : Ty → Bool
  | .int | .float | .str => true
  | _ => false

def key : Ty → Ty
  | .map k _ => k.ty
  | .iter k => k.ty
  | _ => .null

def val : Ty → Ty
  | .map _ v => v.ty
  | _ => .null

def iterOf : Ty → Ty
  | .map k _ => .iter k
  | .iter k => .iter k
  | _ => .null

def asKey? : Ty → Option Key
  | .int => some .int
  | .str => some .str
  | _ => none

def asScalar? : Ty → Option Scalar
  | .int => some .int
  | .float => some .float
  | .str => some .str
  | _ => none

/-- The map type with the given key and value types. -/
def mapOf? (key val : Ty) : Option Ty :=
  match key.asKey?, val.asScalar? with
  | some k, some v => some (.map k v)
  | _, _ => none

def isStorable (t : Ty) : Bool := t.isValid && !t.isIter && t != .null

end Ty

structure Reg where
  id : Nat
  ty : Ty
  deriving DecidableEq, Repr

namespace Reg

def null : Reg := ⟨0, .null⟩

instance : Inhabited Reg := ⟨null⟩

def isNull (r : Reg) : Bool := r.ty == .null

def text (r : Reg) : Bytes := "%" ++ Bytes.decimal r.id ++ ":" ++ r.ty.name

def listText (rs : List Reg) : Bytes := Bytes.join ", " (rs.map text)

end Reg

end RecordMill

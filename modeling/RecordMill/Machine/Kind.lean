import RecordMill.Text.Bytes

/-!
# Machine values

A machine value is one or two words of sixty-four bits. Its kind says how many, and which operations
take it.
-/

namespace RecordMill.Machine

inductive Kind where
  | invalid
  | b1
  | i32
  | i64
  | i128
  | f64
  | other (code : Nat)
  deriving DecidableEq, Repr, Inhabited

namespace Kind

def ofCode : Nat → Kind
  | 0 => .invalid
  | 1 => .b1
  | 2 => .i32
  | 3 => .i64
  | 4 => .i128
  | 5 => .f64
  | n => .other n

def name : Kind → Bytes
  | .invalid => "invalid"
  | .b1 => "b1"
  | .i32 => "i32"
  | .i64 => "i64"
  | .i128 => "i128"
  | .f64 => "f64"
  | .other n => "type(" ++ Bytes.decimal n ++ ")"

def words : Kind → Nat
  | .invalid => 0
  | .i128 => 2
  | _ => 1

def bits : Kind → Nat
  | .b1 => 1
  | .i32 => 32
  | .i64 | .f64 => 64
  | .i128 => 128
  | .invalid | .other _ => 0

def isInt : Kind → Bool
  | .i32 | .i64 | .i128 => true
  | _ => false

def isFloat : Kind → Bool
  | .f64 => true
  | _ => false

def total (ks : List Kind) : Nat := ks.foldr (·.words + ·) 0

end Kind

/-! ## Conditions -/

inductive IntCond where
  | eq
  | ne
  | lt
  | le
  | gt
  | ge
  | unknown (code : Nat)
  deriving DecidableEq, Repr

namespace IntCond

def ofCode : Nat → IntCond
  | 0 => .eq
  | 1 => .ne
  | 2 => .lt
  | 3 => .le
  | 4 => .gt
  | 5 => .ge
  | n => .unknown n

def name? : IntCond → Option Bytes
  | .eq => text "eq"
  | .ne => text "ne"
  | .lt => text "slt"
  | .le => text "sle"
  | .gt => text "sgt"
  | .ge => text "sge"
  | .unknown _ => none

def holds? (c : IntCond) (x y : Int64) : Option Bool :=
  match c with
  | .eq => some (x == y)
  | .ne => some (x != y)
  | .lt => some (x < y)
  | .le => some (x ≤ y)
  | .gt => some (y < x)
  | .ge => some (y ≤ x)
  | .unknown _ => none

end IntCond

/-- All conditions are false when one of the operands is no number. -/
inductive FloatCond where
  | eq
  | lt
  | le
  | gt
  | ge
  | unknown (code : Nat)
  deriving DecidableEq, Repr

namespace FloatCond

def ofCode : Nat → FloatCond
  | 0 => .eq
  | 1 => .lt
  | 2 => .le
  | 3 => .gt
  | 4 => .ge
  | n => .unknown n

def name? : FloatCond → Option Bytes
  | .eq => text "eq"
  | .lt => text "lt"
  | .le => text "le"
  | .gt => text "gt"
  | .ge => text "ge"
  | .unknown _ => none

def holds? (c : FloatCond) (x y : Float) : Option Bool :=
  match c with
  | .eq => some (x == y)
  | .lt => some (x < y)
  | .le => some (x ≤ y)
  | .gt => some (y < x)
  | .ge => some (y ≤ x)
  | .unknown _ => none

end FloatCond

/-! ## Signatures -/

structure Signature where
  params : List Kind := []
  returns : List Kind := []
  deriving DecidableEq, Repr

namespace Signature

def kindsText (ks : List Kind) : Bytes := Bytes.join ", " (ks.map Kind.name)

def text (s : Signature) : Bytes :=
  "(" ++ kindsText s.params ++ ")" ++ (if s.returns.isEmpty then [] else RecordMill.text " -> " ++ kindsText s.returns)

end Signature

/-! ## Targets -/

/-- The machine that code is made for. -/
structure Target where
  arch : Bytes
  pointerBits : Int
  features : List Bytes := []
  deriving DecidableEq, Repr

namespace Target

def native : Target := { arch := text "amd64", pointerBits := 64 }

def pointer (t : Target) : Kind := if t.pointerBits = 32 then .i32 else .i64

def has (t : Target) (feature : Bytes) : Bool := t.features.contains feature

def text (t : Target) : Bytes :=
  t.arch ++ "/" ++ Bytes.integer t.pointerBits ++ (t.features.map fun f => RecordMill.text " +" ++ f).flatten

end Target

end RecordMill.Machine

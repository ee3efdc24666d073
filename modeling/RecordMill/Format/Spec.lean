import RecordMill.Number.Notation
import RecordMill.Text.Utf8

/-!
# Fields of formatted output

A field specification is a set of flags, a least width and a precision. Each value kind has one
function that writes a value under a specification.
-/

namespace RecordMill.Format

/-- Flags are kept as written, so that an unfinished directive can be shown again. -/
structure Spec where
  flags : Bytes := []
  width : Bytes := []
  precision : Option Bytes := none
  deriving DecidableEq, Repr

namespace Spec

def minus (s : Spec) : Bool := s.flags.has 45
def plus (s : Spec) : Bool := s.flags.has 43
def space (s : Spec) : Bool := s.flags.has 32
def sharp (s : Spec) : Bool := s.flags.has 35
def zero (s : Spec) : Bool := s.flags.has 48 && !s.minus

def widthNat (s : Spec) : Nat := Bytes.value 10 s.width

def precisionNat? (s : Spec) : Option Nat := s.precision.map (Bytes.value 10)

def text (s : Spec) : Bytes :=
  [37] ++ s.flags ++ s.width ++ match s.precision with
    | some p => 46 :: p
    | none => []

/-- A number whose digits, short of the last, exceed a million is not read. -/
def tooLarge (n : Nat) : Bool := n / 10 > 1000000

def unreadable (s : Spec) : Bool := tooLarge s.widthNat || tooLarge (s.precisionNat?.getD 0)

end Spec

/-- Fills up to the width, on the left with `fill` or on the right with blanks. -/
def pad (spec : Spec) (fill : UInt8) (s : Bytes) : Bytes :=
  let gap := spec.widthNat - Utf8.count s
  if spec.minus then s ++ List.replicate gap 32 else List.replicate gap fill ++ s

def signOf (spec : Spec) (neg : Bool) : Bytes :=
  if neg then [45] else if spec.plus then [43] else if spec.space then [32] else []

/-! ## Strings -/

def string (spec : Spec) (s : Bytes) : Bytes :=
  let cut := match spec.precisionNat? with
    | some n => Utf8.take n s
    | none => s
  pad spec (if spec.zero then 48 else 32) cut

/-! ## Whole numbers -/

/-- The base, and what the sharp flag puts in front of the digits. -/
inductive Radix where
  | decimal
  | octal
  | hexLower
  | hexUpper
  deriving DecidableEq, Repr

def Radix.digits : Radix → Nat → Bytes
  | .decimal => Bytes.decimal
  | .octal => Bytes.radix Bytes.lowerDigit 8
  | .hexLower => Bytes.hex
  | .hexUpper => Bytes.radix Bytes.upperDigit 16

def Radix.mark : Radix → Bytes → Bytes
  | .decimal, ds => ds
  | .octal, ds => if ds.head? = some 48 then ds else 48 :: ds
  | .hexLower, ds => [48, 120] ++ ds
  | .hexUpper, ds => [48, 88] ++ ds

/-- A precision asks for that many digits. Zero padding asks for digits up to the width, less the
place of a sign, and an explicit precision overrides it. -/
def whole (spec : Spec) (radix : Radix) (neg : Bool) (n : Nat) : Bytes :=
  let sign := signOf spec neg
  let least := match spec.precisionNat? with
    | some p => p
    | none => if spec.zero then spec.widthNat - sign.length else 0
  if spec.precisionNat? = some 0 ∧ n = 0 then List.replicate spec.widthNat 32
  else
    let ds := radix.digits n
    let ds := List.replicate (least - ds.length) 48 ++ ds
    pad spec 32 (sign ++ if spec.sharp then radix.mark ds else ds)

/-! ## Doubles -/

/-- The sharp flag always shows a point, and in the general layout keeps `digits` digits. -/
def withPoint (digits : Nat) (body : Bytes) : Bytes :=
  let isMark (b : UInt8) : Bool := b == 101 || b == 69
  let head := body.takeWhile (!isMark ·)
  let tail := body.dropWhile (!isMark ·)
  let shown := ((head.filter (· ≠ 46)).dropWhile (· == 48)).length
  let hasPoint := Bytes.has head 46
  let shown := if !hasPoint && head == [48] then shown + 1 else shown
  head ++ (if hasPoint then [] else [46]) ++ List.replicate (digits - shown) 48 ++ tail

def keptDigits : Double.Layout → Nat
  | .general digits _ => digits.getD 6
  | _ => 0

/-- Infinities and what is no number are never padded with zeros. -/
def double (spec : Spec) (layout : Double.Layout) (f : Float) : Bytes :=
  match Double.parts f with
  | .nan => pad spec 32 (signOf spec false ++ "NaN")
  | .infinite neg =>
    let sign := signOf spec neg
    pad spec 32 ((if sign.isEmpty then [43] else sign) ++ "Inf")
  | .finite neg mant exp =>
    let sign := signOf spec neg
    let body := Double.layOut mant exp layout
    let body := if spec.sharp then withPoint (keptDigits layout) body else body
    let zeros := if spec.zero then spec.widthNat - sign.length - body.length else 0
    pad spec 32 (sign ++ List.replicate zeros 48 ++ body)

end RecordMill.Format

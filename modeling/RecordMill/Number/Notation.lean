import RecordMill.Number.Decimal
import RecordMill.Text.Bytes

/-!
# Written decimals

Three layouts: scientific, positional, and the general one that picks between them by the size of the
exponent.
-/

namespace RecordMill.Decimal

def digitAt (d : Decimal) (i : Int) : UInt8 :=
  if i < 0 then 48 else (48 + (d.digits.getD i.toNat 0)).toUInt8

def exponentText (e : Int) : Bytes :=
  let ds := Bytes.decimal e.natAbs
  (if e < 0 then 45 else 43) :: (if ds.length < 2 then 48 :: ds else ds)

/-- One digit, then `places` more after the point, then the exponent after `mark`. -/
def scientific (d : Decimal) (places : Nat) (mark : UInt8) : Bytes :=
  let fraction := (List.range places).map fun i => digitAt d (i + 1 : Nat)
  let e := if d.digits.isEmpty then 0 else d.point - 1
  [digitAt d 0] ++ (if places = 0 then [] else 46 :: fraction) ++ [mark] ++ exponentText e

def positional (d : Decimal) (places : Nat) : Bytes :=
  let whole :=
    if d.point ≤ 0 then [48] else (List.range d.point.toNat).map fun i => digitAt d (i : Nat)
  let fraction := (List.range places).map fun i => digitAt d (d.point + (i : Nat))
  whole ++ (if places = 0 then [] else 46 :: fraction)

/-- Scientific when the exponent is below -4 or not below `limit`; no zeros at the end otherwise. -/
def general (d : Decimal) (digits : Nat) (limit : Int) (mark : UInt8) : Bytes :=
  let count := d.digits.length
  let e := d.point - 1
  if e < -4 ∨ limit ≤ e then scientific d (min digits count - 1) mark
  else
    let kept : Int := if (digits : Int) > d.point then count else digits
    positional d (kept - d.point).toNat

/-- The digits at which `general` turns to scientific notation when `digits` are asked for. -/
def generalLimit (d : Decimal) (digits : Nat) : Int :=
  let count := d.digits.length
  if digits > count ∧ (count : Int) ≥ d.point then count else digits

end RecordMill.Decimal

namespace RecordMill.Double

/-- How a double is laid out: `places` or `digits` absent means as many as read back. -/
inductive Layout where
  | scientific (places : Nat) (mark : UInt8)
  | positional (places : Nat)
  | general (digits : Option Nat) (mark : UInt8)
  deriving DecidableEq, Repr

/-- No double has more significant digits; those asked for beyond them are zeros. -/
def maxDigits : Nat := 800

def maxPlaces : Nat := 1100

/-- The digits of a finite magnitude under a layout, without a sign. -/
def layOut (mant : Nat) (exp : Int) : Layout → Bytes
  | .scientific places mark =>
    let (n, d) := ratio mant exp
    (Decimal.toDigits n d (min (places + 1) maxDigits)).scientific places mark
  | .positional places =>
    let (n, d) := ratio mant exp
    (Decimal.toPlaces n d (min places maxPlaces)).positional places
  | .general none mark =>
    let dec := Decimal.shortest mant exp
    dec.general dec.digits.length 6 mark
  | .general (some digits) mark =>
    let (n, d) := ratio mant exp
    let digits := max digits 1
    let dec := Decimal.toDigits n d (min digits maxDigits)
    dec.general digits (dec.generalLimit digits) mark

/-- Whole numbers below 10^16 have no point; all else is shown with six significant digits. -/
def plainText (f : Float) : Bytes :=
  match parts f with
  | .nan => "nan"
  | .infinite neg => if neg then "-inf" else "inf"
  | .finite neg mant exp =>
    let (n, d) := ratio mant exp
    if n % d = 0 ∧ n / d < Nat.pow 10 16 then
      Bytes.integer (if neg then -(n / d : Nat) else (n / d : Nat))
    else (if neg then [45] else []) ++ layOut mant exp (.general (some 6) 101)

/-- The fewest digits that read back, with the sign of an infinity always shown. -/
def shortestText (f : Float) : Bytes :=
  match parts f with
  | .nan => "NaN"
  | .infinite neg => if neg then "-Inf" else "+Inf"
  | .finite neg mant exp => (if neg then [45] else []) ++ layOut mant exp (.general none 101)

end RecordMill.Double

/-!
# Doubles as exact numbers

A finite double is a whole number times a power of two. Reading and writing decimals goes through
that exact value, so no rounding happens before the one that is asked for.
-/

namespace RecordMill.Double

/-- What a double stands for: `mant * 2 ^ exp`, up to sign, when it is finite. -/
inductive Parts where
  | nan
  | infinite (neg : Bool)
  | finite (neg : Bool) (mant : Nat) (exp : Int)
  deriving DecidableEq, Repr

def parts (f : Float) : Parts :=
  let bits := f.toBits.toNat
  let neg := Nat.pow 2 63 ≤ bits
  let biased : Nat := bits / Nat.pow 2 52 % Nat.pow 2 11
  let frac := bits % Nat.pow 2 52
  if biased = 2047 then if frac = 0 then .infinite neg else .nan
  else if biased = 0 then .finite neg frac (-1074)
  else .finite neg (Nat.pow 2 52 + frac) ((biased : Int) - 1075)

/-- The quotient rounded to the nearest whole number, a half to the even one. -/
def roundDiv (num den : Nat) : Nat :=
  let q := num / den
  let twice := 2 * (num % den)
  if twice > den ∨ (twice = den ∧ q % 2 = 1) then q + 1 else q

/-- A whole number times a power of two, as a quotient of whole numbers. -/
def ratio (mant : Nat) (exp : Int) : Nat × Nat :=
  if exp < 0 then (mant, Nat.pow 2 exp.natAbs) else (mant * Nat.pow 2 exp.natAbs, 1)

/-- The least power of two that a double near `num / den` can be a multiple of. -/
def unitExponent (num den : Nat) : Int :=
  let e : Int := (num.log2 : Int) - den.log2
  let (n, d) := if e < 0 then (num * Nat.pow 2 e.natAbs, den) else (num, den * Nat.pow 2 e.natAbs)
  let lead := if n < d then e - 1 else e
  max (lead - 52) (-1074)

/-- The bits of the double nearest to `num / den`, a half going to the even one. -/
def nearestBits (num den : Nat) : Nat :=
  if num = 0 then 0
  else
    let u := unitExponent num den
    let m := if u < 0 then roundDiv (num * Nat.pow 2 u.natAbs) den else roundDiv num (den * Nat.pow 2 u.natAbs)
    min ((u + 1074).toNat * Nat.pow 2 52 + m) (2047 * Nat.pow 2 52)

def nearest (neg : Bool) (num den : Nat) : Float :=
  Float.ofBits (nearestBits num den + if neg then Nat.pow 2 63 else 0).toUInt64

def nan : Float := Float.ofBits 0x7FF8000000000001

def infinity (neg : Bool) : Float := Float.ofBits (if neg then 0xFFF0000000000000 else 0x7FF0000000000000)

def ofInt (n : Int) : Float := nearest (n < 0) n.natAbs 1

/-- The whole part, held within the signed words; what is no number becomes 0. -/
def toInt64 (f : Float) : Int64 :=
  match parts f with
  | .nan => 0
  | .infinite neg => if neg then Int64.minValue else Int64.maxValue
  | .finite neg mant exp =>
    let (n, d) := ratio mant exp
    let whole := n / d
    if neg then if whole ≥ Nat.pow 2 63 then Int64.minValue else Int64.ofInt (-whole)
    else if whole ≥ Nat.pow 2 63 then Int64.maxValue else Int64.ofInt whole

end RecordMill.Double

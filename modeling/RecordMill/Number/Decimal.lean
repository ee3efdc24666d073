import RecordMill.Number.Double

/-!
# Decimal digits of a double

A decimal is its significant digits, with no zero at either end, and the place of its point:
digits `d1 d2 … dn` with point `p` stand for `0.d1d2…dn * 10 ^ p`.
-/

namespace RecordMill

structure Decimal where
  digits : List Nat
  point : Int
  deriving DecidableEq, Repr

namespace Decimal

def zero : Decimal := ⟨[], 0⟩

/-- The decimal digits of a number, most significant first; none for 0. -/
def digitsOf (n : Nat) : List Nat :=
  if n = 0 then [] else digitsOf (n / 10) ++ [n % 10]
termination_by n
decreasing_by omega

def trimTail (ds : List Nat) : List Nat := (ds.reverse.dropWhile (· == 0)).reverse

/-- `n / 10 ^ places` as a decimal. -/
def scaled (n : Nat) (places : Int) : Decimal :=
  if n = 0 then zero
  else
    let ds := digitsOf n
    ⟨trimTail ds, ds.length - places⟩

/-- `num / den * 10 ^ places`, as a quotient. -/
def shift (num den : Nat) (places : Int) : Nat × Nat :=
  if places < 0 then (num, den * Nat.pow 10 places.natAbs) else (num * Nat.pow 10 places.natAbs, den)

/-- The point of a positive quotient: the least `p` with `num / den < 10 ^ p`. -/
def pointOf (num den : Nat) : Int :=
  -- 1233 / 4096 is a little below the logarithm of two
  let guess : Int := ((num.log2 : Int) - den.log2 - 1) * 1233 / 4096
  let above (p : Int) : Bool := let (n, d) := shift num den (-p); n < d
  climb above guess 40
where
  climb (above : Int → Bool) (p : Int) : Nat → Int
    | 0 => p
    | k + 1 => if above p then p else climb above (p + 1) k

/-- The quotient rounded to `places` digits after the point. -/
def toPlaces (num den : Nat) (places : Nat) : Decimal :=
  scaled (Double.roundDiv (num * Nat.pow 10 places) den) places

/-- The quotient rounded to `count` significant digits. -/
def toDigits (num den : Nat) (count : Nat) : Decimal :=
  if num = 0 then zero
  else
    let places := (count : Int) - pointOf num den
    let (n, d) := shift num den places
    scaled (Double.roundDiv n d) places

/-! ## The shortest digits that read back -/

/-- The numbers that round to `mant * 2 ^ exp`, in quarters of a unit of its last place. -/
structure Interval where
  low : Nat
  mid : Nat
  high : Nat
  closed : Bool

/-- Below the least number of a binade the spacing is halved, so its lower half-gap is too. -/
def interval (mant : Nat) (exp : Int) : Interval :=
  let gap := if mant = Nat.pow 2 52 ∧ exp > -1074 then 1 else 2
  ⟨4 * mant - gap, 4 * mant, 4 * mant + 2, mant % 2 = 0⟩

/-- The nearest grid point with `count` digits that lies in the interval. -/
def withDigits? (iv : Interval) (exp : Int) (point : Int) (count : Nat) : Option Decimal :=
  let places := (count : Int) - point
  let quotient (quarters : Nat) : Nat × Nat :=
    let (n, d) := Double.ratio quarters (exp - 2)
    shift n d places
  let (n, d) := quotient iv.mid
  let (lo, loDen) := quotient iv.low
  let (hi, hiDen) := quotient iv.high
  let fits (c : Nat) : Bool :=
    if iv.closed then lo ≤ c * loDen && c * hiDen ≤ hi else lo < c * loDen && c * hiDen < hi
  let near := Double.roundDiv n d
  let other := if near * d ≤ n then near + 1 else near - 1
  if fits near then some (scaled near places)
  else if fits other then some (scaled other places)
  else none

/-- The fewest digits that read back as `mant * 2 ^ exp`, and of those the nearest. -/
def shortest (mant : Nat) (exp : Int) : Decimal :=
  if mant = 0 then zero
  else
    let (num, den) := Double.ratio mant exp
    let point := pointOf num den
    let found := (List.range 17).findSome? fun k => withDigits? (interval mant exp) exp point (k + 1)
    found.getD (toDigits num den 17)

end Decimal

end RecordMill

import RecordMill.Number.Double

/-! # Functions of doubles beyond the four operations -/

namespace RecordMill.Double

/-- What is left of `x` after taking away `y` as often as it goes in. It has the sign of `x` and is exact. -/
def remainder (x y : Float) : Float :=
  match parts x, parts y with
  | .finite _ _ _, .infinite _ => x
  | .finite neg m e, .finite _ n k =>
    if n = 0 then nan
    else
      let low := min e k
      let (num, den) := ratio (m * Nat.pow 2 (e - low).toNat % (n * Nat.pow 2 (k - low).toNat)) low
      nearest neg num den
  | _, _ => nan

def isNegative (x : Float) : Bool := x.toBits ≥ 0x8000000000000000

/-- The size of the first with the sign of the second. -/
def withSign (x y : Float) : Float := if isNegative y then -x.abs else x.abs

/-! ## Logarithms -/

/-- The logarithm of `2 ^ k * (1 + f)`, for `f` between `sqrt (1/2) - 1` and `sqrt 2 - 1`. With
`s = f / (2 + f)` it is `2 * s` and a polynomial in `s * s`; the logarithm of 2 comes in two pieces. -/
def logScaled (k f : Float) : Float :=
  let s := f / (2 + f)
  let s2 := s * s
  let s4 := s2 * s2
  let odd := s2 * (0.6666666666666735130 + s4 * (0.2857142874366239149 + s4 * (0.1818357216161805012
    + s4 * 0.1479819860511658591)))
  let even := s4 * (0.3999999999940941908 + s4 * (0.2222219843214978396 + s4 * 0.1531383769920937332))
  let half := 0.5 * f * f
  k * 6.93147180369123816490e-1 - ((half - (s * (half + (odd + even)) + k * 1.90821492927058770002e-10)) - f)

/-- The natural logarithm. The power of two is read off the bits, so that a number below the normal
range counts as if its leading digit were set. -/
def log (x : Float) : Float :=
  if x.isNaN || x < 0 then nan
  else if x == 0 then infinity true
  else if x.isInf then x
  else
    let bits := x.toBits
    let factor := Float.ofBits ((bits &&& 0x000FFFFFFFFFFFFF) ||| 0x3FE0000000000000)
    let k := ofInt ((bits >>> 52).toNat - 1022)
    if factor ≤ 0.70710678118654752440 then logScaled (k - 1) (factor * 2 - 1) else logScaled k (factor - 1)

/-- To base 2: powers of two come out exact, whether or not they are in the normal range. -/
def log2 (x : Float) : Float :=
  if !x.isFinite || x == 0 then log x
  else
    let (factor, k) := x.frExp
    if factor == 0.5 then ofInt (k - 1) else log factor * 1.44269504088896340736 + ofInt k

def log10 (x : Float) : Float := log x * 0.43429448190325182765

/-! ## Powers -/

/-- `x * y + z`, rounded once. -/
def fused (x y z : Float) : Float :=
  match parts x, parts y, parts z with
  | .finite a m e, .finite b n k, .finite c p l =>
    let low := min (e + k) l
    let signed (neg : Bool) (mant : Nat) (exp : Int) : Int :=
      let size : Int := mant * Nat.pow 2 (exp - low).toNat
      if neg then -size else size
    let sum := signed (a != b) (m * n) (e + k) + signed c p l
    let (num, den) := ratio sum.natAbs low
    nearest (sum < 0) num den
  | _, _, _ => x * y + z

/-- The nearest whole number, the even one of two. The number added leaves no room for a fraction. -/
def nearestWhole (x : Float) : Float := (x + 6755399441055744) - 6755399441055744

/-- `e ^ x - 1` for small `x`, by its series. -/
def expSeries (x : Float) : Float :=
  x * [1.9841269841269841270e-4, 1.3888888888888888889e-3, 8.3333333333333333333e-3, 4.1666666666666666667e-2,
    1.6666666666666666667e-1, 0.5, 1].foldl (fun acc c => fused acc x c) 2.4801587301587301587e-5

/-- Powers of e. The power of two in the result is found first, and what would round to `2 ^ 1024` is
already too large. The rest is made sixteen times smaller for the series, and `(1 + s) ^ 2` is
`1 + s * (s + 2)`. -/
def exp (x : Float) : Float :=
  let scaled := x * 1.4426950408889634073599246810018920
  if x.isNaN then nan
  else if scaled ≥ 1023.5 then infinity false
  else if scaled < -1080 then 0
  else
    let k := nearestWhole scaled
    let rest := fused (-k) 0.28235290563031577122588448175013436025525412068e-12
      (fused (-k) 0.69314718055966295651160180568695068359375 x)
    let square (s : Float) : Float := s * (s + 2)
    (square (square (square (square (expSeries (rest * 0.0625))))) + 1).scaleB (toInt64 k).toInt

/-- Whether `y` is an odd whole number. Doubles from `2 ^ 53` on are even. -/
def isOdd (y : Float) : Bool := y.abs < 9007199254740992 && y.abs.floor == y.abs && y.abs.toUInt64 % 2 == 1

/-- Powers of zero, which keep its sign when the exponent is odd. -/
def powerOfZero (x y : Float) : Float :=
  if y < 0 then if isOdd y then withSign (infinity false) x else infinity false
  else if isOdd y then x else 0

/-- Multiplies `acc * 2 ^ accExp` by the `n`-th power of `x * 2 ^ xExp`, squaring as it goes. An exponent
that has grown beyond every double ends it. -/
def powerLoop (acc : Float) (accExp : Int) (x : Float) (xExp : Int) (n : Nat) : Float × Int :=
  if n = 0 then (acc, accExp)
  else if xExp < -4096 ∨ 4096 < xExp then (acc, accExp + xExp)
  else
    let (acc, accExp) := if n % 2 = 1 then (acc * x, accExp + xExp) else (acc, accExp)
    let square := x * x
    if square < 0.5 then powerLoop acc accExp (square + square) (2 * xExp - 1) (n / 2)
    else powerLoop acc accExp square (2 * xExp) (n / 2)
termination_by n
decreasing_by all_goals omega

/-- A finite power of a finite number that is not 0. The whole part of the exponent is done by
multiplication and the rest by a logarithm. -/
def powerFinite (x y : Float) : Float :=
  let whole := y.abs.floor
  let part := y.abs - whole
  if part != 0 && x < 0 then nan
  else if whole ≥ 9223372036854775808 then
    if x == -1 then 1 else if (x.abs < 1) == (y > 0) then 0 else infinity false
  else
    let (whole, part) := if part > 0.5 then (whole + 1, part - 1) else (whole, part)
    let start := if part == 0 then 1 else exp (part * log x)
    let (factor, k) := x.frExp
    let (acc, accExp) := powerLoop start 0 factor k whole.toUInt64.toNat
    if y < 0 then (1 / acc).scaleB (-accExp) else acc.scaleB accExp

def power (x y : Float) : Float :=
  if y == 0 || x == 1 then 1
  else if y == 1 then x
  else if x.isNaN || y.isNaN then nan
  else if x == 0 then powerOfZero x y
  else if y.isInf then if x == -1 then 1 else if (x.abs < 1) == (y > 0) then 0 else infinity false
  else if x.isInf then if x < 0 then powerOfZero (1 / x) (-y) else if y < 0 then 0 else infinity false
  else if y == 0.5 then x.sqrt
  else if y == -0.5 then 1 / x.sqrt
  else powerFinite x y

/-!
## Functions of angles

An angle is first brought between `-π/4` and `π/4`, along with the eighth of a turn it lies in. What is
left are polynomials.
-/

def pi : Float := 3.14159265358979323846

def polynomial (cs : List Float) (x : Float) : Float :=
  match cs with
  | [] => 0
  | c :: cs => cs.foldl (fun acc c => acc * x + c) c

/-! ### Sine and cosine -/

/-- The first digits of `4/π`; 1216 of them stand behind the point. -/
def fourOverPi : Nat :=
  List.foldl (fun acc word => acc * Nat.pow 2 64 + word) 1 [
    0x45f306dc9c882a53, 0xf84eafa3ea69bb81, 0xb6c52b3278872083, 0xfca2c757bd778ac3, 0x6e48dc74849ba5c0,
    0x0c925dd413a32439, 0xfc3bd63962534e7d, 0xd1046bea5d768909, 0xd338e04d68befc82, 0x7323ac7306a673e9,
    0x3908bf177bf25076, 0x3ff12fffbc0b301f, 0xde5e2316b414da3e, 0xda6cfd9e4f96136e, 0x9e8c7ecd3cbfd45a,
    0xea4f758fd7cbe2f6, 0x7a0e73ef14a525d4, 0xd7f6bf623f1aba10, 0xac06608df8f6d757]

/-- Up to here the quotient by `π/4` is found by division. -/
def largeAngle : Float := 536870912

/-- The eighth of a turn and the rest of a small angle. Odd eighths go to the next one, with a negative
rest. `π/4` comes in three pieces, and the products with the first two are exact. -/
def reduceSmall (x : Float) : Nat × Float :=
  let whole := (x * 1.27323954473516268615).toUInt64.toNat
  let whole := whole + whole % 2
  let y := ofInt whole
  (whole % 8,
    ((x - y * 7.85398125648498535156e-1) - y * 3.77489470793079817668e-8) - y * 2.69515142907905952645e-15)

/-- A fraction from its first 64 binary digits. It has 52 digits after its leading one; where these are
more than there are, the digits of `low` follow. -/
def ofFraction (high low : Nat) : Float :=
  let shift := 64 - (if high = 0 then 0 else high.log2)
  let digits := high * Nat.pow 2 shift % Nat.pow 2 64 ||| low / Nat.pow 2 (64 - shift)
  Float.ofBits ((1023 - shift) * Nat.pow 2 52 + digits / Nat.pow 2 12).toUInt64

/-- As `reduceSmall`, by multiplication with those 192 digits of `4/π` that matter. Of the product three
digits before the point and 125 after it are kept. -/
def reduceLarge (x : Float) : Nat × Float :=
  let bits := x.toBits.toNat
  let mant := bits % Nat.pow 2 52 + Nat.pow 2 52
  let place := bits / Nat.pow 2 52 - 1014
  let window := fourOverPi / Nat.pow 2 (1088 - place) % Nat.pow 2 192
  let product := window * mant / Nat.pow 2 64 % Nat.pow 2 128
  let eighth := product / Nat.pow 2 125
  let rest := ofFraction (product / Nat.pow 2 61 % Nat.pow 2 64) (product % Nat.pow 2 64)
  if eighth % 2 = 1 then ((eighth + 1) % 8, (rest - 1) * (pi / 4)) else (eighth, rest * (pi / 4))

def reduce (x : Float) : Nat × Float := if x < largeAngle then reduceSmall x else reduceLarge x

def sinReduced (z : Float) : Float :=
  let zz := z * z
  z + z * zz * polynomial [1.58962301576546568060e-10, -2.50507477628578072866e-8, 2.75573136213857245213e-6,
    -1.98412698295895385996e-4, 8.33333333332211858878e-3, -1.66666666666666307295e-1] zz

def cosReduced (z : Float) : Float :=
  let zz := z * z
  1 - 0.5 * zz + zz * zz * polynomial [-1.13585365213876817300e-11, 2.08757008419747316778e-9,
    -2.75573141792967388112e-7, 2.48015872888517045348e-5, -1.38888888888730564116e-3,
    4.16666666666665929218e-2] zz

def sin (x : Float) : Float :=
  if x == 0 then x
  else if !x.isFinite then nan
  else
    let (eighth, z) := reduce x.abs
    let y := if eighth % 4 = 0 then sinReduced z else cosReduced z
    if (x < 0) != (eighth ≥ 4) then -y else y

def cos (x : Float) : Float :=
  if !x.isFinite then nan
  else
    let (eighth, z) := reduce x.abs
    let y := if eighth % 4 = 0 then cosReduced z else sinReduced z
    if eighth = 2 ∨ eighth = 4 then -y else y

/-! ### Arc tangent -/

def atanReduced (x : Float) : Float :=
  let z := x * x
  let ratio := z * polynomial [-8.750608600031904122785e-01, -1.615753718733365076637e+01,
    -7.500855792314704667340e+01, -1.228866684490136173410e+02, -6.485021904942025371773e+01] z
    / polynomial [1, 2.485846490142306297962e+01, 1.650270098316988542046e+02, 4.328810604912902668951e+02,
      4.853903996359136964868e+02, 1.945506571482613964425e+02] z
  x * ratio + x

/-- The arc tangent of a positive number. Large ones go by their inverse, those around 1 by their distance
from it. `π/2` has a few digits more than a double holds. -/
def atanPositive (x : Float) : Float :=
  let more : Float := 6.123233995736765886130e-17
  if x ≤ 0.66 then atanReduced x
  else if x > 2.41421356237309504880 then pi / 2 - atanReduced (1 / x) + more
  else pi / 4 + atanReduced ((x - 1) / (x + 1)) + 0.5 * more

def atan (x : Float) : Float :=
  if x == 0 then x else if x.isNaN then nan else if x > 0 then atanPositive x else -atanPositive (-x)

/-- The angle of the point `(x, y)`, by the arc tangent of the quotient and the sign of `x`. A negative
`y` so small that the quotient is 0 counts as positive. -/
def atan2 (y x : Float) : Float :=
  if x.isNaN || y.isNaN then nan
  else if y == 0 then withSign (if isNegative x then pi else 0) y
  else if x == 0 then withSign (pi / 2) y
  else if x.isInf then
    withSign (if x > 0 then if y.isInf then pi / 4 else 0 else if y.isInf then 3 * pi / 4 else pi) y
  else if y.isInf then withSign (pi / 2) y
  else
    let angle := atan (y / x)
    if x < 0 then if angle ≤ 0 then angle + pi else angle - pi else angle

end RecordMill.Double

import RecordMill.Number.Double
import RecordMill.Text.Bytes

/-!
# Numbers in front of a text

A text used as a number is worth the longest number it begins with, after blanks; a text that begins
with none is worth 0.
-/

namespace RecordMill.Reading

open Bytes (isSpace isDigit isHexDigit)

/-- Takes an optional sign off the front; `true` for a minus. -/
def takeSign : Bytes → Bool × Bytes
  | 45 :: s => (true, s)
  | 43 :: s => (false, s)
  | s => (false, s)

/-! ## Whole numbers -/

def maxWord : UInt64 := 18446744073709551615

/-- The digits taken so far, as an unsigned word. A digit that does not fit any more is passed over, and
that there was one is remembered. -/
structure Magnitude where
  word : UInt64 := 0
  overflow : Bool := false

namespace Magnitude

def add (m : Magnitude) (c : UInt8) : Magnitude :=
  let d := (c - 48).toUInt64
  if m.word > (maxWord - d) / 10 then { m with overflow := true }
  else { m with word := m.word * 10 + d }

def addDigits (m : Magnitude) : Bytes → Magnitude
  | c :: s => if isDigit c then (m.add c).addDigits s else m
  | [] => m

/-- There is one negative word more than there are positive ones. -/
def signed (m : Magnitude) (neg : Bool) : Int64 :=
  if neg && (m.overflow || m.word > (1 : UInt64) <<< 63) then Int64.minValue
  else if neg then -m.word.toInt64
  else if m.overflow || m.word > Int64.maxValue.toUInt64 then Int64.maxValue
  else m.word.toInt64

end Magnitude

def leadingInt (s : Bytes) : Int64 :=
  let (neg, s) := takeSign (s.dropWhile isSpace)
  (Magnitude.addDigits {} s).signed neg

/-! ## Doubles -/

def significant (ds : Bytes) : Bytes := ds.dropWhile (· == 48)

/-- `n * 10 ^ e` as the nearest double. Exponents far outside the range of doubles are cut short:
their outcome is fixed by the number of digits alone. -/
def scaleTen (neg : Bool) (n : Nat) (e : Int) : Float :=
  let size : Int := (Nat.log2 n : Int) / 3 + 1
  if n = 0 then Double.nearest neg 0 1
  else if e > 400 then Double.infinity neg
  else if e + size < -400 then Double.nearest neg 0 1
  else if e < 0 then Double.nearest neg n (Nat.pow 10 e.natAbs)
  else Double.nearest neg (n * Nat.pow 10 e.natAbs) 1

/-- No number half way between two doubles has more digits than this. -/
def maxDigits : Nat := 800

/-- The double nearest to the number with these digits, times `10 ^ e`. Of digits behind the first
`maxDigits` only their count matters and whether one of them is not zero. -/
def ofDigits (neg : Bool) (ds : Bytes) (e : Int) : Float :=
  let ds := significant ds
  match ds.drop maxDigits with
  | [] => scaleTen neg (Bytes.value 10 ds) e
  | _ :: more =>
    let last := if (ds.drop maxDigits).all (· == 48) then 48 else 49
    scaleTen neg (Bytes.value 10 (ds.take maxDigits ++ [last])) (e + more.length)

/-- The value of an exponent's digits. They count up to the one that brings it to 10000 or more, which is
the fifth behind the zeros in front; the rest is passed over. -/
def exponent (neg : Bool) (ds : Bytes) : Int :=
  let n := Bytes.value 10 ((significant ds).take 5)
  if neg then -(n : Int) else n

def takeExponent : Bytes → Int
  | c :: s =>
    if c = 101 ∨ c = 69 then
      let (neg, s) := takeSign s
      exponent neg (s.takeWhile isDigit)
    else 0
  | [] => 0

def decimalNumber (neg : Bool) (s : Bytes) : Float :=
  let whole := s.takeWhile isDigit
  let rest := s.dropWhile isDigit
  let (fraction, rest) := match rest with
    | 46 :: t => (t.takeWhile isDigit, t.dropWhile isDigit)
    | t => ([], t)
  if whole.isEmpty ∧ fraction.isEmpty then 0.0
  else ofDigits neg (whole ++ fraction) (takeExponent rest - fraction.length)

/-- Hexadecimal numbers are whole and saturate at the largest unsigned word. -/
def hexNumber (neg : Bool) (s : Bytes) : Float :=
  match s.takeWhile isHexDigit with
  | [] => 0.0
  | ds => Double.nearest neg (min (Bytes.value 16 ((significant ds).take 17)) (Nat.pow 2 64 - 1)) 1

def leadingDouble (s : Bytes) : Float :=
  let (neg, s) := takeSign (s.dropWhile isSpace)
  let word := (s.take 3).map Bytes.toLower
  if word = [110, 97, 110] then Double.nan
  else if word = [105, 110, 102] then Double.infinity neg
  else match s with
    | 48 :: x :: d :: rest =>
      if x = 120 ∨ x = 88 then hexNumber neg (d :: rest) else decimalNumber neg s
    | _ => decimalNumber neg s

end RecordMill.Reading

/-!
# Texts that are numbers as a whole

Unlike a number in front of a text, a literal must be used up. Underscores may stand between its digits.
-/

namespace RecordMill.Literal

open Bytes (isDigit isHexDigit)

/-- Why a text is no number. -/
inductive NumberFault where
  | malformed
  | outOfRange
  deriving DecidableEq, Repr

def NumberFault.message : NumberFault → Bytes
  | .malformed => "invalid syntax"
  | .outOfRange => "value out of range"

/-- A whole number in decimal, within the signed words. -/
def int? (s : Bytes) : Option Int64 :=
  let (neg, ds) := Reading.takeSign s
  let n := Bytes.value 10 ds
  if ds.isEmpty || !ds.all isDigit || (if neg then Nat.pow 2 63 < n else Nat.pow 2 63 ≤ n) then none
  else some (Int64.ofInt (if neg then -(n : Int) else n))

/-! ## Underscores -/

/-- What was seen last: a digit, an underscore, or anything else. -/
inductive Seen where
  | digit
  | underscore
  | other
  deriving DecidableEq, Repr

def separates (hex : Bool) : Seen → Bytes → Bool
  | last, [] => last != .underscore
  | last, c :: rest =>
    if isDigit c || (hex && isHexDigit c) then separates hex .digit rest
    else if c = 95 then last == .digit && separates hex .underscore rest
    else last != .underscore && separates hex .other rest

def underscoresFit (s : Bytes) : Bool :=
  match (Reading.takeSign s).2 with
  | 48 :: c :: rest =>
    let b := Bytes.toLower c
    if b = 98 ∨ b = 111 ∨ b = 120 then separates (b == 120) .digit rest
    else separates false .other (48 :: c :: rest)
  | s => separates false .other s

/-! ## Doubles -/

/-- Digits with at most one point among them: all digits, and how many follow the point. -/
def takeMantissa (p : UInt8 → Bool) (s : Bytes) : Option (Bytes × Nat × Bytes) :=
  let whole := s.takeWhile p
  let (fraction, rest) := match s.dropWhile p with
    | 46 :: t => (t.takeWhile p, t.dropWhile p)
    | t => ([], t)
  if whole.isEmpty && fraction.isEmpty then none else some (whole ++ fraction, fraction.length, rest)

def exponent? (s : Bytes) : Option Int :=
  let (neg, ds) := Reading.takeSign s
  if ds.isEmpty || !ds.all isDigit then none else some (Reading.exponent neg ds)

/-- `n * 2 ^ e` as the nearest double. -/
def scaleTwo (neg : Bool) (n : Nat) (e : Int) : Float :=
  if n = 0 then Double.nearest neg 0 1
  else if e > 1100 then Double.infinity neg
  else if e + n.log2 < -1100 then Double.nearest neg 0 1
  else if e < 0 then Double.nearest neg n (Nat.pow 2 e.natAbs)
  else Double.nearest neg (n * Nat.pow 2 e.natAbs) 1

def decimal? (neg : Bool) (s : Bytes) : Option Float := do
  let (ds, places, rest) ← takeMantissa isDigit s
  let e ← match rest with
    | [] => some 0
    | c :: rest => if Bytes.toLower c = 101 then exponent? rest else none
  return Reading.ofDigits neg ds (e - places)

/-- A hexadecimal number always has an exponent, which counts powers of two. -/
def hexadecimal? (neg : Bool) (s : Bytes) : Option Float := do
  let (ds, places, rest) ← takeMantissa isHexDigit s
  let e ← match rest with
    | [] => none
    | c :: rest => if Bytes.toLower c = 112 then exponent? rest else none
  return scaleTwo neg (Bytes.value 16 ds) (e - 4 * places)

def finite? (s : Bytes) : Option Float :=
  if s.has 95 && !underscoresFit s then none
  else
    let (neg, s) := Reading.takeSign (s.filter (· ≠ 95))
    match s with
    | 48 :: x :: d :: rest => if Bytes.toLower x = 120 then hexadecimal? neg (d :: rest) else decimal? neg s
    | _ => decimal? neg s

def double (s : Bytes) : Except NumberFault Float :=
  let word := s.map Bytes.toLower
  let (neg, bare) := Reading.takeSign word
  if bare = text "inf" ∨ bare = text "infinity" then .ok (Double.infinity neg)
  else if word = text "nan" then .ok Double.nan
  else match finite? s with
    | none => .error .malformed
    | some f => match Double.parts f with
      | .infinite _ => .error .outOfRange
      | _ => .ok f

end RecordMill.Literal

import RecordMill.Text.Bytes

/-! # Characters in a byte string, and the words between blank ones -/

namespace RecordMill.Utf8

/-- A step through a byte string: a well-formed character with its code, or a byte that begins none. -/
inductive Unit where
  | char (code : Nat) (bytes : Bytes)
  | stray (byte : UInt8)
  deriving DecidableEq, Repr

/-- The code that stands for a byte that begins no character. -/
def replacement : Nat := 0xFFFD

def Unit.code : Unit → Nat
  | .char c _ => c
  | .stray _ => replacement

def Unit.bytes : Unit → Bytes
  | .char _ bs => bs
  | .stray b => [b]

def isTail (b : UInt8) : Bool := 0x80 ≤ b && b ≤ 0xBF

/-- The code and the length of the well-formed character in front. -/
def front? : Bytes → Option (Nat × Nat)
  | [] => none
  | a :: rest =>
    if a < 0x80 then some (a.toNat, 1)
    else if a < 0xC2 then none
    else if a < 0xE0 then
      match rest with
      | b :: _ => if isTail b then some ((a.toNat - 0xC0) * 64 + (b.toNat - 0x80), 2) else none
      | _ => none
    else if a < 0xF0 then
      match rest with
      | b :: c :: _ =>
        if isTail b && isTail c && !(a == 0xE0 && b < 0xA0) && !(a == 0xED && b > 0x9F) then
          some (((a.toNat - 0xE0) * 64 + (b.toNat - 0x80)) * 64 + (c.toNat - 0x80), 3)
        else none
      | _ => none
    else if a < 0xF5 then
      match rest with
      | b :: c :: d :: _ =>
        if isTail b && isTail c && isTail d && !(a == 0xF0 && b < 0x90) && !(a == 0xF4 && b > 0x8F) then
          some ((((a.toNat - 0xF0) * 64 + (b.toNat - 0x80)) * 64 + (c.toNat - 0x80)) * 64
            + (d.toNat - 0x80), 4)
        else none
      | _ => none
    else none

/-- The characters and stray bytes of a string, in order. -/
def units : Bytes → List Unit
  | [] => []
  | b :: rest =>
    match front? (b :: rest) with
    | some (code, n) => .char code (b :: rest.take (n - 1)) :: units (rest.drop (n - 1))
    | none => .stray b :: units rest
termination_by s => s.length
decreasing_by all_goals (simp; try omega)

def count (s : Bytes) : Nat := (units s).length

/-- The first `n` characters. -/
def take (n : Nat) (s : Bytes) : Bytes := (((units s).take n).map Unit.bytes).flatten

def valid (s : Bytes) : Bool := (units s).all fun
  | .char .. => true
  | .stray _ => false

def isScalar (code : Nat) : Bool := code < 0xD800 || (0xE000 ≤ code && code ≤ 0x10FFFF)

/-- The bytes of a character; a number that is none is written as the replacement. -/
def encode (code : Nat) : Bytes :=
  let c := if isScalar code then code else replacement
  if c < 0x80 then [c.toUInt8]
  else if c < 0x800 then [(0xC0 + c / 64).toUInt8, (0x80 + c % 64).toUInt8]
  else if c < 0x10000 then
    [(0xE0 + c / 4096).toUInt8, (0x80 + c / 64 % 64).toUInt8, (0x80 + c % 64).toUInt8]
  else
    [(0xF0 + c / 262144).toUInt8, (0x80 + c / 4096 % 64).toUInt8, (0x80 + c / 64 % 64).toUInt8,
      (0x80 + c % 64).toUInt8]

/-! ## Words -/

/-- Spaces, line ends and the other characters of zero ink. -/
def isBlank (code : Nat) : Bool :=
  code == 32 || (9 ≤ code && code ≤ 13) || code == 0x85 || code == 0xA0 || code == 0x1680
    || (0x2000 ≤ code && code ≤ 0x200A) || code == 0x2028 || code == 0x2029 || code == 0x202F
    || code == 0x205F || code == 0x3000

/-- The runs of characters that are not blank. `word` is the run begun so far, its bytes in reverse. -/
def wordsOf : Bytes → List Unit → List Bytes
  | word, [] => if word.isEmpty then [] else [word.reverse]
  | word, u :: rest =>
    if isBlank u.code then
      if word.isEmpty then wordsOf [] rest else word.reverse :: wordsOf [] rest
    else wordsOf (u.bytes.reverse ++ word) rest

def words (s : Bytes) : List Bytes := wordsOf [] (units s)

def characters (s : Bytes) : List Bytes := (units s).map Unit.bytes

end RecordMill.Utf8

/-!
# Byte strings

Program text, patterns, records and output are strings of arbitrary bytes. Nothing here assumes
that they are well-formed text.
-/

namespace RecordMill

abbrev Bytes := List UInt8

def text (s : String) : Bytes := s.toUTF8.data.toList

instance : Coe String Bytes := ⟨text⟩

namespace Bytes

/-! ## Character classes -/

def ofChar (c : Char) : UInt8 := c.toNat.toUInt8

def isSpace (b : UInt8) : Bool := b == 32 || (9 ≤ b && b ≤ 13)

def isDigit (b : UInt8) : Bool := 48 ≤ b && b ≤ 57

def isLower (b : UInt8) : Bool := 97 ≤ b && b ≤ 122

def isUpper (b : UInt8) : Bool := 65 ≤ b && b ≤ 90

def isHexDigit (b : UInt8) : Bool := isDigit b || (97 ≤ b && b ≤ 102) || (65 ≤ b && b ≤ 70)

def toLower (b : UInt8) : UInt8 := if isUpper b then b + 32 else b

def toUpper (b : UInt8) : UInt8 := if isLower b then b - 32 else b

def digitValue (b : UInt8) : Nat :=
  if isDigit b then b.toNat - 48
  else if 97 ≤ b then b.toNat - 87
  else b.toNat - 55

/-- The number that a run of digits writes in `base`. -/
def value (base : Nat) (ds : Bytes) : Nat := ds.foldl (fun n d => n * base + digitValue d) 0

/-! ## Numbers as text -/

def lowerDigit (d : Nat) : UInt8 := if d < 10 then (48 + d).toUInt8 else (87 + d).toUInt8

def upperDigit (d : Nat) : UInt8 := if d < 10 then (48 + d).toUInt8 else (55 + d).toUInt8

/-- The digits of `n` in `base`, most significant first, each written by `digit`. -/
def radix (digit : Nat → UInt8) (base n : Nat) : Bytes :=
  if _h : n < base ∨ base < 2 then [digit n]
  else radix digit base (n / base) ++ [digit (n % base)]
termination_by n
decreasing_by exact Nat.div_lt_self (by omega) (by omega)

def decimal (n : Nat) : Bytes := radix lowerDigit 10 n

def hex (n : Nat) : Bytes := radix lowerDigit 16 n

def integer (n : Int) : Bytes := if n < 0 then 45 :: decimal n.natAbs else decimal n.natAbs

/-- `n` in hexadecimal on at least `width` digits. -/
def hexPadded (width n : Nat) : Bytes :=
  let ds := hex n
  List.replicate (width - ds.length) 48 ++ ds

/-! ## Order and search -/

/-- Byte by byte; a proper start of a string comes before it. -/
def before (s t : Bytes) : Bool := compare s t == .lt

def startsWith (s lead : Bytes) : Bool := lead.isPrefixOf s

def endsWith (s tail : Bytes) : Bool := tail.isSuffixOf s

/-- Whether `part` stands somewhere in `s`. -/
def contains (part : Bytes) : Bytes → Bool
  | [] => part.isEmpty
  | b :: s => part.isPrefixOf (b :: s) || contains part s

/-! ## Pieces -/

def join (sep : Bytes) : List Bytes → Bytes
  | [] => []
  | s :: rest => s ++ rest.flatMap (sep ++ ·)

/-- Cuts at every `c`; there is one piece more than there are cuts. -/
def cutAt (c : UInt8) : Bytes → List Bytes
  | [] => [[]]
  | b :: s =>
    if b = c then [] :: cutAt c s
    else match cutAt c s with
      | [] => [[b]]
      | p :: ps => (b :: p) :: ps

def runsOutside (p : UInt8 → Bool) (s : Bytes) : List Bytes := (go s).filter (· ≠ [])
where
  go : Bytes → List Bytes
    | [] => [[]]
    | b :: s =>
      if p b then [] :: go s
      else match go s with
        | [] => [[b]]
        | r :: rs => (b :: r) :: rs

/-- Whether `c` is one of the bytes of `s`. -/
def has (s : Bytes) (c : UInt8) : Bool := s.any (· == c)

end Bytes

/-!
## Byte strings that grow

A buffer keeps the pieces it was made of, so that adding one does not touch the others. What counts is
the string that the pieces make up.
-/

structure Buffer where
  pieces : List Bytes
  size : Nat
  size_eq : size = pieces.reverse.flatten.length
  deriving DecidableEq, Repr

namespace Buffer

def bytes (b : Buffer) : Bytes := b.pieces.reverse.flatten

def empty : Buffer := ⟨[], 0, rfl⟩

instance : Inhabited Buffer := ⟨empty⟩

def ofBytes (s : Bytes) : Buffer := ⟨[s], s.length, by simp⟩

def push (b : Buffer) (s : Bytes) : Buffer :=
  ⟨s :: b.pieces, b.size + s.length, by
    rw [List.reverse_cons, List.flatten_append, List.length_append, ← b.size_eq]
    simp⟩

def isEmpty (b : Buffer) : Bool := b.size == 0

/-! ### The string behind it -/

theorem size_eq_length (b : Buffer) : b.size = b.bytes.length := b.size_eq

@[simp] theorem bytes_empty : empty.bytes = [] := rfl

@[simp] theorem bytes_ofBytes (s : Bytes) : (ofBytes s).bytes = s := by simp [bytes, ofBytes]

@[simp] theorem bytes_push (b : Buffer) (s : Bytes) : (b.push s).bytes = b.bytes ++ s := by
  simp [bytes, push]

end Buffer

end RecordMill

import RecordMill.Text.Bytes

/-!
# Packed strings

A string travels through words as a pair. The top byte of the high word is a tag: up to fifteen it is
the length of a string held in the pair itself, so the zero pair is the empty string. Two further tags
mark a literal, by its index, and a counted string on the heap, by its handle.
-/

namespace RecordMill

structure Packed where
  lo : UInt64
  hi : UInt64
  deriving DecidableEq, Repr

/-- Where the bytes of a packed string are. -/
inductive Storage where
  | inline
  | literal
  | shared
  deriving DecidableEq, Repr

def Storage.name : Storage → Bytes
  | .inline => "inline"
  | .literal => "literal"
  | .shared => "shared"

def Storage.nameOfCode : Nat → Bytes
  | 0 => Storage.inline.name
  | 1 => Storage.literal.name
  | 2 => Storage.shared.name
  | n => "strkind(" ++ Bytes.decimal n ++ ")"

namespace Packed

/-- The longest string that is held in the pair itself. -/
def maxInline : Nat := 15

def literalTag : UInt64 := 0x40

def sharedTag : UInt64 := 0x80

/-- The low 56 bits of the high word hold the length of a literal. -/
def lengthMask : UInt64 := 0x00FFFFFFFFFFFFFF

def empty : Packed := ⟨0, 0⟩

def tag (s : Packed) : UInt64 := s.hi >>> 56

/-- `none` for a tag that marks no storage. -/
def storage? (s : Packed) : Option Storage :=
  if s.tag ≤ 15 then some .inline
  else if s.tag = literalTag then some .literal
  else if s.tag = sharedTag then some .shared
  else none

def isEmpty (s : Packed) : Bool :=
  match s.storage? with
  | some .inline => s.tag == 0
  | some .literal => s.hi &&& lengthMask == 0
  | _ => false

/-- The handle of a counted string, 0 for any other. -/
def handle (s : Packed) : UInt64 := if s.tag = sharedTag then s.lo else 0

/-! ## Bytes in words -/

def wordOf : Bytes → UInt64
  | [] => 0
  | b :: rest => b.toUInt64 ||| (wordOf rest <<< 8)

/-- The `n` low bytes of a word, least significant first. -/
def bytesOf : Nat → UInt64 → Bytes
  | 0, _ => []
  | n + 1, w => w.toUInt8 :: bytesOf n (w >>> 8)

/-- A string of at most fifteen bytes, held in place. -/
def inline (s : Bytes) : Packed :=
  ⟨wordOf (s.take 8), wordOf ((s.drop 8).take 7) ||| (s.length.toUInt64 <<< 56)⟩

def inlineBytes (s : Packed) : Bytes := (bytesOf 8 s.lo ++ bytesOf 7 s.hi).take s.tag.toNat

def inline? (s : Bytes) : Option Packed := if s.length ≤ maxInline then some (inline s) else none

/-- The string at `index` of a table of literals; a short one needs no index. -/
def literal (index : Nat) (s : Bytes) : Packed :=
  if s.length ≤ maxInline then inline s
  else ⟨index.toUInt64, (literalTag <<< 56) ||| (s.length.toUInt64 &&& lengthMask)⟩

def shared (handle : UInt64) : Packed := ⟨handle, sharedTag <<< 56⟩

end Packed

end RecordMill

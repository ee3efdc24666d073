import RecordMill.Text.Category.Basic
import RecordMill.Text.Utf8

/-!
# Quoted text

A quoted text is plain between double quotes: what cannot be shown is written as an escape, so the
result is always well-formed and on one line.
-/

namespace RecordMill.Quoted

/-- The letter of a control character that has a short escape. -/
def shortEscape? : Nat → Option UInt8
  | 7 => some 97
  | 8 => some 98
  | 9 => some 116
  | 10 => some 110
  | 11 => some 118
  | 12 => some 102
  | 13 => some 114
  | _ => none

def escapeChar (code : Nat) : Bytes :=
  if code = 34 ∨ code = 92 then [92, code.toUInt8]
  else if Category.isPrintable code then Utf8.encode code
  else match shortEscape? code with
    | some letter => [92, letter]
    | none =>
      if code < 32 ∨ code = 127 then text "\\x" ++ Bytes.hexPadded 2 code
      else if code < 0x10000 then text "\\u" ++ Bytes.hexPadded 4 code
      else text "\\U" ++ Bytes.hexPadded 8 code

def escapeUnit : Utf8.Unit → Bytes
  | .char code _ => escapeChar code
  | .stray b => text "\\x" ++ Bytes.hexPadded 2 b.toNat

def encode (s : Bytes) : Bytes := [34] ++ (Utf8.units s).flatMap escapeUnit ++ [34]

end RecordMill.Quoted

import RecordMill.Number.Reading
import RecordMill.Number.Notation
import RecordMill.Text.CaseFold
import RecordMill.Text.Quoted

/-!
# Configuration

Sizes are given as numbers of bytes with a unit. Settings that are left open are taken from the environment, and then
from the defaults. -/

namespace RecordMill

inductive SizeError where
  /-- There is no digit, or the number is negative. -/
  | noSize (s : Bytes)
  | number (s : Bytes) (cause : Literal.NumberFault)
  | suffix (s : Bytes)
  deriving DecidableEq, Repr

def SizeError.message : SizeError → Bytes
  | .noSize s => "invalid size: '" ++ s ++ "'"
  | .number s cause => "strconv.ParseFloat: parsing " ++ Quoted.encode s ++ ": " ++ cause.message
  | .suffix s => "invalid suffix: '" ++ s ++ "'"

namespace Size

/-! ## Reading sizes -/

/-- Characters that can end the number: digits, the point and the blank. -/
def endsNumber (b : UInt8) : Bool := Bytes.isDigit b || b == 46 || b == 32

/-- The number and the suffix; a blank between them belongs to neither. -/
def cut? (s : Bytes) : Option (Bytes × Bytes) :=
  let suffix := (s.reverse.takeWhile (!endsNumber ·)).reverse
  match s.reverse.dropWhile (!endsNumber ·) with
  | [] => none
  | 32 :: number => some (number.reverse, suffix)
  | number => some (number.reverse, suffix)

/-- Capital letters become small ones; stray bytes are replaced. -/
def lower (s : Bytes) : Bytes := (Utf8.units s).flatMap fun u => Utf8.encode (CaseFold.lower u.code)

def power? : UInt8 → Option Nat
  | 107 => some 1
  | 109 => some 2
  | 103 => some 3
  | 116 => some 4
  | 112 => some 5
  | _ => none

/-- The number of bytes that one unit is. A suffix that is too long is not even lowered; one that has
become too long by then counts by its first letter. -/
def unit (suffix : Bytes) : Except SizeError Nat :=
  if suffix.length > 3 then .error (.suffix suffix)
  else
    let s := lower suffix
    match s with
    | [] | [98] => .ok 1
    | c :: rest => match power? c with
      | some k =>
        if rest = [] ∨ rest = text "b" ∨ rest = text "ib" ∨ rest.length > 2 then .ok (Nat.pow 1024 k)
        else .error (.suffix s)
      | none => .error (.suffix s)

/-- The whole part of a number that is not negative; one that does not fit becomes the least word. -/
def whole (f : Float) : Int64 :=
  match Double.parts f with
  | .finite _ mant exp =>
    let (n, d) := Double.ratio mant exp
    if n / d < Nat.pow 2 63 then Int64.ofNat (n / d) else Int64.minValue
  | _ => Int64.minValue

def parse (s : Bytes) : Except SizeError Int64 :=
  match cut? s with
  | none => .error (.noSize s)
  | some (number, suffix) => match Literal.double number with
    | .error cause => .error (.number number cause)
    | .ok f => if f < 0 then .error (.noSize s) else do return whole (f * Double.ofInt (← unit suffix))

/-! ## Writing sizes -/

def unitNames : List Bytes := ["B", "KiB", "MiB", "GiB", "TiB", "PiB", "EiB", "ZiB", "YiB"]

/-- Four significant digits and the largest unit that is not too large. -/
def display (bytes : Nat) : Bytes :=
  let k := min (bytes.log2 / 10) (unitNames.length - 1)
  let number := match Double.parts (Double.ofInt bytes) with
    | .finite _ mant exp => Double.layOut mant (exp - 10 * k) (.general (some 4) 101)
    | _ => []
  number ++ unitNames.getD k []

end Size

/-! ## Settings -/

/-- A variable that is set to nothing counts as not set. -/
abbrev Environment := List (Bytes × Bytes)

namespace Environment

def get? (env : Environment) (name : Bytes) : Option Bytes :=
  match env.lookup name with
  | some [] | none => none
  | some v => some v

/-- Words for yes are written in small letters, in capitals, or with one capital in front. -/
def yesWords : List Bytes :=
  let words := [text "true", text "yes", text "enable", text "enabled", text "positive", text "absolutely",
    text "affirmative"]
  let capital (w : Bytes) : Bytes := match w with
    | [] => []
    | c :: rest => Bytes.toUpper c :: rest
  [text "1", text "t", text "T", text "y", text "Y"] ++ words ++ words.map capital
    ++ words.map fun w => w.map Bytes.toUpper

def isYes (env : Environment) (name : Bytes) : Bool := ((env.get? name).map yesWords.contains).getD false

def int (env : Environment) (name : Bytes) (usual : Int) : Int :=
  (((env.get? name).bind Literal.int?).map Int64.toInt).getD usual

end Environment

/-- Empty texts, 0 and `none` are settings left open. -/
structure Config where
  fs : Bytes := []
  ofs : Bytes := []
  ors : Bytes := []
  args : List Bytes := []
  /-- Whether the longest of the leftmost matches is taken. -/
  longest : Option Bool := none
  outputBuffer : Bytes := []
  stackSize : Int := 0
  trace : Bool := false
  deriving DecidableEq, Repr

/-- A configuration with nothing left open; a stack size of 0 is the usual one. -/
structure Options where
  fs : Bytes
  ofs : Bytes
  ors : Bytes
  args : List Bytes
  longest : Bool
  outputBuffer : Bytes
  stackSize : Int
  trace : Bool
  deriving DecidableEq, Repr

inductive ConfigError where
  | negativeStack (n : Int)
  | badBuffer (cause : SizeError)
  | emptyBuffer (s : Bytes)
  deriving DecidableEq, Repr

def ConfigError.message : ConfigError → Bytes
  | .negativeStack n => "config: negative stack size " ++ Bytes.integer n
  | .badBuffer cause => "config: output buffer: " ++ cause.message
  | .emptyBuffer s => "config: output buffer must be positive, got " ++ Quoted.encode s

def Config.resolve (c : Config) (env : Environment) : Except ConfigError Options :=
  let orElse (s usual : Bytes) : Bytes := if s.isEmpty then usual else s
  let posix := text "AWKJIT_POSIX"
  let stackSize := if c.stackSize = 0 then env.int "AWKJIT_STACK" 0 else c.stackSize
  if stackSize < 0 then .error (.negativeStack stackSize)
  else .ok {
    fs := orElse c.fs " "
    ofs := orElse c.ofs " "
    ors := orElse c.ors "\n"
    args := c.args
    longest := c.longest.getD ((env.get? posix).isNone || env.isYes posix)
    outputBuffer := orElse c.outputBuffer ((env.get? "AWKJIT_OUTPUT_BUFFER").getD "64KiB")
    stackSize
    trace := c.trace || env.isYes "AWKJIT_TRACE" }

def Options.bufferBytes (o : Options) : Except ConfigError Nat :=
  match Size.parse o.outputBuffer with
  | .error cause => .error (.badBuffer cause)
  | .ok n => if n ≤ 0 then .error (.emptyBuffer o.outputBuffer) else .ok n.toNatClampNeg

end RecordMill

import RecordMill.Text.Bytes

/-!
# Words of a command line

A command line is cut into words and operators. A word keeps apart what was quoted, since quoted text
is neither split nor taken for an operator, and names what has to be filled in when the command runs.
-/

namespace RecordMill.Shell

/-- A part of a word. What is not quoted is split at blanks once it is filled in. -/
inductive Piece where
  | char (b : UInt8) (quoted : Bool)
  /-- Quotes, which make a word even if they enclose nothing. -/
  | quotes
  | param (name : Bytes) (quoted : Bool)
  | command (line : Bytes) (quoted : Bool)
  deriving DecidableEq, Repr

abbrev Word := List Piece

/-- Which way a redirection goes. -/
inductive Direction where
  | reading
  | into
  | onto
  | same
  deriving DecidableEq, Repr

inductive Token where
  | word (w : Word)
  | pipe
  | next
  | andThen
  | orElse
  | opening
  | closing
  | redirect (fd : Nat) (d : Direction)
  deriving DecidableEq, Repr

namespace Word

def ofBytes (s : Bytes) : Word := s.map (.char · false)

/-- The text of a word in which nothing is quoted or filled in. -/
def plain? (w : Word) : Option Bytes :=
  w.mapM fun
    | .char b false => some b
    | _ => none

end Word

/-! ## Parts that are filled in -/

def isNameStart (b : UInt8) : Bool := Bytes.isLower b || Bytes.isUpper b || b == 95

def isNamePart (b : UInt8) : Bool := isNameStart b || Bytes.isDigit b

/-- What stands before the closing bracket that has no opening one, and what follows it. `depth` brackets
are open, and `acc` is what has been passed, in reverse. -/
def balanced : Nat → Bytes → Bytes → Option (Bytes × Bytes)
  | _, _, [] => none
  | 0, acc, 41 :: s => some (acc.reverse, s)
  | depth + 1, acc, 41 :: s => balanced depth (41 :: acc) s
  | depth, acc, b :: s => balanced (if b = 40 then depth + 1 else depth) (b :: acc) s

/-- What stands before `stop`, and what follows it. -/
def before? (stop : UInt8) (s : Bytes) : Option (Bytes × Bytes) :=
  match s.dropWhile (· ≠ stop) with
  | [] => none
  | _ :: rest => some (s.takeWhile (· ≠ stop), rest)

/-- The part that begins after a dollar sign. A dollar sign that begins none stands for itself. -/
def dollar (quoted : Bool) (s : Bytes) : Option (Piece × Bytes) :=
  match s with
  | 40 :: rest => do
    let (inner, rest) ← balanced 0 [] rest
    return (.command inner quoted, rest)
  | 123 :: rest => do
    let (name, rest) ← before? 125 rest
    return (.param name quoted, rest)
  | b :: rest =>
    if isNameStart b then
      some (.param (b :: rest.takeWhile isNamePart) quoted, rest.dropWhile isNamePart)
    else if Bytes.isDigit b || (text "?$#@*!").has b then some (.param [b] quoted, rest)
    else some (.char 36 quoted, s)
  | [] => some (.char 36 quoted, [])

/-! ## Cutting -/

def isBlank (b : UInt8) : Bool := b == 32 || b == 9

def isMeta (b : UInt8) : Bool := isBlank b || (text "|&;<>()\n").has b

/-- The rest of a word and what follows it. `w` is the word so far, in reverse, and `double` tells that
it stands within double quotes. -/
def takeWord : Nat → Bool → Word → Bytes → Option (Word × Bytes)
  | 0, _, _, _ => none
  | _ + 1, double, w, [] => if double then none else some (w.reverse, [])
  | fuel + 1, double, w, b :: s =>
    if b = 34 then takeWord fuel (!double) (.quotes :: w) s
    else if b = 36 then do
      let (p, s) ← dollar double s
      takeWord fuel double (p :: w) s
    else if b = 96 then do
      let (line, s) ← before? 96 s
      takeWord fuel double (.command line double :: w) s
    else if b = 92 then
      match s with
      | [] => takeWord fuel double (.char b true :: w) []
      | c :: s =>
        if c = 10 then takeWord fuel double w s
        else if double && !(text "$`\"\\").has c then
          takeWord fuel double (.char c true :: .char b true :: w) s
        else takeWord fuel double (.char c true :: w) s
    else if double then takeWord fuel double (.char b true :: w) s
    else if b = 39 then do
      let (inner, s) ← before? 39 s
      takeWord fuel double ((inner.map (.char · true)).reverse ++ .quotes :: w) s
    else if isMeta b then some (w.reverse, b :: s)
    else takeWord fuel double (.char b false :: w) s

def operator? : Bytes → Option (Token × Bytes)
  | 38 :: 38 :: s => some (.andThen, s)
  | 38 :: s => some (.next, s)
  | 124 :: 124 :: s => some (.orElse, s)
  | 124 :: s => some (.pipe, s)
  | 59 :: s | 10 :: s => some (.next, s)
  | 40 :: s => some (.opening, s)
  | 41 :: s => some (.closing, s)
  | _ => none

def redirection? (fd : Option Nat) : Bytes → Option (Token × Bytes)
  | 62 :: 62 :: s => some (.redirect (fd.getD 1) .onto, s)
  | 62 :: 38 :: s => some (.redirect (fd.getD 1) .same, s)
  | 62 :: 124 :: s | 62 :: s => some (.redirect (fd.getD 1) .into, s)
  | 60 :: 38 :: s => some (.redirect (fd.getD 0) .same, s)
  | 60 :: 60 :: _ => none
  | 60 :: s => some (.redirect (fd.getD 0) .reading, s)
  | _ => none

def numbered? : Bytes → Option (Token × Bytes)
  | d :: s => if Bytes.isDigit d then redirection? (some (Bytes.digitValue d)) s else redirection? none (d :: s)
  | [] => none

/-- The tokens of a command line; `none` if a quote is not closed. -/
def tokens : Nat → Bytes → Option (List Token)
  | 0, _ => none
  | _ + 1, [] => some []
  | fuel + 1, b :: s =>
    if isBlank b then tokens fuel s
    else if b = 35 then tokens fuel (s.dropWhile (· ≠ 10))
    else match operator? (b :: s) with
      | some (t, s) => do return t :: (← tokens fuel s)
      | none => match numbered? (b :: s) with
        | some (t, s) => do return t :: (← tokens fuel s)
        | none => do
          let (w, rest) ← takeWord (s.length + 2) false [] (b :: s)
          if w.isEmpty then none else return .word w :: (← tokens fuel rest)

end RecordMill.Shell

import RecordMill.Format.Spec
import RecordMill.Number.Reading

/-!
# Formatted text

A format is plain text with directives. A directive takes the next argument and converts it to the
kind that its verb writes; when none is left it takes the empty string.
-/

namespace RecordMill.Format

inductive Arg where
  | int (n : Int64)
  | double (f : Float)
  | str (s : Bytes)

namespace Arg

def toDouble : Arg → Float
  | .int n => Double.ofInt n.toInt
  | .double f => f
  | .str s => Reading.leadingDouble s

def toInt : Arg → Int64
  | .int n => n
  | .double f => Double.toInt64 f
  | .str s => Double.toInt64 (Reading.leadingDouble s)

def toText : Arg → Bytes
  | .int n => Bytes.integer n.toInt
  | .double f => Double.plainText f
  | .str s => s

end Arg

def takeArg : List Arg → Arg × List Arg
  | [] => (.str [], [])
  | a :: rest => (a, rest)

/-! ## Reading a directive -/

/-- A run of flags, digits or the like, and what follows it. -/
def span (p : UInt8 → Bool) (s : Bytes) : Bytes × Bytes := (s.takeWhile p, s.dropWhile p)

def isFlag (b : UInt8) : Bool := b == 45 || b == 43 || b == 32 || b == 35 || b == 48

/-- A negative width taken from an argument is a width with the minus flag. -/
def dynamicWidth (spec : Spec) (n : Int64) : Spec :=
  let minus := if n == Int64.minValue then [45, 45] else if n < 0 then [45] else []
  { spec with flags := spec.flags ++ minus, width := Bytes.decimal n.toInt.natAbs }

def readWidth (spec : Spec) (args : List Arg) : Bytes → Spec × List Arg × Bytes
  | 42 :: s =>
    let (a, args) := takeArg args
    (dynamicWidth spec a.toInt, args, s)
  | s =>
    let (ds, s) := span Bytes.isDigit s
    ({ spec with width := ds }, args, s)

/-- A negative precision taken from an argument counts as none. -/
def readPrecision (spec : Spec) (args : List Arg) : Bytes → Spec × List Arg × Bytes
  | 46 :: 42 :: s =>
    let (a, args) := takeArg args
    let n := a.toInt
    (if n < 0 then spec else { spec with precision := some (Bytes.decimal n.toInt.natAbs) }, args, s)
  | 46 :: s =>
    let (ds, s) := span Bytes.isDigit s
    ({ spec with precision := some ds }, args, s)
  | s => (spec, args, s)

/-- Everything of a directive between its percent sign and its verb. -/
def readSpec (args : List Arg) (s : Bytes) : Spec × List Arg × Bytes :=
  let (flags, s) := span isFlag s
  let (spec, args, s) := readWidth { flags := flags } args s
  readPrecision spec args s

/-! ## Writing a field -/

/-- A value ready to be written. -/
inductive Field where
  | signed (n : Int64)
  | unsigned (radix : Radix) (n : UInt64)
  | string (s : Bytes)
  | double (layout : Option Nat → Double.Layout) (f : Float)

/-- What a verb writes of its argument; verbs of single bytes and unknown ones write no field. -/
def field? (verb : UInt8) (a : Arg) : Option Field :=
  match Char.ofNat verb.toNat with
  | 'd' | 'i' => some (.signed a.toInt)
  | 'u' => some (.unsigned .decimal a.toInt.toUInt64)
  | 'o' => some (.unsigned .octal a.toInt.toUInt64)
  | 'x' => some (.unsigned .hexLower a.toInt.toUInt64)
  | 'X' => some (.unsigned .hexUpper a.toInt.toUInt64)
  | 's' => some (.string a.toText)
  | 'e' | 'E' => some (.double (fun p => .scientific (p.getD 6) verb) a.toDouble)
  | 'g' | 'G' => some (.double (fun p => .general p (verb - 2)) a.toDouble)
  | 'f' | 'F' => some (.double (fun p => .positional (p.getD 6)) a.toDouble)
  | _ => none

/-- The note that takes the place of a field whose specification cannot be read. -/
def unreadNote (value : Bytes) : Bytes := "%!(NOVERB)%!(EXTRA " ++ value ++ ")"

def writeUnread : Field → Bytes
  | .signed n => unreadNote ("int64=" ++ Bytes.integer n.toInt)
  | .unsigned _ n => unreadNote ("uint64=" ++ Bytes.decimal n.toNat)
  | .string s => unreadNote ("string=" ++ s)
  | .double _ f => unreadNote ("float64=" ++ double {} (.general none 101) f)

def writeField (spec : Spec) (v : Field) : Bytes :=
  if spec.unreadable then writeUnread v
  else match v with
    | .signed n => whole spec .decimal (n < 0) n.toInt.natAbs
    | .unsigned radix n => whole spec radix false n.toNat
    | .string s => string spec s
    | .double layout f => double spec (layout spec.precisionNat?) f

/-- A string gives its first byte; a number is a byte's code, or nothing. -/
def singleByte : Arg → Bytes
  | .str s => s.take 1
  | a =>
    let n := a.toInt
    if 0 ≤ n ∧ n ≤ 255 then [n.toUInt64.toUInt8] else []

/-- The text of one directive and the arguments left. An unknown verb takes no argument. -/
def writeVerb (spec : Spec) (args : List Arg) (verb : UInt8) : Bytes × List Arg :=
  let (a, rest) := takeArg args
  if verb = 99 then (singleByte a, rest)
  else match field? verb a with
    | some v => (writeField spec v, rest)
    | none => ([37, verb], args)

theorem dropWhile_length_le {α : Type} (p : α → Bool) (s : List α) : (s.dropWhile p).length ≤ s.length :=
  (List.dropWhile_suffix p).length_le

theorem readWidth_length_le (spec : Spec) (args : List Arg) (s : Bytes) :
    (readWidth spec args s).2.2.length ≤ s.length := by
  unfold readWidth
  split
  · simp
  · exact dropWhile_length_le _ _

theorem readPrecision_length_le (spec : Spec) (args : List Arg) (s : Bytes) :
    (readPrecision spec args s).2.2.length ≤ s.length := by
  unfold readPrecision
  split
  · simp; omega
  · simp only [span, List.length_cons]
    exact Nat.le_succ_of_le (dropWhile_length_le _ _)
  · exact Nat.le_refl _

theorem readSpec_length_le (args : List Arg) (s : Bytes) : (readSpec args s).2.2.length ≤ s.length := by
  unfold readSpec
  exact Nat.le_trans (readPrecision_length_le _ _ _)
    (Nat.le_trans (readWidth_length_le _ _ _) (dropWhile_length_le _ _))

/-- Surplus arguments are ignored. A format that ends inside a directive shows what it has of it. -/
def sprintf (format : Bytes) (args : List Arg) : Bytes :=
  match format with
  | [] => []
  | 37 :: [] => [37]
  | 37 :: 37 :: rest => 37 :: sprintf rest args
  | 37 :: s =>
    match h : readSpec args s with
    | (spec, _, []) => spec.text
    | (spec, args', verb :: rest) =>
      have : rest.length < s.length := by
        have := readSpec_length_le args s
        rw [h] at this
        exact this
      let (out, args'') := writeVerb spec args' verb
      out ++ sprintf rest args''
  | b :: rest => b :: sprintf rest args
termination_by format.length
decreasing_by all_goals (simp_all; try omega)

end RecordMill.Format

import RecordMill.Program.Ty

/-!
# Operators, output modes and built-in variables

Each is a small closed set; `unknown` keeps a number that names no member.
-/

namespace RecordMill

inductive Cmp where
  | eq
  | lt
  | lte
  | gt
  | gte
  | unknown (code : Nat)
  deriving DecidableEq, Repr

namespace Cmp

def ofCode : Nat → Cmp
  | 0 => .eq
  | 1 => .lt
  | 2 => .lte
  | 3 => .gt
  | 4 => .gte
  | n => .unknown n

def name : Cmp → Bytes
  | .eq => "eq"
  | .lt => "lt"
  | .lte => "lte"
  | .gt => "gt"
  | .gte => "gte"
  | .unknown _ => "cmp?"

end Cmp

inductive Arith where
  | mul
  | add
  | minus
  | neg
  | mod
  | unknown (code : Nat)
  deriving DecidableEq, Repr

namespace Arith

def ofCode : Nat → Arith
  | 0 => .mul
  | 1 => .add
  | 2 => .minus
  | 3 => .neg
  | 4 => .mod
  | n => .unknown n

def arity : Arith → Nat
  | .neg => 1
  | _ => 2

def name : Arith → Bytes
  | .mul => "mul"
  | .add => "add"
  | .minus => "sub"
  | .neg => "neg"
  | .mod => "mod"
  | .unknown _ => "arith?"

end Arith

inductive Bitwise where
  | and
  | or
  | xor
  | leftShift
  | logicalRightShift
  | arithmeticRightShift
  | complement
  | unknown (code : Nat)
  deriving DecidableEq, Repr

namespace Bitwise

def ofCode : Nat → Bitwise
  | 0 => .and
  | 1 => .or
  | 2 => .xor
  | 3 => .leftShift
  | 4 => .logicalRightShift
  | 5 => .arithmeticRightShift
  | 6 => .complement
  | n => .unknown n

def arity : Bitwise → Nat
  | .complement => 1
  | _ => 2

def name : Bitwise → Bytes
  | .and => "and"
  | .or => "or"
  | .xor => "xor"
  | .leftShift => "shl"
  | .logicalRightShift => "lshr"
  | .arithmeticRightShift => "ashr"
  | .complement => "compl"
  | .unknown _ => "bitwise?"

end Bitwise

/-- Functions on floating point numbers. -/
inductive MathFn where
  | sin
  | cos
  | atan
  | atan2
  | log
  | log2
  | log10
  | sqrt
  | exp
  | unknown (code : Nat)
  deriving DecidableEq, Repr

namespace MathFn

def ofCode : Nat → MathFn
  | 0 => .sin
  | 1 => .cos
  | 2 => .atan
  | 3 => .atan2
  | 4 => .log
  | 5 => .log2
  | 6 => .log10
  | 7 => .sqrt
  | 8 => .exp
  | n => .unknown n

def arity : MathFn → Nat
  | .atan2 => 2
  | _ => 1

def name : MathFn → Bytes
  | .sin => "sin"
  | .cos => "cos"
  | .atan => "atan"
  | .atan2 => "atan2"
  | .log => "log"
  | .log2 => "log2"
  | .log10 => "log10"
  | .sqrt => "sqrt"
  | .exp => "exp"
  | .unknown _ => "math?"

end MathFn

/-- How an output redirection opens its destination. -/
inductive OutputMode where
  | truncate
  | append
  | command
  | unknown (code : Nat)
  deriving DecidableEq, Repr

namespace OutputMode

def ofCode : Nat → OutputMode
  | 0 => .truncate
  | 1 => .append
  | 2 => .command
  | n => .unknown n

def code : OutputMode → Nat
  | .truncate => 0
  | .append => 1
  | .command => 2
  | .unknown n => n

def name : OutputMode → Bytes
  | .truncate => ">"
  | .append => ">>"
  | .command => "|"
  | .unknown _ => "?"

end OutputMode

/-- A destination other than the standard output: the register of its path or command line. -/
structure Output where
  path : Reg
  mode : OutputMode
  deriving DecidableEq, Repr

inductive Variable where
  | argc
  | argv
  | fs
  | ofs
  | ors
  | nf
  | nr
  | filename
  | unknown (code : Nat)
  deriving DecidableEq, Repr

namespace Variable

def ofCode : Nat → Variable
  | 0 => .argc
  | 1 => .argv
  | 2 => .fs
  | 3 => .ofs
  | 4 => .ors
  | 5 => .nf
  | 6 => .nr
  | 7 => .filename
  | n => .unknown n

def code : Variable → Nat
  | .argc => 0
  | .argv => 1
  | .fs => 2
  | .ofs => 3
  | .ors => 4
  | .nf => 5
  | .nr => 6
  | .filename => 7
  | .unknown n => n

def name : Variable → Bytes
  | .argc => "ARGC"
  | .argv => "ARGV"
  | .fs => "FS"
  | .ofs => "OFS"
  | .ors => "ORS"
  | .nf => "NF"
  | .nr => "NR"
  | .filename => "FILENAME"
  | .unknown _ => "VAR?"

def ty : Variable → Ty
  | .argc | .nf | .nr => .int
  | .argv => .map .int .str
  | .fs | .ofs | .ors | .filename => .str
  | .unknown _ => .null

end Variable

end RecordMill

import RecordMill.Program.Basic

/-!
# Well-formed programs

A check lists every problem of a program, each with its place: the function and the index of the
instruction, or `-1` for the function as a whole.
-/

namespace RecordMill

inductive Problem where
  | noFunctions
  | mainOutOfRange (index : Int)
  | mainTakesParameters
  | globalType (r : Reg)
  | parameterType (r : Reg)
  | returnType (t : Ty)
  | duplicateLabel (l : Label)
  | wrongType (r : Reg) (allowed : List Ty)
  | mismatch (r first : Reg)
  | operandCount (got want : Nat)
  | notMap (r : Reg)
  | moveIterator (r : Reg)
  | undefinedLabel (l : Label)
  | iteratorNotBegun (r : Reg)
  | undefinedFunction (index : Int)
  | argumentType (position : Nat) (callee : Bytes) (got want : Ty)
  | resultType (callee : Bytes) (ret got : Ty)
  | returnMismatch (r : Reg) (ret : Ty)
  | unknownInstruction
  | emptyBody
  | openEnd
  deriving DecidableEq, Repr

namespace Problem

def message : Problem → Bytes
  | .noFunctions => "program has no functions"
  | .mainOutOfRange i => "main index " ++ Bytes.integer i ++ " out of range"
  | .mainTakesParameters => "main function takes no parameters"
  | .globalType r => "global " ++ r.text ++ " has invalid type"
  | .parameterType r => "parameter " ++ r.text ++ " has invalid type"
  | .returnType t => "invalid return type " ++ t.name
  | .duplicateLabel l => "duplicate label " ++ labelText l
  | .wrongType r allowed =>
    "register " ++ r.text ++ " has type " ++ r.ty.name ++ ", want one of ["
      ++ Bytes.join " " (allowed.map Ty.name) ++ "]"
  | .mismatch r first => "operand " ++ r.text ++ " does not match type of " ++ first.text
  | .operandCount got want => "got " ++ Bytes.decimal got ++ " operands, want " ++ Bytes.decimal want
  | .notMap r => "register " ++ r.text ++ " is not a map"
  | .moveIterator r => "cannot move iterator " ++ r.text
  | .undefinedLabel l => "undefined label " ++ labelText l
  | .iteratorNotBegun r => "iterator " ++ r.text ++ " used before iter_begin"
  | .undefinedFunction i => "call to undefined function f" ++ Bytes.integer i
  | .argumentType j callee got want =>
    "argument " ++ Bytes.decimal j ++ " of " ++ callee ++ ": got " ++ got.name ++ ", want " ++ want.name
  | .resultType callee ret got => callee ++ " returns " ++ ret.name ++ ", not " ++ got.name
  | .returnMismatch r ret => "returning " ++ r.text ++ " from function returning " ++ ret.name
  | .unknownInstruction => "unknown instruction <nil>"
  | .emptyBody => "empty function body"
  | .openEnd => "function does not end in ret or jmp"

end Problem

/-- A problem and its place. -/
structure Issue where
  func : Bytes
  index : Int
  problem : Problem
  deriving DecidableEq, Repr

namespace Issue

/-- Problems of a function without a name show no place. -/
def text (e : Issue) : Bytes :=
  if e.func.isEmpty then e.problem.message
  else if e.index < 0 then e.func ++ ": " ++ e.problem.message
  else e.func ++ "[" ++ Bytes.integer e.index ++ "]: " ++ e.problem.message

def summary : List Issue → Bytes
  | [] => "no errors"
  | [e] => e.text
  | e :: rest => e.text ++ " (and " ++ Bytes.decimal rest.length ++ " more errors)"

end Issue

namespace Check

/-! ## Operands -/

def want (r : Reg) (allowed : List Ty) : List Problem :=
  if r.ty ∈ allowed then [] else [.wrongType r allowed]

/-- All of `rs` have the type of `first`. -/
def same (first : Reg) (rs : List Reg) : List Problem :=
  rs.filterMap fun r => if r.ty = first.ty then none else some (.mismatch r first)

/-- The right number of operands, and then that they agree with the destination. -/
def operands (dst : Reg) (args : List Reg) (arity : Nat) : List Problem :=
  if args.length = arity then same dst args else [.operandCount args.length arity]

def withMap (m : Reg) (parts : List Problem) : List Problem :=
  if m.ty.isMap then parts else [.notMap m]

def scalars : List Ty := [.int, .float, .str]

def optional (r : Reg) (allowed : List Ty) : List Problem := if r.isNull then [] else want r allowed

def output : Option Output → List Problem
  | none => []
  | some o => want o.path [.str]

def begunBy (begun : List Reg) (it : Reg) : List Problem :=
  if it ∈ begun then [] else [.iteratorNotBegun it]

def target (labels : List Label) (l : Label) : List Problem :=
  if l ∈ labels then [] else [.undefinedLabel l]

def arguments (callee : Func) (args : List Reg) : List Problem :=
  ((args.zip callee.params).mapIdx fun j (a, p) =>
    if a.ty = p.ty then none else some (Problem.argumentType j callee.name a.ty p.ty)).filterMap id

def call (p : Program) (dst : Reg) (fn : Int) (args : List Reg) : List Problem :=
  match p.func? fn with
  | none => [.undefinedFunction fn]
  | some callee =>
    if args.length = callee.params.length then
      arguments callee args ++
        if dst.isNull ∨ dst.ty = callee.ret then [] else [.resultType callee.name callee.ret dst.ty]
    else [.operandCount args.length callee.params.length]

/-! ## Instructions -/

/-- What is wrong with an instruction of `f`, given the iterators begun before it. -/
def instr (p : Program) (f : Func) (begun : List Reg) : Instr → List Problem
  | .constInt d _ => want d [.int]
  | .constFloat d _ => want d [.float]
  | .constStr d _ => want d [.str]
  | .mov d s => same d [s] ++ if d.ty.isIter then [.moveIterator s] else []
  | .compare d _ l r => want d [.int] ++ want l scalars ++ same l [r]
  | .arith d op args => want d [.int, .float] ++ operands d args op.arity
  | .bit d op args => want d [.int] ++ operands d args op.arity
  | .math d fn args => want d [.float] ++ operands d args fn.arity
  | .div d l r | .pow d l r => want d [.float] ++ want l [.int, .float] ++ same l [r]
  | .convert d s => want d scalars ++ want s scalars
  | .concat d l r => want d [.str] ++ same d [l, r]
  | .strLen d s => want d [.int] ++ want s [.str]
  | .matchPattern d s pat => want d [.int] ++ want s [.str] ++ want pat [.str]
  | .split d s m pat =>
    want d [.int] ++ want s [.str] ++ want pat [.str] ++ want m [.map .int .str, .map .str .str]
  | .lookup d m k => withMap m (want k [m.ty.key] ++ want d [m.ty.val])
  | .store m k v => withMap m (want k [m.ty.key] ++ want v [m.ty.val])
  | .contains d m k => want d [.int] ++ withMap m (want k [m.ty.key])
  | .delete m k => withMap m (want k [m.ty.key])
  | .len d m => want d [.int] ++ withMap m []
  | .iterBegin d m => withMap m (want d [m.ty.iterOf])
  | .iterHasNext d it => want d [.int] ++ want it [.iter .int, .iter .str] ++ begunBy begun it
  | .iterGetNext d it => want it [.iter .int, .iter .str] ++ want d [it.ty.key] ++ begunBy begun it
  | .nextLine d => want d [.int]
  | .getColumn d i => want d [.str] ++ want i [.int]
  | .setColumn i s => want i [.int] ++ want s [.str]
  | .readFileLine d status path => want d [.str] ++ want status [.int] ++ want path [.str]
  | .loadVar d v => want d [v.ty]
  | .storeVar v s => want s [v.ty]
  | .print out args status =>
    optional status [.int] ++ output out ++ args.flatMap (want · [.str])
  | .printf out fmt args status =>
    optional status [.int] ++ output out ++ want fmt [.str] ++ args.flatMap (want · scalars)
  | .sprintf d fmt args => want d [.str] ++ want fmt [.str] ++ args.flatMap (want · scalars)
  | .label _ => []
  | .jmp l => target f.labels l
  | .jmpIf c l => want c [.int] ++ target f.labels l
  | .call d fn args => call p d fn args
  | .ret s => if s.isNull ∨ s.ty = f.ret then [] else [.returnMismatch s f.ret]
  | .missing => [.unknownInstruction]

def begins : Instr → List Reg
  | .iterBegin d _ => [d]
  | _ => []

/-! ## Functions -/

/-- The problems of a body from instruction `i` on. -/
def body (p : Program) (f : Func) : Nat → List Reg → List Instr → List Issue
  | _, _, [] => []
  | i, begun, x :: rest =>
    (instr p f begun x).map (⟨f.name, i, ·⟩) ++ body p f (i + 1) (begins x ++ begun) rest

def duplicates (f : Func) : Nat → List Label → List Instr → List Issue
  | _, _, [] => []
  | i, seen, .label l :: rest =>
    (if l ∈ seen then [⟨f.name, i, .duplicateLabel l⟩] else []) ++ duplicates f (i + 1) (l :: seen) rest
  | i, seen, _ :: rest => duplicates f (i + 1) seen rest

def ending : List Instr → List Problem
  | [] => [.emptyBody]
  | instrs => match instrs.getLast? with
    | some (.ret _) | some (.jmp _) => []
    | _ => [.openEnd]

def func (p : Program) (f : Func) : List Issue :=
  let whole (ps : List Problem) : List Issue := ps.map (⟨f.name, -1, ·⟩)
  whole (f.params.filterMap fun r => if r.ty.isStorable then none else some (.parameterType r))
    ++ whole (if f.ret.isIter || !f.ret.isValid then [.returnType f.ret] else [])
    ++ duplicates f 0 [] f.body
    ++ body p f 0 [] f.body
    ++ whole (ending f.body)

end Check

/-- Every problem of the program; a program without functions or entry is not looked into. -/
def Program.check (p : Program) : List Issue :=
  if p.funcs.isEmpty then [⟨[], -1, .noFunctions⟩]
  else match p.func? p.main with
    | none => [⟨[], -1, .mainOutOfRange p.main⟩]
    | some main =>
      (if main.params.isEmpty then [] else [⟨main.name, -1, .mainTakesParameters⟩])
        ++ (p.globals.filterMap fun g => if g.ty.isStorable then none else some ⟨[], -1, .globalType g⟩)
        ++ p.funcs.flatMap (Check.func p)

end RecordMill

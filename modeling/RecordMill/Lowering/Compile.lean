import RecordMill.Lowering.Native
import RecordMill.Program.Check

/-!
# Compiling a program

A program that passes the checks becomes a finalized module: the services are imported, every global is
a data object, and every function has a body.
-/

namespace RecordMill

open Machine (FuncId ModuleError Linkage)

inductive DeclarationCause where
  | nameTaken
  | refused (e : ModuleError)
  deriving DecidableEq, Repr

def DeclarationCause.message : DeclarationCause → Bytes
  | .nameTaken => "name already declared"
  | .refused e => e.message

inductive CompileError where
  | invalid (issues : List Issue)
  | declaration (name : Bytes) (cause : DeclarationCause)
  | lowering (func : Bytes) (index : Int) (e : LowerError)
  | definition (e : ModuleError)
  /-- No error of the program: lowering itself went wrong. -/
  | stopped (s : Stop)
  deriving DecidableEq, Repr

def CompileError.message? : CompileError → Option Bytes
  | .invalid issues => some ("validation error: " ++ Issue.summary issues)
  | .declaration name cause =>
    some ("compile error: codegen: error declaring " ++ name ++ " in module: " ++ cause.message)
  | .lowering func index e => some ("compile error: " ++ e.located func index)
  | .definition e => some ("compile error: " ++ e.message)
  | .stopped s => s.message?

/-- A program ready to run. -/
structure Executable where
  module : Machine.Module Service
  main : FuncId
  literals : List Bytes
  mainRet : Ty

/-- The listing of the module, if so wanted with a line for every imported service. -/
def Executable.listing? (x : Executable) (imports : Bool) : Option Bytes :=
  x.module.listing?.map fun l =>
    Bytes.join "\n" ((Bytes.cutAt 10 l).filter fun line => imports || !Bytes.startsWith line "import function ")

/-! ## Declarations -/

/-- A program whose functions and globals have their place in a module. -/
structure Declared where
  program : Program
  module : Machine.Module Service
  funcs : List FuncId
  addresses : List (Reg × UInt64)

namespace Declared

def orElse {α : Type} (name : Bytes) : Except ModuleError α → Except CompileError α
  | .ok a => .ok a
  | .error e => .error (.declaration name (.refused e))

def kindOf {α : Type} : Except Stop α → Except CompileError α
  | .ok a => .ok a
  | .error s => .error (.stopped s)

def empty : Machine.Module Service := { imports := Service.all.map fun s => (s.name, .function s) }

def importService (m : Machine.Module Service) (s : Service) : Except CompileError (Machine.Module Service) := do
  return (← orElse s.name (m.declareFunc s.name .imported s.sig)).2

def withServices : Except CompileError (Machine.Module Service) := Service.all.foldlM importService empty

def globalName (g : Reg) : Bytes := "global" ++ g.text

def declareGlobal (d : Declared) (g : Reg) : Except CompileError Declared := do
  let k ← kindOf g.ty.kind
  let (_, address, module) ← orElse (globalName g) (d.module.declareData (globalName g) k.words.toInt64)
  return { d with module, addresses := d.addresses ++ [(g, address)] }

def declareFunc (d : Declared) (f : Func × Nat) : Except CompileError Declared := do
  if (d.module.lookup? f.1.name).isSome then throw (.declaration f.1.name .nameTaken)
  let sig ← kindOf f.1.signature
  let linkage : Linkage := if d.program.main = f.2 then .exported else .local
  let (id, module) ← orElse f.1.name (d.module.declareFunc f.1.name linkage sig)
  return { d with module, funcs := d.funcs ++ [id] }

def ofProgram (p : Program) : Except CompileError Declared := do
  let module ← withServices
  let d ← p.globals.foldlM declareGlobal { program := p, module, funcs := [], addresses := [] }
  p.funcs.zipIdx.foldlM declareFunc d

/-! ## Definitions -/

def surroundings (d : Declared) (i : Nat) (f : Func) : Surroundings :=
  { program := d.program, module := d.module, funcs := d.funcs, addresses := d.addresses
    scope := Scope.ofFunc d.program f (d.program.main = i) }

def start (f : Func) (literals : List Bytes) : Except Stop Progress := do
  return { draft := { body := { name := f.name, sig := ← f.signature } }, literals }

def advance (s : Surroundings) (index : Int) (step : Native Unit) (p : Progress) : Except CompileError Progress :=
  match step s p with
  | (.ok (), p) => .ok p
  | (.error (.error e), _) => .error (.lowering s.scope.func.name index e)
  | (.error stop, _) => .error (.stopped stop)

def lowerAll (s : Surroundings) : Nat → List Instr → Progress → Except CompileError Progress
  | _, [], p => .ok p
  | i, instr :: rest, p => do lowerAll s (i + 1) rest (← advance s i (Lowering.lower instr) p)

def enter (s : Surroundings) (literals : List Bytes) : Except CompileError Progress := do
  advance s (-1) Native.enter (← kindOf (start s.scope.func literals))

/-- The body of a function, and the literals with those that it adds. -/
def lowerFunc (d : Declared) (i : Nat) (f : Func) (literals : List Bytes) : Except CompileError Progress := do
  let s := d.surroundings i f
  let p ← enter s literals
  let p ← lowerAll s 0 f.body p
  advance s (-1) Native.finish p

def defineFunc (d : Declared) (i : Nat) (f : Func) (literals : List Bytes) :
    Except CompileError (Declared × List Bytes) := do
  let p ← d.lowerFunc i f literals
  match d.funcs[i]? with
  | none => throw (.stopped .outOfRange)
  | some id => match d.module.defineFunc id p.draft.body with
    | .ok module => return ({ d with module }, p.literals)
    | .error e => throw (.definition e)

/-- Defines the functions in order; the first number counts those that were defined. -/
def defineAll (d : Declared) (literals : List Bytes) :
    Nat → List Func → Nat × Except CompileError (Declared × List Bytes)
  | i, [] => (i, .ok (d, literals))
  | i, f :: rest => match d.defineFunc i f literals with
    | .ok (d, literals) => defineAll d literals (i + 1) rest
    | .error e => (i, .error e)

def finish (d : Declared) (literals : List Bytes) : Except CompileError Executable :=
  match d.module.finalize, d.program.func? d.program.main, d.funcs[d.program.main.toNat]? with
  | .ok module, some f, some main => .ok { module, main, literals, mainRet := f.ret }
  | .error e, _, _ => .error (.definition e)
  | .ok _, _, _ => .error (.stopped .outOfRange)

end Declared

/-- What compiling comes to, and how many functions were lowered on the way. -/
structure Compilation where
  lowered : Nat
  result : Except CompileError Executable

def Program.compilation (p : Program) : Compilation :=
  match p.check with
  | [] => match Declared.ofProgram p with
    | .error e => ⟨0, .error e⟩
    | .ok d => match d.defineAll [] 0 p.funcs with
      | (n, .ok (d, literals)) => ⟨n, d.finish literals⟩
      | (n, .error e) => ⟨n, .error e⟩
  | issues => ⟨0, .error (.invalid issues)⟩

def Program.compile (p : Program) : Except CompileError Executable := p.compilation.result

end RecordMill

import RecordMill.Lowering.Operation
import RecordMill.Program.Basic

/-!
# Scopes

Every register that a function mentions has its own machine variable, and every label its own block.
Variable 0 is the context; then come the globals, as addresses, and the locals in order of appearance.
-/

namespace RecordMill

open Machine (Kind VarId BlockId Signature)

/-! ## Kinds -/

/-- Iterators have no kind: they are taken apart into a handle and a position. -/
def Ty.kind : Ty → Except Stop Kind
  | .null | .int | .map .. => .ok .i64
  | .float => .ok .f64
  | .str => .ok .i128
  | .iter _ => .error .iteratorKind
  | ty@(.other _) => .error (.unknownKind ty)

def Func.signature (f : Func) : Except Stop Signature := do
  let params ← f.params.mapM fun r => r.ty.kind
  let returns ← if f.ret = .null then pure [] else do pure [← f.ret.kind]
  return ⟨.i64 :: params, returns⟩

/-! ## Bindings -/

structure Binding where
  var : VarId
  /-- The variable holds the address of the register's words. -/
  isGlobal : Bool := false
  /-- The register only ever holds literals, which are not counted. -/
  isLiteral : Bool := false
  deriving DecidableEq, Repr

/-- The variables of an iterator. -/
structure Cursor where
  keys : VarId
  position : VarId
  deriving DecidableEq, Repr

structure Scope where
  func : Func
  isMain : Bool
  globals : List Reg
  bindings : List (Reg × Binding)
  cursors : List (Reg × Cursor)
  labels : List (Label × BlockId)

def Instr.isLiteral : Instr → Bool
  | .constStr .. => true
  | _ => false

/-- The register is a string that literals define, and nothing else. -/
def Func.holdsLiterals (f : Func) (r : Reg) : Bool :=
  let definitions := f.body.filter fun i => i.defs.contains r
  r.ty == .str && !f.params.contains r && !definitions.isEmpty && definitions.all Instr.isLiteral

namespace Scope

def contextVar : VarId := 0

def bindLocals (f : Func) : VarId → List Reg → List (Reg × Binding) × List (Reg × Cursor)
  | _, [] => ([], [])
  | n, r :: rs =>
    if r.ty.isIter then
      let (bindings, cursors) := bindLocals f (n + 2) rs
      (bindings, (r, ⟨n, n + 1⟩) :: cursors)
    else
      let (bindings, cursors) := bindLocals f (n + 1) rs
      ((r, { var := n, isLiteral := f.holdsLiterals r }) :: bindings, cursors)

def ofFunc (p : Program) (f : Func) (isMain : Bool) : Scope :=
  let globals := p.globals.zipIdx.map fun (g, i) => (g, { var := i + 1, isGlobal := true : Binding })
  let (locals, cursors) := bindLocals f (p.globals.length + 1) (f.locals p.globals)
  { func := f, isMain, globals := p.globals, cursors
    bindings := globals ++ locals
    labels := f.labels.zipIdx.map fun (l, i) => (l, i + 1) }

def binding? (s : Scope) (r : Reg) : Option Binding := s.bindings.lookup r

def cursor? (s : Scope) (r : Reg) : Option Cursor := s.cursors.lookup r

def locals (s : Scope) : List (Reg × Binding) := s.bindings.filter fun (_, b) => !b.isGlobal

/-- The last block of a label; a label without one stands for the entry. -/
def block (s : Scope) (l : Label) : BlockId := (s.labels.reverse.lookup l).getD 0

end Scope

end RecordMill

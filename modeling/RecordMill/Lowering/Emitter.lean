import RecordMill.Lowering.Operation
import RecordMill.Program.Instr

/-!
# Lowering an instruction

`lower` says which values an instruction reads, which operations it applies and what it binds, in which
order. What values are and how they are produced is left to an emitter.
-/

namespace RecordMill

/-- What lowering asks for. Values read from a register are borrowed, and binding takes a reference of
its own. -/
class Emitter (m : Type → Type) (V : outParam Type) where
  bind : Reg → V → m Unit
  value : Reg → m V
  context : m V
  constInt : Int64 → m V
  constFloat : Float → m V
  constStr : Bytes → m V
  apply : ValueOp → List V → m V
  perform : Service → List V → m Unit
  iterBegin : Reg → Reg → m Unit
  iterHasNext : Reg → Reg → m Unit
  iterGetNext : Reg → Reg → m Unit
  printAll : Reg → Option Output → List Reg → m Unit
  printf : Reg → Option Output → Reg → List Reg → m Unit
  sprintf : Reg → Reg → List Reg → m Unit
  mov : Ty → Nat → Nat → m Unit
  /-- Comes right after a built-in variable was bound to a register. -/
  loaded : Reg → m Unit
  drop : Ty → V → m Unit
  label : Label → m Unit
  jump : Label → m Unit
  jumpIf : Reg → Label → m Unit
  call : Reg → Int → List Reg → m Unit
  ret : Reg → m Unit

namespace Lowering

variable {m : Type → Type} {V : Type} [Monad m] [MonadExceptOf Stop m] [Emitter m V]

def fail {α : Type} (e : LowerError) : m α := throw (Stop.error e)

/-- The number of operands must be that of the operation. -/
def checkArity (op : ValueOp) (n : Nat) : Option LowerError :=
  match op.arity? with
  | some want => if want = n then none else some (.arity op want n)
  | none => none

/-! ## Services -/

def callService (s : Service) (args : List V) : m V := do
  let c ← Emitter.context
  Emitter.apply (.service s) (c :: args)

def performService (s : Service) (args : List V) : m Unit := do
  let c ← Emitter.context
  Emitter.perform s (c :: args)

/-- Binds a value that is owned already, so that the register ends up its only new owner. -/
def bindOwned (r : Reg) (v : V) : m Unit := do
  Emitter.bind r v
  Emitter.drop r.ty v

def bindResult (r : Reg) (s : Service) (args : List V) : m Unit := do
  let v ← callService s args
  if r.ty.isHeap then bindOwned r v else Emitter.bind r v

def bindService (r : Reg) (s : Service) (args : List Reg) : m Unit := do
  bindResult r s (← args.mapM Emitter.value)

def performOn (s : Service) (args : List Reg) : m Unit := do
  performService s (← args.mapM Emitter.value)

def mapService (r : Reg) (what : MapService) : m Service :=
  match r.ty with
  | .map k v => return .map k v what
  | _ => throw Stop.outOfRange

def bindMapService (dst map : Reg) (what : MapService) (rest : List Reg) : m Unit := do
  bindService dst (← mapService map what) (map :: rest)

/-! ## Operations -/

def bindOp (dst : Reg) (op : ValueOp) (args : List Reg) : m Unit := do
  Emitter.bind dst (← Emitter.apply op (← args.mapM Emitter.value))

def toFloats : List Reg → List V → m (List V)
  | r :: rs, v :: vs => do
    let v ← if r.ty = .int then Emitter.apply .intToFloat [v] else pure v
    return v :: (← toFloats rs vs)
  | _, vs => return vs

def bindFloatOp (dst : Reg) (op : ValueOp) (args : List Reg) : m Unit := do
  let vs ← args.mapM Emitter.value
  Emitter.bind dst (← Emitter.apply op (← toFloats args vs))

/-- Strings are compared by their order, which is then compared with 0. -/
def compare (dst : Reg) (op : Cmp) (l r : Reg) : m Unit := do
  if l.ty = .str then
    let order ← callService .compareStr (← [l, r].mapM Emitter.value)
    let zero ← Emitter.constInt 0
    Emitter.bind dst (← Emitter.apply (.compare false op) [order, zero])
  else bindOp dst (.compare (l.ty = .float) op) [l, r]

def convert (dst src : Reg) : m Unit := do
  let v ← Emitter.value src
  if src.ty = dst.ty then Emitter.bind dst v
  else match src.ty, dst.ty with
    | .int, .float => Emitter.bind dst (← Emitter.apply .intToFloat [v])
    | .float, .int => Emitter.bind dst (← Emitter.apply .floatToInt [v])
    | .int, .str => bindResult dst .intToStr [v]
    | .float, .str => bindResult dst .floatToStr [v]
    | .str, .int => bindResult dst .strToInt [v]
    | .str, .float => bindResult dst .strToFloat [v]
    | a, b => fail (.noConversion a b)

/-! ## Variables -/

def loadService : Ty → Service
  | .str => .loadStr
  | .map .. => .loadMap
  | _ => .loadInt

def storeService : Ty → Service
  | .str => .storeStr
  | .map .. => .storeMap
  | _ => .storeInt

def loadVar (dst : Reg) (var : Variable) : m Unit := do
  let id ← Emitter.constInt (Int64.ofNat var.code)
  Emitter.bind dst (← callService (loadService dst.ty) [id])
  Emitter.loaded dst

def storeVar (var : Variable) (src : Reg) : m Unit := do
  let v ← Emitter.value src
  let id ← Emitter.constInt (Int64.ofNat var.code)
  performService (storeService src.ty) [id, v]

/-! ## Instructions -/

def lower : Instr → m Unit
  | .constInt dst n => do Emitter.bind dst (← Emitter.constInt n)
  | .constFloat dst f => do Emitter.bind dst (← Emitter.constFloat f)
  | .constStr dst s => do Emitter.bind dst (← Emitter.constStr s)
  | .mov dst src => Emitter.mov dst.ty dst.id src.id
  | .compare dst op l r => compare dst op l r
  | .arith dst op args => bindOp dst (.arith (dst.ty = .float) op) args
  | .bit dst op args => bindOp dst (.bit op) args
  | .math dst fn args => bindOp dst (.math fn) args
  | .div dst l r => bindFloatOp dst .div [l, r]
  | .pow dst l r => bindFloatOp dst .pow [l, r]
  | .convert dst src => convert dst src
  | .concat dst l r => bindService dst .concat [l, r]
  | .strLen dst src => bindService dst .strLen [src]
  | .matchPattern dst src pat => bindService dst .matchPattern [src, pat]
  | .split dst src map pat =>
    bindService dst (.split (if map.ty = .map .str .str then .str else .int)) [src, map, pat]
  | .lookup dst map key => bindMapService dst map .lookup [key]
  | .store map key val => do
    let vs ← [map, key, val].mapM Emitter.value
    performService (← mapService map .insert) vs
  | .contains dst map key => bindMapService dst map .contains [key]
  | .delete map key => do
    let vs ← [map, key].mapM Emitter.value
    performService (← mapService map .delete) vs
  | .len dst map => bindMapService dst map .len []
  | .iterBegin dst map => Emitter.iterBegin dst map
  | .iterHasNext dst iter => Emitter.iterHasNext dst iter
  | .iterGetNext dst iter => Emitter.iterGetNext dst iter
  | .nextLine dst => bindResult dst .nextLine []
  | .getColumn dst index => bindService dst .getColumn [index]
  | .setColumn index src => performOn .setColumn [index, src]
  | .readFileLine dst status path => do
    bindService dst .readFileLine [path]
    bindResult status .lineStatus []
  | .loadVar dst var => loadVar dst var
  | .storeVar var src => storeVar var src
  | .print out args status => Emitter.printAll status out args
  | .printf out format args status => Emitter.printf status out format args
  | .sprintf dst format args => Emitter.sprintf dst format args
  | .label l => Emitter.label l
  | .jmp l => Emitter.jump l
  | .jmpIf cond l => Emitter.jumpIf cond l
  | .call dst fn args => Emitter.call dst fn args
  | .ret src => Emitter.ret src
  | .missing => fail .missingInstr

end Lowering

end RecordMill

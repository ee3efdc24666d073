import RecordMill.Heap.Packed
import RecordMill.Lowering.Emitter
import RecordMill.Lowering.Scope
import RecordMill.Machine.Module

/-!
# Machine code for a function

An emitter that builds a body. Every register owns what it holds: binding takes a reference before it
gives the old one back, and at every return all that the function holds is given back.
-/

namespace RecordMill

open Machine (Kind Value RefId FuncId Build FuncDraft IntCond FloatCond)

/-- What does not change while a function is lowered. -/
structure Surroundings where
  program : Program
  module : Machine.Module Service
  /-- The functions of the program in the module. -/
  funcs : List FuncId
  addresses : List (Reg × UInt64)
  scope : Scope

structure Progress where
  draft : FuncDraft
  literals : List Bytes := []

abbrev Native := ReaderT Surroundings (ExceptT Stop (StateM Progress))

namespace Native

def build {α : Type} (b : Build α) : Native α := fun _ ⟨draft, literals⟩ =>
  match b draft with
  | (.ok a, draft) => (.ok a, ⟨draft, literals⟩)
  | (.error f, draft) => (.error (.misuse f), ⟨draft, literals⟩)

def scope : Native Scope := return (← read).scope

def kindOf (ty : Ty) : Native Kind :=
  match ty.kind with
  | .ok k => return k
  | .error e => throw e

def fail {α : Type} (r : Reg) (p : BindingProblem) : Native α := throw (.error (.binding r p))

/-! ## Services -/

def service (s : Service) (args : List Value) : Native (List Value) := do
  let module := (← read).module
  match module.lookup? s.name with
  | none => throw .outOfRange
  | some id =>
    let ref ← build (module.importInto id)
    build (Build.call ref args)

def ask (s : Service) (args : List Value) : Native Value := do
  match ← service s args with
  | [v] => return v
  | _ => throw .outOfRange

def tell (s : Service) (args : List Value) : Native Unit := do
  let _ ← service s args

def context : Native Value := build (Build.useVar Scope.contextVar)

/-! ## Constants -/

def constInt (n : Int64) : Native Value := build (Build.iconst .i64 n)

def constWord (w : UInt64) : Native Value := constInt w.toInt64

def constFloat (f : Float) : Native Value := build (Build.fconst f.toBits)

def packed (s : Packed) : Native Value := do
  let lo ← constWord s.lo
  let hi ← constWord s.hi
  build (Build.iconcat lo hi)

/-- The place of a literal in the table, which it joins when it is new. -/
def literalIndex (s : Bytes) : Native Nat := do
  let literals := (← get).literals
  match literals.idxOf? s with
  | some i => return i
  | none =>
    modify fun p => { p with literals := p.literals ++ [s] }
    return literals.length

/-- Short strings are held in place and need no table. -/
def constStr (s : Bytes) : Native Value := do
  match Packed.inline? s with
  | some p => packed p
  | none => packed (Packed.literal (← literalIndex s) s)

/-! ## References -/

def ref (ty : Ty) (v : Value) : Native Unit := do
  match ty with
  | .str => tell .refStr [← context, v]
  | .map .. => tell .ref [← context, v]
  | _ => return

def drop (ty : Ty) (v : Value) : Native Unit := do
  match ty with
  | .str => tell .dropStr [← context, v]
  | .map .. => tell .drop [← context, v]
  | _ => return

/-- The zero value of a type; for a map it is a new one. -/
def zero (ty : Ty) : Native Value := do
  match ty with
  | .float => constFloat 0
  | .str => packed .empty
  | .map k v => ask (.map k v .alloc) [← context]
  | _ => constInt 0

/-! ## Registers -/

def loadFrom (ty : Ty) (pointer : Value) : Native Value := do
  build (Build.load (← kindOf ty) pointer 0)

/-- The new value is counted up first: it may be the one that is replaced. -/
def bindCounted (ty : Ty) (b : Binding) (v : Value) : Native Unit := do
  ref ty v
  if b.isGlobal then
    let pointer ← build (Build.useVar b.var)
    drop ty (← loadFrom ty pointer)
    build (Build.store v pointer 0)
  else
    drop ty (← build (Build.useVar b.var))
    build (Build.defVar b.var v)

def bindPlain (b : Binding) (v : Value) : Native Unit := do
  if b.isGlobal then build (Build.store v (← build (Build.useVar b.var)) 0)
  else build (Build.defVar b.var v)

def bind (r : Reg) (v : Value) : Native Unit := do
  if r.isNull then return
  else if r.ty.isIter then fail r .storeIterator
  else match (← scope).binding? r with
    | none => fail r .unbound
    | some b =>
      if r.ty.isHeap && !b.isLiteral then bindCounted r.ty b v
      else if b.isLiteral then build (Build.defVar b.var v)
      else bindPlain b v

def value (r : Reg) : Native Value := do
  if r.isNull then constInt 0
  else if r.ty.isIter then fail r .loadIterator
  else match (← scope).binding? r with
    | none => fail r .loadUnbound
    | some b =>
      let v ← build (Build.useVar b.var)
      if b.isGlobal then loadFrom r.ty v else return v

def bindOwned (r : Reg) (v : Value) : Native Unit := do
  bind r v
  drop r.ty v

def mov (ty : Ty) (dst src : Nat) : Native Unit := do bind ⟨dst, ty⟩ (← value ⟨src, ty⟩)

/-- Gives back the reference that came with the value of a variable. -/
def loaded (dst : Reg) : Native Unit := do
  if dst.ty.isHeap then drop dst.ty (← value dst)

/-! ## Operations -/

def intCond : Cmp → IntCond
  | .lt => .lt
  | .lte => .le
  | .gt => .gt
  | .gte => .ge
  | .eq | .unknown _ => .eq

def floatCond : Cmp → FloatCond
  | .lt => .lt
  | .lte => .le
  | .gt => .gt
  | .gte => .ge
  | .eq | .unknown _ => .eq

def intOp? : Arith → Option Machine.IntOp
  | .add => some .add
  | .minus => some .sub
  | .mul => some .mul
  | .mod => some .rem
  | .neg | .unknown _ => none

def floatOp? : Arith → Option Machine.FloatOp
  | .add => some .add
  | .minus => some .sub
  | .mul => some .mul
  | .neg | .mod | .unknown _ => none

def bitOp? : Bitwise → Option (Value → Value → Build Value)
  | .and => some (Build.int .and)
  | .or => some (Build.int .or)
  | .xor => some (Build.int .xor)
  | .leftShift => some (Build.shift .left)
  | .logicalRightShift => some (Build.shift .right)
  | .arithmeticRightShift => some (Build.shift .signedRight)
  | .complement | .unknown _ => none

def applyMath (fn : MathFn) (args : List Value) : Native Value :=
  match fn, args with
  | .sqrt, [x] => build (Build.floatUnary .sqrt x)
  | fn, args => match Service.ofMath? fn with
    | some s => ask s args
    | none => throw (.error (.unsupported (.math fn)))

def applyArith (float : Bool) (op : Arith) (args : List Value) : Native Value :=
  match float, op, args with
  | true, .neg, [x] => build (Build.floatUnary .neg x)
  | false, .neg, [x] => build (Build.intUnary .neg x)
  | true, .mod, [x, y] => ask .remainder [x, y]
  | true, op, [x, y] => match floatOp? op with
    | some f => build (Build.float f x y)
    | none => throw (.error (.unsupported (.arith true op)))
  | false, op, [x, y] => match intOp? op with
    | some f => build (Build.int f x y)
    | none => throw (.error (.unsupported (.arith false op)))
  | float, op, _ => throw (.error (.unsupported (.arith float op)))

def applyBit (op : Bitwise) (args : List Value) : Native Value :=
  match op, args with
  | .complement, [x] => build (Build.intUnary .not x)
  | op, [x, y] => match bitOp? op with
    | some f => build (f x y)
    | none => throw (.error (.unsupported (.bit op)))
  | op, _ => throw (.error (.unsupported (.bit op)))

def applyFitting (op : ValueOp) (args : List Value) : Native Value :=
  match op, args with
  | .compare true c, [x, y] => do build (Build.bint .i64 (← build (Build.fcmp (floatCond c) x y)))
  | .compare false c, [x, y] => do build (Build.bint .i64 (← build (Build.icmp (intCond c) x y)))
  | .arith float op, args => applyArith float op args
  | .bit op, args => applyBit op args
  | .math fn, args => applyMath fn args
  | .div, [x, y] => build (Build.float .div x y)
  | .pow, [x, y] => ask .power [x, y]
  | .floatToInt, [x] => build (Build.toInt .i64 x)
  | .intToFloat, [x] => build (Build.ofInt .f64 x)
  | .service s, args => ask s args
  | .unknown a, _ => throw (.noService a)
  | op, _ => throw (.error (.unsupported op))

def apply (op : ValueOp) (args : List Value) : Native Value :=
  match Lowering.checkArity op args.length with
  | some e => throw (.error e)
  | none => applyFitting op args

/-! ## Iterators -/

def cursor (r : Reg) : Native (Cursor × Key) := do
  match (← scope).cursor? r, r.ty with
  | some c, .iter k => return (c, k)
  | _, _ => fail r .unboundIterator

def dropKeys (c : Cursor) : Native Unit := do
  tell .drop [← context, ← build (Build.useVar c.keys)]

def iterBegin (dst map : Reg) : Native Unit := do
  let (c, _) ← cursor dst
  let m ← value map
  let ctx ← context
  let keys ← ask (← Lowering.mapService map .iterBegin) [ctx, m]
  dropKeys c
  build (Build.defVar c.keys keys)
  build (Build.defVar c.position (← constInt 0))

def iterHasNext (dst iter : Reg) : Native Unit := do
  let (c, k) ← cursor iter
  let n ← ask (.iterLen k) [← context, ← build (Build.useVar c.keys)]
  let pos ← build (Build.useVar c.position)
  bind dst (← build (Build.bint .i64 (← build (Build.icmp .lt pos n))))

def iterGetNext (dst iter : Reg) : Native Unit := do
  let (c, k) ← cursor iter
  let pos ← build (Build.useVar c.position)
  let key ← ask (.iterGet k) [← context, ← build (Build.useVar c.keys), pos]
  let one ← constInt 1
  build (Build.defVar c.position (← build (Build.int .add pos one)))
  bindOwned dst key

/-! ## Printing -/

def output : Option Output → Native (Value × Value)
  | none => do
    let mode ← build (Build.iconst .i32 (-1))
    return (mode, ← constStr [])
  | some o => do
    let path ← value o.path
    return (← build (Build.iconst .i32 (Int64.ofNat o.mode.code)), path)

def argumentBlock (words : Nat) : Native Value := do
  build (Build.stackAddr .i64 (← build (Build.createSlot (max 1 words).toInt64)) 0)

def spillStrings (base : Value) : Nat → List Reg → Native Unit
  | _, [] => return
  | off, a :: rest => do
    let v ← value a
    build (Build.store v base (Int32.ofNat off))
    spillStrings base (off + 16) rest

def argCode : Ty → Int64
  | .float => 1
  | .str => 2
  | _ => 0

def spillArgs (base : Value) : Nat → List Reg → Native Unit
  | _, [] => return
  | off, a :: rest => do
    let v ← value a
    build (Build.store (← constInt (argCode a.ty)) base (Int32.ofNat off))
    build (Build.store v base (Int32.ofNat (off + 8)))
    spillArgs base (off + 24) rest

def formatBlock (args : List Reg) : Native Value := do
  let base ← argumentBlock (3 * args.length)
  spillArgs base 0 args
  return base

def count {α : Type} (xs : List α) : Native Value := constInt (Int64.ofNat xs.length)

def printAll (status : Reg) (out : Option Output) (args : List Reg) : Native Unit := do
  let (mode, path) ← output out
  let base ← argumentBlock (2 * args.length)
  spillStrings base 0 args
  bind status (← ask .printAll [← context, mode, path, base, ← count args])

def printf (status : Reg) (out : Option Output) (format : Reg) (args : List Reg) : Native Unit := do
  let (mode, path) ← output out
  let f ← value format
  let base ← formatBlock args
  bind status (← ask .printf [← context, mode, path, f, base, ← count args])

def sprintf (dst format : Reg) (args : List Reg) : Native Unit := do
  let f ← value format
  let base ← formatBlock args
  bindOwned dst (← ask .sprintf [← context, f, base, ← count args])

/-! ## Control -/

def unreachable : Native Unit := do build (Build.switchTo (← build Build.createBlock))

def label (l : Label) : Native Unit := do
  let b := (← scope).block l
  if !(← build Build.isTerminated) then build (Build.jump b [])
  build (Build.switchTo b)

def jump (l : Label) : Native Unit := do
  build (Build.jump ((← scope).block l) [])
  unreachable

def jumpIf (cond : Reg) (l : Label) : Native Unit := do
  let c ← value cond
  let next ← build Build.createBlock
  build (Build.brif c ((← scope).block l) next)
  build (Build.switchTo next)

def call (dst : Reg) (fn : Int) (args : List Reg) : Native Unit := do
  let s ← read
  match s.program.func? fn, s.funcs[fn.toNat]? with
  | some callee, some id =>
    let ctx ← context
    let vs ← args.mapM value
    let ref ← build (s.module.importInto id)
    match ← build (Build.call ref (ctx :: vs)) with
    | v :: _ =>
      if callee.ret = .null then return
      else if dst.isNull then drop callee.ret v
      else bindOwned dst v
    | [] => if callee.ret = .null then return else throw .outOfRange
  | _, _ => throw .outOfRange

/-- Gives back a global and leaves zero in its place. -/
def releaseGlobal (g : Reg) : Native Unit := do
  if g.ty.isHeap then
    match (← scope).binding? g with
    | none => throw .outOfRange
    | some b =>
      let pointer ← build (Build.useVar b.var)
      drop g.ty (← loadFrom g.ty pointer)
      let nothing ← if g.ty = .str then packed .empty else constInt 0
      build (Build.store nothing pointer 0)

/-- Gives back all that the function holds: its locals, its iterators and, in the main function, the globals. -/
def release : Native Unit := do
  let s ← scope
  s.locals.forM fun (r, b) => do
    if r.ty.isHeap && !b.isLiteral then drop r.ty (← build (Build.useVar b.var))
  s.cursors.forM fun (_, c) => dropKeys c
  if s.isMain then s.globals.forM releaseGlobal

/-- A return without a register returns the zero value. -/
def ret (src : Reg) : Native Unit := do
  let ty := (← scope).func.ret
  let results ←
    if ty = .null then pure []
    else if src.isNull then do pure [← zero ty]
    else do
      let v ← value src
      ref ty v
      pure [v]
  release
  build (Build.ret results)
  unreachable

instance : Emitter Native Value where
  bind := bind
  value := value
  context := context
  constInt := constInt
  constFloat := constFloat
  constStr := constStr
  apply := apply
  perform := tell
  iterBegin := iterBegin
  iterHasNext := iterHasNext
  iterGetNext := iterGetNext
  printAll := printAll
  printf := printf
  sprintf := sprintf
  mov := mov
  loaded := loaded
  drop := drop
  label := label
  jump := jump
  jumpIf := jumpIf
  call := call
  ret := ret

/-! ## Whole functions -/

def declareLocal (r : Reg) : Native Unit := do
  let s ← scope
  match s.cursor? r, s.binding? r with
  | some c, _ =>
    build (Build.declareVar c.keys .i64)
    build (Build.declareVar c.position .i64)
  | none, some b => build (Build.declareVar b.var (← kindOf r.ty))
  | none, none => return

def declareGlobal (g : Reg) : Native Unit := do
  let s ← read
  match s.scope.binding? g with
  | none => return
  | some b =>
    build (Build.declareVar b.var .i64)
    build (Build.defVar b.var (← constWord ((s.addresses.lookup g).getD 0)))

def bindParams : List Reg → List Value → Native Unit
  | r :: rs, v :: vs => do
    bind r v
    bindParams rs vs
  | _, _ => return

/-- The entry block: it takes the parameters and makes the maps. -/
def enter : Native Unit := do
  let s ← scope
  let entry ← build Build.createBlock
  build (Build.functionParams entry)
  build (Build.switchTo entry)
  let params ← build (Build.blockParams entry)
  build (Build.declareVar Scope.contextVar .i64)
  match params with
  | [] => throw .outOfRange
  | ctx :: params =>
    build (Build.defVar Scope.contextVar ctx)
    s.globals.forM declareGlobal
    (s.func.locals s.globals).forM declareLocal
    s.labels.forM fun _ => do let _ ← build Build.createBlock
    bindParams s.func.params params
    s.locals.forM fun (r, b) => do
      if r.ty.isMap && !s.func.params.contains r then build (Build.defVar b.var (← zero r.ty))
    if s.isMain then
      s.globals.forM fun g => do
        match g.ty.isMap, s.binding? g with
        | true, some b =>
          let m ← zero g.ty
          build (Build.store m (← build (Build.useVar b.var)) 0)
        | _, _ => return

def finish : Native Unit := do
  if ← build Build.isTerminated then return
  release
  let ty := (← scope).func.ret
  if ty = .null then build (Build.ret [])
  else if ty.isMap then build (Build.ret [← constInt 0])
  else build (Build.ret [← zero ty])

end Native

end RecordMill

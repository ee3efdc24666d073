import RecordMill.Lowering.Native
import RecordMill.Proofs.Machine.Building
import RecordMill.Proofs.Plain.Interpreter
import RecordMill.Service.Meaning

/-!
# Performing instructions at once

An emitter that builds nothing: it does at once what machine code would do later. Values are words,
registers are places for words, and there are neither variables nor blocks nor a memory. Counting and
packing are as in machine code, step by step.
-/

namespace RecordMill

open Machine (Trap)

namespace Direct

/-- Why an instruction is not done. -/
inductive Halt where
  | stop (s : Stop)
  | trap (t : Trap)

/-- Where the run goes after an instruction. -/
inductive Flow where
  | on
  | goto (l : Label)
  | call (dst : Reg) (fn : Int) (args : List (List UInt64))
  | back (results : List UInt64)

structure Store where
  context : Context
  globals : Reg → List UInt64
  locals : Reg → List UInt64
  keys : Reg → UInt64
  /-- The index of the next key of an iterator. -/
  position : Reg → UInt64
  flow : Flow := .on

/-- What does not change while a function runs. -/
structure Setting where
  program : Program
  scope : Scope
  literals : List Bytes

end Direct

open Direct in
abbrev Direct := ReaderT Setting (ExceptT Direct.Halt (StateM Direct.Store))

namespace Direct

def trap {α : Type} (t : Trap) : Direct α := fun _ δ => (.error (.trap t), δ)

def stop {α : Type} (s : Stop) : Direct α := fun _ δ => (.error (.stop s), δ)

instance : MonadExceptOf Stop Direct where
  throw s := stop s
  tryCatch x handle := fun e δ => match x e δ with
    | (.error (.stop s), δ) => handle s e δ
    | r => r

def fail {α : Type} (r : Reg) (p : BindingProblem) : Direct α := stop (.error (.binding r p))

def word (ws : List UInt64) : UInt64 := ws.headD 0

def packed : List UInt64 → Packed
  | [lo, hi] => ⟨lo, hi⟩
  | _ => .empty

/-! ## Services -/

def act {α : Type} (a : Act α) : Direct α := fun _ δ =>
  match a δ.context with
  | (.ok r, context) => (.ok r, { δ with context })
  | (.error f, context) => (.error (.trap (Service.trapOf f)), { δ with context })

def service (s : Service) (args : List (List UInt64)) : Direct (List UInt64) := fun _ δ =>
  match (Service.perform s args.flatten).run.run ⟨⟨#[], 0, 0, 0⟩, δ.context⟩ with
  | (.ok rs, out) => (.ok rs, { δ with context := out.host })
  | (.error t, out) => (.error (.trap t), { δ with context := out.host })

def tell (s : Service) (args : List (List UInt64)) : Direct Unit := do
  let _ ← service s args

def contextWord : List UInt64 := [0]

/-! ## Constants and references -/

def ofPacked (p : Packed) : List UInt64 := [p.lo, p.hi]

def constStr (s : Bytes) : Direct (List UInt64) := do
  match Packed.inline? s with
  | some p => return ofPacked p
  | none => match (← read).literals.idxOf? s with
    | some i => return ofPacked (Packed.literal i s)
    | none => stop .outOfRange

def ref (ty : Ty) (ws : List UInt64) : Direct Unit :=
  match ty with
  | .str => tell .refStr [contextWord, ws]
  | .map .. => tell .ref [contextWord, ws]
  | _ => pure ()

def drop (ty : Ty) (ws : List UInt64) : Direct Unit :=
  match ty with
  | .str => tell .dropStr [contextWord, ws]
  | .map .. => tell .drop [contextWord, ws]
  | _ => pure ()

def zero (ty : Ty) : Direct (List UInt64) :=
  match ty with
  | .float => pure [(0 : Float).toBits]
  | .str => pure (ofPacked .empty)
  | .map k v => service (.map k v .alloc) [contextWord]
  | _ => pure [0]

/-! ## Registers -/

def read (r : Reg) (b : Binding) : Direct (List UInt64) := do
  let δ ← get
  return if b.isGlobal then δ.globals r else δ.locals r

def write (r : Reg) (b : Binding) (ws : List UInt64) : Direct Unit :=
  modify fun δ =>
    if b.isGlobal then { δ with globals := fun u => if u = r then ws else δ.globals u }
    else { δ with locals := fun u => if u = r then ws else δ.locals u }

def bind (r : Reg) (ws : List UInt64) : Direct Unit := do
  if r.isNull then return
  else if r.ty.isIter then fail r .storeIterator
  else match (← MonadReader.read).scope.binding? r with
    | none => fail r .unbound
    | some b =>
      if r.ty.isHeap && !b.isLiteral then
        ref r.ty ws
        drop r.ty (← read r b)
      write r b ws

def value (r : Reg) : Direct (List UInt64) := do
  if r.isNull then return [0]
  else if r.ty.isIter then fail r .loadIterator
  else match (← MonadReader.read).scope.binding? r with
    | none => fail r .loadUnbound
    | some b => read r b

def bindOwned (r : Reg) (ws : List UInt64) : Direct Unit := do
  bind r ws
  drop r.ty ws

def mov (ty : Ty) (dst src : Nat) : Direct Unit := do bind ⟨dst, ty⟩ (← value ⟨src, ty⟩)

def loaded (dst : Reg) : Direct Unit := do
  if dst.ty.isHeap then drop dst.ty (← value dst)

/-! ## Operations -/

def unsupported {α : Type} (op : ValueOp) : Direct α := stop (.error (.unsupported op))

def truth : Option Bool → Direct (List UInt64)
  | some b => pure [Machine.Word.ofBool b &&& 1]
  | none => trap Machine.noCondition

def applyMath (fn : MathFn) (args : List (List UInt64)) : Direct (List UInt64) :=
  match fn, args with
  | .sqrt, [x] => pure [Machine.Word.floatUnary .sqrt (word x)]
  | fn, args => match Service.ofMath? fn with
    | some s => service s args
    | none => unsupported (.math fn)

def int (op : Machine.IntOp) (x y : UInt64) : Direct (List UInt64) :=
  match Machine.Word.int op x y with
  | .ok w => pure [w]
  | .error t => trap t

def applyArith (float : Bool) (op : Arith) (args : List (List UInt64)) : Direct (List UInt64) :=
  match float, op, args with
  | true, .neg, [x] => pure [Machine.Word.floatUnary .neg (word x)]
  | false, .neg, [x] => pure [Machine.Word.intUnary .neg (word x)]
  | true, .mod, [x, y] => service .remainder [x, y]
  | true, op, [x, y] => match Native.floatOp? op with
    | some f => pure [Machine.Word.float f (word x) (word y)]
    | none => unsupported (.arith true op)
  | false, op, [x, y] => match Native.intOp? op with
    | some f => int f (word x) (word y)
    | none => unsupported (.arith false op)
  | float, op, _ => unsupported (.arith float op)

def applyBit (op : Bitwise) (args : List (List UInt64)) : Direct (List UInt64) :=
  match op, args with
  | .complement, [x] => pure [Machine.Word.intUnary .not (word x)]
  | .and, [x, y] => int .and (word x) (word y)
  | .or, [x, y] => int .or (word x) (word y)
  | .xor, [x, y] => int .xor (word x) (word y)
  | .leftShift, [x, y] => pure [Machine.Word.shift .left (word x) (word y)]
  | .logicalRightShift, [x, y] => pure [Machine.Word.shift .right (word x) (word y)]
  | .arithmeticRightShift, [x, y] => pure [Machine.Word.shift .signedRight (word x) (word y)]
  | op, _ => unsupported (.bit op)

def applyFitting (op : ValueOp) (args : List (List UInt64)) : Direct (List UInt64) :=
  match op, args with
  | .compare true c, [x, y] => truth ((Native.floatCond c).holds? (Float.ofBits (word x)) (Float.ofBits (word y)))
  | .compare false c, [x, y] => truth ((Native.intCond c).holds? (word x).toInt64 (word y).toInt64)
  | .arith float op, args => applyArith float op args
  | .bit op, args => applyBit op args
  | .math fn, args => applyMath fn args
  | .div, [x, y] => pure [Machine.Word.float .div (word x) (word y)]
  | .pow, [x, y] => service .power [x, y]
  | .floatToInt, [x] => pure [Machine.Word.toInt64 (word x)]
  | .intToFloat, [x] => pure [Machine.Word.ofInt64 (word x)]
  | .service s, args => service s args
  | .unknown a, _ => stop (.noService a)
  | op, _ => unsupported op

def apply (op : ValueOp) (args : List (List UInt64)) : Direct (List UInt64) :=
  match Lowering.checkArity op args.length with
  | some e => stop (.error e)
  | none => applyFitting op args

/-! ## Iterators -/

def iterKey (r : Reg) : Direct Key := do
  match (← MonadReader.read).scope.cursor? r, r.ty with
  | some _, .iter k => return k
  | _, _ => fail r .unboundIterator

def keysOf (r : Reg) : Direct (List UInt64) := do return [(← get).keys r]

def positionOf (r : Reg) : Direct (List UInt64) := do return [(← get).position r]

def dropKeys (r : Reg) : Direct Unit := do tell .drop [contextWord, ← keysOf r]

def setKeys (r : Reg) (w : UInt64) : Direct Unit :=
  modify fun δ => { δ with keys := fun u => if u = r then w else δ.keys u }

def setPosition (r : Reg) (w : UInt64) : Direct Unit :=
  modify fun δ => { δ with position := fun u => if u = r then w else δ.position u }

def iterBegin (dst map : Reg) : Direct Unit := do
  let _ ← iterKey dst
  let m ← value map
  let keys ← service (← Lowering.mapService map .iterBegin) [contextWord, m]
  dropKeys dst
  setKeys dst (word keys)
  setPosition dst 0

def iterHasNext (dst iter : Reg) : Direct Unit := do
  let k ← iterKey iter
  let n ← service (.iterLen k) [contextWord, ← keysOf iter]
  bind dst (← truth (Machine.IntCond.lt.holds? (word (← positionOf iter)).toInt64 (word n).toInt64))

def iterGetNext (dst iter : Reg) : Direct Unit := do
  let k ← iterKey iter
  let pos ← positionOf iter
  let key ← service (.iterGet k) [contextWord, ← keysOf iter, pos]
  setPosition iter (word (← int .add (word pos) 1))
  bindOwned dst key

/-! ## Printing -/

def output : Option Output → Direct (Destination × List UInt64)
  | none => return (Service.destination (Machine.Build.constant .i32 (-1)), ← constStr [])
  | some o => return (Service.destination (Machine.Build.constant .i32 (Int64.ofNat o.mode.code)), ← value o.path)

def formatArg (ty : Ty) (ws : List UInt64) : Act Format.Arg :=
  match ty with
  | .float => pure (.double (Float.ofBits (word ws)))
  | .str => do return .str (← Act.bytes (packed ws))
  | _ => pure (.int (word ws).toInt64)

def formatArgs (args : List Reg) (wss : List (List UInt64)) : Act (List Format.Arg) :=
  (args.zip wss).mapM fun (r, ws) => formatArg r.ty ws

def printAll (status : Reg) (out : Option Output) (args : List Reg) : Direct Unit := do
  let (dest, path) ← output out
  let wss ← args.mapM value
  let n ← act (Act.printAll dest (packed path) (wss.map packed))
  bind status (Service.ofInt n)

def printf (status : Reg) (out : Option Output) (format : Reg) (args : List Reg) : Direct Unit := do
  let (dest, path) ← output out
  let f ← value format
  let wss ← args.mapM value
  let n ← act do Act.printf dest (packed path) (packed f) (← formatArgs args wss)
  bind status (Service.ofInt n)

def sprintf (dst format : Reg) (args : List Reg) : Direct Unit := do
  let f ← value format
  let wss ← args.mapM value
  let s ← act do Act.sprintf (packed f) (← formatArgs args wss)
  bindOwned dst (ofPacked s)

/-! ## Control -/

def follow (f : Flow) : Direct Unit := modify fun δ => { δ with flow := f }

def jumpIf (cond : Reg) (l : Label) : Direct Unit := do
  if word (← value cond) ≠ 0 then follow (.goto l)

def call (dst : Reg) (fn : Int) (args : List Reg) : Direct Unit := do follow (.call dst fn (← args.mapM value))

def resume (dst : Reg) (ret : Ty) (ws : List UInt64) : Direct Unit :=
  if ret = .null then pure ()
  else if dst.isNull then drop ret ws
  else bindOwned dst ws

def releaseGlobal (g : Reg) : Direct Unit := do
  if g.ty.isHeap then
    match (← MonadReader.read).scope.binding? g with
    | none => stop .outOfRange
    | some b =>
      drop g.ty (← read g b)
      write g b (if g.ty = .str then ofPacked .empty else [0])

def release : Direct Unit := do
  let s := (← MonadReader.read).scope
  s.locals.forM fun (r, b) => do
    if r.ty.isHeap && !b.isLiteral then drop r.ty (← read r b)
  s.cursors.forM fun (r, _) => dropKeys r
  if s.isMain then s.globals.forM releaseGlobal

def ret (src : Reg) : Direct Unit := do
  let ty := (← MonadReader.read).scope.func.ret
  let results ←
    if ty = .null then pure []
    else if src.isNull then zero ty
    else do
      let ws ← value src
      ref ty ws
      pure ws
  release
  follow (.back results)

instance : Emitter Direct (List UInt64) where
  bind := bind
  value := value
  context := pure contextWord
  constInt n := pure [n.toUInt64]
  constFloat f := pure [f.toBits]
  constStr := constStr
  apply := apply
  perform := tell
  iterBegin := iterBegin
  iterHasNext := iterHasNext
  iterGetNext := iterGetNext
  printAll := printAll
  printf := printf
  sprintf := sprintf
  mov := mov
  loaded := loaded
  drop := drop
  label _ := pure ()
  jump l := follow (.goto l)
  jumpIf := jumpIf
  call := call
  ret := ret

/-! ## Whole functions -/

def bindParams : List Reg → List (List UInt64) → Direct Unit
  | r :: rs, ws :: wss => do
    bind r ws
    bindParams rs wss
  | _, _ => pure ()

def enter (args : List (List UInt64)) : Direct Unit := do
  let s := (← MonadReader.read).scope
  bindParams s.func.params args
  s.locals.forM fun (r, b) => do
    if r.ty.isMap && !s.func.params.contains r then write r b (← zero r.ty)
  if s.isMain then
    s.globals.forM fun g => do
      match g.ty.isMap, s.binding? g with
      | true, some b => write g b (← zero g.ty)
      | _, _ => return

/-! ## Runs -/

/-- An activation of a function. -/
structure Frame where
  func : Nat
  next : Nat
  locals : Reg → List UInt64
  keys : Reg → UInt64
  position : Reg → UInt64
  /-- The register of the caller that takes the result. -/
  dst : Reg

structure State where
  context : Context
  globals : Reg → List UInt64
  frame : Frame
  below : List Frame

inductive Result where
  | done (results : List UInt64) (context : Context)
  | trapped (t : Trap) (context : Context)
  | stuck

namespace State

def store (st : State) : Store :=
  { context := st.context, globals := st.globals, locals := st.frame.locals, keys := st.frame.keys,
    position := st.frame.position }

/-- The state after the innermost activation has changed the store. -/
def load (st : State) (δ : Store) (next : Nat) : State :=
  { st with
    context := δ.context, globals := δ.globals
    frame := { st.frame with next, locals := δ.locals, keys := δ.keys, position := δ.position } }

end State

def setting (p : Program) (literals : List Bytes) (i : Nat) (f : Func) : Setting :=
  { program := p, scope := .ofFunc p f (p.main = i), literals }

def blank (r : Reg) : List UInt64 := if r.ty = .str then [0, 0] else [0]

/-- A new activation, before it has taken its parameters. -/
def fresh (i : Nat) (dst : Reg) : Frame :=
  { func := i, next := 0, locals := blank, keys := fun _ => 0, position := fun _ => 0, dst }

/-- Goes on in the innermost activation with what `x` does. -/
def State.perform (p : Program) (literals : List Bytes) (st : State) (next : Nat) (x : Direct Unit) :
    Turn State Result :=
  match p.funcs[st.frame.func]? with
  | none => .ended .stuck
  | some f => match x (setting p literals st.frame.func f) st.store with
    | (.ok (), δ) => .next (st.load δ next)
    | (.error (.trap t), δ) => .ended (.trapped t δ.context)
    | (.error (.stop _), _) => .ended .stuck

/-- Where the run goes after an instruction of `f`. -/
def State.follow (p : Program) (literals : List Bytes) (f : Func) (st : State) : Flow → Turn State Result
  | .on => .next { st with frame := { st.frame with next := st.frame.next + 1 } }
  | .goto l => .next { st with frame := { st.frame with next := f.target l } }
  | .call dst fn args =>
    { st with frame := fresh fn.toNat dst, below := st.frame :: st.below }.perform p literals 0 (enter args)
  | .back results => match st.below with
    | [] => .ended (.done results st.context)
    | frame :: below =>
      { st with frame, below }.perform p literals (frame.next + 1) (resume st.frame.dst f.ret results)

def State.step (p : Program) (literals : List Bytes) (st : State) : Turn State Result :=
  match p.funcs[st.frame.func]? with
  | none => .ended .stuck
  | some f => match f.body[st.frame.next]? with
    | none => .ended .stuck
    | some i => match (Lowering.lower i : Direct Unit) (setting p literals st.frame.func f) st.store with
      | (.ok (), δ) => (st.load δ st.frame.next).follow p literals f δ.flow
      | (.error (.trap t), δ) => .ended (.trapped t δ.context)
      | (.error (.stop _), _) => .ended .stuck

theorem State.perform_of_func {p : Program} {literals : List Bytes} {st : State} {f : Func}
    (hf : p.funcs[st.frame.func]? = some f) (next : Nat) (x : Direct Unit) :
    st.perform p literals next x = match x (setting p literals st.frame.func f) st.store with
      | (.ok (), δ) => .next (st.load δ next)
      | (.error (.trap t), δ) => .ended (.trapped t δ.context)
      | (.error (.stop _), _) => .ended .stuck := by
  simp only [perform, hf]

theorem State.step_of_instr {p : Program} {literals : List Bytes} {st : State} {f : Func} {i : Instr}
    (hf : p.funcs[st.frame.func]? = some f) (hi : f.body[st.frame.next]? = some i) :
    st.step p literals = match (Lowering.lower i : Direct Unit) (setting p literals st.frame.func f) st.store with
      | (.ok (), δ) => (st.load δ st.frame.next).follow p literals f δ.flow
      | (.error (.trap t), δ) => .ended (.trapped t δ.context)
      | (.error (.stop _), _) => .ended .stuck := by
  simp only [step, hf, hi]

end Direct

end RecordMill

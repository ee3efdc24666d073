import RecordMill.Machine.Body

/-!
# Building a body

Instructions are added to the current block. A misuse is refused, and what was built before it stays.
-/

namespace RecordMill.Machine

/-! ## Misuse -/

inductive Misuse where
  | unknownValue (v : Value)
  | unknownBlock (b : BlockId)
  | unknownSlot (s : SlotId)
  | unknownCallee (r : RefId)
  | noCurrentBlock
  | afterTerminator (name : Bytes) (b : BlockId)
  | declaredTwice (v : VarId)
  | undeclared (v : VarId)
  | wrongAssignment (v : VarId) (got want : Kind)
  | notWord (name : Bytes) (got : Kind)
  | mixedKinds (name : Bytes) (x y : Kind)
  | notFloat (name : Bytes) (got : Kind)
  | badConstant (kind : Kind)
  | operandsMustBe (name kind : Bytes)
  | operandMustBe (name kind : Bytes)
  | callCount (r : RefId) (got : Nat) (sig : Signature)
  | callKind (r : RefId) (i : Nat) (got : Kind) (sig : Signature)
  | blockCount (b : BlockId) (want got : Nat)
  | blockKind (b : BlockId) (i : Nat)
  | returnCount (got : Nat) (sig : Signature)
  | returnKind (i : Nat) (got : Kind) (sig : Signature)
  deriving DecidableEq, Repr

def Misuse.message : Misuse → Bytes
  | .unknownValue v => "unknown value v" ++ Bytes.decimal v
  | .unknownBlock b => "unknown block" ++ Bytes.decimal b
  | .unknownSlot s => "unknown stack slot ss" ++ Bytes.decimal s
  | .unknownCallee r => "unknown function reference fn" ++ Bytes.decimal r
  | .noCurrentBlock => "no current block"
  | .afterTerminator name b => name ++ " after terminator in block" ++ Bytes.decimal b
  | .declaredTwice v => "variable var" ++ Bytes.decimal v ++ " declared twice"
  | .undeclared v => "undeclared variable var" ++ Bytes.decimal v
  | .wrongAssignment v got want =>
    "def_var var" ++ Bytes.decimal v ++ ": value of type " ++ got.name ++ ", variable of type " ++ want.name
  | .notWord name got => name ++ ": operand of type " ++ got.name ++ ", want i32 or i64"
  | .mixedKinds name x y => name ++ ": mixed operand types " ++ x.name ++ " and " ++ y.name
  | .notFloat name got => name ++ ": operand of type " ++ got.name ++ ", want f64"
  | .badConstant k => "iconst: unsupported type " ++ k.name
  | .operandsMustBe name kind => name ++ ": operands must be " ++ kind
  | .operandMustBe name kind => name ++ ": operand must be " ++ kind
  | .callCount r got sig =>
    "call fn" ++ Bytes.decimal r ++ ": " ++ Bytes.decimal got ++ " arguments, signature " ++ sig.text
  | .callKind r i got sig =>
    "call fn" ++ Bytes.decimal r ++ ": argument " ++ Bytes.decimal i ++ " has type " ++ got.name
      ++ ", signature " ++ sig.text
  | .blockCount b want got =>
    "block" ++ Bytes.decimal b ++ " takes " ++ Bytes.decimal want ++ " arguments, got " ++ Bytes.decimal got
  | .blockKind b i => "block" ++ Bytes.decimal b ++ " argument " ++ Bytes.decimal i ++ ": type mismatch"
  | .returnCount got sig => "return: " ++ Bytes.decimal got ++ " values, signature " ++ sig.text
  | .returnKind i got sig =>
    "return: value " ++ Bytes.decimal i ++ " has type " ++ got.name ++ ", signature " ++ sig.text

inductive BuildFault where
  | misuse (func : Bytes) (cause : Misuse)
  /-- A block or a function that was never made. -/
  | outOfRange
  deriving DecidableEq, Repr

def BuildFault.message? : BuildFault → Option Bytes
  | .misuse func cause => some ("jit: " ++ func ++ ": " ++ cause.message)
  | .outOfRange => none

/-! ## Drafts -/

/-- A body and the block that instructions are added to. -/
structure FuncDraft where
  body : Body
  current : Option BlockId := none
  deriving DecidableEq, Repr

abbrev Build := ExceptT BuildFault (StateM FuncDraft)

namespace Build

def refuse {α : Type} (cause : Misuse) : Build α := do throw (.misuse (← get).body.name cause)

def modifyBody (f : Body → Body) : Build Unit := modify fun d => { d with body := f d.body }

def newValue (k : Kind) : Build Value := do
  let v := (← get).body.values.size
  modifyBody fun b => { b with values := b.values.push k }
  return v

def kindOf (v : Value) : Build Kind := do
  match (← get).body.values[v]? with
  | some k => return k
  | none => refuse (.unknownValue v)

/-! ## Blocks -/

def createBlock : Build BlockId := do
  let b := (← get).body.blocks.size
  modifyBody fun f => { f with blocks := f.blocks.push {} }
  return b

def blockParam (b : BlockId) (k : Kind) : Build Value := do
  let v ← newValue k
  if b < (← get).body.blocks.size then
    modifyBody fun f => { f with blocks := f.blocks.modify b fun x => { x with params := x.params ++ [v] } }
    return v
  else throw .outOfRange

def blockParams (b : BlockId) : Build (List Value) := do
  match (← get).body.blocks[b]? with
  | some x => return x.params
  | none => throw .outOfRange

def functionParams (b : BlockId) : Build Unit := do
  for k in (← get).body.sig.params do
    let _ ← blockParam b k

def switchTo (b : BlockId) : Build Unit := do
  if b < (← get).body.blocks.size then modify fun d => { d with current := some b }
  else refuse (.unknownBlock b)

def isTerminated : Build Bool := do
  let d ← get
  return match d.current with
    | some b => (d.body.blocks.getD b {}).terminated
    | none => false

/-- Adds an instruction to the current block and gives it values for its results. -/
def append (a : Action) (results : List Kind) : Build (List Value) := do
  match (← get).current with
  | none => refuse .noCurrentBlock
  | some b =>
    if ((← get).body.blocks.getD b {}).terminated then refuse (.afterTerminator a.name b)
    else
      let first := (← get).body.values.size
      let vs := List.range' first results.length
      modifyBody fun f => { f with
        values := f.values ++ results.toArray
        insts := f.insts.push { action := a, results := vs }
        blocks := f.blocks.modify b fun x => { x with
          insts := x.insts.push f.insts.size
          terminated := a.isTerminator } }
      return vs

def one (a : Action) (k : Kind) : Build Value := do
  match ← append a [k] with
  | v :: _ => return v
  | [] => throw .outOfRange

def emit (a : Action) : Build Unit := do
  let _ ← append a []

/-! ## Variables and slots -/

def declareVar (v : VarId) (k : Kind) : Build Unit := do
  modifyBody fun f => { f with vars := f.vars ++ Array.replicate (v + 1 - f.vars.size) .invalid }
  if (← get).body.vars.getD v .invalid ≠ .invalid then refuse (.declaredTwice v)
  else modifyBody fun f => { f with vars := f.vars.setIfInBounds v k }

def varKind (v : VarId) : Build Kind := do
  match (← get).body.vars.getD v .invalid with
  | .invalid => refuse (.undeclared v)
  | k => return k

def defVar (v : VarId) (x : Value) : Build Unit := do
  let want ← varKind v
  let got ← kindOf x
  if got ≠ want then refuse (.wrongAssignment v got want) else emit (.defVar want v x)

def useVar (v : VarId) : Build Value := do
  let k ← varKind v
  one (.useVar k v) k

def createSlot (words : Int64) : Build SlotId := do
  let s := (← get).body.slots.size
  modifyBody fun f => { f with slots := f.slots.push words }
  return s

/-! ## Constants and arithmetic -/

/-- The common kind of operands that must be whole words. -/
def wantWords (name : Bytes) (x : Value) (rest : List Value) : Build Kind := do
  let k ← kindOf x
  if k ≠ .i32 ∧ k ≠ .i64 then refuse (.notWord name k)
  else
    for y in rest do
      let got ← kindOf y
      if got ≠ k then refuse (.mixedKinds name k got)
    return k

def wantFloats (name : Bytes) (xs : List Value) : Build Unit := do
  for x in xs do
    let got ← kindOf x
    if got ≠ .f64 then refuse (.notFloat name got)

def wantPair (name : Bytes) (x y : Value) : Build Unit := do
  if (← kindOf x) ≠ .i64 then refuse (.operandsMustBe name "i64")
  if (← kindOf y) ≠ .i64 then refuse (.operandsMustBe name "i64")

def iconst (k : Kind) (n : Int64) : Build Value := do
  match k with
  | .i32 => one (.iconst k (n.toUInt64 &&& 0xFFFFFFFF)) k
  | .i64 => one (.iconst k n.toUInt64) k
  | _ => refuse (.badConstant k)

def fconst (bits : UInt64) : Build Value := one (.fconst bits) .f64

def iconcat (lo hi : Value) : Build Value := do
  wantPair "iconcat" lo hi
  one (.concat lo hi) .i128

def int (op : IntOp) (x y : Value) : Build Value := do
  let k ← wantWords (Action.intOpName op) x [y]
  one (.int op k x y) k

def shift (op : ShiftOp) (x y : Value) : Build Value := do
  wantPair (Action.shiftName op) x y
  one (.shift op x y) .i64

def intUnary (op : IntUnary) (x : Value) : Build Value := do
  let k ← wantWords (Action.intUnaryName op) x []
  one (.intUnary op k x) k

def float (op : FloatOp) (x y : Value) : Build Value := do
  wantFloats (Action.floatOpName op) [x, y]
  one (.float op x y) .f64

def floatUnary (op : FloatUnary) (x : Value) : Build Value := do
  wantFloats (Action.floatUnaryName op) [x]
  one (.floatUnary op x) .f64

def icmp (c : IntCond) (x y : Value) : Build Value := do
  let k ← wantWords "icmp" x [y]
  one (.icmp c k x y) .b1

def fcmp (c : FloatCond) (x y : Value) : Build Value := do
  wantFloats "fcmp" [x, y]
  one (.fcmp c x y) .b1

def bint (k : Kind) (x : Value) : Build Value := do
  if (← kindOf x) ≠ .b1 then refuse (.operandMustBe "bint" "b1") else one (.bint k x) k

def toInt (k : Kind) (x : Value) : Build Value := do
  wantFloats "fcvt_to_sint_sat" [x]
  one (.toInt k x) k

def ofInt (k : Kind) (x : Value) : Build Value := do
  let from_ ← wantWords "fcvt_from_sint" x []
  one (.ofInt k (from_ == .i32) x) k

def binary? (name : Bytes) : Option (Value → Value → Build Value) :=
  let ints := [IntOp.add, .sub, .mul, .div, .rem, .and, .or, .xor].map fun op => (Action.intOpName op, int op)
  let shifts := [ShiftOp.left, .right, .signedRight].map fun op => (Action.shiftName op, shift op)
  let floats := [FloatOp.add, .sub, .mul, .div].map fun op => (Action.floatOpName op, float op)
  (ints ++ shifts ++ floats ++ [(text "iconcat", iconcat)]).lookup name

def unary? (name : Bytes) : Option (Value → Build Value) :=
  let ints := [IntUnary.neg, .not].map fun op => (Action.intUnaryName op, intUnary op)
  let floats := [FloatUnary.neg, .sqrt].map fun op => (Action.floatUnaryName op, floatUnary op)
  (ints ++ floats).lookup name

/-! ## Memory -/

def load (k : Kind) (pointer : Value) (offset : Int32) : Build Value := one (.load k pointer offset) k

def store (x pointer : Value) (offset : Int32) : Build Unit := do
  emit (.store (← kindOf x) x pointer offset)

def stackAddr (k : Kind) (s : SlotId) (offset : Int32) : Build Value := do
  if s < (← get).body.slots.size then one (.stackAddr k s offset) k else refuse (.unknownSlot s)

/-! ## Control -/

/-- The index and the kind of the first value that has not the wanted kind. -/
def firstMismatch : Nat → List Value → List Kind → Build (Option (Nat × Kind))
  | _, [], _ | _, _, [] => return none
  | i, v :: vs, k :: ks => do
    let got ← kindOf v
    if got ≠ k then return some (i, got) else firstMismatch (i + 1) vs ks

def call (r : RefId) (args : List Value) : Build (List Value) := do
  match (← get).body.callees[r]? with
  | none => refuse (.unknownCallee r)
  | some c =>
    if args.length ≠ c.sig.params.length then refuse (.callCount r args.length c.sig)
    else match ← firstMismatch 0 args c.sig.params with
      | some (i, got) => refuse (.callKind r i got c.sig)
      | none => append (.call r args) c.sig.returns

def checkEntry (b : BlockId) (args : List Value) : Build Unit := do
  match (← get).body.blocks[b]? with
  | none => refuse (.unknownBlock b)
  | some x =>
    if x.params.length ≠ args.length then refuse (.blockCount b x.params.length args.length)
    else
      for ((a, p), i) in (args.zip x.params).zipIdx do
        if (← kindOf a) ≠ (← kindOf p) then refuse (.blockKind b i)

def jump (b : BlockId) (args : List Value) : Build Unit := do
  checkEntry b args
  emit (.jump b args)

def brif (cond : Value) (dest alt : BlockId) : Build Unit := do
  checkEntry dest []
  checkEntry alt []
  emit (.brif cond dest alt)

def ret (vals : List Value) : Build Unit := do
  let sig := (← get).body.sig
  if vals.length ≠ sig.returns.length then refuse (.returnCount vals.length sig)
  else match ← firstMismatch 0 vals sig.returns with
    | some (i, got) => refuse (.returnKind i got sig)
    | none => emit (.ret vals)

/-! ## Finishing -/

/-- What keeps a body from being whole. -/
inductive Unfinished where
  | noBlocks
  | openBlock (b : BlockId)
  deriving DecidableEq, Repr

def Unfinished.message : Unfinished → Bytes
  | .noBlocks => "function has no blocks"
  | .openBlock b => "block" ++ Bytes.decimal b ++ " is not terminated"

end Build

/-- The first block without an end, or that there are no blocks. -/
def Body.unfinished? (f : Body) : Option Build.Unfinished :=
  match f.blocks.findIdx? (!·.terminated) with
  | some b => some (.openBlock b)
  | none => if f.blocks.isEmpty then some .noBlocks else none

end RecordMill.Machine

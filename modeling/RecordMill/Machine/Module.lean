import Std.Data.ExtTreeMap
import RecordMill.Machine.X86

/-!
# Modules

A module is a table of functions and data objects under unique names. Imported functions are given by
the host; all others get a body. A finalized module does not change any more, and every function in it
that is not imported has a body.
-/

namespace RecordMill.Machine

/-! ## Declarations -/

inductive Linkage where
  | imported
  | local
  | exported
  | other (code : Nat)
  deriving DecidableEq, Repr

namespace Linkage

def ofCode : Nat → Linkage
  | 0 => .imported
  | 1 => .local
  | 2 => .exported
  | n => .other n

def code : Linkage → Nat
  | .imported => 0
  | .local => 1
  | .exported => 2
  | .other n => n

def name : Linkage → Bytes
  | .imported => "import"
  | .local => "local"
  | .exported => "export"
  | .other n => "linkage(" ++ Bytes.decimal n ++ ")"

end Linkage

/-- A function ready to run. -/
structure Compiled where
  frameWords : Nat
  stackWords : Int64
  params : List Span
  blocks : Array CodeBlock
  /-- The machine code form, for a function that has one, and where it leaves the results. -/
  machineCode : Option (Bytes × Nat)
  deriving DecidableEq, Repr

/-- A function; `ι` names the functions of the host. -/
structure FuncDecl (ι : Type) where
  name : Bytes
  linkage : Linkage
  sig : Signature
  host : Option ι := none
  source : Option Body := none
  compiled : Option Compiled := none

structure DataDecl where
  name : Bytes
  address : UInt64
  words : Int64
  deriving DecidableEq, Repr

inductive Import (ι : Type) where
  | function (f : ι)
  | nothing (address : UInt64)

/-- What a name stands for. -/
inductive Entry where
  | func (id : FuncId)
  | data (id : Nat)
  deriving DecidableEq, Repr

structure Module (ι : Type) where
  target : Target := .native
  imports : List (Bytes × Import ι) := []
  funcs : Array (FuncDecl ι) := #[]
  data : Array DataDecl := #[]
  names : Std.ExtTreeMap Bytes Entry compare := ∅
  dataWords : Int64 := 0
  finalized : Bool := false

/-! ## Errors -/

inductive ModuleCause where
  | alreadyData
  | redeclared (now before : Linkage)
  | incompatible (now before : Signature)
  | undefinedSymbol
  | noHostFunction (address : UInt64)
  | duplicateSymbol
  | emptyData
  | unknownFunction (id : FuncId)
  | defineImport
  | duplicateDefinition
  | bodySignature (body declared : Signature)
  | unfinished (cause : Build.Unfinished)
  | entryCount
  | entryKind (i : Nat) (kind : Kind)
  | neverDefined
  | wordCount (got : Nat) (sig : Signature)
  deriving DecidableEq, Repr

def ModuleCause.message : ModuleCause → Bytes
  | .alreadyData => "already declared as data"
  | .redeclared now before => "redeclared as " ++ now.name ++ ", previously " ++ before.name
  | .incompatible now before => "incompatible signature " ++ now.text ++ ", previously " ++ before.text
  | .undefinedSymbol => "undefined symbol"
  | .noHostFunction a => "no host function at 0x" ++ Bytes.hex a.toNat
  | .duplicateSymbol => "duplicate symbol"
  | .emptyData => "data object must have positive size"
  | .unknownFunction id => "unknown function id " ++ Bytes.decimal id
  | .defineImport => "cannot define an imported function"
  | .duplicateDefinition => "duplicate definition"
  | .bodySignature body declared =>
    "body signature " ++ body.text ++ " does not match declaration " ++ declared.text
  | .unfinished cause => cause.message
  | .entryCount => "entry block parameters do not match the signature"
  | .entryKind i k => "entry parameter " ++ Bytes.decimal i ++ " has type " ++ k.name
  | .neverDefined => "declared but never defined"
  | .wordCount got sig => "called with " ++ Bytes.decimal got ++ " words, signature " ++ sig.text

inductive ModuleError where
  | finalized
  | about (name : Bytes) (cause : ModuleCause)
  /-- The body mentions a value or a condition that does not exist. -/
  | malformed
  deriving DecidableEq, Repr

def ModuleError.message : ModuleError → Bytes
  | .finalized => "jit: module is finalized"
  | .about name cause => "jit: " ++ name ++ ": " ++ cause.message
  | .malformed => "malformed body"

/-! ## Compiling a body -/

namespace Body

/-- What is wrong with the parameters of the first block. -/
def entryError? (f : Body) : Option ModuleCause :=
  let entry := (f.blocks.getD 0 {}).params.map (f.values.getD · .invalid)
  if entry.length ≠ f.sig.params.length then some .entryCount
  else ((entry.zip f.sig.params).zipIdx.find? fun ((k, want), _) => k ≠ want).map
    fun ((k, _), i) => .entryKind i k

/-- Blocks first, then machine code, each taking scratch words as it goes. Machine code leaves a block by
way of its own scratch words. -/
def lay (f : Body) (target : Target) : Lay Compiled := do
  let l := Layout.ofBody f
  let params ← Lay.spans l (f.blocks.getD 0 {}).params
  let blocks ← f.blocks.toList.mapM (Lay.block f l)
  let stackWords := f.slots.foldl (· + ·) 0
  if target.arch = text "amd64" ∧ f.insts.all (X86.covers ·.action) then
    let (coded, returns) ← X86.blocks f l
    let blocks := blocks.zipWith (fun b (_, exit) => { b with exit }) coded
    return { frameWords := ← get, stackWords, params, blocks := blocks.toArray
             machineCode := some (X86.encode (coded.map (·.1)), returns) }
  else return { frameWords := ← get, stackWords, params, blocks := blocks.toArray, machineCode := none }

def compile (f : Body) (target : Target) : Except ModuleError Compiled :=
  let whole := if f.blocks.isEmpty then some .noBlocks else f.unfinished?
  match whole, f.entryError? with
  | some cause, _ => .error (.about f.name (.unfinished cause))
  | none, some cause => .error (.about f.name cause)
  | none, none => match (lay f target).run (Layout.size f) with
    | some (c, _) => .ok c
    | none => .error .malformed

end Body

/-! ## Operations -/

namespace Module

variable {ι : Type}

def declareFunc (m : Module ι) (name : Bytes) (linkage : Linkage) (sig : Signature) :
    Except ModuleError (FuncId × Module ι) :=
  if m.finalized then .error .finalized
  else match m.names[name]? with
    | some (.data _) => .error (.about name .alreadyData)
    | some (.func id) => match m.funcs[id]? with
      | none => .error (.about name (.unknownFunction id))
      | some d =>
        if d.linkage ≠ linkage then .error (.about name (.redeclared linkage d.linkage))
        else if d.sig ≠ sig then .error (.about name (.incompatible sig d.sig))
        else .ok (id, m)
    | none => do
      let host ← hostOf m name linkage
      let id := m.funcs.size
      return (id, { m with
        funcs := m.funcs.push { name, linkage, sig, host }
        names := m.names.insert name (.func id) })
where
  hostOf (m : Module ι) (name : Bytes) : Linkage → Except ModuleError (Option ι)
    | .imported => match m.imports.lookup name with
      | none => .error (.about name .undefinedSymbol)
      | some (.nothing a) => .error (.about name (.noHostFunction a))
      | some (.function f) => .ok (some f)
    | _ => .ok none

/-- Reserves words in the memory of every instance. The first word is never used. -/
def declareData (m : Module ι) (name : Bytes) (words : Int64) :
    Except ModuleError (Nat × UInt64 × Module ι) :=
  if m.finalized then .error .finalized
  else if m.names.contains name then .error (.about name .duplicateSymbol)
  else if words ≤ 0 then .error (.about name .emptyData)
  else
    let id := m.data.size
    let address := (1 + m.dataWords).toUInt64 * 8
    .ok (id, address, { m with
      data := m.data.push { name, address, words }
      dataWords := m.dataWords + words
      names := m.names.insert name (.data id) })

def importInto (m : Module ι) (id : FuncId) : Build RefId := do
  match m.funcs[id]? with
  | none => throw .outOfRange
  | some d =>
    let callees := (← get).body.callees
    match callees.findIdx? (·.id == id) with
    | some r => return r
    | none =>
      Build.modifyBody fun f => { f with callees := f.callees.push { id, sig := d.sig } }
      return callees.size

def defineFunc (m : Module ι) (id : FuncId) (f : Body) : Except ModuleError (Module ι) :=
  if m.finalized then .error .finalized
  else match m.funcs[id]? with
    | none => .error (.about f.name (.unknownFunction id))
    | some d =>
      if d.linkage = .imported then .error (.about d.name .defineImport)
      else if d.compiled.isSome then .error (.about d.name .duplicateDefinition)
      else if d.sig ≠ f.sig then .error (.about d.name (.bodySignature f.sig d.sig))
      else do
        let c ← f.compile m.target
        return { m with funcs := m.funcs.setIfInBounds id { d with source := some f, compiled := some c } }

def finalize (m : Module ι) : Except ModuleError (Module ι) :=
  if m.finalized then .ok m
  else match m.funcs.find? fun d => d.linkage ≠ .imported && d.compiled.isNone with
    | some d => .error (.about d.name .neverDefined)
    | none => .ok { m with finalized := true }

def lookup? (m : Module ι) (name : Bytes) : Option FuncId :=
  match m.names[name]? with
  | some (.func id) => some id
  | _ => none

/-! ## Views -/

inductive Symbol where
  | func (name : Bytes) (linkage : Linkage) (id : FuncId) (sig : Signature)
  | data (name : Bytes) (address : UInt64)
  deriving DecidableEq, Repr

def symbols (m : Module ι) : List Symbol :=
  m.names.toList.filterMap fun (name, e) => match e with
    | .func id => (m.funcs[id]?).map fun d => .func name d.linkage id d.sig
    | .data id => (m.data[id]?).map fun d => .data name d.address

def machineCodeText (name : Bytes) (c : Compiled) : Bytes :=
  match c.machineCode with
  | none => []
  | some (code, _) =>
    text "; %" ++ name ++ text ": " ++ Bytes.decimal code.length ++ text " bytes of x86-64 "
      ++ Bytes.join [32] (code.map fun b => Bytes.hexPadded 2 b.toNat) ++ [10]

def funcText? (d : FuncDecl ι) : Option Bytes :=
  match d.source with
  | some f => do
    let body ← f.listing?
    return body ++ (d.compiled.map (machineCodeText d.name)).getD []
  | none => some (d.linkage.name ++ " function %" ++ d.name ++ d.sig.text ++ "\n")

def dataText (d : DataDecl) : Bytes :=
  "data %" ++ d.name ++ " = " ++ Bytes.integer (d.words * 8).toInt ++ " bytes at 0x" ++ Bytes.hex d.address.toNat
    ++ "\n"

def entryText? (m : Module ι) : Entry → Option Bytes
  | .func id => (m.funcs[id]?).bind funcText?
  | .data id => (m.data[id]?).map dataText

/-- A line that names the target, then everything in the order of names. -/
def listing? (m : Module ι) : Option Bytes := do
  let parts ← m.names.toList.mapM fun (_, e) => m.entryText? e
  return text "; target " ++ m.target.text ++ [10] ++ parts.flatten

end Module

end RecordMill.Machine

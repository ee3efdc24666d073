import RecordMill.Proofs.Plain.Values
import RecordMill.Proofs.Transition
import RecordMill.Program.Basic

/-!
# A plain interpreter

Runs the instructions of a program one by one. Every activation has its own registers, globals are shared,
and a map is reached through references to it. Nothing is compiled, packed or counted.
-/

namespace RecordMill

def Instr.isLabel (l : Label) : Instr → Bool
  | .label k => k = l
  | _ => false

def Func.target (f : Func) (l : Label) : Nat := f.body.findIdx (Instr.isLabel l) + 1

namespace Plain

/-- Why a run stops before its end. -/
inductive Halt where
  | divisionByZero
  /-- An iterator that was not begun in the activation. -/
  | notBegun
  | tooManyFields
  deriving DecidableEq, Repr

/-- What all activations share. -/
structure Store extends Records where
  fs : Bytes
  ofs : Bytes
  ors : Bytes
  filename : Bytes := []
  argv : Nat
  tables : Array Table
  globals : Reg → Val

/-- An activation of a function. -/
structure Frame where
  func : Nat
  next : Nat := 0
  regs : Reg → Val
  cursors : Reg → Option Cursor := fun _ => none
  /-- The register of the caller that takes the result. -/
  dst : Reg := .null

structure State where
  store : Store
  frame : Frame
  /-- The activations that wait, the innermost first. -/
  below : List Frame := []

inductive Ending where
  | returned
  | halted (h : Halt)
  deriving DecidableEq, Repr

namespace Store

def record {α : Type} (s : Store) (act : Recording α) : α × Store :=
  match act s.toRecords with
  | (a, records) => (a, { s with toRecords := records })

def newTable (s : Store) (t : Table) : Nat × Store := (s.tables.size, { s with tables := s.tables.push t })

def table (s : Store) (x : Val) : Table := s.tables.getD x.toRef (.empty .int .int)

def setTable (s : Store) (x : Val) (t : Table) : Store := { s with tables := s.tables.setIfInBounds x.toRef t }

def zero (s : Store) : Ty → Val × Store
  | .float => (.float 0, s)
  | .str => (.str [], s)
  | .map k v => match s.newTable (.empty k v) with
    | (ref, s) => (.map ref, s)
  | _ => (.int 0, s)

/-! ## Built-in variables -/

def load (s : Store) : Variable → Val
  | .argc => .int s.argc
  | .argv => .map s.argv
  | .fs => .str s.fs
  | .ofs => .str s.ofs
  | .ors => .str s.ors
  | .nf => .int s.nf
  | .nr => .int s.nr
  | .filename => .str s.filename
  | .unknown _ => .int 0

/-- A new number of fields cuts or extends the record. -/
def setCount (s : Store) (n : Int64) : Except Halt Store :=
  if n < 0 then .ok (s.record (Records.fail .storeCount (.fieldCount n.toInt))).2
  else if n.toInt.toNat > Records.maxFields then .error .tooManyFields
  else .ok (s.record (Records.setCount s.ofs n)).2

def assign (s : Store) (var : Variable) (x : Val) : Except Halt Store :=
  match var with
  | .argc => .ok { s with argc := x.toInt }
  | .argv => .ok { s with argv := x.toRef }
  | .fs => .ok { s with fs := x.toStr }
  | .ofs => .ok { s with ofs := x.toStr }
  | .ors => .ok { s with ors := x.toStr }
  | .nf => s.setCount x.toInt
  | .nr => .ok { s with nr := x.toInt }
  | .filename => .ok { s with filename := x.toStr }
  | .unknown _ => .ok s

/-! ## Records -/

/-- 1, 0 at the end of the input, or -1. The file name is that of the last input opened. -/
def nextLine (s : Store) : Int64 × Store :=
  match s.record (Records.nextLine s.fs) with
  | ((n, names), s) => (n, { s with filename := names.getLast?.getD s.filename })

def setColumn (s : Store) (i : Int64) (text : Bytes) : Store :=
  if i = 0 then (s.record (Records.setRecord s.fs text)).2
  else if i < 0 then (s.record (Records.fail .setColumn (.fieldAccess i.toInt))).2
  else (s.record (Records.setField s.ofs i text)).2

def print (s : Store) (dest : Destination) (path : Bytes) (text : Bytes) : Int64 × Store :=
  s.record (Records.write dest (if dest.isNamed then path else []) text)

end Store

namespace State

/-! ## Registers -/

def get (p : Program) (σ : State) (r : Reg) : Val :=
  if r.isNull then .int 0 else if p.globals.contains r then σ.store.globals r else σ.frame.regs r

def set (p : Program) (σ : State) (r : Reg) (x : Val) : State :=
  if r.isNull then σ
  else if p.globals.contains r then
    { σ with store := { σ.store with globals := fun u => if u = r then x else σ.store.globals u } }
  else { σ with frame := { σ.frame with regs := fun u => if u = r then x else σ.frame.regs u } }

def setCursor (σ : State) (r : Reg) (c : Cursor) : State :=
  { σ with frame := { σ.frame with cursors := fun u => if u = r then some c else σ.frame.cursors u } }

def withStore (σ : State) (s : Store) : State := { σ with store := s }

def goto (σ : State) (n : Nat) : State := { σ with frame := { σ.frame with next := n } }

/-! ## Instructions -/

/-- Where printed text goes, and the path or command line. -/
def output (p : Program) (σ : State) : Option Output → Destination × Bytes
  | none => (.stdout, [])
  | some o => (.ofCode o.mode.code, (σ.get p o.path).toStr)

/-- What an instruction does that goes on to the next one. -/
def exec (p : Program) (σ : State) : Instr → Except Halt State
  | .constInt d n => .ok (σ.set p d (.int n))
  | .constFloat d f => .ok (σ.set p d (.float f.toBits))
  | .constStr d s => .ok (σ.set p d (.str s))
  | .mov d s => .ok (σ.set p d (σ.get p s))
  | .compare d op l r => .ok (σ.set p d (.ofBool (compareVals l.ty op (σ.get p l) (σ.get p r))))
  | .arith d op args =>
    if d.ty = .float then .ok (σ.set p d (.float (arithFloats op (args.map fun r => (σ.get p r).toFloat))))
    else match arithInts op (args.map fun r => (σ.get p r).toInt) with
      | some n => .ok (σ.set p d (.int n))
      | none => .error .divisionByZero
  | .bit d op args => .ok (σ.set p d (.int (bitwise op (args.map fun r => (σ.get p r).toInt))))
  | .math d fn args => .ok (σ.set p d (.float (math fn (args.map fun r => (σ.get p r).toFloat))))
  | .div d l r =>
    .ok (σ.set p d (.float (Machine.Word.float .div (asFloat l.ty (σ.get p l)) (asFloat r.ty (σ.get p r)))))
  | .pow d l r =>
    .ok (σ.set p d (.float (onDoubles Double.power (asFloat l.ty (σ.get p l)) (asFloat r.ty (σ.get p r)))))
  | .convert d s => .ok (σ.set p d (convert s.ty d.ty (σ.get p s)))
  | .concat d l r => .ok (σ.set p d (.str ((σ.get p l).toStr ++ (σ.get p r).toStr)))
  | .strLen d s => .ok (σ.set p d (.int (Int64.ofNat (σ.get p s).toStr.length)))
  | .matchPattern d s pat => match σ.store.record (Records.isMatch (σ.get p s).toStr (σ.get p pat).toStr) with
    | (n, store) => .ok ((σ.withStore store).set p d (.int n))
  | .split d s m pat => match σ.store.record (Records.pieces (σ.get p s).toStr (σ.get p pat).toStr) with
    | (none, store) => .ok ((σ.withStore store).set p d (.int (-1)))
    | (some parts, store) =>
      let store := store.setTable (σ.get p m) (.ofPieces (σ.store.table (σ.get p m)).key parts)
      .ok ((σ.withStore store).set p d (.int (Int64.ofNat parts.length)))
  | .lookup d m k => .ok (σ.set p d ((σ.store.table (σ.get p m)).lookup (σ.get p k)))
  | .store m k v =>
    .ok (σ.withStore (σ.store.setTable (σ.get p m) ((σ.store.table (σ.get p m)).insert (σ.get p k) (σ.get p v))))
  | .contains d m k => .ok (σ.set p d (.ofBool ((σ.store.table (σ.get p m)).contains (σ.get p k))))
  | .delete m k =>
    .ok (σ.withStore (σ.store.setTable (σ.get p m) ((σ.store.table (σ.get p m)).delete (σ.get p k))))
  | .len d m => .ok (σ.set p d (.int (Int64.ofNat (σ.store.table (σ.get p m)).size)))
  | .iterBegin d m => .ok (σ.setCursor d (.ofTable (σ.store.table (σ.get p m))))
  | .iterHasNext d it => match σ.frame.cursors it with
    | some c => .ok (σ.set p d (.ofBool c.hasNext))
    | none => .error .notBegun
  | .iterGetNext d it => match σ.frame.cursors it with
    | some c => .ok ((σ.setCursor it c.advance).set p d c.current)
    | none => .error .notBegun
  | .nextLine d => match σ.store.nextLine with
    | (n, store) => .ok ((σ.withStore store).set p d (.int n))
  | .getColumn d i => match σ.store.record (Records.column (σ.get p i).toInt) with
    | (s, store) => .ok ((σ.withStore store).set p d (.str s))
  | .setColumn i s => .ok (σ.withStore (σ.store.setColumn (σ.get p i).toInt (σ.get p s).toStr))
  | .readFileLine d status path => match σ.store.record (Records.fileLine (σ.get p path).toStr) with
    | ((line, n), store) => .ok (((σ.withStore store).set p d (.str line)).set p status (.int n))
  | .loadVar d v => .ok (σ.set p d (σ.store.load v))
  | .storeVar v s => match σ.store.assign v (σ.get p s) with
    | .ok store => .ok (σ.withStore store)
    | .error h => .error h
  | .print out args status =>
    let (dest, path) := σ.output p out
    let text := Bytes.join σ.store.ofs (args.map fun r => (σ.get p r).toStr) ++ σ.store.ors
    match σ.store.print dest path text with
    | (n, store) => .ok ((σ.withStore store).set p status (.int n))
  | .printf out format args status =>
    let (dest, path) := σ.output p out
    let text := Format.sprintf (σ.get p format).toStr (args.map fun r => formatArg r.ty (σ.get p r))
    match σ.store.print dest path text with
    | (n, store) => .ok ((σ.withStore store).set p status (.int n))
  | .sprintf d format args =>
    .ok (σ.set p d (.str (Format.sprintf (σ.get p format).toStr (args.map fun r => formatArg r.ty (σ.get p r)))))
  | .label _ | .jmp _ | .jmpIf .. | .call .. | .ret _ | .missing => .ok σ

/-! ## Control -/

/-- The values of registers before they are assigned. -/
def initial (r : Reg) : Val :=
  match r.ty with
  | .float => .float 0
  | .str => .str []
  | _ => .int 0

def freshMaps (rs : List Reg) (s : Store) (regs : Reg → Val) : Store × (Reg → Val) :=
  rs.foldl (fun (s, regs) r => match s.zero r.ty with
    | (x, s) => (s, fun u => if u = r then x else regs u)) (s, regs)

def assignParams : List Reg → List Val → (Reg → Val) → Reg → Val
  | r :: rs, x :: xs, regs => assignParams rs xs fun u => if u = r then x else regs u
  | _, _, regs => regs

def localMaps (p : Program) (f : Func) : List Reg :=
  (f.locals p.globals).filter fun r => r.ty.isMap && !f.params.contains r

def enter (p : Program) (f : Func) (i : Nat) (args : List Val) (dst : Reg) (s : Store) : Store × Frame :=
  match freshMaps (localMaps p f) s (assignParams f.params args initial) with
  | (s, regs) => (s, { func := i, regs, dst })

/-- The result of a function that returns `r`. -/
def result (p : Program) (f : Func) (σ : State) (r : Reg) : Val × Store :=
  if r.isNull then σ.store.zero f.ret else (σ.get p r, σ.store)

def step (p : Program) (σ : State) : Turn State (Ending × Store) :=
  match p.funcs[σ.frame.func]? with
  | none => .ended (.returned, σ.store)
  | some f => match f.body[σ.frame.next]? with
    | none => .ended (.returned, σ.store)
    | some (.jmp l) => .next (σ.goto (f.target l))
    | some (.jmpIf c l) =>
      .next (σ.goto (if (σ.get p c).toInt ≠ 0 then f.target l else σ.frame.next + 1))
    | some (.call dst fn args) => match p.func? fn with
      | none => .ended (.returned, σ.store)
      | some callee =>
        match enter p callee fn.toNat (args.map (σ.get p)) dst σ.store with
        | (store, frame) =>
          .next { store, frame, below := { σ.frame with next := σ.frame.next + 1 } :: σ.below }
    | some (.ret r) => match result p f σ r with
      | (x, store) => match σ.below with
        | [] => .ended (.returned, store)
        | frame :: below => .next ({ store, frame, below : State }.set p σ.frame.dst x)
    | some i => match σ.exec p i with
      | .ok τ => .next (τ.goto (σ.frame.next + 1))
      | .error h => .ended (.halted h, σ.store)

end State

/-! ## Whole runs -/

def Store.ofSettings (s : Settings) (world : World) : Store :=
  { toRecords := s.records world
    fs := Settings.orElse s.fs " "
    ofs := Settings.orElse s.ofs " "
    ors := Settings.orElse s.ors "\n"
    argv := 0
    tables := #[⟨.int, .str, s.arguments⟩]
    globals := State.initial }

/-- The globals get their maps when the main function is entered, after its own. -/
def State.start (p : Program) (main : Func) (s : Settings) (world : World) : State :=
  match State.enter p main p.main.toNat [] .null (.ofSettings s world) with
  | (store, frame) => match State.freshMaps (p.globals.filter (·.ty.isMap)) store store.globals with
    | (store, globals) => { store := { store with globals }, frame }

end Plain

end RecordMill

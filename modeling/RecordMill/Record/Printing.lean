import RecordMill.Format.Sprintf
import RecordMill.Record.Context

/-! # Printing, and the end of a run -/

namespace RecordMill

/-- Where printed text goes. -/
inductive Destination where
  | stdout
  | file (append : Bool)
  | command
  | unknown (code : Int)
  deriving DecidableEq, Repr

namespace Destination

def ofCode (n : Int) : Destination :=
  if n = -1 then .stdout
  else if n = 0 then .file false
  else if n = 1 then .file true
  else if n = 2 then .command
  else .unknown n

/-- Whether the destination is one of several of its kind. -/
def isNamed : Destination → Bool
  | .file _ | .command => true
  | .stdout | .unknown _ => false

end Destination

namespace Records

/-- Runs an operation of the standard output against the sink. -/
def onStdout (op : Writer → Sink → Option Failure × Writer × Sink) : Recording (Option Failure) := do
  let c ← get
  let (e, out, sink) := op c.out c.world.sink
  set { c with out, world := { c.world with sink } }
  return e

def flushStdout : Recording (Option Failure) := onStdout Writer.flush

def onOutputs {α : Type} (op : Outputs → World → α × Outputs × World) : Recording α := do
  let c ← get
  let (a, outputs, world) := op c.outputs c.world
  set { c with outputs, world }
  return a

/-- A command sees what was printed before it, so the standard output is flushed first. -/
def send (dest : Destination) (path s : Bytes) : Recording (Option Failure) := do
  match dest with
  | .stdout => onStdout fun w k => w.write s k
  | .file append => onOutputs fun o w => o.write w path s append
  | .command =>
    match ← flushStdout with
    | some e => return some e
    | none => onOutputs fun o w => (none, o.writePipe path s, w)
  | .unknown n => return some (.unknownMode n)

def write (dest : Destination) (path s : Bytes) : Recording Int64 := do
  match ← send dest path s with
  | none => return 0
  | some e => fail .write e

def flush : Recording (List Failure) := do
  let e ← flushStdout
  let errors ← onOutputs Outputs.flush
  return e.toList ++ errors

def close : Recording (List Failure) := do
  let e ← flushStdout
  let errors ← onOutputs Outputs.close
  modify fun c => { c with reads := {}, reader := c.reader.map Reader.close }
  return e.toList ++ errors

end Records

namespace Act

/-! ## Strings -/

def concat (a b : Packed) : Act Packed := do
  let s ← bytes a
  newStr (s ++ (← bytes b))

def orderOf (s t : Bytes) : Int64 :=
  match compare s t with
  | .lt => -1
  | .eq => 0
  | .gt => 1

def compareStr (a b : Packed) : Act Int64 := do
  let s ← bytes a
  return orderOf s (← bytes b)

/-! ## Printing -/

def pathOf (dest : Destination) (path : Packed) : Act Bytes := if dest.isNamed then bytes path else return []

def write (dest : Destination) (path : Packed) (s : Bytes) : Act Int64 := do
  onRecords (Records.write dest (← pathOf dest path) s)

/-- The arguments with `OFS` between them and `ORS` at the end. -/
def printAll (dest : Destination) (path : Packed) (args : List Packed) : Act Int64 := do
  let c ← get
  let ofs ← bytes c.ofs
  let parts ← args.mapM bytes
  let ors ← bytes c.ors
  write dest path (Bytes.join ofs parts ++ ors)

def printf (dest : Destination) (path format : Packed) (args : List Format.Arg) : Act Int64 := do
  write dest path (Format.sprintf (← bytes format) args)

def sprintf (format : Packed) (args : List Format.Arg) : Act Packed := do
  newStr (Format.sprintf (← bytes format) args)

/-! ## Flushing and closing -/

def flush : Act (List Failure) := onRecords Records.flush

def release (s : Packed) (clear : Context → Context) : Act Unit := do
  modify clear
  change (·.dropStr s)

/-- Closes all files and commands and gives back the built-in variables. -/
def close : Act (List Failure) := do
  let errors ← onRecords Records.close
  release (← get).fs fun c => { c with fs := .empty }
  release (← get).ofs fun c => { c with ofs := .empty }
  release (← get).ors fun c => { c with ors := .empty }
  release (← get).filename fun c => { c with filename := .empty }
  let argv := (← get).argv
  change (·.drop argv)
  modify fun c => { c with argv := 0 }
  return errors

end Act

end RecordMill

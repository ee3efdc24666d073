import RecordMill.Heap.Basic
import RecordMill.Program.Operator
import RecordMill.Record.Records

/-!
# The context of a run

Everything that outlives a single step of a program: the heap, the built-in variables, the current
record, the inputs and the outputs. A fault ends the run, but what was done before it stays done.
-/

namespace RecordMill

/-! ## Faults -/

/-- What the value of a built-in variable is taken for. -/
inductive VariableKind where
  | int
  | str
  | map
  deriving DecidableEq, Repr

def VariableKind.phrase : VariableKind → Bytes
  | .int => "an int"
  | .str => "a str"
  | .map => "a map"

inductive Fault where
  | heap (cause : HeapFault)
  | wrongVariable (v : Variable) (wanted : VariableKind)
  | tooManyFields
  deriving DecidableEq, Repr

/-- Some misuses of the heap and excessive sizes have no wording of their own. -/
def Fault.message? : Fault → Option Bytes
  | .heap cause => cause.message?
  | .wrongVariable v wanted => some ("runtime: " ++ v.name ++ " is not " ++ wanted.phrase ++ " variable")
  | .tooManyFields => none

/-! ## The state of a run -/

/-- What a run starts from. Empty separators stand for the usual ones. -/
structure Settings where
  literals : List Bytes := []
  /-- The command line arguments, which are also the names of the inputs when there is no `input`. -/
  args : List Bytes := []
  fs : Bytes := []
  ofs : Bytes := []
  ors : Bytes := []
  input : Option Bytes := none
  longest : Bool := true
  capacity : Int := 0

def Settings.orElse (s usual : Bytes) : Bytes := if s.isEmpty then usual else s

def Settings.records (s : Settings) (world : World) : Records :=
  { world
    argc := Int64.ofNat (s.args.length + 1)
    reader := s.input.map Reader.ofText
    inputs := if s.input.isSome then [] else s.args
    out := Writer.ofCapacity s.capacity
    outputs := Outputs.ofCapacity s.capacity
    patterns := { longest := s.longest } }

/-- `ARGV` holds the program's own name and then the arguments. -/
def Settings.arguments (s : Settings) : Entries .int .str :=
  ((text "awkjit" :: s.args).zipIdx).foldl (fun m (a, i) => m.insert (Int64.ofNat i) a) ∅

structure Context extends Records where
  heap : Heap
  argv : UInt64
  fs : Packed
  ofs : Packed
  ors : Packed
  filename : Packed := .empty

namespace Context

def ofSettings (s : Settings) (world : World) : Context :=
  let heap := Heap.ofLiterals s.literals
  let (fs, heap) := heap.newStr (Settings.orElse s.fs " ")
  let (ofs, heap) := heap.newStr (Settings.orElse s.ofs " ")
  let (ors, heap) := heap.newStr (Settings.orElse s.ors "\n")
  let (argv, heap) := heap.alloc (.map .int .str s.arguments)
  { toRecords := s.records world, heap, fs, ofs, ors, argv }

end Context

/-! ## Steps of a run -/

abbrev Act := ExceptT Fault (StateM Context)

namespace Act

def look {α : Type} (f : Heap → Except HeapFault α) : Act α := do
  match f (← get).heap with
  | .ok a => return a
  | .error e => throw (.heap e)

def change (f : Heap → Except HeapFault Heap) : Act Unit := do
  let heap ← look f
  modify fun c => { c with heap }

def bytes (s : Packed) : Act Bytes := look (·.string s)

def newStr (s : Bytes) : Act Packed := do
  let (p, heap) := (← get).heap.newStr s
  modify fun c => { c with heap }
  return p

/-- Works on a new string, which is given back at the end. -/
def withStr {α : Type} (s : Bytes) (f : Packed → Act α) : Act α := do
  let p ← newStr s
  try f p finally change (·.dropStr p)

def withStrs {α : Type} : List Bytes → (List Packed → Act α) → Act α
  | [], f => f []
  | s :: rest, f => withStr s fun p => withStrs rest fun ps => f (p :: ps)

/-- The bytes of an owned string, which is given back. -/
def takeBytes (p : Packed) : Act Bytes := do
  let s ← bytes p
  change (·.dropStr p)
  return s

def onRecords {α : Type} (act : Recording α) : Act α := fun ⟨records, heap, argv, fs, ofs, ors, filename⟩ =>
  match act records with
  | (a, records) => (.ok a, ⟨records, heap, argv, fs, ofs, ors, filename⟩)

end Act

end RecordMill

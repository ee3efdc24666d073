import RecordMill.Host.Outputs
import RecordMill.Host.Reader
import RecordMill.Pattern.Basic
import RecordMill.Record.LazyVec
import RecordMill.Text.Utf8

/-!
# Records and their fields

A record is a line together with its fields. Assigning a field rebuilds the line from the fields, and
assigning the line splits it again. All of this works on plain strings; the separators are handed in.
Failures from which a program recovers are noted as incidents.
-/

namespace RecordMill

/-! ## Incidents -/

/-- What a program was doing when something failed. -/
inductive Operation where
  | nextLine
  | fieldSplitting
  | getColumn
  | setColumn
  | storeCount
  | matching
  | splitting
  | getLine
  | write
  deriving DecidableEq, Repr

def Operation.name : Operation → Bytes
  | .nextLine => "nextline"
  | .fieldSplitting => "field splitting"
  | .getColumn => "get column"
  | .setColumn => "set column"
  | .storeCount => "store NF"
  | .matching => "match"
  | .splitting => "split"
  | .getLine => "getline"
  | .write => "write"

structure Incident where
  during : Operation
  failure : Failure
  deriving DecidableEq, Repr

def Incident.text (i : Incident) : Bytes := i.during.name ++ ": " ++ i.failure.message

/-! ## The state of records -/

/-- The current record, the inputs and the outputs. -/
structure Records where
  argc : Int64
  nf : Int64 := 0
  nr : Int64 := 0
  line : Bytes := []
  fields : LazyVec Bytes := .empty
  reader : Option Reader := none
  inputs : List Bytes := []
  out : Writer
  patterns : Pattern.Patterns
  outputs : Outputs
  reads : Inputs := {}
  /-- The outcome of the last line read from a named file. -/
  status : Int64 := 0
  noted : List Incident := []
  world : World := {}

abbrev Recording := StateM Records

namespace Records

def incidents (r : Records) : List Incident := r.noted.reverse

/-- Notes a failure; the answer to the program is -1. -/
def fail (during : Operation) (failure : Failure) : Recording Int64 := do
  modify fun r => { r with noted := ⟨during, failure⟩ :: r.noted }
  return -1

/-! ## Splitting -/

/-- A single space separates words, any other single byte is a separator itself, nothing separates every
character, and anything else is a pattern. -/
def split (s separator : Bytes) : Recording (Except Failure (List Bytes)) := do
  if s.isEmpty then return .ok []
  else if separator = [32] then return .ok (Utf8.words s)
  else match separator with
    | [] => return .ok (Utf8.characters s)
    | [c] => if c = 92 then byPattern else return .ok (Bytes.cutAt c s)
    | _ => byPattern
where
  byPattern : Recording (Except Failure (List Bytes)) := do
    match (← get).patterns.split separator s with
    | .ok (parts, patterns) =>
      modify fun r => { r with patterns }
      return .ok parts
    | .error _ => return .error .pattern

def isMatch (s pattern : Bytes) : Recording Int64 := do
  match (← get).patterns.isMatch pattern s with
  | .ok (found, patterns) =>
    modify fun r => { r with patterns }
    return if found then 1 else 0
  | .error _ => fail .matching .pattern

/-- The pieces of a text, or none when it cannot be split. -/
def pieces (s separator : Bytes) : Recording (Option (List Bytes)) := do
  match ← split s separator with
  | .error e =>
    let _ ← fail .splitting e
    return none
  | .ok parts => return some parts

/-! ## The record -/

/-- Makes `line` the record. When it cannot be split the fields stay as they were. -/
def setRecord (fs line : Bytes) : Recording Int64 := do
  modify fun r => { r with line }
  match ← split line fs with
  | .error e => fail .fieldSplitting e
  | .ok parts =>
    modify fun r => { r with fields := .ofList parts, nf := Int64.ofNat parts.length }
    return 1

/-- The first `n` fields; those that were never set are empty. -/
def firstFields (v : LazyVec Bytes) (n : Nat) : List Bytes :=
  (List.range n).map fun (i : Nat) => (v.get? (i : Int)).getD []

def rebuild (ofs : Bytes) : Recording Unit :=
  modify fun r => { r with line := Bytes.join ofs (firstFields r.fields r.nf.toInt.toNat) }

def column (i : Int64) : Recording Bytes := do
  if i = 0 then return (← get).line
  else if i < 0 then
    let _ ← fail .getColumn (.fieldAccess i.toInt)
    return []
  else return ((← get).fields.get? (i.toInt - 1)).getD []

/-- Field `i`, from 1 on. -/
def setField (ofs : Bytes) (i : Int64) (s : Bytes) : Recording Unit := do
  modify fun r => { r with
    fields := (r.fields.insert? (i.toInt - 1) s).getD r.fields
    nf := if r.nf < i then i else r.nf }
  rebuild ofs

def maxFields : Nat := Nat.pow 2 44

/-- Cuts the record to `n` fields or extends it by empty ones. -/
def setCount (ofs : Bytes) (n : Int64) : Recording Unit := do
  modify fun r => { r with fields := .ofList (firstFields r.fields n.toInt.toNat), nf := n }
  rebuild ofs

/-! ## Reading records -/

/-- Reads the next record from `r`; at its end goes on with `next`. -/
def readRecord (fs : Bytes) (r : Reader) (next : Recording (Int64 × List Bytes)) : Recording (Int64 × List Bytes) := do
  let (result, r) := r.line (← get).world.disk
  match result with
  | .error e =>
    modify fun c => { c with reader := some r }
    return (← fail .nextLine e, [])
  | .ok (some line) =>
    modify fun c => { c with reader := some r, nr := c.nr + 1 }
    return (← setRecord fs line, [])
  | .ok none =>
    modify fun c => { c with reader := none }
    next

/-- Opens the inputs one after another until one of them yields a record. The names of those that were
opened come with the answer. -/
def openNext (fs : Bytes) : List Bytes → Recording (Int64 × List Bytes)
  | [] => return (0, [])
  | name :: rest => do
    modify fun c => { c with inputs := rest }
    match Reader.openFile (← get).world.disk name with
    | .error e => return (← fail .nextLine e, [])
    | .ok r =>
      let (n, names) ← readRecord fs r (openNext fs rest)
      return (n, name :: names)

/-- 1, 0 at the end of the input, or -1, and the names of the inputs that were opened. -/
def nextLine (fs : Bytes) : Recording (Int64 × List Bytes) := do
  let c ← get
  match c.reader with
  | some r => readRecord fs r (openNext fs c.inputs)
  | none => openNext fs c.inputs

/-- The next line of a named file with 1, or nothing with 0 or -1. The number is kept. -/
def fileLine (name : Bytes) : Recording (Bytes × Int64) := do
  let c ← get
  let (result, reads) := c.reads.line c.world.disk name
  set { c with reads }
  let (line, status) ← match result with
    | .error e => do pure (([] : Bytes), ← fail .getLine e)
    | .ok none => pure ([], 0)
    | .ok (some line) => pure (line, 1)
  modify fun c => { c with status }
  return (line, status)

end Records

end RecordMill

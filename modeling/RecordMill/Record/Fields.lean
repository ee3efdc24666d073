import RecordMill.Record.Context

/-!
# Fields and built-in variables

What a program asks of the record. Strings arrive packed, and those handed out are owned.
-/

namespace RecordMill.Act

/-! ## Separators -/

def fieldSeparator : Act Bytes := do bytes (← get).fs

def outputSeparator : Act Bytes := do bytes (← get).ofs

/-! ## Splitting -/

def isMatch (s pattern : Packed) : Act Int64 := do
  let p ← bytes pattern
  let s ← bytes s
  onRecords (Records.isMatch s p)

/-- The entries that hold the pieces of a text, numbered from 1 by `key`. -/
def numbered (k : Key) (key : Nat → k.Carrier) (parts : List Bytes) : Entries k .str :=
  parts.zipIdx.foldl (fun m (p, i) => m.insert (key (i + 1)) p) ∅

/-- Replaces the entries of a map by the pieces of `s`. -/
def splitInto (k : Key) (key : Nat → k.Carrier) (s : Packed) (map : UInt64) (separator : Packed) :
    Act Int64 := do
  let text ← bytes s
  let separator ← bytes separator
  match ← onRecords (Records.pieces text separator) with
  | none => return -1
  | some parts =>
    change (·.updateMap k .str map fun _ => numbered k key parts)
    return Int64.ofNat parts.length

def splitInt : Packed → UInt64 → Packed → Act Int64 := splitInto .int Int64.ofNat

def splitStr : Packed → UInt64 → Packed → Act Int64 := splitInto .str Bytes.decimal

/-! ## The record -/

def column (i : Int64) : Act Packed := do newStr (← onRecords (Records.column i))

def setColumn (i : Int64) (s : Packed) : Act Unit := do
  if i = 0 then
    let line ← bytes s
    let _ ← onRecords (Records.setRecord (← fieldSeparator) line)
  else if i < 0 then
    let _ ← onRecords (Records.fail .setColumn (.fieldAccess i.toInt))
  else
    let text ← bytes s
    onRecords (Records.setField (← outputSeparator) i text)

/-- Cuts the record to `n` fields or extends it by empty ones. -/
def setCount (n : Int64) : Act Unit := do
  if n < 0 then
    let _ ← onRecords (Records.fail .storeCount (.fieldCount n.toInt))
  else if n.toInt.toNat > Records.maxFields then throw .tooManyFields
  else onRecords (Records.setCount (← outputSeparator) n)

/-! ## Reading records -/

/-- Puts an owned string into the place of the file name. -/
def setFilename (s : Packed) : Act Unit := do
  let old := (← get).filename
  modify fun c => { c with filename := s }
  change (·.dropStr old)

def nextLine : Act Int64 := do
  let (n, names) ← onRecords (Records.nextLine (← fieldSeparator))
  names.forM fun name => do setFilename (← newStr name)
  return n

/-- The next line of a named file, owned, with 1, or nothing with 0 or -1. The number is kept. -/
def readFileLine (path : Packed) : Act (Packed × Int64) := do
  let name ← bytes path
  let (line, status) ← onRecords (Records.fileLine name)
  return (← newStr line, status)

/-! ## Built-in variables -/

def loadInt (v : Variable) : Act Int64 := do
  let c ← get
  match v with
  | .argc => return c.argc
  | .nf => return c.nf
  | .nr => return c.nr
  | _ => throw (.wrongVariable v .int)

def storeInt (v : Variable) (n : Int64) : Act Unit := do
  match v with
  | .argc => modify fun c => { c with argc := n }
  | .nf => setCount n
  | .nr => modify fun c => { c with nr := n }
  | _ => throw (.wrongVariable v .int)

def loadStr (v : Variable) : Act Packed := do
  let c ← get
  match v with
  | .fs => return c.fs
  | .ofs => return c.ofs
  | .ors => return c.ors
  | .filename => return c.filename
  | _ => throw (.wrongVariable v .str)

/-- Puts `s` into a variable that holds a string. -/
def placeStr (v : Variable) (s : Packed) (c : Context) : Context :=
  match v with
  | .fs => { c with fs := s }
  | .ofs => { c with ofs := s }
  | .ors => { c with ors := s }
  | .filename => { c with filename := s }
  | _ => c

def storeStr (v : Variable) (s : Packed) : Act Unit := do
  change (·.refStr s)
  let old ← loadStr v
  modify (placeStr v s)
  change (·.dropStr old)

def loadMap (v : Variable) : Act UInt64 := do
  match v with
  | .argv => return (← get).argv
  | _ => throw (.wrongVariable v .map)

def storeMap (v : Variable) (m : UInt64) : Act Unit := do
  match v with
  | .argv =>
    change (·.ref m)
    let old := (← get).argv
    modify fun c => { c with argv := m }
    change (·.drop old)
  | _ => throw (.wrongVariable v .map)

end RecordMill.Act

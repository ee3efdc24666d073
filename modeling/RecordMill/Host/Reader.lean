import RecordMill.Host.Disk
import RecordMill.Record.Cache

/-!
# Reading lines

A reader takes its file a block at a time, so it sees what the file holds when a block is taken. A line
ends at a newline, which is cut off together with a carriage return in front of it.
-/

namespace RecordMill

/-- What a reader takes its text from. -/
inductive Source where
  | text
  | node (path : Bytes) (node : Node)
  | closed (path : Bytes)
  deriving DecidableEq, Repr

structure Reader where
  source : Source
  /-- Taken from the source but not yet handed out. -/
  buffer : Bytes := []
  /-- How much has been taken from the source. -/
  offset : Nat := 0
  deriving DecidableEq, Repr

namespace Reader

def blockSize : Nat := 4096

def ofText (s : Bytes) : Reader := { source := .text, buffer := s }

def openFile (d : Disk) (path : Bytes) : Except Failure Reader :=
  match d.openRead path with
  | .error e => .error (.openRead path e)
  | .ok node => (d.unpacked path node).map fun _ => { source := .node path node }

/-- A closed file still hands out what was taken from it before. -/
def close (r : Reader) : Reader :=
  match r.source with
  | .node path _ => { r with source := .closed path }
  | _ => r

/-- The next block of at most `n` bytes; empty at the end. -/
def takeBlock (d : Disk) (r : Reader) (n : Nat) : Except Failure Bytes :=
  match r.source with
  | .text => .ok []
  | .closed path => .error (.read path .closed)
  | .node path node => do
    let out ← d.unpacked path node
    match (out.text.drop r.offset).take n, out.failure with
    | [], some e => throw e
    | block, _ => return block

def trimEnd (line : Bytes) : Bytes := if line.getLast? = some 13 then line.dropLast else line

/-- Gathers a line in `acc`. Every block taken makes progress, so the length of the file bounds them. -/
def gather (d : Disk) : Nat → Reader → Bytes → Except Failure (Option Bytes) × Reader
  | 0, r, _ => (.ok none, r)
  | fuel + 1, r, acc =>
    if r.buffer.has 10 then
      let line := r.buffer.takeWhile (· ≠ 10)
      (.ok (some (trimEnd (acc ++ line))), { r with buffer := r.buffer.drop (line.length + 1) })
    else if r.buffer.length ≥ blockSize ∧ r.source ≠ .text then
      gather d fuel { r with buffer := [] } (acc ++ r.buffer)
    else match takeBlock d r (blockSize - r.buffer.length) with
      | .error e => (.error e, { r with buffer := [] })
      | .ok [] =>
        let line := acc ++ r.buffer
        (.ok (if line.isEmpty then none else some (trimEnd line)), { r with buffer := [] })
      | .ok block =>
        gather d fuel { r with buffer := r.buffer ++ block, offset := r.offset + block.length } acc

def available (d : Disk) (r : Reader) : Nat :=
  match r.source with
  | .node path node =>
    if Disk.isPacked path then ((d.unpacked path node).toOption.getD {}).text.length
    else match node with
      | .file l => ((d.file? l).getD .empty).size
      | _ => 0
  | _ => 0

/-- The next line, or `none` at the end. -/
def line (d : Disk) (r : Reader) : Except Failure (Option Bytes) × Reader :=
  gather d (2 * available d r + 3) r []

end Reader

/-! ## Open input files -/

abbrev Inputs := Cache Reader

/-- Each file keeps its place from one call to the next. -/
def Inputs.line (c : Inputs) (d : Disk) (path : Bytes) : Except Failure (Option Bytes) × Inputs :=
  match Cache.get c path (Reader.openFile d) with
  | .error e => (.error e, c)
  | .ok (r, c) =>
    let (result, r) := r.line d
    (result, Cache.update c path r)

end RecordMill

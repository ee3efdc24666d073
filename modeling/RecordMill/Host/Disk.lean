import RecordMill.Host.Error
import RecordMill.Text.Bytes

/-!
# Files and directories

A disk holds the contents of files by their place in the tree of directories. Paths are resolved
component by component, from the root or from the working directory. A few devices take the place of
files: one takes everything and one takes nothing.
-/

namespace RecordMill

abbrev Location := List Bytes

/-- What can be read, and what breaks it off before its end. -/
structure Readout where
  text : Bytes := []
  failure : Option Failure := none

/-- Two libraries unpack files. The first looks at the head of a file when it is opened, and may refuse it. -/
structure Unpacker where
  xz : Readout → Except Failure Readout := .ok
  lz4 : Readout → Readout := id

structure Disk where
  files : List (Location × Buffer) := []
  directories : List Location := []
  unpacker : Unpacker := {}

/-- What a path names. -/
inductive Node where
  | file (at_ : Location)
  | directory
  | null
  | full
  deriving DecidableEq, Repr

namespace Disk

def home : Location := ["tmp", "work"]

def topNames : List Bytes :=
  ["bin", "boot", "dev", "etc", "home", "lib", "media", "mnt", "opt", "proc", "root", "run", "sbin", "srv", "sys",
    "tmp", "usr", "var"]

def device? (l : Location) : Option (Except PathError Node) :=
  if l = [text "dev", text "null"] ∨ l = [text "dev", text "zero"] then some (.ok .null)
  else if l = [text "dev", text "full"] then some (.ok .full)
  else if l = [text "dev", text "tty"] then some (.error .noDevice)
  else none

def file? (d : Disk) (l : Location) : Option Buffer := d.files.lookup l

def content? (d : Disk) (l : Location) : Option Bytes := (d.file? l).map Buffer.bytes

def isDirectory (d : Disk) (l : Location) : Bool :=
  l.isPrefixOf home || d.directories.contains l || match l with
    | [name] => topNames.contains name
    | _ => false

def put (d : Disk) (l : Location) (s : Buffer) : Disk :=
  if (d.file? l).isSome then
    { d with files := d.files.map fun e => if e.1 = l then (l, s) else e }
  else { d with files := d.files ++ [(l, s)] }

/-- Follows the components from a directory. The last one may be missing. -/
def walk (d : Disk) : Location → List Bytes → Except PathError Location
  | here, [] => .ok here
  | here, c :: rest =>
    if c.length > 255 then .error .nameTooLong
    else if c.isEmpty ∨ c = text "." then walk d here rest
    else if c = text ".." then walk d here.dropLast rest
    else
      let next := here ++ [c]
      if rest.all (·.isEmpty) then .ok next
      else if d.isDirectory next then walk d next rest
      else if (d.file? next).isSome ∨ (device? next).isSome then .error .notDirectory
      else .error .notFound

def maxPath : Nat := 4095

/-- The place that a path leads to, whether or not there is something. -/
def locate (d : Disk) (path : Bytes) : Except PathError Location :=
  if path.has 0 then .error .invalidName
  else if path.isEmpty then .error .notFound
  else if path.length > maxPath then .error .nameTooLong
  else d.walk (if path.head? = some 47 then [] else home) (Bytes.cutAt 47 path)

def openRead (d : Disk) (path : Bytes) : Except PathError Node := do
  let l ← d.locate path
  if d.isDirectory l then return .directory
  if (d.file? l).isNone ∧ (device? l).isNone then throw .notFound
  if path.getLast? = some 47 then throw .notDirectory
  (device? l).getD (.ok (.file l))

def readout (d : Disk) (path : Bytes) : Node → Readout
  | .file l => { text := (d.content? l).getD [] }
  | .directory => { failure := some (.read path .isDirectory) }
  | .null | .full => {}

def isPacked (path : Bytes) : Bool := (text ".xz").isSuffixOf path || (text ".lz4").isSuffixOf path

/-- What a reader of a node finds. The name tells how a file is packed. -/
def unpacked (d : Disk) (path : Bytes) (node : Node) : Except Failure Readout :=
  if (text ".xz").isSuffixOf path then (d.unpacker.xz (d.readout path node)).mapError (.openPacked path)
  else if (text ".lz4").isSuffixOf path then .ok (d.unpacker.lz4 (d.readout path node))
  else .ok (d.readout path node)

def read? (d : Disk) (path : Bytes) : Option Bytes :=
  match d.openRead path with
  | .ok (.file l) => d.content? l
  | .ok .null => some []
  | _ => none

/-- Creates a missing file; an existing one is emptied unless it is appended to. -/
def openWrite (d : Disk) (path : Bytes) (append : Bool) : Except PathError (Node × Disk) := do
  let l ← d.locate path
  if d.isDirectory l ∨ path.getLast? = some 47 then throw .isDirectory
  match device? l, d.file? l with
  | some node, _ => return (← node, d)
  | none, some _ => return (.file l, if append then d else d.put l .empty)
  | none, none => return (.file l, d.put l .empty)

/-- Writes over what stands at `offset`, or after the end when appending. -/
def write (d : Disk) (l : Location) (append : Bool) (offset : Nat) (s : Bytes) : Disk :=
  let file := (d.file? l).getD .empty
  if append ∨ offset = file.size then d.put l (file.push s)
  else
    let old := file.bytes
    let front := old.take offset
    d.put l (.ofBytes (front ++ List.replicate (offset - front.length) 0 ++ s ++ old.drop (offset + s.length)))

/-- The names and contents of the visible files of the working directory itself. -/
def topLevel (d : Disk) : List (Bytes × Bytes) :=
  d.files.filterMap fun (l, s) => match l.getLast? with
    | some name => if l.dropLast ≠ home ∨ name.head? = some 46 then none else some (name, s.bytes)
    | none => none

def above (l : Location) : List Location := (List.range l.length).map l.take

/-- A disk from names and contents; a name that ends in a slash is a directory. -/
def ofEntries (entries : List (Bytes × Bytes)) : Disk :=
  entries.foldl (fun d (name, s) =>
    let parts := home ++ (Bytes.cutAt 47 name).filter (!·.isEmpty)
    let d := { d with directories := d.directories ++ above parts }
    if name.getLast? = some 47 then { d with directories := d.directories ++ [parts] }
    else { d with files := d.files ++ [(parts, .ofBytes s)] }) {}

end Disk

end RecordMill

import RecordMill.Host.Shell
import RecordMill.Host.Writer
import RecordMill.Record.Cache

/-!
# Open output files and pipes

The first write that names a file empties it or opens it for appending. The file then stays open, and
later writes go on where the last one ended, whatever they ask for.
-/

namespace RecordMill

/-- What lies outside a run: the files and the standard output. -/
structure World where
  disk : Disk := {}
  sink : Sink := {}

structure OutputFile where
  path : Bytes
  node : Node
  append : Bool
  offset : Nat := 0
  writer : Writer

structure Pipe where
  sent : Buffer := .empty
  writer : Writer

structure Outputs where
  capacity : Nat
  files : Cache OutputFile := {}
  pipes : Cache Pipe := {}

namespace OutputFile

def send (f : OutputFile) (d : Disk) (s : Bytes) : Option Failure × OutputFile × Disk :=
  if s.isEmpty then (none, f, d)
  else match f.node with
    | .file l => (none, { f with offset := f.offset + s.length }, d.write l f.append f.offset s)
    | .full =>
      let e := some (.write f.path .noSpace)
      (e, { f with writer := { f.writer with failure := e } }, d)
    | .directory | .null => (none, f, d)

def write (f : OutputFile) (d : Disk) (s : Bytes) : Option Failure × OutputFile × Disk :=
  match f.writer.failure with
  | some e => (some e, f, d)
  | none =>
    let (sent, pending) := Writer.fillDirect f.writer.capacity f.writer.pending s
    { f with writer := { f.writer with pending } }.send d sent

def flush (f : OutputFile) (d : Disk) : Option Failure × OutputFile × Disk :=
  match f.writer.failure with
  | some e => (some e, f, d)
  | none => { f with writer := { f.writer with pending := .empty } }.send d f.writer.pending.bytes

end OutputFile

namespace Pipe

def write (p : Pipe) (s : Bytes) : Pipe :=
  let (sent, pending) := Writer.fillDirect p.writer.capacity p.writer.pending s
  { sent := p.sent.push sent, writer := { p.writer with pending } }

def flush (p : Pipe) : Pipe :=
  { sent := p.sent.push p.writer.pending.bytes, writer := { p.writer with pending := .empty } }

end Pipe

namespace Outputs

def ofCapacity (n : Int) : Outputs := { capacity := (Writer.ofCapacity n).capacity }

def size (o : Outputs) : Nat := o.files.size + o.pipes.size

/-- The open file of a path, opened in the given mode if there is none. -/
def fileAt (o : Outputs) (w : World) (path : Bytes) (append : Bool) :
    Except Failure (OutputFile × Outputs × World) :=
  match o.files.find? path with
  | some f => .ok (f, o, w)
  | none => match w.disk.openWrite path append with
    | .error e => .error (.openWrite path append e)
    | .ok (node, disk) =>
      let f : OutputFile := { path, node, append, writer := { capacity := o.capacity } }
      .ok (f, { o with files := ⟨o.files.entries ++ [(path, f)]⟩ }, { w with disk })

def write (o : Outputs) (w : World) (path s : Bytes) (append : Bool) : Option Failure × Outputs × World :=
  match o.fileAt w path append with
  | .error e => (some e, o, w)
  | .ok (f, o, w) =>
    let (e, f, disk) := f.write w.disk s
    (e.map (.writeFile path), { o with files := o.files.update path f }, { w with disk })

def writePipe (o : Outputs) (line s : Bytes) : Outputs :=
  let p := (o.pipes.find? line).getD { writer := { capacity := o.capacity } }
  let pipes := if (o.pipes.find? line).isSome then o.pipes else ⟨o.pipes.entries ++ [(line, p)]⟩
  { o with pipes := pipes.update line (p.write s) }

def flush (o : Outputs) (w : World) : List Failure × Outputs × World :=
  let (errors, files, disk) := o.files.entries.foldl (fun (errors, files, d) (path, f) =>
    let (e, f, d) := f.flush d
    (errors ++ e.toList, files ++ [(path, f)], d)) (([] : List Failure), [], w.disk)
  (errors, { o with files := ⟨files⟩, pipes := ⟨o.pipes.entries.map fun (line, p) => (line, p.flush)⟩ },
    { w with disk })

/-- Lets a command finish: its output joins the standard output. -/
def finishPipe (w : World) (line : Bytes) (p : Pipe) : Option Failure × World :=
  let (out, status, disk) := Shell.runLine w.disk line p.flush.sent.bytes
  let (e, sink) := if out.isEmpty then (none, w.sink) else w.sink.take out
  (if status = .success then e else some (.command status), { disk, sink })

/-- Closes all files, then lets the commands finish, and forgets them. -/
def close (o : Outputs) (w : World) : List Failure × Outputs × World :=
  let (errors, o, w) := o.flush w
  let (errors, w) := o.pipes.entries.foldl (fun (errors, w) (line, p) =>
    let (e, w) := finishPipe w line p
    (errors ++ e.toList, w)) (errors, w)
  (errors, { o with files := {}, pipes := {} }, w)

end Outputs

end RecordMill

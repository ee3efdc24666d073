import RecordMill.CommandLine

/-! # The command -/

open RecordMill

namespace RecordMill.Command

partial def readAll (s : IO.FS.Stream) (seen : Array ByteArray) : IO Bytes := do
  let chunk ← s.read 65536
  if chunk.isEmpty then return seen.toList.flatMap (·.data.toList)
  else readAll s (seen.push chunk)

def environment : IO Environment := do
  let names := ["AWKJIT_POSIX", "AWKJIT_OUTPUT_BUFFER", "AWKJIT_STACK", "AWKJIT_TRACE"]
  names.filterMapM fun name => do
    return (← IO.getEnv name).map fun v => (text name, text v)

/-- A file with its contents; what cannot be read, yet is there, passes for a directory. -/
def entry? (name : String) : IO (Option (Bytes × Bytes)) := do
  try
    let content ← IO.FS.readBinFile name
    return some (text name, content.data.toList)
  catch
    | .noFileOrDirectory .. => return none
    | _ => return some (text name ++ [47], [])

def finish (o : CommandLine.Outcome) : IO UInt32 := do
  let stdout ← IO.getStdout
  stdout.write (ByteArray.mk o.stdout.toArray)
  stdout.flush
  let stderr ← IO.getStderr
  stderr.write (ByteArray.mk o.stderr.toArray)
  stderr.flush
  return o.exit.toUInt32

def fuel : Nat := Nat.pow 2 60

end RecordMill.Command

open RecordMill.Command in
def main (args : List String) : IO UInt32 := do
  match CommandLine.parse (args.map text) with
  | .error h => finish (h.outcome {})
  | .ok t =>
    let disk := Disk.ofEntries (← args.filterMapM entry?)
    let input ← if t.files.isEmpty then readAll (← IO.getStdin) #[] else pure []
    finish (t.run fuel (← environment) disk input)

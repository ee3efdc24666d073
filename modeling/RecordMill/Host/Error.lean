import RecordMill.Text.Quoted

/-! # What can go wrong with files, commands and fields -/

namespace RecordMill

/-- Why the system refuses to use a path. -/
inductive PathError where
  | notFound
  | notDirectory
  | isDirectory
  | nameTooLong
  | invalidName
  | closed
  | noSpace
  | noDevice
  deriving DecidableEq, Repr

def PathError.message : PathError → Bytes
  | .notFound => "no such file or directory"
  | .notDirectory => "not a directory"
  | .isDirectory => "is a directory"
  | .nameTooLong => "file name too long"
  | .invalidName => "invalid argument"
  | .closed => "file already closed"
  | .noSpace => "no space left on device"
  | .noDevice => "no such device or address"

/-- How a command ended. -/
inductive Status where
  | exited (code : Nat)
  | killed (signal : Nat)
  deriving DecidableEq, Repr

namespace Status

def success : Status := .exited 0

/-- The signals that have a text of their own, from 1 on. -/
def signalNames : List Bytes :=
  ["hangup", "interrupt", "quit", "illegal instruction", "trace/breakpoint trap", "aborted", "bus error",
    "floating point exception", "killed", "user defined signal 1", "segmentation fault",
    "user defined signal 2", "broken pipe", "alarm clock", "terminated"]

def message : Status → Bytes
  | .exited code => "exit status " ++ Bytes.decimal code
  | .killed signal =>
    "signal: " ++ match signal with
      | 0 => "signal 0"
      | n + 1 => signalNames.getD n ("signal " ++ Bytes.decimal signal)

end Status

/-- Failures from which a run recovers. -/
inductive Failure where
  | openRead (path : Bytes) (cause : PathError)
  | openWrite (path : Bytes) (append : Bool) (cause : PathError)
  | openPacked (path : Bytes) (cause : Failure)
  | unpacking (words : Bytes)
  | read (path : Bytes) (cause : PathError)
  | write (path : Bytes) (cause : PathError)
  | writeFile (path : Bytes) (cause : Failure)
  | sinkFull
  | command (status : Status)
  | unknownMode (mode : Int)
  | fieldAccess (index : Int)
  | fieldCount (count : Int)
  | pattern
  deriving DecidableEq, Repr

namespace Failure

def message : Failure → Bytes
  | .openRead path cause =>
    "failed to open file " ++ Quoted.encode path ++ ": open " ++ path ++ ": " ++ cause.message
  | .openWrite path append cause =>
    "failed to open file " ++ Quoted.encode path ++ " for " ++ (if append then text "append" else text "write")
      ++ ": open " ++ path ++ ": " ++ cause.message
  | .openPacked path cause => "failed to open xz stream " ++ Quoted.encode path ++ ": " ++ cause.message
  | .unpacking words => words
  | .read path cause => "read " ++ path ++ ": " ++ cause.message
  | .write path cause => "write " ++ path ++ ": " ++ cause.message
  | .writeFile path cause => "failed to write to file " ++ Quoted.encode path ++ ": " ++ cause.message
  | .sinkFull => "sink full"
  | .command status => status.message
  | .unknownMode mode => "unknown output mode " ++ Bytes.integer mode
  | .fieldAccess i => "attempt to access field " ++ Bytes.integer i
  | .fieldCount n => "invalid NF value " ++ Bytes.integer n
  | .pattern => "<pattern>"

def messages (fs : List Failure) : Bytes := Bytes.join "\n" (fs.map message)

end Failure

end RecordMill

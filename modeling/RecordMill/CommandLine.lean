import RecordMill.Program.Samples
import RecordMill.Run.Basic

/-!
# The command line

Flags come first, then the name of a built-in program and the files that it reads. Without files the
program reads the standard input.
-/

namespace RecordMill.CommandLine

/-! ## Texts -/

def usage : Bytes := "usage: awkjit [-F fs] [-v var=value] [-l] prog [file ...]"

def helpLines : List String :=
  ["Arguments:",
    "  -F separator      field separator (default \" \")",
    "  -v var=value      set OFS or ORS (multiple allowed)",
    "  -l                list the built-in programs and exit",
    "",
    "Input files ending in .xz or .lz4 are decompressed on the fly.",
    "",
    "Performance options:",
    "  --posix           use POSIX leftmost-longest regex matching (default)",
    "  --no-posix        use faster leftmost-first regex matching (Perl-like)",
    "  -b size           output buffer size, e.g. 64KiB or 1m",
    "  -s words          call stack size of generated code in words",
    "",
    "Debugging arguments:",
    "  -da               print generated code to stderr and exit",
    "  -di               print the IR program to stderr and exit",
    "  -t                trace code generation and runtime errors to stderr",
    "",
    "Other:",
    "  -h, --help        show this help message",
    "  -version          show awkjit version and exit"]

def helpText : Bytes :=
  text "awkjit dev\n\n" ++ usage ++ text "\n\n" ++ helpLines.flatMap fun l => text l ++ [10]

def versionText : Bytes := "awkjit version dev\n  commit: none\n  built:  unknown\n  regex:  coregex\n"

/-- The built-in programs, the names in a column of six characters. -/
def programList : Bytes :=
  Samples.all.flatMap fun s =>
    s.name ++ List.replicate (6 - s.name.length) 32 ++ text " " ++ s.usage ++ text "\n"

/-! ## Flags -/

inductive UsageError where
  | missingArgument (flag : Bytes)
  | undefinedFlag (flag : Bytes)
  | badAssignment (s : Bytes)
  | notSettable (name : Bytes)
  | badStackSize (s : Bytes)
  | noProgram
  | unknownProgram (name : Bytes)
  deriving DecidableEq, Repr

def UsageError.message : UsageError → Bytes
  | .missingArgument flag => "flag needs an argument: " ++ flag
  | .undefinedFlag flag => "flag provided but not defined: " ++ flag
  | .badAssignment s => "invalid variable assignment: " ++ s ++ " (expected var=value)"
  | .notSettable name => "cannot assign " ++ name ++ ": only FS, OFS and ORS are settable"
  | .badStackSize s => "invalid stack size: " ++ s
  | .noProgram => usage
  | .unknownProgram name => "unknown program " ++ Quoted.encode name ++ " (try -l)"

/-- Why flags are not read any further. -/
inductive Halt where
  | refused (e : UsageError)
  | answered (output : Bytes)
  deriving DecidableEq, Repr

structure Flags where
  config : Config := {}
  showCode : Bool := false
  showProgram : Bool := false
  deriving DecidableEq, Repr

def assign (s : Bytes) (c : Config) : Except Halt Config :=
  if !s.has 61 then .error (.refused (.badAssignment s))
  else
    let name := s.takeWhile (· ≠ 61)
    let value := (s.dropWhile (· ≠ 61)).drop 1
    if name = text "OFS" then .ok { c with ofs := value }
    else if name = text "ORS" then .ok { c with ors := value }
    else if name = text "FS" then .ok { c with fs := value }
    else .error (.refused (.notSettable name))

def setStack (s : Bytes) (c : Config) : Except Halt Config :=
  match Literal.int? s with
  | some n => if n < 1 then .error (.refused (.badStackSize s)) else .ok { c with stackSize := n.toInt }
  | none => .error (.refused (.badStackSize s))

/-- What a flag with a value does, by the letter of the flag. -/
def valued? (letter : UInt8) : Option (Bytes → Config → Except Halt Config) :=
  if letter = Bytes.ofChar 'F' then some fun v c => .ok { c with fs := v }
  else if letter = Bytes.ofChar 'v' then some assign
  else if letter = Bytes.ofChar 'b' then some fun v c => .ok { c with outputBuffer := v }
  else if letter = Bytes.ofChar 's' then some setStack
  else none

def plain? (flag : Bytes) (f : Flags) : Option (Except Halt Flags) :=
  if flag = text "-l" then some (.error (.answered programList))
  else if flag = text "-da" then some (.ok { f with showCode := true })
  else if flag = text "-di" then some (.ok { f with showProgram := true })
  else if flag = text "-t" then some (.ok { f with config := { f.config with trace := true } })
  else if flag = text "--posix" then some (.ok { f with config := { f.config with longest := some true } })
  else if flag = text "--no-posix" then some (.ok { f with config := { f.config with longest := some false } })
  else if flag = text "-h" ∨ flag = text "--help" then some (.error (.answered helpText))
  else if flag = text "-version" ∨ flag = text "--version" then some (.error (.answered versionText))
  else none

/-- Whether an argument ends the flags, being none itself. -/
def endsFlags (arg : Bytes) : Bool := arg == text "-" || !Bytes.startsWith arg "-"

def readFlags : Flags → List Bytes → Except Halt (Flags × List Bytes)
  | f, [] => .ok (f, [])
  | f, arg :: rest =>
    if arg = text "--" then .ok (f, rest)
    else if endsFlags arg then .ok (f, arg :: rest)
    else match plain? arg f with
      | some r => do readFlags (← r) rest
      | none => match arg with
        | _ :: letter :: attached => match valued? letter with
          | none => .error (.refused (.undefinedFlag arg))
          | some set =>
            if attached.isEmpty then match rest with
              | [] => .error (.refused (.missingArgument arg))
              | v :: rest => do readFlags { f with config := ← set v f.config } rest
            else do readFlags { f with config := ← set attached f.config } rest
        | _ => .error (.refused (.undefinedFlag arg))

/-! ## Tasks -/

/-- A built-in program to be run. -/
structure Task where
  flags : Flags
  program : Program

def Task.config (t : Task) : Config := t.flags.config

/-- The files that the task reads; none for the standard input. -/
def Task.files (t : Task) : List Bytes := t.flags.config.args

def parse (args : List Bytes) : Except Halt Task := do
  match ← readFlags {} args with
  | (_, []) => throw (.refused .noProgram)
  | (f, name :: files) => match Samples.find? name with
    | none => throw (.refused (.unknownProgram name))
    | some s => return { flags := { f with config := { f.config with args := files } }, program := s.program }

/-! ## Running -/

structure Outcome where
  exit : Nat := 0
  stdout : Bytes := []
  stderr : Bytes := []
  disk : Disk

def complaint (message : Bytes) : Bytes := "awkjit: " ++ message ++ "\n"

def Halt.outcome (h : Halt) (disk : Disk) : Outcome :=
  match h with
  | .refused e => { exit := 1, stderr := complaint e.message, disk }
  | .answered output => { stdout := output, disk }

def Task.runCompiled (t : Task) (fuel : Nat) (env : Environment) (disk : Disk) (input : Bytes) (traced : Bytes)
    (x : Executable) : Outcome :=
  let input := if t.files.isEmpty then some input else none
  let (events, result) := x.run fuel t.config env { disk, sink := { takesTexts := true } } input
  let stderr := traced ++ t.config.traceText env events
  match result with
  | .error e => match e.message? with
    | some m => { exit := 1, stderr := stderr ++ complaint m, disk }
    | none => { exit := 2, stderr, disk }
  | .ok r =>
    let stdout := r.context.world.sink.content
    match r.message? with
    | none => { stdout, stderr, disk := r.context.world.disk }
    | some m => { exit := 1, stdout, stderr := stderr ++ complaint m, disk := r.context.world.disk }

def Task.run (t : Task) (fuel : Nat) (env : Environment) (disk : Disk) (input : Bytes) : Outcome :=
  if t.flags.showProgram then { stderr := t.program.listing, disk }
  else
    let (events, result) := t.program.prepare t.config env
    let traced := t.config.traceText env events
    match result with
    | .error e => { exit := 1, stderr := traced ++ complaint (e.message?.getD []), disk }
    | .ok x =>
      if t.flags.showCode then { stderr := traced ++ x.module.listing?.getD [], disk }
      else t.runCompiled fuel env disk input traced x

def run (fuel : Nat) (args : List Bytes) (env : Environment) (disk : Disk) (input : Bytes) : Outcome :=
  match parse args with
  | .error h => h.outcome disk
  | .ok t => t.run fuel env disk input

end RecordMill.CommandLine

import RecordMill.Format.Sprintf
import RecordMill.Host.Disk
import RecordMill.Host.Shell.Tools

/-!
# Commands

What a single command does once its words are known: the commands of the shell itself, the ones that
change files, and the text tools. A name that belongs to none of them ends with status 127.
-/

namespace RecordMill.Shell

structure State where
  disk : Disk
  input : Bytes
  output : Buffer := .empty
  errors : Buffer := .empty
  vars : List (Bytes × Bytes) := []
  status : Nat := 0
  exited : Bool := false
  signal : Option Nat := none

namespace State

def say (st : State) (s : Bytes) (status : Nat) : State := { st with output := st.output.push s, status }

def fail (st : State) (status : Nat) : State := { st with status }

def stop (st : State) (status : Nat) : State := { st with status, exited := true }

def var? (st : State) (name : Bytes) : Option Bytes := st.vars.lookup name

def assign (st : State) (name value : Bytes) : State :=
  { st with vars := (name, value) :: st.vars.filter (·.1 ≠ name) }

def restore (st : State) (name : Bytes) (old : Option Bytes) : State :=
  match old with
  | some value => st.assign name value
  | none => { st with vars := st.vars.filter (·.1 ≠ name) }

end State

/-! ## Signals -/

/-- What stands for the number of the shell's own process. -/
def self : Bytes := "4242"

/-- The names of the signals from 1 on; the sixteenth has none. -/
def signals : List Bytes :=
  ["HUP", "INT", "QUIT", "ILL", "TRAP", "ABRT", "BUS", "FPE", "KILL", "USR1", "SEGV", "USR2", "PIPE", "ALRM", "TERM",
    "", "CHLD", "CONT", "STOP", "TSTP", "TTIN", "TTOU", "URG", "XCPU", "XFSZ", "VTALRM", "PROF", "WINCH", "IO",
    "PWR", "SYS"]

def ignored : List Nat := [0, 17, 18, 23, 28]

def signal? (s : Bytes) : Option Nat :=
  if s.isEmpty then none
  else if s.all Bytes.isDigit then
    if Bytes.value 10 s ≤ 64 then some (Bytes.value 10 s) else none
  else (signals.idxOf? (s.map Bytes.toUpper)).map (· + 1)

def sending? : List Bytes → Option (Nat × List Bytes)
  | (45 :: 115 :: []) :: s :: targets => (signal? s).map (·, targets)
  | (45 :: s) :: targets => (signal? s).map (·, targets)
  | targets => some (15, targets)

def kill (st : State) (args : List Bytes) : State :=
  match sending? args with
  | some (n, target :: _) =>
    if !target.all Bytes.isDigit then st.fail 2
    else if target ≠ self then st.fail 1
    else if ignored.contains n then st.fail 0
    else { st with signal := some n, exited := true }
  | _ => st.fail 2

/-! ## Text -/

/-- Backslashes filled in, and whether the text goes on after it. -/
def unescape : Nat → Bytes → Bytes × Bool
  | 0, _ | _, [] => ([], true)
  | fuel + 1, 92 :: c :: s =>
    if c = 99 then ([], false)
    else if 48 ≤ c ∧ c ≤ 55 then
      let ds := ((c :: s).take (if c = 48 then 4 else 3)).takeWhile fun d => 48 ≤ d ∧ d ≤ 55
      join [(Bytes.value 8 ds).toUInt8] (unescape fuel ((c :: s).drop ds.length))
    else if (text "abfnrtv\\").has c then join [Tools.escaped c] (unescape fuel s)
    else join [92, c] (unescape fuel s)
  | fuel + 1, b :: s => join [b] (unescape fuel s)
where
  join (s : Bytes) (r : Bytes × Bool) : Bytes × Bool := (s ++ r.1, r.2)

def echo (args : List Bytes) : Bytes :=
  let (args, ending) : List Bytes × Bytes := match args with
    | a :: rest => if a = text "-n" then (rest, []) else (args, [10])
    | [] => ([], [10])
  let line := Bytes.join [32] args
  let (s, whole) := unescape line.length line
  if whole then s ++ ending else s

def directives : Bytes → Nat
  | 37 :: 37 :: s => directives s
  | 37 :: s => directives s + 1
  | _ :: s => directives s
  | [] => 0

/-- A format is used again while there are arguments. -/
def formatted (format : Bytes) (args : List Bytes) : Bytes :=
  let format := (unescape format.length format).1
  let group := directives format
  let rounds := if group = 0 then 1 else max 1 ((args.length + group - 1) / group)
  (List.range rounds).flatMap fun i =>
    Format.sprintf format (((args.drop (i * group)).take group).map Format.Arg.str)

/-! ## Reading a line -/

/-- A line, what follows it, and whether it had an end. A backslash keeps what follows it, unless lines
are taken as they are. -/
def readLine (raw : Bool) : Bytes → Bytes × Bytes × Bool
  | [] => ([], [], false)
  | 10 :: s => ([], s, true)
  | 92 :: c :: s =>
    let (line, rest) := readLine raw s
    if raw then
      if c = 10 then ([92], s, true) else (92 :: c :: line, rest)
    else (if c = 10 then line else c :: line, rest)
  | b :: s =>
    let (line, rest) := readLine raw s
    (b :: line, rest)

def assignWords (separators : Bytes) : List Bytes → Bytes → State → State
  | [], _, st => st
  | [name], line, st =>
    st.assign name ((line.dropWhile blank).reverse.dropWhile blank).reverse
  | name :: more, line, st =>
    let line := line.dropWhile blank
    let rest := (line.dropWhile (!separators.has ·)).dropWhile blank
    let rest := match rest with
      | b :: s => if separators.has b then s else rest
      | [] => []
    assignWords separators more rest (st.assign name (line.takeWhile (!separators.has ·)))
where
  blank (b : UInt8) : Bool := Bytes.isSpace b && separators.has b

def read (st : State) (args : List Bytes) : State :=
  let p := Tools.Args.parse [] args
  let (line, rest, whole) := readLine (p.has 114) st.input
  let st := assignWords ((st.var? "IFS").getD " \t\n") p.operands line { st with input := rest }
  st.fail (if whole then 0 else 1)

/-! ## Conditions -/

def integer? (s : Bytes) : Option Int :=
  match s with
  | 45 :: ds => if !ds.isEmpty && ds.all Bytes.isDigit then some (-(Bytes.value 10 ds : Nat)) else none
  | ds => if !ds.isEmpty && ds.all Bytes.isDigit then some (Bytes.value 10 ds : Nat) else none

def comparison? (op : Bytes) : Option (Int → Int → Bool) :=
  List.lookup op [("-eq", (· == ·)), ("-ne", (· != ·)), ("-lt", (· < ·)), ("-le", (· ≤ ·)), ("-gt", (· > ·)),
    ("-ge", (· ≥ ·))]

def unary? (d : Disk) (op a : Bytes) : Option Bool :=
  if op = text "!" then some a.isEmpty
  else if op = text "-n" then some !a.isEmpty
  else if op = text "-z" then some a.isEmpty
  else if op = text "-e" then some (d.openRead a).isOk
  else if op = text "-f" then some ((d.locate a).toOption.any fun l => (d.file? l).isSome)
  else if op = text "-d" then some ((d.locate a).toOption.any d.isDirectory)
  else if op = text "-s" then some ((d.read? a).any (!·.isEmpty))
  else none

/-- What a condition says; `none` if it is not one. -/
def condition? (d : Disk) : List Bytes → Option Bool
  | [] => some false
  | [a] => some !a.isEmpty
  | [op, a] => unary? d op a
  | [a, op, b] =>
    if op = text "=" then some (a == b)
    else if op = text "!=" then some (a != b)
    else match comparison? op with
      | some f => do return f (← integer? a) (← integer? b)
      | none => if a = text "!" then (unary? d op b).map (!·) else none
  | a :: rest => if a = text "!" then (condition? d rest).map (!·) else none

def test (st : State) (args : List Bytes) : State :=
  match condition? st.disk args with
  | some true => st.fail 0
  | some false => st.fail 1
  | none => st.fail 2

/-! ## Tools -/

/-- A tool that reads the files it is given, or else its standard input. -/
structure Filter where
  files : List Bytes
  apply : Bytes → Bytes × Nat
  missing : Nat := 1

open Tools in
def filter? (name : Bytes) (args : List Bytes) : Option Filter :=
  let plain (valued : Bytes) (f : Args → Bytes → Bytes) : Option Filter :=
    let p := Args.parse valued args
    some { files := p.operands, apply := fun s => (f p s, 0) }
  let scripted (missing : Nat) (f : Args → Bytes → Bytes → Bytes × Nat) : Option Filter :=
    let p := Args.parse "e" args
    match p.values, p.operands with
    | [], [] => some { files := [], apply := fun _ => ([], missing) }
    | [], script :: files => some { files, apply := f p script, missing }
    | scripts, files => some { files, apply := f p (Bytes.join [10] (scripts.map (·.2))), missing }
  if name = text "cat" then plain "" cat
  else if name = text "sort" then (plain "kto" sort).map ({ · with missing := 2 })
  else if name = text "uniq" then plain "fsw" uniq
  else if name = text "head" then plain "nc" head
  else if name = text "tail" then plain "nc" tail
  else if name = text "cut" then plain "cbdf" cut
  else if name = text "rev" then plain "" fun _ s => mapLines (·.map List.reverse) s
  else if name = text "tac" then plain "" fun _ s => (wholeLines s).reverse.flatten
  else if name = text "nl" then plain "" fun _ s => unlines (numberLines 1 (lines s))
  else if name = text "wc" then
    plain "" fun p s => wordCount p (if p.operands.isEmpty then 7 else (Bytes.decimal s.length).length) s
      ++ (match p.operands with
        | file :: _ => 32 :: file
        | [] => []) ++ [10]
  else if name = text "tr" then
    some { files := [], apply := fun s => (replaceChars (Args.parse [] args) s, 0) }
  else if name = text "grep" then scripted 2 grep
  else if name = text "sed" then scripted 1 sed
  else none

/-- What a tool reads: a hyphen is the standard input. -/
def gather (st : State) (files : List Bytes) : Bytes × Bool × Bytes :=
  if files.isEmpty then (st.input, true, [])
  else
    let (parts, good, input) := files.foldl (fun (parts, good, input) file =>
      if file = text "-" then (parts.push input, good, [])
      else match st.disk.read? file with
        | some s => (parts.push s, good, input)
        | none => (parts, false, input)) (Buffer.empty, true, st.input)
    (parts.bytes, good, input)

def runFilter (st : State) (f : Filter) : State :=
  let (s, good, input) := gather st f.files
  let st := { st with input }
  if !good && f.missing == 2 then st.fail 2
  else
    let (out, status) := f.apply s
    st.say out (if good then status else f.missing)

/-! ## Files -/

/-- Writes a text into a file; fails if it cannot. -/
def store? (d : Disk) (path : Bytes) (append : Bool) (s : Bytes) : Option Disk :=
  match d.openWrite path append with
  | .ok (.file l, d) => some (d.write l append 0 s)
  | .ok (.full, d) => if s.isEmpty then some d else none
  | .ok (_, d) => some d
  | .error _ => none

def storeAll (st : State) (append : Bool) (s : Bytes) (paths : List Bytes) : State :=
  paths.foldl (fun st path => match store? st.disk path append s with
    | some disk => { st with disk }
    | none => st.fail 1) (st.fail 0)

def remove (st : State) (force : Bool) (paths : List Bytes) : State :=
  paths.foldl (fun st path =>
    match (st.disk.locate path).toOption.filter fun l => (st.disk.file? l).isSome with
    | some l => { st with disk := { st.disk with files := st.disk.files.filter (·.1 ≠ l) } }
    | none => if force then st else st.fail 1) (st.fail 0)

def copy (st : State) (source target : Bytes) : State :=
  match st.disk.read? source with
  | some s => storeAll st false s [target]
  | none => st.fail 1

def makeDirectory (st : State) (path : Bytes) : State :=
  match st.disk.locate path with
  | .ok l =>
    if st.disk.isDirectory l || (st.disk.file? l).isSome then st.fail 1
    else { st with disk := { st.disk with directories := st.disk.directories ++ [l] }, status := 0 }
  | .error _ => st.fail 1

/-! ## By name -/

/-- The status to leave with: only its last eight bits are kept. -/
def exitCode (last : Nat) : List Bytes → Nat
  | [] => last
  | n :: _ =>
    if !n.isEmpty && n.all Bytes.isDigit && Bytes.value 10 n ≤ 0x7fffffff then Bytes.value 10 n % 256 else 2

/-- A command that neither ends the shell nor runs another. -/
def perform (st : State) (name : Bytes) (args : List Bytes) : State :=
  let p := Tools.Args.parse [] args
  if name = text ":" ∨ name = text "true" ∨ name = text "wait" ∨ name = text "sleep" ∨ name = text "export" then
    (args.foldl (fun st a => match Bytes.cutAt 61 a with
      | name :: value :: more => st.assign name (Bytes.join [61] (value :: more))
      | _ => st) st).fail 0
  else if name = text "false" then st.fail 1
  else if name = text "echo" then st.say (echo args) 0
  else if name = text "printf" then
    match args with
    | format :: rest => st.say (formatted format rest) 0
    | [] => st.fail 2
  else if name = text "read" then read st args
  else if name = text "unset" then args.foldl (·.restore · none) (st.fail 0)
  else if name = text "test" then test st args
  else if name = text "[" then
    if args.getLast? = some (text "]") then test st args.dropLast else st.fail 2
  else if name = text "kill" then kill st args
  else if name = text "tee" then
    (storeAll { st with input := [] } (p.has 97) st.input p.operands).say st.input 0
  else if name = text "touch" then storeAll st true [] p.operands
  else if name = text "rm" then remove st (p.has 102) p.operands
  else if name = text "cp" ∨ name = text "mv" then
    match p.operands with
    | [source, target] =>
      let copied := copy st source target
      if name = text "mv" ∧ copied.status = 0 then remove copied false [source] else copied
    | _ => st.fail 1
  else if name = text "mkdir" then p.operands.foldl makeDirectory st
  else if name = text "seq" then
    match args.mapM integer? with
    | some ns => st.say (Tools.unlines (Tools.sequence ns)) 0
    | none => st.fail 1
  else match filter? name args with
    | some f => runFilter st f
    | none => st.fail (if name.has 47 && (st.disk.openRead name).isOk then 126 else 127)

end RecordMill.Shell

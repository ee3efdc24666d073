import RecordMill.Host.Shell.Commands
import RecordMill.Host.Shell.Script

/-!
# Command lines behind pipes

Runs a script: fills in its words, sends its output where redirections say, and hands every command to
`perform`. A line that is not a script ends with status 2.
-/

namespace RecordMill.Shell

/-! ## Filling in words -/

/-- Variables, and a few values that the shell keeps itself. -/
def valueOf (st : State) (name : Bytes) : Bytes :=
  if name = text "?" then Bytes.decimal st.status
  else if name = text "$" then self
  else if name = text "#" then text "0"
  else if name = text "0" then text "/bin/sh"
  else
    let plain : Bytes := name.takeWhile isNamePart
    match st.var? plain, name.drop plain.length with
    | some value, 58 :: 45 :: fallback => if value.isEmpty then fallback else value
    | none, 58 :: 45 :: fallback | none, 45 :: fallback => fallback
    | value, _ => value.getD []

/-- Words being put together: the finished ones, and the one begun, both in reverse. -/
structure Fields where
  done : List Bytes := []
  current : Option Bytes := none

namespace Fields

def finish (f : Fields) : Fields :=
  match f.current with
  | some w => { done := w.reverse :: f.done }
  | none => f

def add (f : Fields) (b : UInt8) : Fields := { f with current := some (b :: f.current.getD []) }

def append (f : Fields) (quoted : Bool) (s : Bytes) : Fields :=
  s.foldl (fun f b => if !quoted && (isBlank b || b == 10) then f.finish else f.add b) f

def toList (f : Fields) : List Bytes := f.finish.done.reverse

end Fields

/-- `go` runs a command line whose output is wanted. -/
def expandPiece (go : Bytes → State → Bytes × State) : Fields × State → Piece → Fields × State
  | (f, st), .char b _ => (f.add b, st)
  | (f, st), .quotes => ({ f with current := some (f.current.getD []) }, st)
  | (f, st), .param name quoted => (f.append quoted (valueOf st name), st)
  | (f, st), .command line quoted =>
    let (out, st) := go line st
    (f.append quoted (out.reverse.dropWhile (· == 10)).reverse, st)

def expandWords (go : Bytes → State → Bytes × State) (ws : List Word) (st : State) : List Bytes × State :=
  let (fs, st) := ws.foldl (fun (acc, st) w =>
    let (f, st) := w.foldl (expandPiece go) ({}, st)
    (acc ++ f.toList, st)) ([], st)
  (fs, st)

def expandWhole (go : Bytes → State → Bytes × State) (w : Word) (st : State) : Bytes × State :=
  let (fs, st) := expandWords go [w] st
  (Bytes.join [32] fs, st)

/-! ## Redirections -/

/-- Where the output of a number goes. -/
inductive Destination where
  | output
  | errors
  | nowhere
  | full
  | file (l : Location) (append : Bool)

/-- How a command is connected. -/
structure Streams where
  input : Option Bytes := none
  output : Destination := .output
  errors : Destination := .errors

def Streams.redirect (s : Streams) (fd : Nat) (dest : Destination) : Streams :=
  if fd = 1 then { s with output := dest } else if fd = 2 then { s with errors := dest } else s

/-- Follows one redirection; `none` if it fails. -/
def connect (fd : Nat) (direction : Direction) (target : Bytes) (s : Streams) (st : State) :
    Option (Streams × State) :=
  match direction with
  | .reading => (st.disk.read? target).map fun text => ({ s with input := some text }, st)
  | .same =>
    if target = text "1" then some (s.redirect fd s.output, st)
    else if target = text "2" then some (s.redirect fd s.errors, st)
    else if target = text "-" then some (s.redirect fd .full, st)
    else if target = text "0" then some (s, st)
    else none
  | .into | .onto =>
    match st.disk.openWrite target (direction = .onto) with
    | .ok (.file l, disk) => some (s.redirect fd (.file l (direction = .onto)), { st with disk })
    | .ok (.full, disk) => some (s.redirect fd .full, { st with disk })
    | .ok (_, disk) => some (s.redirect fd .nowhere, { st with disk })
    | .error _ => none

/-- Puts what has been written where it belongs. What does not fit is an error of the command. -/
def deliver (st : State) (s : Bytes) : Destination → State
  | .output => { st with output := st.output.push s }
  | .errors => { st with errors := st.errors.push s }
  | .nowhere => st
  | .full => if s.isEmpty then st else st.fail 1
  | .file l append => { st with disk := st.disk.write l append ((st.disk.file? l).getD .empty).size s }

/-! ## Running -/

/-- A part of a script that cannot change the variables of the rest, nor end it except by a signal. -/
def isolated (f : State → State) (st : State) : State :=
  let st' := f st
  { st' with vars := st.vars, exited := st'.signal.isSome }

def endOf (st : State) : Status := (st.signal.map Status.killed).getD (.exited st.status)

def nested (go : Bytes → State → State) (line : Bytes) (st : State) : State :=
  let st' := go line st
  { st' with
    vars := st.vars, exited := false, signal := none
    status := (st'.signal.map (128 + ·)).getD st'.status }

/-- A command with its words filled in. `go` runs a command line. -/
def invoke (go : Bytes → State → State) (st : State) : List Bytes → State
  | [] => st
  | name :: args =>
    if name = text "exit" then st.stop (exitCode st.status args)
    else if name = text "eval" then go (Bytes.join [32] args) st
    else if name = text "exec" then
      match args with
      | [] => st.fail 0
      | name :: args =>
        let st := perform st name args
        st.stop st.status
    else if name = text "sh" ∨ name = text "/bin/sh" then
      match args with
      | _ :: line :: _ => nested go line st
      | _ => nested go st.input { st with input := [] }
    else perform st name args

mutual

/-- Runs a script; `fuel` bounds how deep and how long. -/
def run : Nat → Script → State → State
  | 0, _, st => st.stop 2
  | fuel + 1, script, st =>
    let line (s : Bytes) (st : State) : State :=
      match Script.parse? s with
      | some a => run fuel a st
      | none => st.stop 2
    let captured (s : Bytes) (st : State) : Bytes × State :=
      let st' := isolated (line s) { st with output := .empty }
      (st'.output.bytes, { st' with output := st.output })
    if st.exited then st
    else match script with
      | .skip => st
      | .simple assigned words =>
        let (words, st) := expandWords captured words st
        let before := assigned.map fun (name, _) => (name, st.var? name)
        let st := assigned.foldl (fun st (name, w) =>
          let (value, st) := expandWhole captured w st
          st.assign name value) (if words.isEmpty then st.fail 0 else st)
        if words.isEmpty then st
        else before.foldl (fun st (name, old) => st.restore name old) (invoke line st words)
      | .redirected a rs =>
        let connected := rs.foldl (fun acc r => acc.bind fun (s, st) =>
          let (target, st) := expandWhole captured r.target st
          connect r.fd r.direction target s st) (some (({} : Streams), st))
        match connected with
        | none => st.fail 2
        | some (s, st) =>
          let st' := run fuel a { st with input := s.input.getD st.input, output := .empty, errors := .empty }
          let back := { st' with
            input := if s.input.isSome then st.input else st'.input
            output := st.output, errors := st.errors }
          deliver (deliver back st'.output.bytes s.output) st'.errors.bytes s.errors
      | .pipe a b =>
        let left := isolated (run fuel a) { st with output := .empty }
        let right := isolated (run fuel b) { left with input := left.output.bytes, output := st.output }
        { right with input := left.input }
      | .inverted a =>
        let st := run fuel a st
        if st.exited then st else st.fail (if st.status = 0 then 1 else 0)
      | .seq a b => run fuel b (run fuel a st)
      | .andThen a b =>
        let st := run fuel a st
        if st.status = 0 then run fuel b st else st
      | .orElse a b =>
        let st := run fuel a st
        if st.status = 0 then st else run fuel b st
      | .subshell a => isolated (run fuel a) st
      | .choice cond yes no =>
        let st := run fuel cond st
        if st.exited then st
        else if st.status = 0 then run fuel yes st
        else run fuel no (st.fail 0)
      | .loop stop cond body => rounds fuel stop cond body 0 st
      | .each name words body =>
        let (values, st) := expandWords captured words st
        values.foldl (fun st value => run fuel body (st.assign name value)) (st.fail 0)

/-- The rounds of a loop; `last` is the status of the last one. -/
def rounds : Nat → Bool → Script → Script → Nat → State → State
  | 0, _, _, _, _, st => st.stop 2
  | fuel + 1, stop, cond, body, last, st =>
    let st := run fuel cond st
    if st.exited then st
    else if (st.status == 0) == stop then st.fail last
    else
      let st := run fuel body st
      if st.exited then st else rounds fuel stop cond body st.status st

end

/-- More steps than any command line that ends is known to need. -/
def maxSteps : Nat := 1000000

/-- The output of a command line that reads `input`, how it ended, and the disk after it. -/
def runLine (disk : Disk) (line input : Bytes) : Bytes × Status × Disk :=
  let st : State := { disk, input }
  let st := match Script.parse? line with
    | some a => run maxSteps a st
    | none => st.stop 2
  (st.output.bytes, endOf st, st.disk)

end RecordMill.Shell

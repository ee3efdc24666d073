import RecordMill.Lowering.Compile
import RecordMill.Run.Config
import RecordMill.Run.Event
import RecordMill.Service.Meaning

/-!
# Running a program

A run calls the main function in a fresh context, gives back its result, and closes the context whatever
happened before.
-/

namespace RecordMill

open Machine (Trap Instance)

/-! ## Compiling under a configuration -/

inductive StartError where
  | config (e : ConfigError)
  | compile (e : CompileError)
  /-- There is no memory for a stack or a buffer of the size asked for. -/
  | noMemory
  deriving DecidableEq, Repr

def StartError.message? : StartError → Option Bytes
  | .config e => some e.message
  | .compile e => e.message?
  | .noMemory => none

def Program.globalBytes (p : Program) : Nat := p.globals.foldr (fun g n => (if g.ty = .str then 16 else 8) + n) 0

def Compilation.events (c : Compilation) (p : Program) : List Event :=
  (p.funcs.take c.lowered).map (fun f => .lowered f.name f.body.length f.params.length f.ret)
    ++ match c.result with
      | .ok x => [.finalized p.funcs.length x.module.data.size x.literals.length p.globalBytes]
      | .error _ => []

def Program.prepare (p : Program) (config : Config) (env : Environment) :
    List Event × Except StartError Executable :=
  match config.resolve env with
  | .error e => ([], .error (.config e))
  | .ok _ =>
    let c := p.compilation
    (c.events p, c.result.mapError .compile)

/-! ## One run -/

/-- How the main function ended. -/
inductive Ending where
  | returned
  | trapped (t : Trap)
  | outOfFuel
  deriving DecidableEq, Repr

structure Report where
  ending : Ending
  /-- What went wrong while the outputs were closed. -/
  failures : List Failure
  holdings : Holdings
  context : Context

namespace Report

def problems (r : Report) : List Bytes :=
  (match r.ending with
    | .trapped t => [t.message]
    | .returned | .outOfFuel => []) ++ r.failures.map Failure.message

/-- The text of what went wrong, a line for each problem. -/
def message? (r : Report) : Option Bytes :=
  match r.problems with
  | [] => none
  | ps => some ("runtime error: " ++ Bytes.join "\n" ps)

def events (r : Report) (buffer : Nat) : List Event :=
  let heap := r.context.heap
  r.context.incidents.map .incident ++
    [.closing r.holdings, .finished heap.live heap.destroyed r.context.noted.length buffer]

end Report

def Context.holdings (c : Context) : Holdings :=
  { patterns := c.patterns.size, outputs := c.outputs.size, inputs := Cache.size c.reads
    incidents := c.noted.length }

/-- Closes a context; a fault on the way leaves it half closed. -/
def Context.close (c : Context) : List Failure × Context :=
  match Act.close c with
  | (.ok failures, c) => (failures, c)
  | (.error _, c) => ([], c)

def Executable.dropResult (x : Executable) (words : List UInt64) (c : Context) : Context :=
  match x.mainRet, words with
  | .str, [lo, hi] => (Act.change (·.dropStr ⟨lo, hi⟩) c).2
  | .map .., [handle] => (Act.change (·.drop handle) c).2
  | _, _ => c

def Executable.callMain (x : Executable) (fuel : Nat) (inst : Instance Service Context) : Ending × Context :=
  match inst.call Service.perform fuel x.main [0] with
  | (.returned words, inst) => (.returned, x.dropResult words inst.outside.host)
  | (.trapped t, inst) => (.trapped t, inst.outside.host)
  | (.outOfFuel, inst) => (.outOfFuel, inst.outside.host)
  | (_, inst) => (.trapped { code := .host }, inst.outside.host)

def Executable.execute (x : Executable) (fuel : Nat) (inst : Instance Service Context) : Report :=
  let (ending, c) := x.callMain fuel inst
  let holdings := c.holdings
  let (failures, context) := c.close
  { ending, failures, holdings, context }

def Options.settings (o : Options) (literals : List Bytes) (input : Option Bytes) (capacity : Nat) : Settings :=
  { literals, input, capacity, args := o.args, fs := o.fs, ofs := o.ofs, ors := o.ors, longest := o.longest }

def Executable.run (x : Executable) (fuel : Nat) (config : Config) (env : Environment) (world : World)
    (input : Option Bytes) : List Event × Except StartError Report :=
  match config.resolve env with
  | .error e => ([], .error (.config e))
  | .ok o => match o.bufferBytes with
    | .error e => ([], .error (.config e))
    | .ok capacity =>
      let c := Context.ofSettings (o.settings x.literals input capacity) world
      match Instance.ofModule x.module c o.stackSize.toInt64 with
      | .error _ => ([], .error .noMemory)
      | .ok inst =>
        if Writer.maxCapacity < capacity then ([], .error .noMemory)
        else
          let r := x.execute fuel inst
          (r.events capacity, .ok r)

/-! ## Several runs -/

/-- What has come of several runs: what was told, how each run ended, and the files they left. -/
structure Session where
  events : List Event := []
  reports : List (Except StartError Report) := []
  disk : Disk

def Session.noMemory (s : Session) : Bool :=
  s.reports.any fun
    | .error .noMemory => true
    | _ => false

/-- One more run, in the files that the runs before it left. -/
def Session.add (s : Session) (x : Except StartError Executable) (fuel : Nat) (config : Config) (env : Environment)
    (sink : Sink) (input : Option Bytes) : Session :=
  match x with
  | .error e => { s with reports := s.reports ++ [.error e] }
  | .ok x => match x.run fuel config env { disk := s.disk, sink } input with
    | (events, .error e) => { s with events := s.events ++ events, reports := s.reports ++ [.error e] }
    | (events, .ok r) =>
      { events := s.events ++ events, reports := s.reports ++ [.ok r], disk := r.context.world.disk }

def Program.runAll (p : Program) (fuel : Nat) (config : Config) (env : Environment) (world : World)
    (inputs : List (Option Bytes)) : Except StartError Session :=
  match p.prepare config env with
  | (_, .error e) => .error e
  | (events, .ok x) =>
    .ok (inputs.foldl (fun s i => s.add (.ok x) fuel config env world.sink i) { events, disk := world.disk })

/-- Compiles anew for every input; a program that does not compile fails every run. -/
def Program.runEach (p : Program) (fuel : Nat) (config : Config) (env : Environment) (world : World)
    (inputs : List (Option Bytes)) : Session :=
  let (events, x) := p.prepare config env
  inputs.foldl (fun s i => { s with events := s.events ++ events }.add x fuel config env world.sink i)
    { disk := world.disk }

def Config.traceText (config : Config) (env : Environment) (events : List Event) : Bytes :=
  match config.resolve env with
  | .ok o => if o.trace then events.flatMap Event.line else []
  | .error _ => []

end RecordMill

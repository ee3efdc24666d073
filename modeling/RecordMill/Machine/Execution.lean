import RecordMill.Machine.Memory
import RecordMill.Machine.Module
import RecordMill.Machine.Word

/-!
# Running a module

The state of a call is a stack of frames over a memory and whatever the host keeps. `step` executes one
step of the innermost frame, so that a run is a sequence of states; fuel only bounds their number.
-/

namespace RecordMill.Machine

/-- What lies outside the frames. `σ` is the state of the host. -/
structure Outside (σ : Type) where
  memory : Memory
  host : σ

/-- A host function; what it has done stays done when it traps. -/
abbrev HostM (σ : Type) := ExceptT Trap (StateM (Outside σ))

/-- The argument of a host function that is used at index `i`. -/
def HostM.argument {σ : Type} (args : List UInt64) (i : Nat) : HostM σ UInt64 :=
  match args[i]? with
  | some w => return w
  | none => throw (.outOfRange i args.length)

/-! ## Frames -/

structure Frame where
  func : FuncId
  blocks : Array CodeBlock
  block : BlockId
  steps : List Step
  exit : Exit
  words : Array UInt64
  stack : UInt64
  /-- Where the results go in the frame of the caller. -/
  results : Nat

namespace Frame

def read (ws : Array UInt64) (i : Nat) : UInt64 := ws.getD i 0

/-- A word that need not be in the frame, since some kinds have no words. -/
def read? (ws : Array UInt64) (i : Nat) : Except Trap UInt64 :=
  if h : i < ws.size then .ok ws[i] else .error (.outOfRange i ws.size)

/-- A result that need not have a place in the frame. -/
def put (ws : Array UInt64) (i : Nat) (w : UInt64) : Except Trap (Array UInt64) :=
  if h : i < ws.size then .ok (ws.set i w h) else .error (.outOfRange i ws.size)

def readFrom (ws : Array UInt64) : Nat → Nat → List UInt64
  | _, 0 => []
  | at_, n + 1 => read ws at_ :: readFrom ws (at_ + 1) n

def readSpan (ws : Array UInt64) (s : Span) : List UInt64 := readFrom ws s.offset s.words

/-- Copies words to a place that they do not overlap. -/
def copyWords (ws : Array UInt64) (out source : Nat) : Nat → Array UInt64
  | 0 => ws
  | n + 1 =>
    let w := read ws source
    copyWords (ws.setIfInBounds out w) (out + 1) (source + 1) n

def readSpans (ws : Array UInt64) (ss : List Span) : List UInt64 := ss.flatMap (readSpan ws)

def writeAll (ws : Array UInt64) : Nat → List UInt64 → Array UInt64
  | _, [] => ws
  | at_, x :: xs => writeAll (ws.setIfInBounds at_ x) (at_ + 1) xs

def writeSpans (ws : Array UInt64) : List Span → List UInt64 → Array UInt64
  | [], _ => ws
  | s :: ss, xs => writeSpans (writeAll ws s.offset (xs.take s.words)) ss (xs.drop s.words)

/-- The first end behind a row of so many words, when spans follow one another from `at_` on. -/
def overrun? (size : Nat) : Nat → List Span → Option Nat
  | _, [] => none
  | at_, s :: ss => if size < at_ + s.words then some (at_ + s.words) else overrun? size (at_ + s.words) ss

/-- The words of `sources` pass through `scratch` to `targets`. There are more targets than sources when
the block got parameters after the jump was made. -/
def passArguments (ws : Array UInt64) (sources : List Span) (scratch : Nat) (targets : List Span) :
    Except Trap (Array UInt64) :=
  match overrun? ws.size scratch targets with
  | some stop => .error (.overrun stop ws.size)
  | none =>
    let ws := writeAll ws scratch (readSpans ws sources)
    .ok (writeSpans ws targets (readSpan ws ⟨scratch, Span.total targets⟩))

end Frame

/-! ## Steps inside a frame -/

def noCondition : Trap :=
  { code := .host, cause := text "runtime error: invalid memory address or nil pointer dereference" }

def Step.run (stack : UInt64) (ws : Array UInt64) (m : Memory) : Step → Except Trap (Array UInt64) × Memory
  | .const out imm => (.ok (ws.setIfInBounds out imm), m)
  | .pair out lo hi =>
    let ws := ws.setIfInBounds out (Frame.read ws lo)
    (.ok (ws.setIfInBounds (out + 1) (Frame.read ws hi)), m)
  | .int op narrow out x y =>
    (((if narrow then Word.int32 op else Word.int op) (Frame.read ws x) (Frame.read ws y)).map
      (ws.setIfInBounds out ·), m)
  | .shift op out x y => (.ok (ws.setIfInBounds out (Word.shift op (Frame.read ws x) (Frame.read ws y))), m)
  | .intUnary op narrow out x =>
    let r := Word.intUnary op (Frame.read ws x)
    (.ok (ws.setIfInBounds out (if narrow then Word.low r else r)), m)
  | .float op out x y => (.ok (ws.setIfInBounds out (Word.float op (Frame.read ws x) (Frame.read ws y))), m)
  | .floatUnary op out x => (.ok (ws.setIfInBounds out (Word.floatUnary op (Frame.read ws x))), m)
  | .icmp c narrow out x y =>
    let a := Frame.read ws x
    let b := Frame.read ws y
    let (a, b) := if narrow then (Word.signed32 a, Word.signed32 b) else (a, b)
    match c.holds? a.toInt64 b.toInt64 with
    | some r => (.ok (ws.setIfInBounds out (Word.ofBool r)), m)
    | none => (.error noCondition, m)
  | .fcmp c out x y => match c.holds? (Float.ofBits (Frame.read ws x)) (Float.ofBits (Frame.read ws y)) with
    | some r => (.ok (ws.setIfInBounds out (Word.ofBool r)), m)
    | none => (.error noCondition, m)
  | .bint out x =>
    let r := Frame.read ws x &&& 1
    (Frame.put ws out r, m)
  | .toInt narrow out x =>
    let r := (if narrow then Word.toInt32 else Word.toInt64) (Frame.read ws x)
    (Frame.put ws out r, m)
  | .ofInt narrow out x =>
    let a := Frame.read ws x
    (Frame.put ws out (Word.ofInt64 (if narrow then Word.signed32 a else a)), m)
  | .load out p off n => match Frame.read? ws p with
    | .ok a => ((m.loadAll (a + off) n).map (Frame.writeAll ws out), m)
    | .error t => (.error t, m)
  | .store x p off n => match Frame.read? ws p with
    | .ok a =>
      let (r, m) := m.storeAll (a + off) (Frame.readSpan ws ⟨x, n⟩)
      (r.map fun _ => ws, m)
    | .error t => (.error t, m)
  | .stackAddr out off => (Frame.put ws out (stack + off), m)
  | .copy out source n => (.ok (Frame.copyWords ws out source n), m)
  | .call .. => (.ok ws, m)

/-! ## Calls -/

structure State (σ : Type) where
  outside : Outside σ
  frames : List Frame

inductive Outcome (σ : Type) where
  | next (st : State σ)
  | done (results : List UInt64) (out : Outside σ)
  | trapped (t : Trap) (out : Outside σ)

def maxDepth : Nat := 10000

def Compiled.stackArea (c : Compiled) : Int64 := if c.machineCode.isSome then 0 else c.stackWords

/-- Machine code does not see the end of its frame, so there is room for all that it may touch. -/
def Compiled.frameSize (c : Compiled) : Nat :=
  if c.machineCode.isSome then 2 * c.frameWords + 1 else max c.frameWords 1

/-- The frame of a call, and the memory with its stack area. -/
def Compiled.enter (c : Compiled) (func : FuncId) (depth : Nat) (args : List UInt64) (results : Nat) (m : Memory) :
    Except Trap (Frame × Memory) :=
  if maxDepth ≤ depth then .error { code := .stackOverflow }
  else do
    let (stack, m) ← m.push c.stackArea
    let first := c.blocks.getD 0 default
    return ({
      func
      blocks := c.blocks
      block := 0
      steps := first.steps
      exit := first.exit
      words := Frame.writeSpans (Array.replicate c.frameSize 0) c.params args
      stack, results }, m)

namespace State

variable {ι σ : Type}

/-- Puts the results of a call into the frame below, or ends the run. -/
def deliver (results : List UInt64) (at_ : Nat) (out : Outside σ) : List Frame → Outcome σ
  | [] => .done results out
  | fr :: below => .next { outside := out, frames := { fr with words := Frame.writeAll fr.words at_ results } :: below }

/-- A call from the frame `fr`, which has its arguments at `scratch`. -/
def call (m : Module ι) (perform : ι → List UInt64 → HostM σ (List UInt64)) (callee : FuncId)
    (args : List UInt64) (results : Nat) (out : Outside σ) (frames : List Frame) : Outcome σ :=
  match m.funcs[callee]? with
  | none => .trapped { code := .host } out
  | some d => match d.host, d.compiled with
    | some f, _ => match (perform f args).run.run out with
      | (.ok rs, out) =>
        let room := Kind.total d.sig.returns
        if room < rs.length then .trapped (.outOfRange room room) out else deliver rs results out frames
      | (.error t, out) => .trapped t out
    | none, none => .trapped { code := .host } out
    | none, some c => match c.enter callee frames.length args results out.memory with
      | .ok (fr, memory) => .next { outside := { out with memory }, frames := fr :: frames }
      | .error t => .trapped t out

def step (m : Module ι) (perform : ι → List UInt64 → HostM σ (List UInt64)) (st : State σ) : Outcome σ :=
  match st with
  | ⟨out, []⟩ => .done [] out
  | ⟨out, ⟨func, blocks, block, s :: rest, exit, words, stack, results⟩ :: below⟩ =>
    match s with
    | .call callee scratch moves n dest =>
      let words := Frame.writeAll words scratch (Frame.readSpans words moves)
      let args := Frame.readSpan words ⟨scratch, n⟩
      call m perform callee args dest out (⟨func, blocks, block, rest, exit, words, stack, results⟩ :: below)
    | s => match out with
      | ⟨memory, host⟩ => match s.run stack words memory with
        | (.ok words, memory) =>
          .next ⟨⟨memory, host⟩, ⟨func, blocks, block, rest, exit, words, stack, results⟩ :: below⟩
        | (.error t, memory) => .trapped t ⟨memory, host⟩
  | ⟨out, ⟨func, blocks, _, [], exit, words, stack, results⟩ :: below⟩ =>
    match exit with
    | .jump dest sources scratch targets =>
      match Frame.passArguments words sources scratch targets with
      | .ok words =>
        let b := blocks.getD dest default
        .next ⟨out, ⟨func, blocks, dest, b.steps, b.exit, words, stack, results⟩ :: below⟩
      | .error t => .trapped t out
    | .branch cond dest alt => match Frame.read? words cond with
      | .ok w =>
        let dest := if w ≠ 0 then dest else alt
        let b := blocks.getD dest default
        .next ⟨out, ⟨func, blocks, dest, b.steps, b.exit, words, stack, results⟩ :: below⟩
      | .error t => .trapped t out
    | .ret sources =>
      deliver (Frame.readSpans words sources) results { out with memory := out.memory.pop stack } below

/-- At most `fuel` steps. -/
def run (m : Module ι) (perform : ι → List UInt64 → HostM σ (List UInt64)) : Nat → State σ → Outcome σ
  | 0, st => .next st
  | fuel + 1, st => match step m perform st with
    | .next st => run m perform fuel st
    | o => o

end State

/-! ## Instances -/

/-- What a call from outside comes to. -/
inductive CallResult where
  | returned (words : List UInt64)
  | trapped (t : Trap)
  | unknownFunction (id : FuncId)
  | refused (e : ModuleError)
  | outOfFuel
  deriving DecidableEq, Repr

inductive InstanceError where
  | notFinalized
  | tooLarge
  deriving DecidableEq, Repr

/-- `none` for a memory that is too large. -/
def InstanceError.message? : InstanceError → Option Bytes
  | .notFinalized => some "jit: module must be finalized before instantiation"
  | .tooLarge => none

/-- An executable copy of a module. -/
structure Instance (ι σ : Type) where
  module : Module ι
  outside : Outside σ

namespace Instance

variable {ι σ : Type}

def ofModule (m : Module ι) (host : σ) (stackWords : Int64) : Except InstanceError (Instance ι σ) :=
  if m.finalized then
    match Memory.ofSizes? m.dataWords (if stackWords ≤ 0 then Memory.defaultStack else stackWords) with
    | some memory => .ok { module := m, outside := { memory, host } }
    | none => .error .tooLarge
  else .error .notFinalized

def call (perform : ι → List UInt64 → HostM σ (List UInt64)) (fuel : Nat) (inst : Instance ι σ) (id : FuncId)
    (args : List UInt64) : CallResult × Instance ι σ :=
  match inst with
  | ⟨m, out⟩ => match m.funcs[id]? with
    | none => (.unknownFunction id, ⟨m, out⟩)
    | some d =>
      if args.length ≠ Kind.total d.sig.params then
        (.refused (.about d.name (.wordCount args.length d.sig)), ⟨m, out⟩)
      else
        let first := State.call m perform id args 0 out []
        let last := match first with
          | .next st => State.run m perform fuel st
          | o => o
        match last with
        | .done rs out =>
          (.returned (rs ++ List.replicate (Kind.total d.sig.returns - rs.length) 0), ⟨m, out⟩)
        | .trapped t out => (.trapped (t.within d.name), ⟨m, { out with memory := out.memory.reset }⟩)
        | .next st => (.outOfFuel, ⟨m, st.outside⟩)

end Instance

end RecordMill.Machine

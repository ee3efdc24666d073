import RecordMill.Machine.Execution
import RecordMill.Proofs.Transition

/-!
# Bodies on cells

A reference evaluator for bodies. Every value and every variable is a cell of its own, there is no
layout and there is no scratch space: the arguments of a jump are assigned to the parameters at once, and
those of a call are the words of its operands one after another.
-/

namespace RecordMill.Machine

structure Cells where
  value : Value → List UInt64
  var : VarId → List UInt64

namespace Cells

def blank (f : Body) : Cells :=
  { value := fun v => List.replicate (f.values.getD v .invalid).words 0
    var := fun v => List.replicate (f.vars.getD v .invalid).words 0 }

def word (c : Cells) (v : Value) : UInt64 := (c.value v).headD 0

def words (c : Cells) (vs : List Value) : List UInt64 := vs.flatMap c.value

def setVar (c : Cells) (v : VarId) (ws : List UInt64) : Cells :=
  { c with var := fun u => if u = v then ws else c.var u }

/-- New words for a cell; where they end it keeps what it held. -/
def fill (old ws : List UInt64) : List UInt64 := ws.take old.length ++ old.drop ws.length

def setValue (c : Cells) (v : Value) (ws : List UInt64) : Cells :=
  { c with value := fun u => if u = v then fill (c.value v) ws else c.value u }

def deal (c : Cells) : List Value → List UInt64 → Cells
  | [], _ => c
  | v :: vs, ws => (c.setValue v ws).deal vs (ws.drop (c.value v).length)

end Cells

/-! ## Instructions -/

/-- Where a place in a stack slot is, counted from the start of the stack area. -/
def Body.slotPlace (f : Body) (s : SlotId) (off : Int32) : UInt64 :=
  (((Layout.ofBody f).slots.getD s 0) * 8).toUInt64 + off.toInt64.toUInt64

/-- What an instruction with results `rs` does that stays in its block and calls nothing. -/
def Action.act (f : Body) (stack : UInt64) (c : Cells) (m : Memory) (rs : List Value) :
    Action → Option (Except Trap Cells × Memory)
  | .iconst _ imm | .fconst imm => some (.ok (c.deal rs [imm]), m)
  | .concat lo hi => some (.ok (c.deal rs [c.word lo, c.word hi]), m)
  | .int op k x y =>
    some (((if k == .i32 then Word.int32 op else Word.int op) (c.word x) (c.word y)).map (c.deal rs [·]), m)
  | .shift op x y => some (.ok (c.deal rs [Word.shift op (c.word x) (c.word y)]), m)
  | .intUnary op k x =>
    let r := Word.intUnary op (c.word x)
    some (.ok (c.deal rs [if k == .i32 then Word.low r else r]), m)
  | .float op x y => some (.ok (c.deal rs [Word.float op (c.word x) (c.word y)]), m)
  | .floatUnary op x => some (.ok (c.deal rs [Word.floatUnary op (c.word x)]), m)
  | .icmp cond k x y =>
    let (a, b) := if k == .i32 then (Word.signed32 (c.word x), Word.signed32 (c.word y)) else (c.word x, c.word y)
    match cond.holds? a.toInt64 b.toInt64 with
    | some r => some (.ok (c.deal rs [Word.ofBool r]), m)
    | none => some (.error noCondition, m)
  | .fcmp cond x y => match cond.holds? (Float.ofBits (c.word x)) (Float.ofBits (c.word y)) with
    | some r => some (.ok (c.deal rs [Word.ofBool r]), m)
    | none => some (.error noCondition, m)
  | .bint _ x => some (.ok (c.deal rs [c.word x &&& 1]), m)
  | .toInt k x => some (.ok (c.deal rs [(if k == .i32 then Word.toInt32 else Word.toInt64) (c.word x)]), m)
  | .ofInt _ narrow x =>
    some (.ok (c.deal rs [Word.ofInt64 (if narrow then Word.signed32 (c.word x) else c.word x)]), m)
  | .load k p off => some ((m.loadAll (c.word p + off.toInt64.toUInt64) k.words).map (c.deal rs ·), m)
  | .store _ x p off =>
    let (r, m) := m.storeAll (c.word p + off.toInt64.toUInt64) (c.value x)
    some (r.map fun _ => c, m)
  | .stackAddr _ s off => some (.ok (c.deal rs [stack + f.slotPlace s off]), m)
  | .useVar _ v => some (.ok (c.deal rs (c.var v)), m)
  | .defVar _ v x => some (.ok (c.setVar v (c.value x)), m)
  | .call .. | .jump .. | .brif .. | .ret _ => none

variable {ι σ : Type}

def Module.perform (m : Module ι) (perform : ι → List UInt64 → HostM σ (List UInt64)) (id : FuncId)
    (args : List UInt64) (out : Outside σ) : Option (Except Trap (List UInt64) × Outside σ) := do
  let d ← m.funcs[id]?
  let h ← d.host
  match (perform h args).run.run out with
  | (.ok rs, out) =>
    let room := Kind.total d.sig.returns
    some (if room < rs.length then .error (.outOfRange room room) else .ok rs, out)
  | (.error t, out) => some (.error t, out)

section

variable {m : Module ι} {perform : ι → List UInt64 → HostM σ (List UInt64)} {id : FuncId} {d : FuncDecl ι}

theorem Module.perform_of_none (h : m.funcs[id]? = none) (args : List UInt64) (out : Outside σ) :
    m.perform perform id args out = none := by
  simp [Module.perform, h]

theorem Module.perform_of_body (hd : m.funcs[id]? = some d) (h : d.host = none) (args : List UInt64)
    (out : Outside σ) : m.perform perform id args out = none := by
  simp [Module.perform, hd, h]

theorem Module.perform_of_host {f : ι} (hd : m.funcs[id]? = some d) (h : d.host = some f) (args : List UInt64)
    (out : Outside σ) : m.perform perform id args out = match (perform f args).run.run out with
      | (.ok rs, out) => some (if Kind.total d.sig.returns < rs.length
          then .error (.outOfRange (Kind.total d.sig.returns) (Kind.total d.sig.returns)) else .ok rs, out)
      | (.error t, out) => some (.error t, out) := by
  simp only [Module.perform, hd, h, Option.bind_eq_bind, Option.bind_some]

end

/-- What an instruction does that neither leaves its block nor enters another body. -/
def Inst.exec (m : Module ι) (perform : ι → List UInt64 → HostM σ (List UInt64)) (f : Body) (stack : UInt64) (i : Inst)
    (c : Cells) (out : Outside σ) : Option (Except Trap Cells × Outside σ) :=
  match i.action with
  | .call r args => do
    let callee ← f.callees[r]?
    let (rs, out) ← m.perform perform callee.id (c.words args) out
    return (rs.map (c.deal i.results ·), out)
  | a => do
    let (c, memory) ← a.act f stack c out.memory i.results
    return (c, { out with memory })

/-! ## States -/

structure CellFrame where
  func : FuncId
  block : BlockId
  /-- The index in the block of the next instruction. -/
  next : Nat
  cells : Cells
  stack : UInt64
  /-- The values of the caller that the results go to. -/
  results : List Value

structure CellState (σ : Type) where
  outside : Outside σ
  frames : List CellFrame

/-- How a run ends. -/
inductive End (σ : Type) where
  | done (results : List UInt64) (out : Outside σ)
  | trapped (t : Trap) (out : Outside σ)

def Body.code (f : Body) (b : BlockId) : List Inst := f.instsOf (f.blocks.getD b {})

def Module.body? (m : Module ι) (id : FuncId) : Option Body := m.funcs[id]?.bind (·.source)

/-- The frame of a call, and the memory with its stack area. -/
def Module.enter (m : Module ι) (id : FuncId) (depth : Nat) (args : List UInt64) (results : List Value)
    (memory : Memory) : Except Trap (CellFrame × Memory) :=
  match m.funcs[id]?, m.body? id with
  | some d, some f => match d.compiled with
    | some c =>
      if maxDepth ≤ depth then .error { code := .stackOverflow }
      else do
        let (stack, memory) ← memory.push c.stackArea
        let cells := (Cells.blank f).deal (f.blocks.getD 0 {}).params args
        return ({ func := id, block := 0, next := 0, cells, stack, results }, memory)
    | none => .error { code := .host }
  | _, _ => .error { code := .host }

namespace CellState

def deliver (rs : List UInt64) (vs : List Value) (out : Outside σ) : List CellFrame → Turn (CellState σ) (End σ)
  | [] => .ended (.done rs out)
  | fr :: below => .next ⟨out, { fr with cells := fr.cells.deal vs rs } :: below⟩

/-- A call of a function by the innermost of `frames`, whose results go to `vs`. -/
def call (m : Module ι) (perform : ι → List UInt64 → HostM σ (List UInt64)) (id : FuncId) (args : List UInt64)
    (vs : List Value) (out : Outside σ) (frames : List CellFrame) : Turn (CellState σ) (End σ) :=
  match m.perform perform id args out with
  | some (.ok rs, out) => deliver rs vs out frames
  | some (.error t, out) => .ended (.trapped t out)
  | none => match m.enter id frames.length args vs out.memory with
    | .ok (fr, memory) => .next ⟨{ out with memory }, fr :: frames⟩
    | .error t => .ended (.trapped t out)

/-- What an instruction does that leaves its frame or its block. -/
def leave (m : Module ι) (perform : ι → List UInt64 → HostM σ (List UInt64)) (f : Body) (i : Inst) (out : Outside σ)
    (fr : CellFrame) (below : List CellFrame) : Turn (CellState σ) (End σ) :=
  match i.action with
  | .jump b args =>
    let cells := fr.cells.deal (f.blocks.getD b {}).params (fr.cells.words args)
    .next ⟨out, { fr with block := b, next := 0, cells } :: below⟩
  | .brif c b e => .next ⟨out, { fr with block := if fr.cells.word c ≠ 0 then b else e, next := 0 } :: below⟩
  | .ret vs => deliver (fr.cells.words vs) fr.results { out with memory := out.memory.pop fr.stack } below
  | .call r args => match f.callees[r]? with
    | some callee =>
      call m perform callee.id (fr.cells.words args) i.results out ({ fr with next := fr.next + 1 } :: below)
    | none => .ended (.trapped { code := .host } out)
  | _ => .ended (.trapped { code := .host } out)

def step (m : Module ι) (perform : ι → List UInt64 → HostM σ (List UInt64)) :
    CellState σ → Turn (CellState σ) (End σ)
  | ⟨out, []⟩ => .ended (.done [] out)
  | ⟨out, fr :: below⟩ => match m.body? fr.func with
    | none => .ended (.trapped { code := .host } out)
    | some f => match (f.code fr.block)[fr.next]? with
      | none => .ended (.trapped { code := .host } out)
      | some i => match i.exec m perform f fr.stack fr.cells out with
        | some (.ok cells, out) => .next ⟨out, { fr with next := fr.next + 1, cells } :: below⟩
        | some (.error t, out) => .ended (.trapped t out)
        | none => leave m perform f i out fr below

theorem step_of_code {m : Module ι} {perform : ι → List UInt64 → HostM σ (List UInt64)} {f : Body} {i : Inst}
    {fr : CellFrame} (hf : m.body? fr.func = some f) (hi : (f.code fr.block)[fr.next]? = some i) (out : Outside σ)
    (below : List CellFrame) : step m perform ⟨out, fr :: below⟩ = match i.exec m perform f fr.stack fr.cells out with
      | some (.ok cells, out) => .next ⟨out, { fr with next := fr.next + 1, cells } :: below⟩
      | some (.error t, out) => .ended (.trapped t out)
      | none => leave m perform f i out fr below := by
  simp only [step, hf, hi]

end CellState

theorem Inst.exec_of_act {m : Module ι} {perform : ι → List UInt64 → HostM σ (List UInt64)} {f : Body} {i : Inst}
    (hi : ∀ r args, i.action ≠ .call r args) (stack : UInt64) (c : Cells) (out : Outside σ) :
    i.exec m perform f stack c out = (i.action.act f stack c out.memory i.results).map
      fun p => (p.1, { out with memory := p.2 }) := by
  unfold Inst.exec
  split
  · next h => exact absurd h (hi _ _)
  · cases i.action.act f stack c out.memory i.results <;> rfl

theorem Inst.exec_of_call {m : Module ι} {perform : ι → List UInt64 → HostM σ (List UInt64)} {f : Body} {i : Inst}
    {r : RefId} {args : List Value} {e : Callee} (hi : i.action = .call r args) (he : f.callees[r]? = some e)
    (stack : UInt64) (c : Cells) (out : Outside σ) :
    i.exec m perform f stack c out = (m.perform perform e.id (c.words args) out).map
      fun p => (p.1.map (c.deal i.results ·), p.2) := by
  simp only [Inst.exec, hi, he, Option.bind_eq_bind, Option.bind_some]
  cases m.perform perform e.id (c.words args) out <;> rfl

end RecordMill.Machine

import RecordMill.Program.Basic

/-!
# Building programs

A draft is a program with its supply of fresh registers and, for each function, of fresh labels.
-/

namespace RecordMill

structure Draft where
  program : Program := {}
  /-- The number of the register handed out last. -/
  lastReg : Nat := 0
  lastLabels : List Label := []

namespace Draft

/-- A draft for one function that belongs to no program. Its registers start far above those of any
program, so that both can be mixed. -/
def loose : Draft :=
  { program := { funcs := [{ name := [], ret := .null }] }, lastReg := Nat.pow 2 24, lastLabels := [0] }

def newFunc (d : Draft) (name : Bytes) (ret : Ty) : Draft :=
  { d with
    program := { d.program with funcs := d.program.funcs ++ [{ name, ret }] }
    lastLabels := d.lastLabels ++ [0] }

def newReg (d : Draft) (ty : Ty) : Reg × Draft :=
  (⟨d.lastReg + 1, ty⟩, { d with lastReg := d.lastReg + 1 })

def newGlobal (d : Draft) (ty : Ty) : Reg × Draft :=
  let (r, d) := d.newReg ty
  (r, { d with program := { d.program with globals := d.program.globals ++ [r] } })

def modifyFunc (d : Draft) (i : Nat) (g : Func → Func) : Draft :=
  { d with program := { d.program with funcs := d.program.funcs.modify i g } }

def newParam (d : Draft) (i : Nat) (ty : Ty) : Reg × Draft :=
  let (r, d) := d.newReg ty
  (r, d.modifyFunc i fun f => { f with params := f.params ++ [r] })

def newLabel (d : Draft) (i : Nat) : Label × Draft :=
  let l := d.lastLabels.getD i 0 + 1
  (l, { d with lastLabels := d.lastLabels.set i l })

def emit (d : Draft) (i : Nat) (instrs : List Instr) : Draft :=
  d.modifyFunc i fun f => { f with body := f.body ++ instrs }

end Draft

/-! ## Writing a body -/

/-- Steps that extend function number `i` of a draft. -/
abbrev Writing (α : Type) := ReaderT Nat (StateM Draft) α

namespace Writing

def reg (ty : Ty) : Writing Reg := fun _ d => d.newReg ty

def param (ty : Ty) : Writing Reg := fun i d => d.newParam i ty

def freshLabel : Writing Label := fun i d => d.newLabel i

def emit (instr : Instr) : Writing Unit := fun i d => ((), d.emit i [instr])

def constInt (n : Int64) : Writing Reg := do
  let r ← reg .int
  emit (.constInt r n)
  return r

def constStr (s : Bytes) : Writing Reg := do
  let r ← reg .str
  emit (.constStr r s)
  return r

def add (dst x y : Reg) : Writing Unit := emit (.arith dst .add [x, y])

/-- Runs `body` once for every record of the input. -/
def forRecords (body : Writing Unit) : Writing Unit := do
  let top ← freshLabel
  let done ← freshLabel
  emit (.label top)
  let more ← reg .int
  let eof ← reg .int
  emit (.nextLine more)
  let zero ← constInt 0
  emit (.compare eof .lte more zero)
  emit (.jmpIf eof done)
  body
  emit (.jmp top)
  emit (.label done)

/-- Runs `body` with a register that goes from `lo` to `hi`, both included. -/
def forCount (lo hi : Reg) (step : Int64) (body : Reg → Writing Unit) : Writing Unit := do
  let i ← reg .int
  emit (.mov i lo)
  let top ← freshLabel
  let done ← freshLabel
  emit (.label top)
  let out ← reg .int
  emit (.compare out (if step < 0 then .lt else .gt) i hi)
  emit (.jmpIf out done)
  body i
  let by_ ← constInt step
  add i i by_
  emit (.jmp top)
  emit (.label done)

/-- Runs `body` for the keys of a map in ascending order. -/
def forKeys (m : Reg) (body : Reg → Writing Unit) : Writing Unit := do
  let it ← reg m.ty.iterOf
  let top ← freshLabel
  let done ← freshLabel
  emit (.iterBegin it m)
  emit (.label top)
  let more ← reg .int
  let fin ← reg .int
  emit (.iterHasNext more it)
  let zero ← constInt 0
  emit (.compare fin .eq more zero)
  emit (.jmpIf fin done)
  let k ← reg m.ty.key
  emit (.iterGetNext k it)
  body k
  emit (.jmp top)
  emit (.label done)

end Writing

end RecordMill

import RecordMill.Program.Builder

/-! # Ready-made programs -/

namespace RecordMill.Samples

open Writing

/-- Extends function `i` of the draft. -/
def write {α : Type} (i : Nat) (w : Writing α) : StateM Draft α := w.run i

def draft (build : StateM Draft Unit) : Program := (build.run {}).2.program

/-- Counts every field of the input and prints the counts in key order. -/
def wordCount : Program := draft do
  modify (·.newFunc "main" .null)
  write 0 do
    let counts ← reg (.map .str .int)
    forRecords do
      let nf ← reg .int
      emit (.loadVar nf .nf)
      let one ← constInt 1
      forCount one nf 1 fun i => do
        let w ← reg .str
        let n ← reg .int
        emit (.getColumn w i)
        emit (.lookup n counts w)
        let one ← constInt 1
        add n n one
        emit (.store counts w n)
    let format ← constStr "%s %d\n"
    forKeys counts fun w => do
      let n ← reg .int
      emit (.lookup n counts w)
      emit (.printf none format [w, n] .null)
    emit (.ret .null)

def uniq : Program := draft do
  let seen ← modifyGet (·.newGlobal (.map .str .int))
  modify (·.newFunc "main" .null)
  modify (·.newFunc "first" .int)
  write 1 do
    let line ← param .str
    let dup ← reg .int
    let fresh ← reg .int
    emit (.contains dup seen line)
    let one ← constInt 1
    emit (.store seen line one)
    let zero ← constInt 0
    emit (.compare fresh .eq dup zero)
    emit (.ret fresh)
  write 0 do
    forRecords do
      let rec_ ← reg .str
      let isNew ← reg .int
      let zero ← constInt 0
      emit (.getColumn rec_ zero)
      emit (.call isNew 1 [rec_])
      let skip ← freshLabel
      let old ← reg .int
      let zero ← constInt 0
      emit (.compare old .eq isNew zero)
      emit (.jmpIf old skip)
      emit (.print none [rec_] .null)
      emit (.label skip)
    emit (.ret .null)

def sum (col : Int64) : Program := draft do
  modify (·.newFunc "main" .null)
  write 0 do
    let total ← reg .float
    emit (.constFloat total 0.0)
    forRecords do
      let column ← reg .str
      let x ← reg .float
      let index ← constInt col
      emit (.getColumn column index)
      emit (.convert x column)
      add total total x
    let out ← reg .str
    emit (.convert out total)
    emit (.print none [out] .null)
    emit (.ret .null)

/-- Prints the fields of every record last to first. -/
def reverse : Program := draft do
  modify (·.newFunc "main" .null)
  write 0 do
    forRecords do
      let nf ← reg .int
      let prev ← reg .int
      let s ← reg .str
      let ofs ← reg .str
      emit (.loadVar nf .nf)
      emit (.loadVar ofs .ofs)
      emit (.getColumn s nf)
      let one ← constInt 1
      emit (.arith prev .minus [nf, one])
      let one ← constInt 1
      forCount prev one (-1) fun i => do
        let f ← reg .str
        emit (.getColumn f i)
        emit (.concat s s ofs)
        emit (.concat s s f)
      emit (.print none [s] .null)
    emit (.ret .null)

/-- A program that can be asked for by name. -/
structure Sample where
  name : Bytes
  usage : Bytes
  program : Program

def all : List Sample :=
  [⟨"rev", "print the fields of each record in reverse order", reverse⟩,
    ⟨"sum", "sum the first column", sum 1⟩,
    ⟨"uniq", "print each distinct record once, in first-seen order", uniq⟩,
    ⟨"wc", "count occurrences of every field, printed in key order", wordCount⟩]

def find? (name : Bytes) : Option Sample := all.find? (·.name == name)

def findColumn? (name : Bytes) (col : Option Int64) : Option Sample :=
  (find? name).map fun s => match col with
    | some col => if name = text "sum" then { s with program := sum col } else s
    | none => s

end RecordMill.Samples

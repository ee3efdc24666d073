import RecordMill.Lowering.Emitter

/-!
# Transcripts

An emitter that writes down what it is asked for. Its values are texts, so a transcript shows the order
in which an instruction reads, computes and binds.
-/

namespace RecordMill

abbrev Transcript := ExceptT Stop (StateM (List Bytes))

namespace Transcript

def note (line : Bytes) : Transcript Unit := modify fun log => log ++ [line]

def application (name : Bytes) (args : List Bytes) : Bytes := name ++ "(" ++ Bytes.join ", " args ++ ")"

def sentence (ws : List Bytes) : Bytes := Bytes.join " " ws

def floatText (f : Float) : Bytes := if f.isNaN then text "nan" else Bytes.hexPadded 16 f.toBits.toNat

def count {α : Type} (xs : List α) : Bytes := Bytes.decimal xs.length

def value (r : Reg) : Transcript Bytes :=
  if r.ty.isIter then throw (.error .iteratorText) else return r.text

def apply (op : ValueOp) (args : List Bytes) : Transcript Bytes :=
  match Lowering.checkArity op args.length with
  | some e => throw (.error e)
  | none => return application op.name args

instance : Emitter Transcript Bytes where
  bind r v := note (sentence [r.text, "<-", v])
  value := value
  context := return text "rt"
  constInt n := return Bytes.integer n.toInt
  constFloat f := return floatText f
  constStr s := return Quoted.encode s
  apply := apply
  perform s args := note (application s.name args)
  iterBegin dst m := note (sentence ["iter_begin", dst.text, m.text])
  iterHasNext dst it := note (sentence ["has_next", dst.text, it.text])
  iterGetNext dst it := note (sentence ["get_next", dst.text, it.text])
  printAll status _ args := note (sentence ["print", status.text, count args])
  printf status _ format args := note (sentence ["printf", status.text, format.text, count args])
  sprintf dst format args := note (sentence ["sprintf", dst.text, format.text, count args])
  mov ty dst src := note (sentence ["mov", (Reg.mk dst ty).text, (Reg.mk src ty).text])
  loaded dst := note (sentence ["loaded", dst.text])
  drop _ v := note (sentence ["drop", v])
  label l := note (labelText l ++ ":")
  jump l := note (sentence ["jmp", labelText l])
  jumpIf r l := note (sentence ["jmpif", r.text, labelText l])
  call dst fn args := note (sentence ["call", dst.text, Bytes.integer fn, count args])
  ret src := note (sentence ["ret", src.text])

def ofInstr (i : Instr) : Except Stop Unit × List Bytes := (Lowering.lower (m := Transcript) i).run.run []

end Transcript

end RecordMill

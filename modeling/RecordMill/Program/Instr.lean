import RecordMill.Number.Notation
import RecordMill.Program.Operator
import RecordMill.Text.Quoted

/-!
# Instructions

A function body is a flat list of instructions over registers. `defs` lists the registers that an
instruction writes and `uses` those that it reads.
-/

namespace RecordMill

abbrev Label := Nat

def labelText (l : Label) : Bytes := "L" ++ Bytes.decimal l

inductive Instr where
  | constInt (dst : Reg) (val : Int64)
  | constFloat (dst : Reg) (val : Float)
  | constStr (dst : Reg) (val : Bytes)
  | mov (dst src : Reg)
  | compare (dst : Reg) (op : Cmp) (l r : Reg)
  | arith (dst : Reg) (op : Arith) (args : List Reg)
  | bit (dst : Reg) (op : Bitwise) (args : List Reg)
  | math (dst : Reg) (fn : MathFn) (args : List Reg)
  /-- Division and power work on doubles; whole operands are converted first. -/
  | div (dst l r : Reg)
  | pow (dst l r : Reg)
  | convert (dst src : Reg)
  | concat (dst l r : Reg)
  | strLen (dst src : Reg)
  | matchPattern (dst src pat : Reg)
  | split (dst src map pat : Reg)
  | lookup (dst map key : Reg)
  | store (map key val : Reg)
  | contains (dst map key : Reg)
  | delete (map key : Reg)
  | len (dst map : Reg)
  | iterBegin (dst map : Reg)
  | iterHasNext (dst iter : Reg)
  | iterGetNext (dst iter : Reg)
  | nextLine (dst : Reg)
  | getColumn (dst index : Reg)
  | setColumn (index src : Reg)
  | readFileLine (dst status path : Reg)
  | loadVar (dst : Reg) (var : Variable)
  | storeVar (var : Variable) (src : Reg)
  | print (out : Option Output) (args : List Reg) (status : Reg)
  | printf (out : Option Output) (format : Reg) (args : List Reg) (status : Reg)
  | sprintf (dst format : Reg) (args : List Reg)
  | label (id : Label)
  | jmp (target : Label)
  | jmpIf (cond : Reg) (target : Label)
  | call (dst : Reg) (fn : Int) (args : List Reg)
  | ret (src : Reg)
  | missing

namespace Instr

def nonNull (rs : List Reg) : List Reg := rs.filter (!·.isNull)

def outputRegs : Option Output → List Reg
  | none => []
  | some o => [o.path]

def defs : Instr → List Reg
  | .constInt d _ | .constFloat d _ | .constStr d _ | .mov d _ | .compare d .. | .arith d .. | .bit d ..
  | .math d .. | .div d .. | .pow d .. | .convert d _ | .concat d .. | .strLen d _ | .matchPattern d ..
  | .split d .. | .lookup d .. | .contains d .. | .len d _ | .iterBegin d _ | .iterHasNext d _
  | .iterGetNext d _ | .nextLine d | .getColumn d _ | .loadVar d _ | .sprintf d .. | .call d .. =>
    nonNull [d]
  | .readFileLine d status _ => nonNull [d, status]
  | .print _ _ status | .printf _ _ _ status => nonNull [status]
  | .store .. | .delete .. | .setColumn .. | .storeVar .. | .label _ | .jmp _ | .jmpIf .. | .ret _
  | .missing => []

def uses : Instr → List Reg
  | .constInt .. | .constFloat .. | .constStr .. | .nextLine _ | .loadVar .. | .label _ | .jmp _
  | .missing => []
  | .mov _ s | .convert _ s | .strLen _ s | .storeVar _ s | .ret s => nonNull [s]
  | .compare _ _ l r | .div _ l r | .pow _ l r | .concat _ l r => nonNull [l, r]
  | .arith _ _ args | .bit _ _ args | .math _ _ args | .call _ _ args => nonNull args
  | .matchPattern _ s p => nonNull [s, p]
  | .split _ s m p => nonNull [s, m, p]
  | .lookup _ m k | .contains _ m k | .delete m k => nonNull [m, k]
  | .store m k v => nonNull [m, k, v]
  | .len _ m | .iterBegin _ m => nonNull [m]
  | .iterHasNext _ it | .iterGetNext _ it => nonNull [it]
  | .getColumn _ i => nonNull [i]
  | .setColumn i s => nonNull [i, s]
  | .readFileLine _ _ p => nonNull [p]
  | .print out args _ => nonNull (outputRegs out ++ args)
  | .printf out f args _ => nonNull (outputRegs out ++ f :: args)
  | .sprintf _ f args => nonNull (f :: args)
  | .jmpIf c _ => nonNull [c]

def isMissing : Instr → Bool
  | .missing => true
  | _ => false

/-! ## Text -/

def opText (dst : Reg) (name : Bytes) (args : List Reg) : Bytes :=
  dst.text ++ " = " ++ name ++ " " ++ Reg.listText args

def statusText (r : Reg) : Bytes := if r.isNull then [] else r.text ++ " = "

def outputText : Option Output → Bytes
  | none => []
  | some o => " " ++ o.mode.name ++ " " ++ o.path.text

def text : Instr → Bytes
  | .constInt d v => d.text ++ " = " ++ Bytes.integer v.toInt
  | .constFloat d v => d.text ++ " = " ++ Double.shortestText v
  | .constStr d v => d.text ++ " = " ++ Quoted.encode v
  | .mov d s => d.text ++ " = mov " ++ s.text
  | .compare d op l r => d.text ++ " = " ++ op.name ++ " " ++ l.text ++ ", " ++ r.text
  | .arith d op args => opText d op.name args
  | .bit d op args => opText d op.name args
  | .math d fn args => opText d fn.name args
  | .div d l r => opText d "div" [l, r]
  | .pow d l r => opText d "pow" [l, r]
  | .convert d s => opText d "convert" [s]
  | .concat d l r => opText d "concat" [l, r]
  | .strLen d s => opText d "strlen" [s]
  | .matchPattern d s p => opText d "match" [s, p]
  | .split d s m p => opText d "split" [s, m, p]
  | .lookup d m k => d.text ++ " = " ++ m.text ++ "[" ++ k.text ++ "]"
  | .store m k v => m.text ++ "[" ++ k.text ++ "] = " ++ v.text
  | .contains d m k => d.text ++ " = " ++ k.text ++ " in " ++ m.text
  | .delete m k => "delete " ++ m.text ++ "[" ++ k.text ++ "]"
  | .len d m => opText d "len" [m]
  | .iterBegin d m => opText d "iter_begin" [m]
  | .iterHasNext d it => opText d "iter_hasnext" [it]
  | .iterGetNext d it => opText d "iter_getnext" [it]
  | .nextLine d => d.text ++ " = nextline"
  | .getColumn d i => d.text ++ " = $" ++ i.text
  | .setColumn i s => "$" ++ i.text ++ " = " ++ s.text
  | .readFileLine d status p => status.text ++ ", " ++ d.text ++ " = getline < " ++ p.text
  | .loadVar d v => d.text ++ " = " ++ v.name
  | .storeVar v s => v.name ++ " = " ++ s.text
  | .print out args status => statusText status ++ "print " ++ Reg.listText args ++ outputText out
  | .printf out f args status =>
    statusText status ++ "printf " ++ Reg.listText (f :: args) ++ outputText out
  | .sprintf d f args => opText d "sprintf" (f :: args)
  | .label l => labelText l ++ ":"
  | .jmp l => "jmp " ++ labelText l
  | .jmpIf c l => "jmpif " ++ c.text ++ ", " ++ labelText l
  | .call d fn args =>
    d.text ++ " = call f" ++ Bytes.integer fn ++ "(" ++ Reg.listText args ++ ")"
  | .ret s => if s.isNull then "ret" else "ret " ++ s.text
  | .missing => "%!s(<nil>)"

end Instr

end RecordMill

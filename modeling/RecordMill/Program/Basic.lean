import RecordMill.Program.Instr

/-! # Functions and programs -/

namespace RecordMill

structure Func where
  name : Bytes
  params : List Reg := []
  /-- `null` for a function that returns nothing. -/
  ret : Ty
  body : List Instr := []
  deriving Inhabited

/-- Globals are registers that all functions share. -/
structure Program where
  funcs : List Func := []
  globals : List Reg := []
  main : Int := 0
  deriving Inhabited

namespace Func

/-- Registers that the function mentions, parameters first, then as they appear. -/
def mentions (f : Func) : List Reg := f.params ++ f.body.flatMap fun i => i.defs ++ i.uses

/-- The registers other than globals that the function mentions, each once. -/
def locals (f : Func) (globals : List Reg) : List Reg :=
  (f.mentions.filter fun r => !r.isNull && !globals.contains r).eraseDups

def isWhole (f : Func) : Bool := f.body.all (!·.isMissing)

def labels (f : Func) : List Label := f.body.filterMap fun
  | .label l => some l
  | _ => none

end Func

namespace Program

/-- The text literals of the program in order of first appearance. -/
def literals (p : Program) : List Bytes :=
  (p.funcs.flatMap fun f => f.body.filterMap fun
    | .constStr _ s => some s
    | _ => none).eraseDups

/-- The function with an index that may lie outside the program. -/
def func? (p : Program) (i : Int) : Option Func := if i < 0 then none else p.funcs[i.toNat]?

/-! ## Listing -/

def indexText (i : Nat) : Bytes :=
  let ds := Bytes.decimal i
  List.replicate (4 - ds.length) 48 ++ ds

def lineText (i : Nat) : Instr → Bytes
  | .label l => Instr.text (.label l) ++ "\n"
  | instr => "  " ++ indexText i ++ "  " ++ instr.text ++ "\n"

def funcText (p : Program) (i : Nat) (f : Func) : Bytes :=
  let marker : Bytes := if (i : Int) = p.main then " (main)" else []
  "=== f" ++ Bytes.decimal i ++ " " ++ f.name ++ "(" ++ Reg.listText f.params ++ ") " ++ f.ret.name
    ++ marker ++ " ===\n" ++ (f.body.mapIdx lineText).flatten ++ "\n"

def globalText (g : Reg) : Bytes := "  " ++ g.text ++ "\n"

def listing (p : Program) : Bytes :=
  let globals : Bytes :=
    if p.globals.isEmpty then []
    else "=== Globals ===\n" ++ (p.globals.map globalText).flatten ++ "\n"
  globals ++ (p.funcs.mapIdx p.funcText).flatten

end Program

end RecordMill

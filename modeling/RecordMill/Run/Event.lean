import RecordMill.Program.Basic
import RecordMill.Record.Context
import RecordMill.Run.Config
import RecordMill.Text.Utf8

/-! # What is told about compiling and running -/

namespace RecordMill

/-- What a context still holds open when it is closed. -/
structure Holdings where
  patterns : Nat
  outputs : Nat
  inputs : Nat
  incidents : Nat
  deriving DecidableEq, Repr

inductive Event where
  | lowered (name : Bytes) (instrs params : Nat) (ret : Ty)
  | finalized (functions globals literals memory : Nat)
  | incident (i : Incident)
  | closing (h : Holdings)
  | finished (live destroyed incidents buffer : Nat)
  deriving DecidableEq, Repr

namespace Event

def level : Event → Bytes
  | .incident _ => "WARN"
  | _ => "DEBUG"

def title : Event → Bytes
  | .lowered .. => "lowered function"
  | .finalized .. => "module finalized"
  | .incident _ => "runtime error"
  | .closing _ => "runtime closing"
  | .finished .. => "run finished"

def details : Event → List (Bytes × Bytes)
  | .lowered name instrs params ret =>
    [("name", name), ("instrs", Bytes.decimal instrs), ("params", Bytes.decimal params), ("ret", ret.name)]
  | .finalized functions globals literals memory =>
    [("functions", Bytes.decimal functions), ("globals", Bytes.decimal globals),
      ("literals", Bytes.decimal literals), ("global_memory", Size.display memory)]
  | .incident i => [("op", i.during.name), ("error", i.failure.message)]
  | .closing h =>
    [("regexes", Bytes.decimal h.patterns), ("outputs", Bytes.decimal h.outputs),
      ("inputs", Bytes.decimal h.inputs), ("errors", Bytes.decimal h.incidents)]
  | .finished live destroyed incidents buffer =>
    [("heap_live", Bytes.decimal live), ("heap_destroyed", Bytes.decimal destroyed),
      ("errors", Bytes.decimal incidents), ("output_buffer", Size.display buffer)]

/-! ## Lines -/

def unsafeUnit : Utf8.Unit → Bool
  | .stray _ => true
  | .char c _ =>
    if c < 128 then c ≤ 32 || c == 61 || c == 34
    else c == Utf8.replacement || Utf8.isBlank c || !Category.isPrintable c

def quoteIfNeeded (s : Bytes) : Bytes :=
  if s.isEmpty || (Utf8.units s).any unsafeUnit then Quoted.encode s else s

def pairText (p : Bytes × Bytes) : Bytes := p.1 ++ "=" ++ quoteIfNeeded p.2

/-- The event in brief, without the text of a failure. -/
def brief (e : Event) : Bytes :=
  let details := e.details.filter fun (k, _) => k ≠ text "error"
  Bytes.join " " ([e.level, e.title] ++ details.map fun (k, v) => k ++ "=" ++ v)

def line (e : Event) : Bytes :=
  Bytes.join " " (((text "level", e.level) :: (text "msg", e.title) :: e.details).map pairText) ++ "\n"

end Event

end RecordMill

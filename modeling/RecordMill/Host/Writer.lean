import RecordMill.Host.Error
import RecordMill.Text.Bytes

/-!
# Buffered output

A writer gathers text and passes it on when its buffer is full. After a failure it takes nothing more
and reports the same failure again.
-/

namespace RecordMill

/-- Where standard output goes. A limited sink keeps what fits and fails. -/
structure Sink where
  limit : Option Nat := none
  /-- A long text is passed on to it at once where the buffer is empty. -/
  takesTexts : Bool := false
  taken : Buffer := .empty
  deriving DecidableEq, Repr

namespace Sink

def content (k : Sink) : Bytes := k.taken.bytes

def take (k : Sink) (s : Bytes) : Option Failure × Sink :=
  match k.limit with
  | none => (none, { k with taken := k.taken.push s })
  | some limit =>
    let room := limit - k.taken.size
    if s.length ≤ room then (none, { k with taken := k.taken.push s })
    else (some .sinkFull, { k with taken := k.taken.push (s.take room) })

end Sink

structure Writer where
  capacity : Nat
  pending : Buffer := .empty
  failure : Option Failure := none
  deriving DecidableEq, Repr

namespace Writer

def defaultCapacity : Nat := 65536

def maxCapacity : Nat := 281474976710656

def ofCapacity (n : Int) : Writer := { capacity := if n ≤ 0 then defaultCapacity else n.toNat }

/-- What is passed on and what stays in the buffer when `s` is written. Only full buffers are passed
on; the buffer is left full rather than empty. -/
def fill (capacity : Nat) (pending : Buffer) (s : Bytes) : Bytes × Buffer :=
  if pending.size + s.length ≤ capacity then ([], pending.push s)
  else
    let total := pending.bytes ++ s
    let n := (total.length - 1) / capacity * capacity
    (total.take n, .ofBytes (total.drop n))

/-- As `fill`, but a text longer than an empty buffer is passed on at once. -/
def fillDirect (capacity : Nat) (pending : Buffer) (s : Bytes) : Bytes × Buffer :=
  if pending.size + s.length ≤ capacity then ([], pending.push s)
  else if pending.isEmpty then (s, .empty)
  else
    let free := capacity - pending.size
    let rest := s.drop free
    if rest.length > capacity then (pending.bytes ++ s, .empty)
    else (pending.bytes ++ s.take free, .ofBytes rest)

def fillFor (k : Sink) (capacity : Nat) (pending : Buffer) (s : Bytes) : Bytes × Buffer :=
  if k.takesTexts then fillDirect capacity pending s else fill capacity pending s

def write (w : Writer) (s : Bytes) (k : Sink) : Option Failure × Writer × Sink :=
  match w.failure with
  | some e => (some e, w, k)
  | none =>
    let (sent, pending) := fillFor k w.capacity w.pending s
    if sent.isEmpty then (none, { w with pending }, k)
    else
      let (e, k) := k.take sent
      (e, { w with pending, failure := e }, k)

def flush (w : Writer) (k : Sink) : Option Failure × Writer × Sink :=
  match w.failure with
  | some e => (some e, w, k)
  | none =>
    if w.pending.isEmpty then (none, w, k)
    else
      let (e, k) := k.take w.pending.bytes
      (e, { w with pending := .empty, failure := e }, k)

end Writer

end RecordMill

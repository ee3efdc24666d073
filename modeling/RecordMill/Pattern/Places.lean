/-!
# Sets of places in a subject

A place lies in front of a character or at the end. A set of places is a number whose bit `i` is set when
place `i` belongs to it, so that a step from all places at once is one operation on numbers. Mostly it
is a set of places in a window, counted from where the window begins.
-/

namespace RecordMill.Pattern

abbrev Places := Nat

namespace Places

/-- The first `n` places. -/
def all (n : Nat) : Places := 1 <<< n - 1

def within (s : Places) (n : Nat) : Places := s &&& all n

def hasFirst (s : Places) : Bool := s % 2 == 1

def withoutFirst (s : Places) : Places := if s.hasFirst then s - 1 else s

def single (i : Nat) : Places := 1 <<< i

def greatest (s : Places) : Nat := s.log2

/-- The places `i < n` with `p (start + i)`, one half after the other. -/
def collect (p : Nat → Bool) (start n : Nat) : Places :=
  if n ≤ 1 then if n = 1 && p start then 1 else 0
  else collect p start (n / 2) ||| collect p (start + n / 2) (n - n / 2) <<< (n / 2)
termination_by n

/-- The members below `n` in order, moved by `start`, in front of `acc`. -/
def membersFrom (start n : Nat) (s : Places) (acc : List Nat) : List Nat :=
  if s = 0 then acc
  else if n ≤ 1 then start :: acc
  else
    membersFrom start (n / 2) (s.within (n / 2))
      (membersFrom (start + n / 2) (n - n / 2) (s >>> (n / 2)) acc)
termination_by n

def members (n : Nat) (s : Places) : List Nat := membersFrom 0 n s []

/-- Adds what `f` leads to until nothing is new. Every round but the last adds a place, so their number
bounds the rounds. -/
def close (f : Places → Places) : Nat → Places → Places
  | 0, s => s
  | rounds + 1, s =>
    let t := s ||| f s
    if t = s then s else close f rounds t

/-- Adds the places from which `s` is reached by steps of one, each from a place of `via`. After every
round `via` holds the places that begin `width` such steps, and `width` doubles. -/
def sweep : Nat → Nat → Places → Places → Places
  | 0, _, _, s => s
  | rounds + 1, width, via, s =>
    sweep rounds (2 * width) (via &&& via >>> width) (s ||| (s >>> width &&& via))

/-- Adds the places that are reached from `s` by such steps. -/
def sweepAhead : Nat → Nat → Places → Places → Places
  | 0, _, _, s => s
  | rounds + 1, width, via, s =>
    sweepAhead rounds (2 * width) (via &&& via >>> width) (s ||| (s &&& via) <<< width)

/-- `f` done `n` times, or until it changes nothing. The second set gathers all that `f` was applied to. -/
def iterate (f : Places → Places) : Nat → Places → Places → Places × Places
  | 0, s, met => (s, met)
  | n + 1, s, met =>
    let t := f s
    if t = s then (s, met ||| s) else iterate f n t (met ||| s)

/-- What `f` leads to after 0, 1, ..., `n - 1` times, behind `acc`. The last one stands for all others if
it is a fixed point. -/
def levels (f : Places → Places) : Nat → Places → Array Places → Array Places
  | 0, _, acc => acc
  | n + 1, s, acc =>
    let t := f s
    if t = s then acc.push s else levels f n t (acc.push s)

end Places

/-! ## Windows of a set -/

/-- A set cut into words, so that a window of it is at hand without touching the rest. -/
structure Bits where
  whole : Places
  words : Array Places
  deriving DecidableEq, Repr

namespace Bits

def wordSize : Nat := 30

/-- The `k` words of a set behind those of `acc`. -/
def cut (k : Nat) (s : Places) (acc : Array Places) : Array Places :=
  if k ≤ 1 then acc.push s
  else cut (k - k / 2) (s >>> (wordSize * (k / 2))) (cut (k / 2) (s.within (wordSize * (k / 2))) acc)
termination_by k

/-- For a set of places below `n`. -/
def ofPlaces (n : Nat) (s : Places) : Bits := ⟨s, cut ((n + wordSize - 1) / wordSize) s #[]⟩

/-- The set that `k` words make up, from the `i`-th on. -/
def joined (b : Bits) (i k : Nat) : Places :=
  if k ≤ 1 then b.words.getD i 0
  else b.joined i (k / 2) ||| b.joined (i + k / 2) (k - k / 2) <<< (wordSize * (k / 2))
termination_by k

/-- The `n` places from `lo` on. Putting words together is worth the trouble only for a window that is
small beside the whole. -/
def slice (b : Bits) (lo n : Nat) : Places :=
  if lo = 0 then b.whole.within n
  else if b.words.size ≤ 10 * n then (b.whole >>> lo).within n
  else
    let skipped := lo % wordSize
    (b.joined (lo / wordSize) ((skipped + n + wordSize - 1) / wordSize) >>> skipped).within n

def has (b : Bits) (i : Nat) : Bool := (b.slice i 1).hasFirst

end Bits

end RecordMill.Pattern

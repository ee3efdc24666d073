import RecordMill.Pattern.Node
import RecordMill.Pattern.Places

/-!
# Paths of a pattern through a subject

On a given subject a pattern becomes a path: every part knows the places where it can be taken. From a
set of ends a path leads back to the places where it may begin.

Sets are looked at through windows, the `n` places from `lo` on. Place `n` of a window stands for all that
is outside: a set that holds it takes leaving the window for success, and so does every set that it leads
back to.
-/

namespace RecordMill.Pattern

inductive Path where
  | stay (via : Bits)
  /-- Goes one character further, from one of these places. -/
  | move (via : Bits)
  | cat (a b : Path)
  | alt (a b : Path)
  | opt (greedy : Bool) (a : Path)
  | star (greedy : Bool) (a : Path)
  | plus (greedy : Bool) (a : Path)
  | upTo (greedy : Bool) (n : Nat) (a : Path)
  | exactly (n : Nat) (a : Path)
  deriving DecidableEq, Repr

/-- One path or the other. A choice between characters is a choice of its own kind of step. -/
def Path.either (size : Nat) : Path → Path → Path
  | .move a, .move b => .move (.ofPlaces size (a.whole ||| b.whole))
  | a, b => .alt a b

def Node.path (cs : Subject) : Node → Path
  | .empty => .stay (placesOf fun _ => true)
  | .set s => .move (placesOf fun i => ((cs[i]?).map s.has).getD false)
  | .anchor a => .stay (placesOf fun i => a.holds cs i)
  | .group a => a.path cs
  | .cat a b => .cat (a.path cs) (b.path cs)
  | .alt a b => .either (cs.size + 1) (a.path cs) (b.path cs)
  | .opt greedy a => .opt greedy (a.path cs)
  | .star greedy a => .star greedy (a.path cs)
  | .plus greedy a => .plus greedy (a.path cs)
  | .times greedy min (some max) a =>
    let p := a.path cs
    .cat (.exactly min p) (.upTo greedy (max - min) p)
  | .times greedy 0 none a => .star greedy (a.path cs)
  | .times greedy (min + 1) none a =>
    let p := a.path cs
    .cat (.exactly min p) (.plus greedy p)
where
  placesOf (p : Nat → Bool) : Bits := .ofPlaces (cs.size + 1) (Places.collect p 0 (cs.size + 1))

/-! ## Walks -/

/-- What a path makes of a set in the window of `n` places from `lo` on. -/
abbrev Walk := (lo n : Nat) → Places → Places

namespace Walk

def smallWindow : Nat := 256

/-- Repeats a walk that leads back. What is reached in the right half does not depend on the left one, so
it comes first. -/
def closeBack (f : Walk) (lo n : Nat) (s : Places) : Places :=
  if s = 0 then 0
  else if n ≤ smallWindow then Places.close (f lo n) (n + 1) s
  else
    let right := closeBack f (lo + n / 2) (n - n / 2) (s >>> (n / 2)) <<< (n / 2)
    closeBack f lo (n / 2) ((s ||| f lo n right).within (n / 2)) ||| right
termination_by n
decreasing_by all_goals (have : smallWindow = 256 := rfl; omega)

/-- Repeats a walk that leads ahead, the left half first. -/
def closeAhead (f : Walk) (lo n : Nat) (s : Places) : Places :=
  if s = 0 then 0
  else if n ≤ smallWindow then Places.close (f lo n) (n + 1) s
  else
    let left := closeAhead f lo (n / 2) (s.within (n / 2))
    left ||| closeAhead f (lo + n / 2) (n - n / 2) ((s ||| f lo n left) >>> (n / 2)) <<< (n / 2)
termination_by n
decreasing_by all_goals (have : smallWindow = 256 := rfl; omega)

end Walk

namespace Path

/-- The places from which a repetition of a path can end in `s`. -/
def starBack (a : Path) (back : Walk) : Walk := fun lo n s =>
  match a with
  | .move via => Places.sweep (n.log2 + 2) 1 (via.slice lo n) s
  | _ => back.closeBack lo n s

/-- The places where a repetition of a path from `s` can end. -/
def starAhead (a : Path) (ahead : Walk) : Walk := fun lo n s =>
  match a with
  | .move via => (Places.sweepAhead (n.log2 + 2) 1 (via.slice lo n) s).within n
  | _ => ahead.closeAhead lo n s

/-- The places where a path that ends in `s` may begin. -/
def back : Path → Walk
  | .stay via, lo, n, s => s &&& (via.slice lo n ||| Places.single n)
  | .move via, lo, n, s => s >>> 1 &&& via.slice lo n ||| s &&& Places.single n
  | .cat a b, lo, n, s => a.back lo n (b.back lo n s)
  | .alt a b, lo, n, s => a.back lo n s ||| b.back lo n s
  | .opt _ a, lo, n, s => s ||| a.back lo n s
  | .star _ a, lo, n, s => starBack a a.back lo n s
  | .plus _ a, lo, n, s => a.back lo n (starBack a a.back lo n s)
  | .upTo _ k a, lo, n, s => Places.close (a.back lo n) k s
  | .exactly k a, lo, n, s => (Places.iterate (a.back lo n) k s 0).1

/-- The places where a path that begins in `s` may end, without leaving the window. -/
def ahead : Path → Walk
  | .stay via, lo, n, s => s &&& via.slice lo n
  | .move via, lo, n, s => ((s &&& via.slice lo n) <<< 1).within n
  | .cat a b, lo, n, s => b.ahead lo n (a.ahead lo n s)
  | .alt a b, lo, n, s => a.ahead lo n s ||| b.ahead lo n s
  | .opt _ a, lo, n, s => s ||| a.ahead lo n s
  | .star _ a, lo, n, s => starAhead a a.ahead lo n s
  | .plus _ a, lo, n, s => starAhead a a.ahead lo n (a.ahead lo n s)
  | .upTo _ k a, lo, n, s => Places.close (a.ahead lo n) k s
  | .exactly k a, lo, n, s => (Places.iterate (a.ahead lo n) k s 0).1

/-- A path without the places from which it cannot end in `goal`, and the places where it may begin.
`size` is the number of places of the whole subject. -/
def prune (size : Nat) : Path → Places → Path × Places
  | .stay via, goal =>
    let s := goal &&& via.whole
    (.stay (.ofPlaces size s), s)
  | .move via, goal =>
    let s := goal >>> 1 &&& via.whole
    (.move (.ofPlaces size s), s)
  | .cat a b, goal =>
    let (b, s) := b.prune size goal
    let (a, s) := a.prune size s
    (.cat a b, s)
  | .alt a b, goal =>
    let (a, s) := a.prune size goal
    let (b, t) := b.prune size goal
    (.alt a b, s ||| t)
  | .opt greedy a, goal =>
    let (a, s) := a.prune size goal
    (.opt greedy a, goal ||| s)
  | .star greedy a, goal =>
    let rest := starBack a a.back 0 size goal
    (.star greedy (a.prune size rest).1, rest)
  | .plus greedy a, goal =>
    let (a, s) := a.prune size (starBack a a.back 0 size goal)
    (.plus greedy a, s)
  | .upTo greedy k a, goal =>
    let s := Places.close (a.back 0 size) k goal
    (.upTo greedy k (a.prune size s).1, s)
  | .exactly k a, goal =>
    let (s, met) := Places.iterate (a.back 0 size) k goal 0
    (.exactly k (a.prune size met).1, s)

end Path

/-- Whether a pattern matches somewhere in a subject. -/
def Node.occursIn (node : Node) (cs : Subject) : Bool :=
  let size := cs.size + 1
  (node.path cs).back 0 size (Places.all size) != 0

end RecordMill.Pattern

import RecordMill.Pattern.Path

/-!
# Where matches are

A path that begins at a place is followed to its longest or its preferred end. Only a window around the
match is looked at: it is widened while leaving it would be the better choice.
-/

namespace RecordMill.Pattern

/-! ## The preferred end -/

/-- A path as a part of others: where it may begin, and how far it goes to its preferred end in a set when
it begins at the first place of a window. -/
structure Part where
  back : Walk
  pick : (lo n : Nat) → Places → Nat

namespace Part

/-- How far it is to the preferred end in a goal, if there is one. `goal m` is the goal as far as the
first `m` places go, and `room` of them are all there is. -/
def advance? (a : Part) (lo room : Nat) (goal : Nat → Places) : Nat → Nat → Option Nat
  | 0, _ => none
  | fuel + 1, m =>
    if room ≤ m then
      let s := goal (room + 1)
      if (a.back lo room s).hasFirst then some (a.pick lo room s) else none
    else
      let s := goal m ||| Places.single m
      if (a.back lo m s).hasFirst then
        let i := a.pick lo m s
        if i < m then some i else a.advance? lo room goal fuel (4 * m)
      else none

/-- Begins with a window of one word, unless there is not much more. -/
def preferred? (a : Part) (lo room : Nat) (goal : Nat → Places) : Option Nat :=
  a.advance? lo room goal (room.log2 + 2) (if room ≤ Walk.smallWindow then room else Bits.wordSize)

/-- Goes on from place `i` with rounds that make progress, or stops in `goal`, whichever is preferred.
`rest` are the places from which rounds lead to the goal. -/
def rounds (a : Part) (greedy : Bool) (goal rest : Bits) (lo n : Nat) : Nat → Nat → Nat
  | 0, i => i
  | fuel + 1, i =>
    if n ≤ i || (!greedy && goal.has i) then i
    else match a.preferred? (lo + i) (n - i) fun m => (rest.slice i m).withoutFirst with
      | some j => a.rounds greedy goal rest lo n fuel (i + j)
      | none => i

/-- At least one round, where `rest` are the places from which rounds lead to the goal. A first round that
goes nowhere is the last one. -/
def pickPlus (a : Part) (greedy : Bool) (lo n : Nat) (goal rest : Places) : Nat :=
  let goal := Bits.ofPlaces (n + 1) goal
  let rest := Bits.ofPlaces (n + 1) rest
  let first := a.preferred? lo n fun m =>
    if goal.has 0 then rest.slice 0 m else (rest.slice 0 m).withoutFirst
  match first with
  | some 0 | none => 0
  | some j => a.rounds greedy goal rest lo n (n + 1) j

/-- The preferred round from place `i` after which `k` more are possible. -/
def round? (a : Part) (lo n : Nat) (levels : Array Places) (k i : Nat) : Option Nat :=
  let level := levels.getD (min k (levels.size - 1)) 0 >>> i
  a.preferred? (lo + i) (n - i) level.within

/-- At most `k` rounds; `levels` are the places from which at most 0, 1, ... rounds lead to the goal. -/
def pickUpTo (a : Part) (greedy : Bool) (lo n : Nat) (goal : Bits) (levels : Array Places) : Nat → Nat → Nat
  | 0, i => i
  | k + 1, i =>
    if n ≤ i || (!greedy && goal.has i) then i
    else match a.round? lo n levels k i with
      | some j => a.pickUpTo greedy lo n goal levels k (i + j)
      | none => i

/-- Just `k` rounds; `levels` are the places from which 0, 1, ... rounds lead to the goal. -/
def pickExactly (a : Part) (lo n : Nat) (levels : Array Places) : Nat → Nat → Nat
  | 0, i => i
  | k + 1, i =>
    if n ≤ i then i
    else match a.round? lo n levels k i with
      | some j => a.pickExactly lo n levels k (i + j)
      | none => i

end Part

namespace Path

/-- How far it is to the preferred end in `goal` of a path that begins at `lo` and can end there. Whoever
leaves the window goes no further. -/
def pick : Path → (lo n : Nat) → Places → Nat
  | .stay _, _, _, _ => 0
  | .move _, _, _, _ => 1
  | .cat a b, lo, n, goal =>
    let i := a.pick lo n (b.back lo n goal)
    if n ≤ i then i else i + b.pick (lo + i) (n - i) (goal >>> i)
  | .alt a b, lo, n, goal => if (a.back lo n goal).hasFirst then a.pick lo n goal else b.pick lo n goal
  | .opt greedy a, lo, n, goal =>
    if goal.hasFirst && !(greedy && (a.back lo n goal).hasFirst) then 0 else a.pick lo n goal
  | .star greedy a, lo, n, goal =>
    let rest := starBack a a.back lo n goal
    if goal.hasFirst && !(greedy && (a.back lo n rest).hasFirst) then 0
    else Part.pickPlus ⟨a.back, a.pick⟩ greedy lo n goal rest
  | .plus greedy a, lo, n, goal =>
    Part.pickPlus ⟨a.back, a.pick⟩ greedy lo n goal (starBack a a.back lo n goal)
  | .upTo greedy k a, lo, n, goal =>
    Part.pickUpTo ⟨a.back, a.pick⟩ greedy lo n (.ofPlaces (n + 1) goal)
      (Places.levels (fun t => goal ||| a.back lo n t) k goal #[]) k 0
  | .exactly k a, lo, n, goal =>
    Part.pickExactly ⟨a.back, a.pick⟩ lo n (Places.levels (a.back lo n) k goal #[]) k 0

/-! ## The longest end -/

/-- Widens a window until no attempt from `lo` leaves it or it is all there is. -/
def widen (p : Path) (lo room : Nat) : Nat → Nat → Nat
  | 0, _ => room
  | fuel + 1, n =>
    if room ≤ n then room
    else if (p.back lo n (Places.single n)).hasFirst then p.widen lo room fuel (4 * n)
    else n

/-- How far it is to the farthest end of a path that begins at `lo`. -/
def farthest (p : Path) (lo room : Nat) : Nat :=
  let n := if room ≤ Walk.smallWindow then room else p.widen lo room (room.log2 + 1) Bits.wordSize
  Places.greatest (p.ahead lo n 1)

end Path

/-! ## Search -/

/-- A pattern on a subject, with the places where a match can begin. -/
structure Search where
  size : Nat
  path : Path
  starts : Places
  /-- The longest match counts rather than the preferred one. -/
  longest : Bool

namespace Search

def ofSubject (node : Node) (longest : Bool) (cs : Subject) : Search :=
  let size := cs.size + 1
  let (path, starts) := (node.path cs).prune size (Places.all size)
  { size, path, starts, longest }

/-- Where the match that begins at `i` ends. -/
def endFrom (s : Search) (i : Nat) : Nat :=
  let room := s.size - i
  if s.longest then i + s.path.farthest i room
  else i + (Part.preferred? ⟨s.path.back, s.path.pick⟩ i room fun m => Places.all (min m room)).getD 0

/-- Matches that do not overlap, from left to right, out of the places where one can begin. The next one
begins at `i` or later, and an empty one does not begin at `last`, where the one before ended. -/
def allFrom (s : Search) : List Nat → Nat → Option Nat → List (Nat × Nat)
  | [], _, _ => []
  | a :: starts, i, last =>
    if a < i then s.allFrom starts i last
    else
      let b := s.endFrom a
      let rest := s.allFrom starts (if b = a then a + 1 else b) (some b)
      if b = a ∧ last = some a then rest else (a, b) :: rest

def all (s : Search) : List (Nat × Nat) := s.allFrom (Places.members s.size s.starts) 0 none

end Search

end RecordMill.Pattern

import RecordMill.Text.CaseFold
import RecordMill.Text.Category.Basic

/-! # Patterns as trees over sets of characters -/

namespace RecordMill.Pattern

/-- A set given by classes. When `fold` is set, letters count as members in either case. -/
structure CharSet where
  negated : Bool := false
  fold : Bool := false
  groups : List Category.Class
  deriving DecidableEq, Repr

namespace CharSet

def groupHas (fold : Bool) (g : Category.Class) (code : Nat) : Bool :=
  let found := if fold then (CaseFold.orbit code).any (Category.inRuns g.runs)
    else Category.inRuns g.runs code
  found != g.negated

def has (s : CharSet) (code : Nat) : Bool := s.groups.any (groupHas s.fold · code) != s.negated

def single (fold : Bool) (code : Nat) : CharSet := { fold, groups := [{ runs := [(code, code, 1)] }] }

def isSingle (s : CharSet) : Bool :=
  match s.groups with
  | [⟨false, [(lo, hi, _)]⟩] => !s.negated && lo == hi
  | _ => false

def any : CharSet := { negated := true, groups := [] }

def notNewline : CharSet := { negated := true, groups := [{ runs := [(10, 10, 1)] }] }

/-! ### Named groups -/

def digits : Category.Runs := [(48, 57, 1)]

def wordChars : Category.Runs := [(48, 57, 1), (65, 90, 1), (95, 95, 1), (97, 122, 1)]

/-- The letter after a backslash that names a group. -/
def escapeGroup? : Char → Option Category.Class
  | 'd' => some { runs := digits }
  | 'D' => some { negated := true, runs := digits }
  | 's' => some { runs := [(9, 10, 1), (12, 13, 1), (32, 32, 1)] }
  | 'S' => some { negated := true, runs := [(9, 10, 1), (12, 13, 1), (32, 32, 1)] }
  | 'w' => some { runs := wordChars }
  | 'W' => some { negated := true, runs := wordChars }
  | _ => none

def bracketNames : List (String × Category.Runs) :=
  [("alnum", [(48, 57, 1), (65, 90, 1), (97, 122, 1)]),
    ("alpha", [(65, 90, 1), (97, 122, 1)]),
    ("ascii", [(0, 127, 1)]),
    ("blank", [(9, 9, 1), (32, 32, 1)]),
    ("cntrl", [(0, 31, 1), (127, 127, 1)]),
    ("digit", digits),
    ("graph", [(33, 126, 1)]),
    ("lower", [(97, 122, 1)]),
    ("print", [(32, 126, 1)]),
    ("punct", [(33, 47, 1), (58, 64, 1), (91, 96, 1), (123, 126, 1)]),
    ("space", [(9, 13, 1), (32, 32, 1)]),
    ("upper", [(65, 90, 1)]),
    ("word", wordChars),
    ("xdigit", [(48, 57, 1), (65, 70, 1), (97, 102, 1)])]

/-- The group of a name such as `alpha`, or of `^alpha` for its complement. -/
def bracketGroup? (name : List Char) : Option Category.Class :=
  match name with
  | '^' :: rest => (bracketNames.lookup (String.ofList rest)).map fun r => { negated := true, runs := r }
  | _ => (bracketNames.lookup (String.ofList name)).map fun r => { runs := r }

end CharSet

/-! ## Trees -/

/-- Conditions on a place that take up no character. -/
inductive Anchor where
  | beginText
  | endText
  | beginLine
  | endLine
  | wordBoundary
  | noWordBoundary
  deriving DecidableEq, Repr

inductive Node where
  | empty
  | set (s : CharSet)
  | anchor (a : Anchor)
  | group (a : Node)
  | cat (a b : Node)
  | alt (a b : Node)
  | opt (greedy : Bool) (a : Node)
  | star (greedy : Bool) (a : Node)
  | plus (greedy : Bool) (a : Node)
  /-- Between `min` and `max` times; without `max` as often as one likes. -/
  | times (greedy : Bool) (min : Nat) (max : Option Nat) (a : Node)
  deriving DecidableEq, Repr

abbrev Subject := Array Nat

def isWordCode (code : Nat) : Bool := Category.inRuns CharSet.wordChars code

def wordAt (cs : Subject) (i : Nat) : Bool := ((cs[i]?).map isWordCode).getD false

def wordBefore (cs : Subject) (i : Nat) : Bool := i != 0 && wordAt cs (i - 1)

def Anchor.holds (cs : Subject) (i : Nat) : Anchor → Bool
  | .beginText => i == 0
  | .endText => i == cs.size
  | .beginLine => i == 0 || cs[i - 1]? == some 10
  | .endLine => i == cs.size || cs[i]? == some 10
  | .wordBoundary => wordBefore cs i != wordAt cs i
  | .noWordBoundary => wordBefore cs i == wordAt cs i

/-! ## Nesting -/

/-- How tall a tree is: as a part of its own, as one of several parts in a row, and as one of several
alternatives. Characters in a row are a single part, and so are alternatives that are all sets. -/
structure Height where
  alone : Nat
  inRow : Nat := alone
  inChoice : Nat := alone
  isText : Bool := false
  isSet : Bool := false

namespace Height

def leaf : Height := { alone := 1 }

def above (h : Height) : Height := { alone := h.alone + 1 }

def row (a b : Height) : Height :=
  let inner := max a.inRow b.inRow
  if a.isText && b.isText then { alone := 1, isText := true } else { alone := inner + 1, inRow := inner }

def choice (a b : Height) : Height :=
  let inner := max a.inChoice b.inChoice
  if a.isSet && b.isSet then { alone := 1, isSet := true } else { alone := inner + 1, inChoice := inner }

end Height

def Node.height : Node → Height
  | .empty | .anchor _ => Height.leaf
  | .set s => { alone := 1, isText := s.isSingle, isSet := true }
  | .group a | .opt _ a | .star _ a | .plus _ a | .times _ _ _ a => a.height.above
  | .cat a b => Height.row a.height b.height
  | .alt a b => Height.choice a.height b.height

def maxHeight : Nat := 1000

end RecordMill.Pattern

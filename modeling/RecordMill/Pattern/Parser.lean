import RecordMill.Pattern.Node
import RecordMill.Text.Utf8

/-!
# Reading patterns

A pattern is read from left to right with a stack of open groups. Each group holds the alternatives that
are finished and the items of the one being read, latest first.
-/

namespace RecordMill.Pattern

inductive ParseError where
  | notText
  | nothingToRepeat
  | repeatedTwice
  | repeatSize
  | unclosedGroup
  | unopenedGroup
  | unclosedSet
  | badRange
  | badEscape
  | trailingBackslash
  | badGroup
  | tooDeep
  deriving DecidableEq, Repr

structure Flags where
  fold : Bool := false
  multiline : Bool := false
  dotNewline : Bool := true
  lazy : Bool := false
  deriving DecidableEq, Repr

/-- An open group: the flags that come back when it closes, and what has been read of it. -/
structure Group where
  flags : Flags
  /-- Brackets that only open a group for flags do not count as a part. -/
  counts : Bool := true
  branches : List Node := []
  items : List Node := []

structure State where
  flags : Flags := {}
  group : Group := { flags := {} }
  outer : List Group := []
  /-- The last item is a repetition, which cannot be repeated again. -/
  repeated : Bool := false

namespace Group

def branch (g : Group) : Node :=
  match g.items.reverse with
  | [] => .empty
  | a :: rest => rest.foldl .cat a

def closeBranch (g : Group) : Group := { g with branches := g.branch :: g.branches, items := [] }

def node (g : Group) : Node := g.branches.foldl (fun acc b => .alt b acc) g.branch

end Group

namespace State

def push (st : State) (n : Node) : State :=
  { st with group := { st.group with items := n :: st.group.items }, repeated := false }

def pushChar (st : State) (code : Nat) : State := st.push (.set (.single st.flags.fold code))

def open_ (st : State) (inner : Flags) (counts : Bool) : State :=
  { flags := inner, group := { flags := st.flags, counts }, outer := st.group :: st.outer }

def close (st : State) : Except ParseError State :=
  match st.outer with
  | [] => .error .unopenedGroup
  | g :: outer =>
    let node := if st.group.counts then .group st.group.node else st.group.node
    .ok { flags := st.group.flags, group := { g with items := node :: g.items }, outer }

end State

/-! ## Repetition -/

/-- Nested counts may not multiply to more than a thousand. -/
def countsFit : Nat → Node → Bool
  | n, .cat a b | n, .alt a b => countsFit n a && countsFit n b
  | n, .group a | n, .opt _ a | n, .star _ a | n, .plus _ a => countsFit n a
  | n, .times _ min max a =>
    let m := max.getD min
    if max = some 0 then true
    else if m > n then false
    else countsFit (if m > 0 then n / m else n) a
  | _, _ => true

def repeatLast (st : State) (wrap : Node → Node) : Except ParseError State :=
  if st.repeated then .error .repeatedTwice
  else match st.group.items with
    | [] => .error .nothingToRepeat
    | a :: rest => .ok { st with group := { st.group with items := wrap a :: rest }, repeated := true }

/-- A question mark after a repetition makes it prefer fewer rounds. -/
def takeLazy (st : State) : List Char → Bool × List Char
  | '?' :: s => (st.flags.lazy, s)
  | s => (!st.flags.lazy, s)

def takeNumber? (s : List Char) : Option (Nat × List Char) :=
  let ds := s.takeWhile Char.isDigit
  match ds with
  | [] => none
  | '0' :: _ :: _ => none
  | _ => some (ds.foldl (fun n c => n * 10 + (c.toNat - 48)) 0, s.drop ds.length)

/-- The counts in braces; text that does not have this form stands for itself. -/
def takeCounts? (s : List Char) : Option ((Nat × Option Nat) × List Char) := do
  let (lo, s) ← takeNumber? s
  match s with
  | '}' :: s => return ((lo, some lo), s)
  | ',' :: '}' :: s => return ((lo, none), s)
  | ',' :: s =>
    let (hi, s) ← takeNumber? s
    match s with
    | '}' :: s => return ((lo, some hi), s)
    | _ => none
  | _ => none

def countsValid (lo : Nat) (hi : Option Nat) : Bool :=
  lo ≤ 1000 && match hi with
    | some n => n ≤ 1000 && lo ≤ n
    | none => true

def repeatCounted (st : State) (lo : Nat) (hi : Option Nat) (greedy : Bool) : Except ParseError State := do
  if !countsValid lo hi then throw .repeatSize
  let st ← repeatLast st (.times greedy lo hi)
  match st.group.items with
  | n :: _ => if (lo ≥ 2 || hi.getD 0 ≥ 2) && !countsFit 1000 n then throw .repeatSize else return st
  | [] => return st

/-! ## Escapes -/

def isOctal (c : Char) : Bool := '0' ≤ c && c ≤ '7'

def hexDigit? (c : Char) : Option Nat :=
  if c.isDigit then some (c.toNat - 48)
  else if 'a' ≤ c && c ≤ 'f' then some (c.toNat - 87)
  else if 'A' ≤ c && c ≤ 'F' then some (c.toNat - 55)
  else none

def takeBraced : Option Nat → List Char → Except ParseError (Nat × List Char)
  | _, [] => .error .badEscape
  | acc, c :: s =>
    if c = '}' then match acc with
      | some n => .ok (n, s)
      | none => .error .badEscape
    else match hexDigit? c with
      | none => .error .badEscape
      | some d =>
        let n := acc.getD 0 * 16 + d
        if n > 0x10FFFF then .error .badEscape else takeBraced (some n) s

def takeOctal (first : Nat) (s : List Char) : Nat × List Char :=
  let ds := (s.takeWhile isOctal).take 2
  (ds.foldl (fun n c => n * 8 + (c.toNat - 48)) first, s.drop ds.length)

/-- The character that an escape stands for, from what follows the backslash. -/
def takeEscape : List Char → Except ParseError (Nat × List Char)
  | [] => .error .trailingBackslash
  | 'x' :: '{' :: s => takeBraced none s
  | 'x' :: a :: b :: s => match hexDigit? a, hexDigit? b with
    | some x, some y => .ok (x * 16 + y, s)
    | _, _ => .error .badEscape
  | 'a' :: s => .ok (7, s)
  | 'f' :: s => .ok (12, s)
  | 'n' :: s => .ok (10, s)
  | 'r' :: s => .ok (13, s)
  | 't' :: s => .ok (9, s)
  | 'v' :: s => .ok (11, s)
  | c :: s =>
    if c = '0' then .ok (takeOctal 0 s)
    else if '1' ≤ c && c ≤ '7' then
      if (s.head?.map isOctal).getD false then .ok (takeOctal (c.toNat - 48) s) else .error .badEscape
    else if c.toNat < 128 && !c.isAlphanum then .ok (c.toNat, s)
    else .error .badEscape

/-! ## Named classes -/

/-- The class after `\p` or `\P`: one letter, or a name in braces that may begin with a caret. -/
def takeClass (negated : Bool) : List Char → Except ParseError (Category.Class × List Char)
  | [] => .error .badRange
  | '{' :: s =>
    let name := s.takeWhile (· != '}')
    match s.drop name.length with
    | [] => .error .badRange
    | _ :: rest => finish name rest
  | c :: s => finish [c] s
where
  finish (name : List Char) (rest : List Char) : Except ParseError (Category.Class × List Char) :=
    let (flip, name) := match name with
      | '^' :: n => (true, n)
      | n => (false, n)
    match Category.find? name with
    | some c => .ok ({ c with negated := c.negated != (negated != flip) }, rest)
    | none => .error .badRange

/-! ## Sets in brackets -/

def takeSetChar : List Char → Except ParseError (Nat × List Char)
  | [] => .error .unclosedSet
  | '\\' :: s => takeEscape s
  | c :: s => .ok (c.toNat, s)

/-- A name such as `[:alpha:]`, from what follows its opening; `none` if it has no end. -/
def takeBracketName? (s : List Char) : Option (List Char × List Char) := go [] s
where
  go (acc : List Char) : List Char → Option (List Char × List Char)
    | ':' :: ']' :: s => some (acc.reverse, s)
    | c :: s => go (c :: acc) s
    | [] => none

def takeRange (s : List Char) : Except ParseError (Category.Class × List Char) := do
  let (lo, s) ← takeSetChar s
  match s with
  | '-' :: c :: t =>
    if c = ']' then return ({ runs := [(lo, lo, 1)] }, s)
    else
      let (hi, t) ← takeSetChar (c :: t)
      if hi < lo then throw .badRange
      return ({ runs := [(lo, hi, 1)] }, t)
  | _ => return ({ runs := [(lo, lo, 1)] }, s)

def takeSetItem (s : List Char) : Except ParseError (Category.Class × List Char) :=
  match s with
  | '[' :: ':' :: t => match takeBracketName? t with
    | none => takeRange s
    | some (name, rest) => match CharSet.bracketGroup? name with
      | some g => .ok (g, rest)
      | none => .error .badRange
  | '\\' :: 'p' :: t => takeClass false t
  | '\\' :: 'P' :: t => takeClass true t
  | '\\' :: c :: t => match CharSet.escapeGroup? c with
    | some g => .ok (g, t)
    | none => takeRange s
  | _ => takeRange s

/-- The items of a set; a closing bracket in front is a member. -/
def takeSetItems : Nat → Bool → List Category.Class → List Char → Except ParseError (List Category.Class × List Char)
  | _, _, _, [] => .error .unclosedSet
  | 0, _, _, _ => .error .unclosedSet
  | fuel + 1, first, acc, c :: s =>
    if c = ']' ∧ !first then .ok (acc.reverse, s)
    else do
      let (g, rest) ← takeSetItem (c :: s)
      takeSetItems fuel false (g :: acc) rest

def takeSet (fold : Bool) (s : List Char) : Except ParseError (CharSet × List Char) := do
  let (negated, s) := match s with
    | '^' :: t => (true, t)
    | t => (false, t)
  let (groups, rest) ← takeSetItems (s.length + 1) true [] s
  return ({ negated, fold, groups }, rest)

/-! ## Groups -/

/-- The name of a group is a word that ends with an angle bracket. -/
def takeGroupName (s : List Char) : Except ParseError (List Char) :=
  let name := s.takeWhile (· != '>')
  match s.drop name.length with
  | [] => .error .badGroup
  | _ :: rest =>
    if !name.isEmpty && name.all (fun c => c == '_' || c.isAlphanum) then .ok rest else .error .badGroup

/-- Flag letters up to a colon, which opens a group, or a bracket, which does not. -/
def takeFlags (st : State) : Flags → Bool → Bool → List Char → Except ParseError (State × List Char)
  | _, _, _, [] => .error .badGroup
  | f, off, saw, c :: s =>
    match c with
    | 'i' => takeFlags st { f with fold := !off } off true s
    | 'm' => takeFlags st { f with multiline := !off } off true s
    | 's' => takeFlags st { f with dotNewline := !off } off true s
    | 'U' => takeFlags st { f with lazy := !off } off true s
    | '-' => if off then .error .badGroup else takeFlags st f true false s
    | ':' => if off && !saw then .error .badGroup else .ok (st.open_ f false, s)
    | ')' => if off && !saw then .error .badGroup else .ok ({ st with flags := f, repeated := false }, s)
    | _ => .error .badGroup

def takeGroup (st : State) : List Char → Except ParseError (State × List Char)
  | '?' :: 'P' :: '<' :: s => do return (st.open_ st.flags true, ← takeGroupName s)
  | '?' :: '<' :: s => do return (st.open_ st.flags true, ← takeGroupName s)
  | '?' :: s => takeFlags st st.flags false false s
  | s => .ok (st.open_ st.flags true, s)

/-! ## The whole pattern -/

/-- Plain text up to `\E`. -/
def takeQuoted (st : State) : List Char → State × List Char
  | [] => (st, [])
  | '\\' :: 'E' :: s => (st, s)
  | c :: s => takeQuoted (st.pushChar c.toNat) s

def takeBackslash (st : State) : List Char → Except ParseError (State × List Char)
  | 'A' :: s => .ok (st.push (.anchor .beginText), s)
  | 'b' :: s => .ok (st.push (.anchor .wordBoundary), s)
  | 'B' :: s => .ok (st.push (.anchor .noWordBoundary), s)
  | 'z' :: s => .ok (st.push (.anchor .endText), s)
  | 'C' :: _ => .error .badEscape
  | 'Q' :: s => .ok (takeQuoted { st with repeated := false } s)
  | 'p' :: s => do
    let (g, s) ← takeClass false s
    return (st.push (.set { fold := st.flags.fold, groups := [g] }), s)
  | 'P' :: s => do
    let (g, s) ← takeClass true s
    return (st.push (.set { fold := st.flags.fold, groups := [g] }), s)
  | s => match s with
    | c :: t => match CharSet.escapeGroup? c with
      | some g => .ok (st.push (.set { fold := st.flags.fold, groups := [g] }), t)
      | none => do
        let (code, t) ← takeEscape s
        return (st.pushChar code, t)
    | [] => .error .trailingBackslash

def step (st : State) (c : Char) (s : List Char) : Except ParseError (State × List Char) :=
  let repetition (wrap : Bool → Node → Node) : Except ParseError (State × List Char) := do
    let (greedy, rest) := takeLazy st s
    return (← repeatLast st (wrap greedy), rest)
  match c with
  | '(' => takeGroup st s
  | ')' => do return (← st.close, s)
  | '|' => .ok ({ st with group := st.group.closeBranch, repeated := false }, s)
  | '^' => .ok (st.push (.anchor (if st.flags.multiline then .beginLine else .beginText)), s)
  | '$' => .ok (st.push (.anchor (if st.flags.multiline then .endLine else .endText)), s)
  | '.' => .ok (st.push (.set (if st.flags.dotNewline then .any else .notNewline)), s)
  | '[' => do
    let (set, rest) ← takeSet st.flags.fold s
    return (st.push (.set set), rest)
  | '*' => repetition .star
  | '+' => repetition .plus
  | '?' => repetition .opt
  | '{' => match takeCounts? s with
    | none => .ok (st.pushChar c.toNat, s)
    | some ((lo, hi), rest) => do
      let (greedy, rest) := takeLazy st rest
      return (← repeatCounted st lo hi greedy, rest)
  | '\\' => takeBackslash st s
  | _ => .ok (st.pushChar c.toNat, s)

/-- Every step takes at least one character, so as many steps as characters are enough. -/
def readAll : Nat → State → List Char → Except ParseError State
  | _, st, [] => .ok st
  | 0, st, _ => .ok st
  | fuel + 1, st, c :: s => do
    let (st, rest) ← step st c s
    readAll fuel st rest

def chars? (s : Bytes) : Option (List Char) :=
  (Utf8.units s).mapM fun
    | .char code _ => some (Char.ofNat code)
    | .stray _ => none

/-- A dot matches every character, newlines included. -/
def parse (pattern : Bytes) : Except ParseError Node := do
  match chars? pattern with
  | none => throw .notText
  | some cs =>
    let st ← readAll cs.length {} cs
    let node := st.group.node
    if !st.outer.isEmpty then throw .unclosedGroup
    if node.height.alone > maxHeight then throw .tooDeep
    return node

end RecordMill.Pattern

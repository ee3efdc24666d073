import RecordMill.Host.Shell.Word

/-!
# Scripts

The structure of a command line: lists of pipelines, groups, choices and loops. Words such as `if` are
special only where a command begins.
-/

namespace RecordMill.Shell

structure Redirect where
  fd : Nat
  direction : Direction
  target : Word
  deriving DecidableEq, Repr

inductive Script where
  | skip
  | simple (assigned : List (Bytes × Word)) (words : List Word)
  | redirected (a : Script) (rs : List Redirect)
  | pipe (a b : Script)
  | inverted (a : Script)
  | seq (a b : Script)
  /-- `b` runs only if `a` succeeds. -/
  | andThen (a b : Script)
  /-- `b` runs only if `a` fails. -/
  | orElse (a b : Script)
  | subshell (a : Script)
  | choice (cond yes no : Script)
  /-- `stop` is the outcome of the condition that ends the loop. -/
  | loop (stop : Bool) (cond body : Script)
  | each (name : Bytes) (words : List Word) (body : Script)
  deriving Repr

namespace Script

def withRedirects (a : Script) (rs : List Redirect) : Script := if rs.isEmpty then a else .redirected a rs

/-! ## Reading -/

def keyword? : List Token → Option Bytes
  | .word w :: _ => w.plain?
  | _ => none

def closers : List Bytes := ["then", "else", "elif", "fi", "do", "done", "\x7d"]

def skipNext : List Token → List Token
  | .next :: ts => skipNext ts
  | ts => ts

def expect (k : Bytes) (ts : List Token) : Option (List Token) :=
  if keyword? ts = some k then some ts.tail else none

/-- A variable with its value, if a word assigns one. -/
def assignment? (w : Word) : Option (Bytes × Word) :=
  let isPart : Piece → Bool
    | .char b false => isNamePart b
    | _ => false
  let name := w.takeWhile isPart
  match (Word.plain? name), w.dropWhile isPart with
  | some (b :: bs), .char 61 false :: value => if isNameStart b then some (b :: bs, value) else none
  | _, _ => none

def redirects : List Token → List Redirect × List Token
  | .redirect fd direction :: .word w :: ts =>
    let (rs, rest) := redirects ts
    (⟨fd, direction, w⟩ :: rs, rest)
  | ts => ([], ts)

def arguments : List Token → List Word × List Redirect × List Token
  | .word w :: ts =>
    let (ws, rs, rest) := arguments ts
    (w :: ws, rs, rest)
  | .redirect fd direction :: .word w :: ts =>
    let (ws, rs, rest) := arguments ts
    (ws, ⟨fd, direction, w⟩ :: rs, rest)
  | ts => ([], [], ts)

def takeAssigned : List Word → List (Bytes × Word) × List Word
  | [] => ([], [])
  | w :: ws => match assignment? w with
    | some a =>
      let (as, ws) := takeAssigned ws
      (a :: as, ws)
    | none => ([], w :: ws)

/-- A simple command; there must be something of it. -/
def simple? (ts : List Token) : Option (Script × List Token) :=
  match arguments ts with
  | ([], [], _) => none
  | (ws, rs, rest) =>
    let (as, ws) := takeAssigned ws
    some (withRedirects (.simple as ws) rs, rest)

/-- The words of a loop up to the end of its first line. -/
def items : List Token → List Word × List Token
  | .word w :: ts =>
    let (ws, rest) := items ts
    (w :: ws, rest)
  | ts => ([], ts)

mutual

/-- Commands up to the end, a closing bracket or a word that closes a list. -/
def list : Nat → List Token → Option (Script × List Token)
  | 0, _ => none
  | fuel + 1, ts =>
    let ts := skipNext ts
    if ts.isEmpty || ts.head? = some .closing || (keyword? ts).any closers.contains then some (.skip, ts)
    else do
      let (a, ts) ← chain fuel ts
      match ts with
      | .next :: ts => do
        let (b, ts) ← list fuel ts
        return (.seq a b, ts)
      | ts => return (a, ts)

def chain : Nat → List Token → Option (Script × List Token)
  | 0, _ => none
  | fuel + 1, ts => do
    let (a, ts) ← pipeline fuel ts
    chainFrom fuel a ts

def chainFrom : Nat → Script → List Token → Option (Script × List Token)
  | 0, _, _ => none
  | fuel + 1, a, ts => match ts with
    | .andThen :: ts => do
      let (b, ts) ← pipeline fuel (skipNext ts)
      chainFrom fuel (.andThen a b) ts
    | .orElse :: ts => do
      let (b, ts) ← pipeline fuel (skipNext ts)
      chainFrom fuel (.orElse a b) ts
    | ts => some (a, ts)

def pipeline : Nat → List Token → Option (Script × List Token)
  | 0, _ => none
  | fuel + 1, ts =>
    if keyword? ts = some (text "!") then do
      let (a, ts) ← pipeline fuel ts.tail
      return (.inverted a, ts)
    else do
      let (a, ts) ← command fuel ts
      match ts with
      | .pipe :: ts => do
        let (b, ts) ← pipeline fuel (skipNext ts)
        return (.pipe a b, ts)
      | ts => return (a, ts)

def command : Nat → List Token → Option (Script × List Token)
  | 0, _ => none
  | fuel + 1, ts =>
    match ts with
    | .opening :: ts => do
      match ← list fuel ts with
      | (a, .closing :: ts) =>
        let (rs, ts) := redirects ts
        return (withRedirects (.subshell a) rs, ts)
      | _ => none
    | ts => match keyword? ts with
      | some k =>
        if k = text "\x7b" then do
          let (a, ts) ← list fuel ts.tail
          finish a (← expect "\x7d" ts)
        else if k = text "if" then do
          let (a, ts) ← conditional fuel ts.tail
          finish a ts
        else if k = text "while" ∨ k = text "until" then do
          let (cond, ts) ← list fuel ts.tail
          let (body, ts) ← list fuel (← expect "do" ts)
          finish (.loop (k = text "until") cond body) (← expect "done" ts)
        else if k = text "for" then do
          let name ← keyword? ts.tail
          let (words, ts) := items (← expect "in" (skipNext (ts.drop 2)))
          let (body, ts) ← list fuel (← expect "do" (skipNext ts))
          finish (.each name words body) (← expect "done" ts)
        else simple? ts
      | none => simple? ts
where
  finish (a : Script) (ts : List Token) : Option (Script × List Token) :=
    let (rs, ts) := redirects ts
    some (withRedirects a rs, ts)

/-- A condition, what depends on it, and the end of it all. -/
def conditional : Nat → List Token → Option (Script × List Token)
  | 0, _ => none
  | fuel + 1, ts => do
    let (cond, ts) ← list fuel ts
    let (yes, ts) ← list fuel (← expect "then" ts)
    match keyword? ts with
    | some k =>
      if k = text "elif" then
        let (no, ts) ← conditional fuel ts.tail
        return (.choice cond yes no, ts)
      else if k = text "else" then
        let (no, ts) ← list fuel ts.tail
        return (.choice cond yes no, ← expect "fi" ts)
      else return (.choice cond yes .skip, ← expect "fi" ts)
    | none => none

end

/-- The script of a command line; `none` if it is not well formed. -/
def parse? (line : Bytes) : Option Script := do
  let ts ← tokens (line.length + 1) line
  let (a, rest) ← list (4 * ts.length + 8) ts
  if rest.isEmpty then return a else none

end Script

end RecordMill.Shell

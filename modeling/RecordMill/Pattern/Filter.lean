import RecordMill.Text.Utf8

/-!
# Text that every match contains

Before a pattern is searched, subjects that lack a literal part of it are turned away. A pattern that is
not fully understood gives no filter.
-/

namespace RecordMill.Pattern

structure Filter where
  lead : Bytes := []
  tail : Bytes := []
  required : List Bytes := []
  deriving DecidableEq, Repr

namespace Filter

def rejects (f : Filter) (s : Bytes) : Bool :=
  !Bytes.startsWith s f.lead || !Bytes.endsWith s f.tail || f.required.any fun r => !Bytes.contains r s

/-! ## Skipping what is not literal -/

/-- What follows a set in brackets, from inside it; `inName` within a `[:name:]`. -/
def skipSetBody : Bool → Bytes → Option Bytes
  | true, 58 :: 93 :: s => skipSetBody false s
  | true, _ :: s => skipSetBody true s
  | false, 92 :: _ :: s => skipSetBody false s
  | false, 91 :: 58 :: s => skipSetBody true s
  | false, 93 :: s => some s
  | false, 92 :: [] => none
  | false, _ :: s => skipSetBody false s
  | _, [] => none

/-- A caret and then a closing bracket in front do not end the set. -/
def skipSet (s : Bytes) : Option Bytes :=
  let s := if s.head? = some 94 then s.tail else s
  let s := if s.head? = some 93 then s.tail else s
  skipSetBody false s

theorem skipSetBody_length_le (inName : Bool) (s r : Bytes) (h : skipSetBody inName s = some r) :
    r.length ≤ s.length := by
  fun_induction skipSetBody inName s <;> simp_all <;> omega

theorem skipSet_length_le (s r : Bytes) (h : skipSet s = some r) : r.length ≤ s.length := by
  unfold skipSet at h
  have := skipSetBody_length_le _ _ _ h
  revert this
  split <;> split <;> simp_all <;> omega

/-- What follows a group, from inside it, `depth` brackets deep. -/
def skipGroup (depth : Nat) (s : Bytes) : Option Bytes :=
  match s with
  | [] => none
  | 92 :: _ :: s => skipGroup depth s
  | 91 :: s =>
    match h : skipSet s with
    | none => none
    | some r =>
      have := skipSet_length_le _ _ h
      skipGroup depth r
  | 40 :: s => skipGroup (depth + 1) s
  | 41 :: s => if depth ≤ 1 then some s else skipGroup (depth - 1) s
  | _ :: s => skipGroup depth s
termination_by s.length
decreasing_by all_goals (simp; try omega)

/-! ## Pieces -/

def isLiteralEscape (c : UInt8) : Bool := Bytes.has (text ".*+?\x7b\x7d[]()|^$\\/") c

def isQuantifier (c : UInt8) : Bool := c == 42 || c == 43 || c == 63 || c == 123

/-- The piece in front: a literal byte, or `none` for one that matches something else; then the rest.
Alternatives, stray quantifiers and unclosed brackets are given up on. -/
def piece? : Bytes → Option (Option UInt8 × Bytes)
  | [] => none
  | c :: s =>
    if c = 124 ∨ isQuantifier c then none
    else if c = 40 then (skipGroup 1 s).map (none, ·)
    else if c = 91 then (skipSet s).map (none, ·)
    else if c = 92 then match s with
      | [] => none
      | e :: s => some (if isLiteralEscape e then some e else none, s)
    else if c = 46 ∨ c = 94 ∨ c = 36 then some (none, s)
    else if c ≥ 0x80 then match Utf8.front? (c :: s) with
      | some (_, n) => some (none, s.drop (n - 1))
      | none => some (none, s)
    else some (some c, s)

/-- What follows a quantifier, with the question mark that may come after it. -/
def skipQuantifier (q : UInt8) (s : Bytes) : Option Bytes :=
  let rest :=
    if q = 123 then match s.dropWhile (· ≠ 125) with
      | [] => none
      | _ :: r => some r
    else some s
  rest.map fun r => if r.head? = some 63 then r.tail else r

/-- The literals found so far. -/
structure Scan where
  filter : Filter := {}
  run : Bytes := []
  leading : Bool := true

def Scan.flush (anchored : Bool) (st : Scan) : Scan :=
  let f := st.filter
  let filter :=
    if st.run.isEmpty then f
    else if st.leading && anchored then { f with lead := st.run }
    else if st.run.length ≥ 2 then { f with required := f.required ++ [st.run] }
    else f
  { filter, run := [], leading := false }

/-- A literal that need not occur ends the run before it; one that may be repeated ends it after. -/
def Scan.add (anchored : Bool) (st : Scan) (literal : Option UInt8) (q : Option UInt8) : Scan :=
  match literal, q with
  | none, _ => st.flush anchored
  | some b, none => { st with run := st.run ++ [b] }
  | some b, some 43 => Scan.flush anchored { st with run := st.run ++ [b] }
  | some _, some _ => st.flush anchored

/-- Goes through the pieces; each takes at least one byte, so as many steps as bytes are enough. -/
def scan (anchored : Bool) : Nat → Scan → Bytes → Option Scan
  | _, st, [] => some st
  | 0, st, _ => some st
  | fuel + 1, st, s =>
    match piece? s with
    | none => none
    | some (literal, rest) =>
      match rest with
      | q :: after =>
        if isQuantifier q then
          match skipQuantifier q after with
          | none => none
          | some r => scan anchored fuel (st.add anchored literal (some q)) r
        else scan anchored fuel (st.add anchored literal none) rest
      | [] => scan anchored fuel (st.add anchored literal none) []

/-- Whether a byte after `before` is escaped: an odd run of backslashes precedes it. -/
def isEscapedAfter (before : Bytes) : Bool := (before.reverse.takeWhile (· == 92)).length % 2 == 1

def Scan.finish (anchored anchoredEnd : Bool) (st : Scan) : Filter :=
  if anchoredEnd && !st.run.isEmpty then
    { st.filter with
      tail := st.run
      lead := if st.leading && anchored then st.run else st.filter.lead }
  else (st.flush anchored).filter

def ofPattern? (pattern : Bytes) : Option Filter :=
  -- flags in a group change what a literal matches
  if Bytes.contains (text "(?") pattern then none
  else
    let anchored := pattern.head? = some 94
    let p := if anchored then pattern.tail else pattern
    let anchoredEnd := p.getLast? = some 36 && !isEscapedAfter p.dropLast
    let p := if anchoredEnd then p.dropLast else p
    (scan anchored p.length {} p).bind fun st =>
      let f := st.finish anchored anchoredEnd
      if f = {} then none else some f

end Filter

end RecordMill.Pattern

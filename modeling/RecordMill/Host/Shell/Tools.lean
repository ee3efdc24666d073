import RecordMill.Pattern.Basic

/-!
# Text tools

The usual filters on lines of text. Each takes its options and a text, and yields a text and a status.
-/

namespace RecordMill.Shell.Tools

/-! ## Options -/

/-- The arguments of a tool, taken apart. -/
structure Args where
  flags : Bytes := []
  values : List (UInt8 × Bytes) := []
  operands : List Bytes := []
  deriving DecidableEq, Repr

namespace Args

/-- Letters behind one hyphen, up to the first that takes a value. -/
def cluster (valued : Bytes) : Bytes → Bytes × Option (UInt8 × Bytes)
  | [] => ([], none)
  | c :: s =>
    if valued.has c then ([], some (c, s))
    else
      let (fs, v) := cluster valued s
      (c :: fs, v)

/-- `valued` are the letters that take a value, at once or as the next argument. -/
def parse (valued : Bytes) : List Bytes → Args
  | [] => {}
  | [a] => one valued a none {}
  | a :: b :: rest =>
    if a = text "--" then { operands := b :: rest }
    else if needsValue a then one valued a (some b) (parse valued rest)
    else one valued a none (parse valued (b :: rest))
where
  needsValue (a : Bytes) : Bool :=
    a.head? = some 45 && match cluster valued a.tail with
      | (_, some (_, [])) => true
      | _ => false
  one (valued a : Bytes) (next : Option Bytes) (p : Args) : Args :=
    match a with
    | 45 :: b :: s => match cluster valued (b :: s) with
      | (fs, none) => { p with flags := fs ++ p.flags }
      | (fs, some (c, [])) => { p with flags := fs ++ p.flags, values := (c, next.getD []) :: p.values }
      | (fs, some (c, v)) => { p with flags := fs ++ p.flags, values := (c, v) :: p.values }
    | a => { p with operands := a :: p.operands }

def has (p : Args) (c : UInt8) : Bool := p.flags.has c

def value? (p : Args) (c : UInt8) : Option Bytes := p.values.lookup c

end Args

/-! ## Lines -/

/-- Lines without their ends; a last line need not have one. -/
def lines (s : Bytes) : List Bytes :=
  let ls := Bytes.cutAt 10 s
  if ls.getLast? = some [] then ls.dropLast else ls

def unlines (ls : List Bytes) : Bytes := ls.flatMap (· ++ [10])

/-- Changes lines; where the last one has no end, none is added. -/
def mapLines (f : List Bytes → List Bytes) (s : Bytes) : Bytes :=
  let out := unlines (f (lines s))
  if s.getLast? = some 10 then out else out.dropLast

def padLeft (width : Nat) (s : Bytes) : Bytes := List.replicate (width - s.length) 32 ++ s

def numbered (n : Nat) (l : Bytes) : Bytes := padLeft 6 (Bytes.decimal n) ++ [9] ++ l

def cat (p : Args) (input : Bytes) : Bytes :=
  if p.has 110 then mapLines (·.zipIdx.map fun (l, i) => numbered (i + 1) l) input else input

def numberLines : Nat → List Bytes → List Bytes
  | _, [] => []
  | n, l :: ls =>
    if l.isEmpty then List.replicate 7 32 :: numberLines n ls else numbered n l :: numberLines (n + 1) ls

/-! ## Sorting -/

/-- The number that a line begins with, in units of the eighteenth place. -/
def lineNumber (s : Bytes) : Int :=
  let s := s.dropWhile isBlankByte
  match s with
  | 45 :: t => -(magnitude t : Nat)
  | _ => (magnitude s : Nat)
where
  isBlankByte (b : UInt8) : Bool := b == 32 || b == 9
  magnitude (s : Bytes) : Nat :=
    let fraction := match s.dropWhile Bytes.isDigit with
      | 46 :: t => (t.takeWhile Bytes.isDigit).take 18
      | _ => []
    Bytes.value 10 (s.takeWhile Bytes.isDigit ++ fraction ++ List.replicate (18 - fraction.length) 48)

/-- The parts between separators, or words with the blanks in front of them. -/
def sortFields (separator : Option UInt8) (l : Bytes) : List Bytes :=
  match separator with
  | some c => Bytes.cutAt c l
  | none => l.foldr (fun b acc => match acc with
    | f :: rest => if !isBlank b && f.head?.any isBlank then [b] :: f :: rest else (b :: f) :: rest
    | [] => [[b]]) []
where
  isBlank (b : UInt8) : Bool := b == 32 || b == 9

/-- Which fields count, and how they are compared. -/
structure SortKey where
  first : Nat := 1
  last : Option Nat := none
  flags : Bytes

namespace SortKey

/-- A key such as `2`, `2,3` or `2n`. Without letters of its own it takes the common ones. -/
def ofText (common s : Bytes) : SortKey :=
  let place (t : Bytes) : Nat := Bytes.value 10 (t.takeWhile Bytes.isDigit)
  let own := s.filter Bytes.isLower
  let parts := Bytes.cutAt 44 s
  { first := place (parts.headD []), last := parts[1]?.map place, flags := if own.isEmpty then common else own }

def part (k : SortKey) (separator : Option UInt8) (l : Bytes) : Bytes :=
  if k.first ≤ 1 ∧ k.last = none then l
  else
    let fields := sortFields separator l
    Bytes.join separator.toList ((fields.take (k.last.getD fields.length)).drop (k.first - 1))

def compare (k : SortKey) (separator : Option UInt8) (a b : Bytes) : Ordering :=
  let a := k.part separator a
  let b := k.part separator b
  let c := if k.flags.has 110 then Ord.compare (lineNumber a) (lineNumber b)
    else if k.flags.has 102 then Ord.compare (a.map Bytes.toUpper) (b.map Bytes.toUpper)
    else Ord.compare a b
  if k.flags.has 114 then c.swap else c

end SortKey

def sortKeys (p : Args) : List SortKey :=
  match p.values.filter (·.1 = 107) with
  | [] => [{ flags := p.flags }]
  | keys => keys.map fun (_, s) => .ofText p.flags s

def sortOrder (p : Args) (a b : Bytes) : Ordering :=
  (sortKeys p).foldl (fun c k => c.then (k.compare ((p.value? 116).bind List.head?) a b)) .eq

/-- Lines with equal keys are ordered as texts, unless only one of them is kept. -/
def sort (p : Args) (input : Bytes) : Bytes :=
  let le (a b : Bytes) : Bool := match sortOrder p a b with
    | .eq => p.has 117 || (if p.has 114 then compare b a else compare a b) != .gt
    | c => c == .lt
  let ls := (lines input).mergeSort le
  unlines (if p.has 117 then dedup ls else ls)
where
  /-- The first of every run of lines with equal keys. -/
  dedup : List Bytes → List Bytes
    | a :: b :: ls => if sortOrder p a b == .eq then dedup (a :: ls) else a :: dedup (b :: ls)
    | ls => ls
  termination_by ls => ls.length

def runs (same : Bytes → Bytes → Bool) (ls : List Bytes) : List (Bytes × Nat) :=
  (ls.foldl (fun acc l => match acc with
    | (m, n) :: more => if same m l then (m, n + 1) :: more else (l, 1) :: acc
    | [] => [(l, 1)]) []).reverse

def uniq (p : Args) (input : Bytes) : Bytes :=
  let fold (s : Bytes) : Bytes := if p.has 105 then s.map Bytes.toLower else s
  let rs := runs (fun a b => fold a == fold b) (lines input)
  let rs := if p.has 100 then rs.filter (·.2 > 1) else rs
  let rs := if p.has 117 then rs.filter (·.2 = 1) else rs
  unlines (rs.map fun (l, n) => if p.has 99 then padLeft 7 (Bytes.decimal n) ++ [32] ++ l else l)

/-! ## Counting and cutting -/

/-- Lines, words and bytes; `width` for more than one number. -/
def wordCount (p : Args) (width : Nat) (input : Bytes) : Bytes :=
  let counts := [(108, (input.filter (· == 10)).length),
    (119, (Bytes.runsOutside Bytes.isSpace input).length), (99, input.length)]
  let shown := if p.flags.isEmpty then counts else counts.filter fun (o, _) => p.has o
  match shown with
  | [(_, n)] => Bytes.decimal n
  | _ => Bytes.join [32] (shown.map fun (_, n) => padLeft width (Bytes.decimal n))

def amount (p : Args) : Bytes :=
  match p.value? 110, p.flags.filter Bytes.isDigit with
  | some v, _ => v
  | none, [] => text "10"
  | none, ds => ds

def number (s : Bytes) : Nat := Bytes.value 10 (s.filter Bytes.isDigit)

def wholeLines (s : Bytes) : List Bytes :=
  let ls := Bytes.cutAt 10 s
  (ls.dropLast.map (· ++ [10])) ++ (ls.getLast?.toList.filter (!·.isEmpty))

def head (p : Args) (input : Bytes) : Bytes :=
  match p.value? 99 with
  | some n => input.take (number n)
  | none =>
    let n := amount p
    let ls := wholeLines input
    (ls.take (if n.head? = some 45 then ls.length - number n else number n)).flatten

def tail (p : Args) (input : Bytes) : Bytes :=
  match p.value? 99 with
  | some n => input.drop (if n.head? = some 43 then number n - 1 else input.length - number n)
  | none =>
    let n := amount p
    let ls := wholeLines input
    (ls.drop (if n.head? = some 43 then number n - 1 else ls.length - number n)).flatten

/-- Whether a list such as `1,3-5,7-` names a number. -/
def listed (list : Bytes) (n : Nat) : Bool :=
  (Bytes.cutAt 44 list).any fun r => match Bytes.cutAt 45 r with
    | [a] => number a == n
    | [a, b] => (a.isEmpty || number a ≤ n) && (b.isEmpty || n ≤ number b)
    | _ => false

def cut (p : Args) (input : Bytes) : Bytes :=
  let pick {α : Type} (list : Bytes) (xs : List α) : List α :=
    (xs.zipIdx.filter fun (_, i) => listed list (i + 1)).map (·.1)
  let delimiter := ((p.value? 100).bind List.head?).getD 9
  unlines ((lines input).filterMap fun (l : Bytes) =>
    match (p.value? 99).or (p.value? 98), p.value? 102 with
    | some list, _ => some (pick list l)
    | none, some list =>
      if !l.has delimiter then if p.has 115 then none else some l
      else some (Bytes.join [delimiter] (pick list (Bytes.cutAt delimiter l)))
    | none, none => some l)

/-! ## Characters -/

def classes : List (Bytes × (UInt8 → Bool)) :=
  [("upper", Bytes.isUpper), ("lower", Bytes.isLower), ("digit", Bytes.isDigit), ("space", Bytes.isSpace),
    ("alpha", fun b => Bytes.isUpper b || Bytes.isLower b),
    ("alnum", fun b => Bytes.isUpper b || Bytes.isLower b || Bytes.isDigit b),
    ("blank", fun b => b == 32 || b == 9), ("xdigit", Bytes.isHexDigit),
    ("punct", fun b => 33 ≤ b && b ≤ 126 && !(Bytes.isUpper b || Bytes.isLower b || Bytes.isDigit b)),
    ("print", fun b => 32 ≤ b && b ≤ 126), ("cntrl", fun b => b < 32 || b == 127)]

def allBytes : Bytes := (List.range 256).map Nat.toUInt8

/-- The byte that a letter stands for after a backslash. -/
def escaped (c : UInt8) : UInt8 :=
  if c = 110 then 10 else if c = 116 then 9 else if c = 114 then 13 else if c = 97 then 7
  else if c = 98 then 8 else if c = 102 then 12 else if c = 118 then 11 else if c = 48 then 0 else c

def members : Nat → Bytes → Bytes
  | 0, _ | _, [] => []
  | fuel + 1, 91 :: 58 :: s =>
    match classes.lookup (s.takeWhile (· ≠ 58)) with
    | some f => allBytes.filter f ++ members fuel ((s.dropWhile (· ≠ 58)).drop 2)
    | none => 91 :: members fuel (58 :: s)
  | fuel + 1, 92 :: c :: s => escaped c :: members fuel s
  | fuel + 1, a :: 45 :: b :: s =>
    if a ≤ b then (List.range (b.toNat - a.toNat + 1)).map (fun i => (a.toNat + i).toUInt8) ++ members fuel s
    else a :: members fuel (45 :: b :: s)
  | fuel + 1, b :: s => b :: members fuel s

def squeeze (set : Bytes) : Bytes → Bytes
  | a :: b :: s => if a = b ∧ set.has a then squeeze set (b :: s) else a :: squeeze set (b :: s)
  | s => s

def replaceChars (p : Args) (input : Bytes) : Bytes :=
  let sets := p.operands.map fun s => members s.length s
  let first : Bytes := sets.headD []
  let first : Bytes := if p.has 99 || p.has 67 then allBytes.filter (!first.has ·) else first
  match sets.tail with
  | [] =>
    if p.has 100 then input.filter (!first.has ·) else if p.has 115 then squeeze first input else input
  | second :: _ =>
    if p.has 100 then
      let s := input.filter (!first.has ·)
      if p.has 115 then squeeze second s else s
    else
      let s := input.map fun c => match first.idxOf? c with
        | some i => second.getD i (second.getLast?.getD c)
        | none => c
      if p.has 115 then squeeze second s else s

/-! ## Patterns -/

/-- The extended form of a basic pattern, in which brackets and signs of repetition are plain unless a
backslash stands in front. -/
def extended : Nat → Bool → Bytes → Bytes
  | 0, _, _ | _, _, [] => []
  | fuel + 1, _, 92 :: c :: s =>
    if (text "()\x7b\x7d|+?").has c then c :: extended fuel (c == 40 || c == 124) s
    else 92 :: c :: extended fuel false s
  | fuel + 1, _, 91 :: s =>
    let (opening, s) := match s with
      | 94 :: 93 :: s => (text "[^\\]", s)
      | 93 :: s => (text "[\\]", s)
      | s => (text "[", s)
    opening ++ s.takeWhile (· ≠ 93) ++ (s.dropWhile (· ≠ 93)).take 1
      ++ extended fuel false ((s.dropWhile (· ≠ 93)).drop 1)
  | fuel + 1, start, b :: s =>
    if b = 42 ∧ start then 92 :: b :: extended fuel false s
    else if (text "()\x7b\x7d|+?").has b then 92 :: b :: extended fuel false s
    else b :: extended fuel (start && b == 94) s

def literal (s : Bytes) : Bytes :=
  s.flatMap fun b => if (text "\\.+*?()|[]\x7b\x7d^$").has b then [92, b] else [b]

def patternOf (p : Args) (s : Bytes) : Option Pattern :=
  let s := if p.has 70 then literal s else if p.has 69 || p.has 114 then s else extended s.length true s
  let s := if p.has 120 then text "^(" ++ s ++ text ")$" else s
  let s := if p.has 119 then text "\\b(" ++ s ++ text ")\\b" else s
  let s := if p.has 105 then text "(?i)" ++ s else s
  (Pattern.compile true s).toOption.map fun q => { q with filter := none }

/-- Lines that match, or that do not; the status tells whether there was one. -/
def grep (p : Args) (pattern input : Bytes) : Bytes × Nat :=
  match patternOf p pattern with
  | none => ([], 2)
  | some q =>
    let found := (lines input).zipIdx.filter fun (l, _) => q.isMatch l != p.has 118
    let status := if found.isEmpty then 1 else 0
    if p.has 113 then ([], status)
    else if p.has 99 then (Bytes.decimal found.length ++ [10], status)
    else (unlines (found.map fun (l, i) => (if p.has 110 then Bytes.decimal (i + 1) ++ [58] else []) ++ l), status)

/-! ## Editing lines -/

/-- A line, the last line, lines that match, or all. -/
inductive Address where
  | all
  | line (n : Nat)
  | last
  | matching (q : Pattern)

inductive Edit where
  | delete
  | print
  | quit
  | replace (q : Pattern) (template : Bytes) (every shown : Bool)

/-- The text of a match goes in for every `&`. -/
def fillIn (found : Bytes) : Bytes → Bytes
  | 92 :: c :: s => (if c = 110 then 10 else c) :: fillIn found s
  | 38 :: s => found ++ fillIn found s
  | b :: s => b :: fillIn found s
  | [] => []

/-- Replaces the first match or every match, and tells whether there was one. -/
def substitute (q : Pattern) (template : Bytes) (every : Bool) (l : Bytes) : Bytes × Bool :=
  let units := (Utf8.units l).toArray
  let spans := (Pattern.Search.ofSubject q.node q.longest (Pattern.subject units.toList)).all
  let spans := if every then spans else spans.take 1
  let slice (i j : Nat) : Bytes := ((units.extract i j).toList.map Utf8.Unit.bytes).flatten
  let (out, at_) := spans.foldl (fun (out, at_) (a, b) =>
    (out ++ slice at_ a ++ fillIn (slice a b) template, b)) (([] : Bytes), 0)
  (out ++ slice at_ units.size, !spans.isEmpty)

/-- A part up to a delimiter that has no backslash in front, and what follows. -/
def delimited (d : UInt8) : Bytes → Option (Bytes × Bytes)
  | [] => none
  | 92 :: c :: s => do
    let (a, rest) ← delimited d s
    return (if c = d then (c :: a, rest) else (92 :: c :: a, rest))
  | b :: s =>
    if b = d then some ([], s)
    else do
      let (a, rest) ← delimited d s
      return (b :: a, rest)

/-- One command with its address, and what follows it. -/
def edit? (p : Args) (s : Bytes) : Option (Address × Edit × Bytes) := do
  let s := s.dropWhile fun b => Bytes.isSpace b || b == 59
  let (address, s) ← match s with
    | 36 :: s => some (Address.last, s)
    | 47 :: s => (delimited 47 s).bind fun (re, s) => (patternOf p re).map fun q => (.matching q, s)
    | s =>
      let ds := s.takeWhile Bytes.isDigit
      some (if ds.isEmpty then .all else .line (Bytes.value 10 ds), s.drop ds.length)
  match s with
  | 100 :: s => return (address, .delete, s)
  | 112 :: s => return (address, .print, s)
  | 113 :: s => return (address, .quit, s)
  | 115 :: d :: s => do
    let (re, s) ← delimited d s
    let (template, s) ← delimited d s
    let flags : Bytes := s.takeWhile Bytes.isLower
    return (address, .replace (← patternOf p re) template (flags.has 103) (flags.has 112), s.drop flags.length)
  | _ => none

def edits (p : Args) : Nat → Bytes → Option (List (Address × Edit))
  | 0, _ => none
  | fuel + 1, s =>
    if (s.dropWhile fun b => Bytes.isSpace b || b == 59).isEmpty then some []
    else do
      let (a, e, rest) ← edit? p s
      return (a, e) :: (← edits p fuel rest)

def Address.holds (a : Address) (n : Nat) (isLast : Bool) (l : Bytes) : Bool :=
  match a with
  | .all => true
  | .line m => m == n
  | .last => isLast
  | .matching q => q.isMatch l

/-- What commands do to a line: the lines printed on the way, the line if it is kept, and whether to go
on. -/
def apply (n : Nat) (isLast : Bool) : List (Address × Edit) → Bytes → List Bytes × Option Bytes × Bool
  | [], l => ([], some l, true)
  | (a, e) :: more, l =>
    if !a.holds n isLast l then apply n isLast more l
    else match e with
      | .delete => ([], none, true)
      | .quit => ([], some l, false)
      | .print =>
        let (printed, rest) := apply n isLast more l
        (l :: printed, rest)
      | .replace q template every shown =>
        let (t, found) := substitute q template every l
        let (printed, rest) := apply n isLast more t
        (if found && shown then t :: printed else printed, rest)

/-- The lines that come out, and whether the last one of them comes from the last line. -/
def editLines (quiet : Bool) (es : List (Address × Edit)) : Nat → List Bytes → List Bytes × Bool
  | _, [] => ([], false)
  | n, l :: ls =>
    let (printed, kept, go) := apply n ls.isEmpty es l
    let out := printed ++ if quiet then [] else kept.toList
    if ls.isEmpty then (out, !out.isEmpty)
    else if go then
      let (more, final) := editLines quiet es (n + 1) ls
      (out ++ more, final)
    else (out, false)

def sed (p : Args) (script input : Bytes) : Bytes × Nat :=
  match edits p (script.length + 1) script with
  | none => ([], 1)
  | some es =>
    let (out, final) := editLines (p.has 110) es 1 (lines input)
    let out := unlines out
    (if final && input.getLast? != some 10 then out.dropLast else out, 0)

/-! ## Without input -/

def sequence (ns : List Int) : List Bytes :=
  let (first, step, last) : Int × Int × Int := match ns with
    | [a] => (1, 1, a)
    | [a, b] => (a, 1, b)
    | [a, s, b] => (a, s, b)
    | _ => (1, 1, 0)
  if step = 0 then []
  else
    let count := ((last - first).tdiv step + 1).toNat
    if (0 < step ∧ last < first) ∨ (step < 0 ∧ first < last) then []
    else (List.range count).map fun (i : Nat) => Bytes.integer (first + i * step)

end RecordMill.Shell.Tools

import RecordMill.Format.Sprintf

/-!
# The directives of a format

A format is read byte by byte into plain bytes, literal percent signs and directives. What a piece takes of the
arguments and what it writes is told for each piece alone. Main statement: `proper_of_mem`, every directive that is read
is well formed. -/

namespace RecordMill.Format

open Bytes (isDigit)

/-! ## Fields without flags, width and precision -/

theorem string_plain (s : Bytes) : string {} s = s := by
  have hwidth : ({} : Spec).widthNat = 0 := rfl
  have hminus : ({} : Spec).minus = false := rfl
  have hprecision : ({} : Spec).precisionNat? = none := rfl
  simp [string, pad, hwidth, hminus, hprecision]

theorem whole_plain (n : Int64) : whole {} .decimal (n < 0) n.toInt.natAbs = Bytes.integer n.toInt := by
  have hwidth : ({} : Spec).widthNat = 0 := rfl
  have hminus : ({} : Spec).minus = false := rfl
  have hplus : ({} : Spec).plus = false := rfl
  have hspace : ({} : Spec).space = false := rfl
  have hzero : ({} : Spec).zero = false := rfl
  have hsharp : ({} : Spec).sharp = false := rfl
  have hprecision : ({} : Spec).precisionNat? = none := rfl
  have hneg : n < 0 ↔ n.toInt < 0 := Int64.lt_iff_toInt_lt
  unfold Bytes.integer
  by_cases h : n.toInt < 0 <;>
    simp [whole, pad, signOf, hwidth, hminus, hplus, hspace, hzero, hsharp, hprecision, Radix.digits, hneg, h]

/-! ## The front of a format -/

theorem sprintf_directive {s rest : Bytes} {args args' : List Arg} {spec : Spec} {verb : UInt8} (hs : s.head? ≠ some 37)
    (h : readSpec args s = (spec, args', verb :: rest)) :
    sprintf (37 :: s) args = (writeVerb spec args' verb).1 ++ sprintf rest (writeVerb spec args' verb).2 := by
  have hne : s ≠ [] := by
    rintro rfl
    cases congrArg (·.2.2) h
  rw [sprintf.eq_4 _ _ hne fun rest e => hs (by rw [e]; rfl)]
  split
  · next h' =>
    rw [h] at h'
    cases h'
  · next h' =>
    rw [h] at h'
    cases h'
    rfl

theorem sprintf_plain {b : UInt8} (hb : b ≠ 37) (rest : Bytes) (args : List Arg) :
    sprintf (b :: rest) args = b :: sprintf rest args :=
  sprintf.eq_5 _ _ _ (fun e _ => hb e) (fun _ e _ => hb e) hb

theorem sprintf_pair (s : Bytes) (n : Int64) :
    sprintf (text "%s %d\n") [.str s, .int n] = s ++ (text " " ++ (Bytes.integer n.toInt ++ text "\n")) := by
  have hs : writeVerb {} [.str s, .int n] 115 = (s, [.int n]) := congrArg (·, [Arg.int n]) (string_plain s)
  have hd : writeVerb {} [.int n] 100 = (Bytes.integer n.toInt, []) := congrArg (·, []) (whole_plain n)
  have hs' : readSpec [.str s, .int n] (text "s %d\n") = ({}, [.str s, .int n], 115 :: text " %d\n") := rfl
  have hd' : readSpec [.int n] (text "d\n") = ({}, [.int n], 100 :: text "\n") := rfl
  have hfirst : sprintf (text "%s %d\n") [.str s, .int n] = s ++ sprintf (text " %d\n") [.int n] := by
    rw [show text "%s %d\n" = 37 :: text "s %d\n" from rfl, sprintf_directive (by decide) hs', hs]
  have hsecond : sprintf (text "%d\n") [.int n] = Bytes.integer n.toInt ++ sprintf (text "\n") [] := by
    rw [show text "%d\n" = 37 :: text "d\n" from rfl, sprintf_directive (by decide) hd', hd]
  rw [hfirst, show text " %d\n" = 32 :: text "%d\n" from rfl, sprintf_plain (by decide), hsecond,
    show text "\n" = [10] from rfl,
    sprintf_plain (by decide), sprintf]
  rfl

/-! ## Pieces -/

/-- A width or a precision as it stands in a directive: digits, or a star for the next argument. -/
inductive Amount where
  | digits (ds : Bytes)
  | star
  deriving DecidableEq

/-- What stands between the percent sign of a directive and its verb. -/
structure Shape where
  flags : Bytes := []
  width : Amount := .digits []
  precision : Option Amount := none
  deriving DecidableEq

inductive Piece where
  | plain (b : UInt8)
  /-- Two percent signs, of which one is shown. -/
  | percent
  | directive (d : Shape) (verb : UInt8)
  | unfinished (d : Shape)
  deriving DecidableEq

/-! ## Reading -/

/-- Where the reading of a format stands: between directives, or behind a part of one. -/
inductive Place where
  | between
  | percent
  | flags
  | width
  | star
  | point
  | precision
  | pointStar
  deriving DecidableEq

def Amount.push (b : UInt8) : Amount → Amount
  | .digits ds => .digits (ds ++ [b])
  | .star => .star

namespace Place

/-- A point opens a precision; any other byte is the verb. -/
def behindWidth (b : UInt8) : Place := if b = 46 then .point else .between

def behindFlags (b : UInt8) : Place :=
  if isFlag b then .flags else if b = 42 then .star else if isDigit b then .width else behindWidth b

def behindPoint (b : UInt8) : Place := if isDigit b then .precision else .between

def next : Place → UInt8 → Place
  | .between, b => if b = 37 then .percent else .between
  | .percent, b => if b = 37 then .between else behindFlags b
  | .flags, b => behindFlags b
  | .width, b => if isDigit b then .width else behindWidth b
  | .star, b => behindWidth b
  | .point, b => if b = 42 then .pointStar else behindPoint b
  | .precision, b => behindPoint b
  | .pointStar, _ => .between

def add (b : UInt8) (d : Shape) : Place → Shape
  | .between | .percent => {}
  | .flags => { d with flags := d.flags ++ [b] }
  | .width => { d with width := d.width.push b }
  | .star => { d with width := .star }
  | .point => { d with precision := some (.digits []) }
  | .precision => { d with precision := d.precision.map (·.push b) }
  | .pointStar => { d with precision := some .star }

def ended (d : Shape) (b : UInt8) : Place → Piece
  | .between => .plain b
  | .percent => if b = 37 then .percent else .directive d b
  | _ => .directive d b

def after (f : Bytes) : Place := f.foldl next .between

end Place

/-- The pieces of a text that goes on from a place, where `d` is what has been read of a directive. -/
def read : Place → Shape → Bytes → List Piece
  | p, d, [] => if p = .between then [] else [.unfinished d]
  | p, d, b :: s =>
    if p.next b = .between then p.ended d b :: read .between {} s
    else read (p.next b) ((p.next b).add b d) s

def pieces (f : Bytes) : List Piece := read .between {} f

/-! ## Arguments -/

def takesArgument (verb : UInt8) : Bool := (text "dioxXucseEfFgG").has verb

def Amount.takes : Amount → Nat
  | .digits _ => 0
  | .star => 1

def Shape.takes (d : Shape) : Nat := d.width.takes + d.precision.elim 0 Amount.takes

def Piece.takes : Piece → Nat
  | .plain _ | .percent => 0
  | .directive d verb => d.takes + if takesArgument verb then 1 else 0
  | .unfinished d => d.takes

def takenBy : List Piece → Nat
  | [] => 0
  | q :: qs => q.takes + takenBy qs

def taken (f : Bytes) : Nat := takenBy (pieces f)

/-- The argument at a position; missing ones are empty strings. -/
def argument (args : List Arg) (i : Nat) : Arg := args.getD i (.str [])

/-- The number that a width or a precision stands for. -/
def Amount.value (args : List Arg) : Amount → Int
  | .digits ds => Bytes.value 10 ds
  | .star => (argument args 0).toInt.toInt

def Shape.precisionValue (d : Shape) (args : List Arg) : Int := d.precision.elim 0 (·.value (args.drop d.width.takes))

/-! ## Writing -/

def Amount.setWidth (args : List Arg) (spec : Spec) : Amount → Spec
  | .digits ds => { spec with width := ds }
  | .star => dynamicWidth spec (argument args 0).toInt

def setPrecision (args : List Arg) (spec : Spec) : Option Amount → Spec
  | none => spec
  | some (.digits ds) => { spec with precision := some ds }
  | some .star =>
    let n := (argument args 0).toInt
    if n < 0 then spec else { spec with precision := some (Bytes.decimal n.toInt.natAbs) }

/-- The specification that a directive comes to with its arguments. -/
def Shape.spec (d : Shape) (args : List Arg) : Spec :=
  setPrecision (args.drop d.width.takes) (d.width.setWidth args { flags := d.flags }) d.precision

def Piece.write (args : List Arg) : Piece → Bytes
  | .plain b => [b]
  | .percent => [37]
  | .directive d verb => (writeVerb (d.spec args) (args.drop d.takes) verb).1
  | .unfinished d => (d.spec args).text

/-- Each piece goes on with the arguments that those before it have left. -/
def write : List Piece → List Arg → Bytes
  | [], _ => []
  | p :: ps, args => p.write args ++ write ps (args.drop p.takes)

/-! ## Directives are well formed -/

/-- Flags are flags, numbers consist of digits, and a width does not begin with a zero, which would be a flag. -/
structure Shape.Proper (d : Shape) : Prop where
  flags : ∀ b ∈ d.flags, isFlag b
  width : ∀ ds, d.width = .digits ds → (∀ b ∈ ds, isDigit b) ∧ ds.head? ≠ some 48
  precision : ∀ ds, d.precision = some (.digits ds) → ∀ b ∈ ds, isDigit b

def Place.Holds (d : Shape) : Place → Prop
  | .between => True
  | .percent => d = {}
  | .flags => d.width = .digits [] ∧ d.precision = none
  | .width => (∃ b ds, d.width = .digits (b :: ds)) ∧ d.precision = none
  | .star => d.precision = none
  | .point => d.precision = some (.digits [])
  | .precision => ∃ ds, d.precision = some (.digits ds)
  | .pointStar => True

/-- A byte that does not end a directive is added to it. -/
structure Place.Adds (d : Shape) (b : UInt8) (q : Place) : Prop where
  holds : q.Holds (q.add b d)
  proper : (q.add b d).Proper

variable {p : Place} {d : Shape} {b : UInt8} {s : Bytes}

theorem Shape.proper_empty : ({} : Shape).Proper :=
  ⟨nofun, fun _ h => by cases h; exact ⟨nofun, nofun⟩, nofun⟩

theorem adds_behindWidth (hd : d.Proper) (hb : Place.behindWidth b ≠ .between) : (Place.behindWidth b).Adds d b := by
  unfold Place.behindWidth at hb ⊢
  split at hb
  · next h =>
    subst h
    rw [if_pos rfl]
    exact ⟨rfl, hd.flags, hd.width, fun ds h => by cases h; exact nofun⟩
  · exact absurd rfl hb

theorem adds_behindPoint {ds : Bytes} (hd : d.Proper) (hprecision : d.precision = some (.digits ds))
    (hb : Place.behindPoint b ≠ .between) : (Place.behindPoint b).Adds d b := by
  unfold Place.behindPoint at hb ⊢
  split at hb
  · next h =>
    rw [if_pos h]
    have hadd : Place.add b d .precision = { d with precision := some (.digits (ds ++ [b])) } := by
      simp [Place.add, hprecision, Amount.push]
    refine ⟨?_, ?_⟩ <;> rw [hadd]
    · exact ⟨_, rfl⟩
    · refine ⟨hd.flags, hd.width, fun es hes c hc => ?_⟩
      cases hes
      rcases List.mem_append.1 hc with hc | hc
      · exact hd.precision ds hprecision c hc
      · rwa [List.mem_singleton.1 hc]
  · exact absurd rfl hb

theorem adds_width {ds : Bytes} (hd : d.Proper) (hwidth : d.width = .digits ds) (hprecision : d.precision = none)
    (hb : isDigit b) (hzero : ds = [] → b ≠ 48) : Place.Adds d b .width := by
  have hadd : Place.add b d .width = { d with width := .digits (ds ++ [b]) } := by
    simp [Place.add, hwidth, Amount.push]
  refine ⟨?_, ?_⟩ <;> rw [hadd]
  · refine ⟨?_, hprecision⟩
    cases ds with
    | nil => exact ⟨b, [], rfl⟩
    | cons c ds => exact ⟨c, ds ++ [b], rfl⟩
  · refine ⟨hd.flags, fun es hes => ?_, fun es hes => ?_⟩
    · cases hes
      refine ⟨fun c hc => ?_, ?_⟩
      · rcases List.mem_append.1 hc with hc | hc
        · exact (hd.width ds hwidth).1 c hc
        · rwa [List.mem_singleton.1 hc]
      · cases ds with
        | nil => simpa using hzero rfl
        | cons c ds => exact (hd.width _ hwidth).2
    · rw [hprecision] at hes
      cases hes

theorem adds_behindFlags (hd : d.Proper) (hwidth : d.width = .digits []) (hprecision : d.precision = none)
    (hb : Place.behindFlags b ≠ .between) : (Place.behindFlags b).Adds d b := by
  unfold Place.behindFlags at hb ⊢
  by_cases hflag : isFlag b
  · rw [if_pos hflag]
    refine ⟨⟨hwidth, hprecision⟩, fun c hc => ?_, hd.width, hd.precision⟩
    rcases List.mem_append.1 hc with hc | hc
    · exact hd.flags c hc
    · rwa [List.mem_singleton.1 hc]
  rw [if_neg hflag] at hb ⊢
  by_cases hstar : b = 42
  · subst hstar
    rw [if_pos rfl]
    exact ⟨hprecision, hd.flags, nofun, hd.precision⟩
  rw [if_neg hstar] at hb ⊢
  by_cases hdigit : isDigit b
  · rw [if_pos hdigit]
    refine adds_width hd hwidth hprecision hdigit fun _ hzero => hflag ?_
    rw [hzero]
    rfl
  rw [if_neg hdigit] at hb ⊢
  exact adds_behindWidth hd hb

theorem adds_next (hd : d.Proper) (hp : p.Holds d) (hopen : p ≠ .between) (hb : p.next b ≠ .between) :
    (p.next b).Adds d b := by
  cases p with
  | between => exact absurd rfl hopen
  | percent =>
    cases hp
    rw [Place.next] at hb ⊢
    by_cases hpercent : b = 37
    · exact absurd (if_pos hpercent) hb
    · rw [if_neg hpercent] at hb ⊢
      exact adds_behindFlags hd rfl rfl hb
  | flags => exact adds_behindFlags hd hp.1 hp.2 hb
  | width =>
    obtain ⟨⟨c, ds, hwidth⟩, hprecision⟩ := hp
    rw [Place.next] at hb ⊢
    by_cases hdigit : isDigit b
    · rw [if_pos hdigit]
      exact adds_width hd hwidth hprecision hdigit nofun
    · rw [if_neg hdigit] at hb ⊢
      exact adds_behindWidth hd hb
  | star => exact adds_behindWidth hd hb
  | point =>
    rw [Place.next] at hb ⊢
    by_cases hstar : b = 42
    · subst hstar
      rw [if_pos rfl]
      exact ⟨trivial, hd.flags, hd.width, nofun⟩
    · rw [if_neg hstar] at hb ⊢
      exact adds_behindPoint hd hp hb
  | precision =>
    obtain ⟨ds, hprecision⟩ := hp
    exact adds_behindPoint hd hprecision hb
  | pointStar => exact absurd rfl hb

def Piece.Proper : Piece → Prop
  | .plain _ | .percent => True
  | .directive d _ | .unfinished d => d.Proper

theorem read_proper (hd : d.Proper) (hp : p.Holds d) : ∀ q ∈ read p d s, q.Proper := by
  induction s generalizing p d with
  | nil =>
    rw [read]
    split
    · nofun
    · exact fun q hq => List.mem_singleton.1 hq ▸ hd
  | cons b s ih =>
    rw [read]
    split
    · next hb =>
      have hended : (p.ended d b).Proper := by
        cases p with
        | between => trivial
        | percent =>
          obtain rfl : d = {} := hp
          by_cases h : b = 37
          · subst h
            trivial
          · rw [show Place.ended {} b .percent = .directive {} b from if_neg h]
            exact hd
        | _ => exact hd
      intro q hq
      rcases List.mem_cons.1 hq with rfl | hq
      · exact hended
      · exact ih (p := .between) Shape.proper_empty trivial q hq
    · next hb =>
      by_cases hopen : p = .between
      · -- A percent sign opens a directive.
        subst hopen
        by_cases hpercent : b = 37
        · subst hpercent
          exact ih (p := .percent) Shape.proper_empty rfl
        · exact absurd (if_neg hpercent) hb
      · have hadds := adds_next hd hp hopen hb
        exact ih hadds.proper hadds.holds

theorem proper_of_mem {f : Bytes} {q : Piece} (h : q ∈ pieces f) : q.Proper :=
  read_proper (p := .between) Shape.proper_empty trivial q h

end RecordMill.Format

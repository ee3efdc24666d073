import RecordMill.Proofs.Format.Widths

/-!
# Fields by a general printer

A printer takes a text with directives of its own and operands, each of one kind. What it cannot make sense of it notes
in its output. Main statement: `handed_over_without_notes`, the fields of a format are what such a printer makes of
texts that each hold one directive for one operand, and it never has anything to note. -/

namespace RecordMill.Format

open Bytes (isDigit Stops)

/-! ## Operands -/

inductive Operand where
  | signed (n : Int64)
  | unsigned (n : UInt64)
  | string (s : Bytes)
  | double (f : Float)

/-- The field that a verb makes of an operand; there is none unless the verb is one for operands of that kind. -/
def Operand.field? (verb : UInt8) : Operand → Option Field
  | .signed n => if verb = 100 then some (.signed n) else none
  | .unsigned n => match Char.ofNat verb.toNat with
    | 'd' => some (.unsigned .decimal n)
    | 'o' => some (.unsigned .octal n)
    | 'x' => some (.unsigned .hexLower n)
    | 'X' => some (.unsigned .hexUpper n)
    | _ => none
  | .string s => if verb = 115 then some (.string s) else none
  | .double f => match Char.ofNat verb.toNat with
    | 'e' | 'E' => some (.double (fun p => .scientific (p.getD 6) verb) f)
    | 'g' | 'G' => some (.double (fun p => .general p (verb - 2)) f)
    | 'f' => some (.double (fun p => .positional (p.getD 6)) f)
    | _ => none

def Operand.shown : Operand → Bytes
  | .signed n => "int64=" ++ Bytes.integer n.toInt
  | .unsigned n => "uint64=" ++ Bytes.decimal n.toNat
  | .string s => "string=" ++ s
  | .double f => "float64=" ++ Format.double {} (.general none 101) f

def Operand.number? : Operand → Option Int
  | .signed n => if n.toInt.natAbs ≤ 1000000 then some n.toInt else none
  | .unsigned n => if n.toNat ≤ 1000000 then some n.toNat else none
  | .string _ | .double _ => none

/-! ## What is put out -/

/-- What is wrong with a text or its operands. -/
inductive Note where
  | badVerb (verb : Bytes) (o : Operand)
  | missing (verb : Bytes)
  | extra (os : List Operand)
  | noVerb
  | badWidth
  | badPrecision

def Note.text : Note → Bytes
  | .badVerb verb o => "%!" ++ verb ++ "(" ++ o.shown ++ ")"
  | .missing verb => "%!" ++ verb ++ "(MISSING)"
  | .extra os => "%!(EXTRA " ++ Bytes.join ", " (os.map Operand.shown) ++ ")"
  | .noVerb => "%!(NOVERB)"
  | .badWidth => "%!(BADWIDTH)"
  | .badPrecision => "%!(BADPREC)"

inductive Item where
  | plain (b : UInt8)
  | field (spec : Spec) (v : Field)
  | note (n : Note)

def Item.text : Item → Bytes
  | .plain b => [b]
  | .field spec v => v.write spec
  | .note n => n.text

/-! ## The printer -/

/-- The digits in front of a text. Behind a number that gets too large nothing is read any more. -/
def readNumber (ds : Bytes) : Bytes → Bytes × Bytes
  | [] => (ds, [])
  | b :: s =>
    if isDigit b then if 1000000 < Bytes.value 10 ds then ([], []) else readNumber (ds ++ [b]) s
    else (ds, b :: s)

/-- What has been read of a directive, what is to be noted of it, and the operands and the text behind it. -/
structure Reading where
  spec : Spec
  notes : List Note := []
  operands : List Operand
  rest : Bytes

def takeNumber (os : List Operand) : Option Int × List Operand := (os.head?.bind Operand.number?, os.tail)

def Reading.width (r : Reading) : Reading :=
  match r.rest with
  | 42 :: s => match takeNumber r.operands with
    | (some n, os) => { r with
        spec := { r.spec with flags := r.spec.flags ++ (if n < 0 then [45] else []), width := Bytes.decimal n.natAbs }
        operands := os, rest := s }
    | (none, os) => { r with notes := r.notes ++ [.badWidth], operands := os, rest := s }
  | s =>
    let (ds, s) := readNumber [] s
    { r with spec := { r.spec with width := ds }, rest := s }

def Reading.precision (r : Reading) : Reading :=
  match r.rest with
  | 46 :: 42 :: s => match takeNumber r.operands with
    | (some n, os) =>
      if n < 0 then { r with notes := r.notes ++ [.badPrecision], operands := os, rest := s }
      else { r with spec := { r.spec with precision := some (Bytes.decimal n.natAbs) }, operands := os, rest := s }
    | (none, os) => { r with notes := r.notes ++ [.badPrecision], operands := os, rest := s }
  | 46 :: s =>
    let (ds, s) := readNumber [] s
    { r with spec := { r.spec with precision := some ds }, rest := s }
  | _ => r

/-- What stands between a percent sign and the verb. Operands are not picked by their numbers. -/
def Reading.ofText (s : Bytes) (os : List Operand) : Reading :=
  let (flags, s) := span isFlag s
  Reading.precision (Reading.width { spec := { flags }, operands := os, rest := s })

def verbOf (b : UInt8) (s : Bytes) : Bytes × Bytes :=
  let n := ((Utf8.front? (b :: s)).map (·.2)).getD 1 - 1
  (b :: s.take n, s.drop n)

def Reading.put (r : Reading) (verb : Bytes) : Item × List Operand :=
  if verb = [37] then (.plain 37, r.operands)
  else match r.operands with
    | [] => (.note (.missing verb), [])
    | o :: os => match verb with
      | [b] => match o.field? b with
        | some v => (.field r.spec v, os)
        | none => (.note (.badVerb verb o), os)
      | _ => (.note (.badVerb verb o), os)

def leftover (os : List Operand) : List Item := if os.isEmpty then [] else [.note (.extra os)]

theorem readNumber_length_le (ds s : Bytes) : (readNumber ds s).2.length ≤ s.length := by
  induction s generalizing ds with
  | nil => exact Nat.le_refl _
  | cons b s ih =>
    rw [readNumber]
    split
    · split
      · exact Nat.zero_le _
      · exact Nat.le_succ_of_le (ih _)
    · exact Nat.le_refl _

theorem Reading.width_length_le (r : Reading) : r.width.rest.length ≤ r.rest.length := by
  unfold Reading.width
  split
  · next hs =>
    rw [hs]
    split <;> simp
  · exact readNumber_length_le [] _

theorem Reading.precision_length_le (r : Reading) : r.precision.rest.length ≤ r.rest.length := by
  unfold Reading.precision
  split
  · next hs =>
    rw [hs]
    split
    · split <;> (simp only [List.length_cons]; omega)
    · simp only [List.length_cons]
      omega
  · next hs =>
    rw [hs]
    exact Nat.le_succ_of_le (readNumber_length_le [] _)
  · exact Nat.le_refl _

theorem Reading.ofText_length_le (s : Bytes) (os : List Operand) : (Reading.ofText s os).rest.length ≤ s.length :=
  Nat.le_trans (precision_length_le _) (Nat.le_trans (width_length_le _) (dropWhile_length_le isFlag s))

/-- Operands that no directive asks for are noted at the end. -/
def print (s : Bytes) (os : List Operand) : List Item :=
  match s with
  | [] => leftover os
  | 37 :: s =>
    let r := Reading.ofText s os
    r.notes.map .note ++ match h : r.rest with
      | [] => .note .noVerb :: leftover r.operands
      | b :: s' =>
        have : s'.length < s.length := by
          have := Reading.ofText_length_le s os
          rw [show (Reading.ofText s os).rest = b :: s' from h] at this
          exact this
        let out := r.put (verbOf b s').1
        out.1 :: print (verbOf b s').2 out.2
  | b :: s => .plain b :: print s os
termination_by s.length
decreasing_by
  · have : (verbOf b s').2.length ≤ s'.length := List.drop_sublist _ _ |>.length_le
    simp only [List.length_cons]
    omega
  · simp

/-! ## Reading a directive -/

variable {fl w ds es s : Bytes} {pr : Option Bytes} {letter : UInt8} {o : Operand} {os : List Operand} {r : Reading}
  {v : Field} {d : Shape}

theorem value_digit (hd : isDigit letter) (ds : Bytes) : Bytes.value 10 (ds ++ [letter]) / 10 = Bytes.value 10 ds := by
  have hlt : Bytes.digitValue letter < 10 := by
    rw [Bytes.digitValue, if_pos hd]
    rw [isDigit, Bool.and_eq_true, decide_eq_true_iff, decide_eq_true_iff, UInt8.le_iff_toNat_le,
      UInt8.le_iff_toNat_le] at hd
    have : letter.toNat ≤ 57 := hd.2
    omega
  rw [Bytes.value_append]
  omega

theorem readNumber_digits (hes : ∀ b ∈ es, isDigit b) (hs : Stops isDigit s)
    (hds : Spec.tooLarge (Bytes.value 10 ds) = false) :
    readNumber ds (es ++ s) = if Spec.tooLarge (Bytes.value 10 (ds ++ es)) then ([], []) else (ds ++ es, s) := by
  induction es generalizing ds with
  | nil =>
    rw [List.append_nil, List.nil_append, hds]
    cases s with
    | nil => rfl
    | cons b s => exact if_neg (by simp [hs b rfl])
  | cons b es ih =>
    have hb := hes b List.mem_cons_self
    have hvalue := value_digit hb ds
    rw [List.cons_append, readNumber, if_pos hb, show ds ++ b :: es = ds ++ [b] ++ es by simp]
    by_cases hlarge : 1000000 < Bytes.value 10 ds
    · have hle := Bytes.value_le_append (ds ++ [b]) es
      rw [if_pos hlarge, if_pos]
      rw [Spec.tooLarge, decide_eq_true_iff]
      omega
    · rw [if_neg hlarge, ih fun c hc => hes c (List.mem_cons_of_mem b hc)]
      rw [Spec.tooLarge, decide_eq_false_iff_not]
      omega

theorem readNumber_of_digits (hes : ∀ b ∈ es, isDigit b) (hs : Stops isDigit s) :
    readNumber [] (es ++ s)
      = if Spec.tooLarge (Bytes.value 10 es) then ([], []) else (es, s) := readNumber_digits hes hs rfl

theorem Reading.width_eq (h : r.rest.head? ≠ some 42) : r.width
    = { r with spec := { r.spec with width := (readNumber [] r.rest).1 }, rest := (readNumber [] r.rest).2 } := by
  unfold Reading.width
  split
  · next hs =>
    rw [hs] at h
    exact absurd rfl h
  · rfl

theorem Reading.precision_eq (h : r.rest = 46 :: s) (hs : s.head? ≠ some 42) : r.precision
    = { r with spec := { r.spec with precision := some (readNumber [] s).1 }, rest := (readNumber [] s).2 } := by
  unfold Reading.precision
  rw [h]
  split
  · next heq =>
    cases heq
    exact absurd rfl hs
  · next heq =>
    cases heq
    rfl
  · next hne => exact absurd rfl (hne s)

theorem Reading.precision_of_none (h : r.rest.head? ≠ some 46) : r.precision = r := by
  unfold Reading.precision
  split
  · next hs =>
    rw [hs] at h
    exact absurd rfl h
  · next hs =>
    rw [hs] at h
    exact absurd rfl h
  · rfl

def pointed (pr : Option Bytes) : Bytes := pr.elim [] (46 :: ·)

/-- A byte that goes on with none of the parts of a directive. -/
structure Ends (letter : UInt8) : Prop where
  flag : isFlag letter = false
  digit : isDigit letter = false
  star : letter ≠ 42
  point : letter ≠ 46
  percent : letter ≠ 37
  plain : letter < 0x80

theorem stops_pointed {c : UInt8 → Bool} (hc : c 46 = false) (hletter : c letter = false) :
    Stops c (pointed pr ++ [letter]) := by
  cases pr with
  | none => exact Bytes.stops_cons hletter
  | some p => exact Bytes.stops_cons hc

theorem head_ne_star (hds : ∀ b ∈ ds, isDigit b) (hs : s.head? ≠ some 42) : (ds ++ s).head? ≠ some 42 := by
  cases ds with
  | nil => exact hs
  | cons b ds =>
    intro h
    cases h
    exact absurd (hds 42 List.mem_cons_self) (by decide)

/-- A directive whose parts can be told apart is read as it is written, unless one of its numbers is too large; nothing
is left of the text then. -/
theorem Reading.ofText_written (hfl : ∀ b ∈ fl, isFlag b) (hw : ∀ b ∈ w, isDigit b) (hzero : w.head? ≠ some 48)
    (hpr : ∀ p ∈ pr, ∀ b ∈ p, isDigit b) (hletter : Ends letter) (os : List Operand) :
    if ({ flags := fl, width := w, precision := pr } : Spec).unreadable
    then ∃ spec, ofText (fl ++ (w ++ (pointed pr ++ [letter]))) os = { spec, operands := os, rest := [] }
    else ofText (fl ++ (w ++ (pointed pr ++ [letter]))) os
      = { spec := { flags := fl, width := w, precision := pr }, operands := os, rest := [letter] } := by
  have hflags : Stops isFlag (w ++ (pointed pr ++ [letter])) := by
    cases w with
    | nil => exact stops_pointed rfl hletter.flag
    | cons b w =>
      refine Bytes.stops_cons ?_
      have hdigit := hw b List.mem_cons_self
      have hb : b ≠ 48 := fun h => hzero (congrArg some h)
      cases hflag : isFlag b with
      | false => rfl
      | true =>
        simp only [isFlag, Bool.or_eq_true, beq_iff_eq] at hflag
        rcases hflag with (((rfl | rfl) | rfl) | rfl) | rfl
          <;> first | exact absurd hdigit (by decide) | exact absurd rfl hb
  have hdigits : Stops isDigit (pointed pr ++ [letter]) := stops_pointed rfl hletter.digit
  have hstar : (pointed pr ++ [letter]).head? ≠ some 42 := by
    cases pr with
    | none => exact fun h => hletter.star (Option.some.inj h)
    | some p => exact fun h => absurd (Option.some.inj h) (by decide)
  have hspan : span isFlag (fl ++ (w ++ (pointed pr ++ [letter]))) = (fl, w ++ (pointed pr ++ [letter])) :=
    Prod.ext (Bytes.takeWhile_run hfl hflags) (Bytes.dropWhile_run hfl hflags)
  have hwidth : ofText (fl ++ (w ++ (pointed pr ++ [letter]))) os
      = precision { spec := { flags := fl, width := (readNumber [] (w ++ (pointed pr ++ [letter]))).1 }, operands := os
                    rest := (readNumber [] (w ++ (pointed pr ++ [letter]))).2 } := by
    unfold ofText
    rw [hspan]
    exact congrArg precision (width_eq (head_ne_star hw hstar))
  rw [hwidth, readNumber_of_digits hw hdigits]
  cases hlarge : Spec.tooLarge (Bytes.value 10 w) with
  | true =>
    rw [if_pos (by simp [Spec.unreadable, Spec.widthNat, hlarge]), if_pos rfl]
    exact ⟨_, precision_of_none (mt (congrArg Option.isSome) Bool.false_ne_true)⟩
  | false =>
    rw [if_neg Bool.false_ne_true]
    cases pr with
    | none =>
      have hsmall : Spec.tooLarge 0 = false := rfl
      rw [if_neg (by simp [Spec.unreadable, Spec.widthNat, Spec.precisionNat?, hlarge, hsmall])]
      exact precision_of_none fun h => hletter.point (Option.some.inj h)
    | some p =>
      have hend : Stops isDigit [letter] := Bytes.stops_cons hletter.digit
      have hprecision :=
        precision_eq (r := { spec := { flags := fl, width := w }, operands := os, rest := 46 :: (p ++ [letter]) }) rfl
        (head_ne_star (hpr p rfl) fun h => hletter.star (Option.some.inj h))
      rw [readNumber_of_digits (hpr p rfl) hend] at hprecision
      dsimp only [pointed, Option.elim, List.cons_append]
      rw [hprecision]
      cases hlarge' : Spec.tooLarge (Bytes.value 10 p) with
      | true =>
        rw [if_pos (by simp [Spec.unreadable, Spec.widthNat, Spec.precisionNat?, hlarge'])]
        exact ⟨_, rfl⟩
      | false =>
        rw [if_neg (by simp [Spec.unreadable, Spec.widthNat, Spec.precisionNat?, hlarge, hlarge'])]
        rfl

/-! ## A text with one directive -/

theorem verbOf_plain (h : letter < 0x80) (s : Bytes) : verbOf letter s = ([letter], s) := by
  unfold verbOf
  rw [Utf8.front_of_plain h]
  rfl

theorem print_unread {spec : Spec} (h : Reading.ofText s os = { spec, operands := os, rest := [] }) :
    print (37 :: s) os = .note .noVerb :: leftover os := by
  rw [print]
  split
  · simp [h]
  · next hrest =>
    rw [h] at hrest
    cases hrest

theorem print_field {spec : Spec} (h : Reading.ofText s [o] = { spec, operands := [o], rest := [letter] })
    (hletter : Ends letter) (hv : o.field? letter = some v) : print (37 :: s) [o] = [.field spec v] := by
  rw [print]
  split
  · next hrest =>
    rw [h] at hrest
    cases hrest
  · next b s' hrest =>
    rw [h] at hrest
    cases hrest
    have hverb : [letter] ≠ [37] := fun hverb => hletter.percent (List.cons.inj hverb).1
    simp only [h, verbOf_plain hletter.plain, Reading.put, if_neg hverb, hv, List.map_nil, List.nil_append]
    rw [print]
    rfl

theorem ofChar_eq {b : UInt8} {c : Char} (h : Char.ofNat b.toNat = c) : b = Bytes.ofChar c := by
  subst h
  rw [Bytes.ofChar, Char.ofNat, dif_pos (.inl (Nat.lt_trans b.toNat_lt (by decide)))]
  exact UInt8.ofNat_toNat.symm

theorem ends_of_field (h : o.field? letter = some v) : Ends letter := by
  have hlisted : letter ∈ text "doxXseEgGf" := by
    cases o with
    | signed n =>
      by_cases hletter : letter = 100
      · exact hletter ▸ (by decide)
      · cases (if_neg hletter).symm.trans h
    | string s =>
      by_cases hletter : letter = 115
      · exact hletter ▸ (by decide)
      · cases (if_neg hletter).symm.trans h
    | unsigned n | double f =>
      simp only [Operand.field?] at h
      split at h
      all_goals first
        | cases h; done
        | next hc => exact ofChar_eq hc ▸ (by decide)
  have hall : ∀ b ∈ text "doxXseEgGf",
      isFlag b = false ∧ isDigit b = false ∧ b ≠ 42 ∧ b ≠ 46 ∧ b ≠ 37 ∧ b < 0x80 := by decide +kernel
  obtain ⟨hflag, hdigit, hstar, hpoint, hpercent, hplain⟩ := hall letter hlisted
  exact ⟨hflag, hdigit, hstar, hpoint, hpercent, hplain⟩

/-! ## What is handed over -/

def handed? (verb : UInt8) (a : Arg) : Option (UInt8 × Operand) :=
  match Char.ofNat verb.toNat with
  | 'd' | 'i' => some (100, .signed a.toInt)
  | 'u' => some (100, .unsigned a.toInt.toUInt64)
  | 'o' | 'x' | 'X' => some (verb, .unsigned a.toInt.toUInt64)
  | 's' => some (115, .string a.toText)
  | 'e' | 'E' | 'g' | 'G' => some (verb, .double a.toDouble)
  | 'f' | 'F' => some (102, .double a.toDouble)
  | _ => none

theorem field?_eq (verb : UInt8) (a : Arg) : field? verb a = (handed? verb a).bind fun x => x.2.field? x.1 := by
  unfold field? handed?
  split <;> first | rfl | (next hc => simp [Operand.field?, hc])

/-- The text and the operands for the printer, or bytes that are written without it. -/
inductive Output where
  | bytes (s : Bytes)
  | call (s : Bytes) (os : List Operand)

def Output.text : Output → Bytes
  | .bytes s => s
  | .call s os => (print s os).flatMap Item.text

def Piece.output (args : List Arg) : Piece → Output
  | .directive d verb => match handed? verb (argument args d.takes) with
    | some (letter, o) => .call ((d.spec args).text ++ [letter]) [o]
    | none => .bytes ((Piece.directive d verb).write args)
  | p => .bytes (p.write args)

def outputs : List Piece → List Arg → List Output
  | [], _ => []
  | p :: ps, args => p.output args :: outputs ps (args.drop p.takes)

/-- The widths and precisions of a directive; a missing one counts as 0. -/
def Piece.numbers (args : List Arg) : Piece → List Int
  | .plain _ | .percent => []
  | .directive d _ | .unfinished d => [d.width.value args, d.precisionValue args]

/-- The widths and precisions that stand in a format or among its arguments. -/
def numbers : List Piece → List Arg → List Int
  | [], _ => []
  | p :: ps, args => p.numbers args ++ numbers ps (args.drop p.takes)

/-! ## Specifications as they are written -/

/-- The parts of a specification can be told apart, but a width of 0 may be taken for a flag. -/
structure Spec.Written (spec : Spec) : Prop where
  flags : ∀ b ∈ spec.flags, isFlag b
  width : ∀ b ∈ spec.width, isDigit b
  zero : spec.width.head? = some 48 → spec.width = [48]
  precision : ∀ p ∈ spec.precision, ∀ b ∈ p, isDigit b

theorem head_decimal {n : Nat} (h : (Bytes.decimal n).head? = some 48) : Bytes.decimal n = [48] := by
  induction n using Nat.strongRecOn with
  | _ n ih =>
    rw [Bytes.decimal, Bytes.radix] at h ⊢
    split at h
    · next hn =>
      rw [dif_pos hn]
      exact congrArg ([·]) (Option.some.inj h)
    · next hn =>
      have hlead : (Bytes.decimal (n / 10)).head? = some 48 := by
        obtain ⟨b, ds, hds⟩ := List.exists_cons_of_ne_nil (Bytes.decimal_ne_nil (n / 10))
        rw [show Bytes.radix Bytes.lowerDigit 10 (n / 10) = b :: ds from hds] at h
        exact hds ▸ h
      have hvalue := (Bytes.decimal_spec (n / 10)).2
      rw [ih (n / 10) (Nat.div_lt_self (by omega) (by omega)) hlead] at hvalue
      have : n / 10 = 0 := hvalue.symm
      omega

theorem Shape.written (hd : d.Proper) (args : List Arg) : (d.spec args).Written := by
  have hnumber : ∀ n, ∀ b ∈ Bytes.decimal n, isDigit b := fun n => (Bytes.decimal_spec n).1
  obtain ⟨minus, hflags, hminus, -⟩ := d.flags_spec args
  have hwidth : (d.spec args).width = (d.width.setWidth args { flags := d.flags }).width := width_setPrecision _ _ _
  refine ⟨fun b hb => ?_, fun b hb => ?_, fun h => ?_, fun p hp => ?_⟩
  · rw [hflags] at hb
    rcases List.mem_append.1 hb with hb | hb
    · exact hd.flags b hb
    · rw [hminus b hb]
      rfl
  · rw [hwidth] at hb
    cases hw : d.width with
    | digits ds =>
      rw [hw] at hb
      exact (hd.width ds hw).1 b hb
    | star =>
      rw [hw] at hb
      exact hnumber _ b hb
  · rw [hwidth] at h ⊢
    cases hw : d.width with
    | digits ds =>
      rw [hw] at h
      exact absurd h (hd.width ds hw).2
    | star =>
      rw [hw] at h
      exact head_decimal h
  · have hnone : (d.width.setWidth args { flags := d.flags }).precision = none := by cases d.width <;> rfl
    have hp : (setPrecision (args.drop d.width.takes) { flags := [] } d.precision).precision = some p :=
      (setPrecision_precision _ hnone.symm _).trans hp
    match hpr : d.precision with
    | none =>
      rw [hpr] at hp
      cases hp
    | some (.digits es) =>
      rw [hpr] at hp
      cases hp
      exact hd.precision _ hpr
    | some .star =>
      rw [hpr, setPrecision] at hp
      dsimp only at hp
      split at hp
      · cases hp
      · cases hp
        exact hnumber _

/-- The printer reads a specification as it was written. Where it takes a width of 0 for a flag, it makes no
difference. -/
theorem print_written {spec : Spec} (h : spec.Written) (hv : o.field? letter = some v) :
    if spec.unreadable then print (spec.text ++ [letter]) [o] = [.note .noVerb, .note (.extra [o])]
    else ∃ spec', print (spec.text ++ [letter]) [o] = [.field spec' v] ∧ v.write spec' = v.write spec := by
  have hletter := ends_of_field hv
  obtain ⟨fl, w, pr⟩ := spec
  have htext : ({ flags := fl, width := w, precision := pr } : Spec).text ++ [letter]
      = 37 :: (fl ++ (w ++ (pointed pr ++ [letter]))) := by
    cases pr <;> simp [Spec.text, pointed]
  rw [htext]
  by_cases hzero : w.head? = some 48
  · obtain rfl : w = [48] := h.zero hzero
    have hflags : ∀ b ∈ fl ++ [48], isFlag b := fun b hb => by
      rcases List.mem_append.1 hb with hb | hb
      · exact h.flags b hb
      · rw [List.mem_singleton.1 hb]
        rfl
    have hread := Reading.ofText_written hflags (w := []) nofun nofun h.precision hletter [o]
    have hsame : ∀ b : UInt8, b ≠ 48 → Bytes.has (fl ++ [48]) b = Bytes.has fl b :=
      fun b => has_append fun x => List.mem_singleton.1
    have halike : ({ flags := fl ++ [48], precision := pr } : Spec).Alike
        { flags := fl, width := [48], precision := pr } :=
      ⟨hsame 43 (by decide), hsame 32 (by decide), hsame 35 (by decide), rfl⟩
    have hshift : fl ++ ([48] ++ (pointed pr ++ [letter])) = fl ++ [48] ++ ([] ++ (pointed pr ++ [letter])) := by simp
    rw [hshift]
    by_cases hlarge : ({ flags := fl ++ [48], precision := pr } : Spec).unreadable
    · rw [if_pos hlarge] at hread
      rw [if_pos (c := ({ flags := fl, width := [48], precision := pr } : Spec).unreadable = true) hlarge]
      obtain ⟨spec, hread⟩ := hread
      exact print_unread hread
    · rw [if_neg hlarge] at hread
      rw [if_neg (c := ({ flags := fl, width := [48], precision := pr } : Spec).unreadable = true) hlarge]
      exact ⟨_, print_field hread hletter hv, write_of_alike rfl rfl halike v⟩
  · have hread := Reading.ofText_written h.flags h.width hzero h.precision hletter [o]
    by_cases hlarge : ({ flags := fl, width := w, precision := pr } : Spec).unreadable
    · rw [if_pos hlarge] at hread ⊢
      obtain ⟨spec, hread⟩ := hread
      exact print_unread hread
    · rw [if_neg hlarge] at hread ⊢
      exact ⟨_, print_field hread hletter hv, rfl⟩

/-! ## Formats -/

variable {verb : UInt8} {a : Arg} {args : List Arg}

theorem field_of_handed (h : handed? verb a = some (letter, o)) :
    ∃ v, o.field? letter = some v ∧ field? verb a = some v := by
  have hfield : field? verb a = o.field? letter := by
    rw [field?_eq, h]
    rfl
  have hsome : (o.field? letter).isSome := by
    unfold handed? at h
    split at h <;> cases h <;> first | rfl | (next hc => simp [Operand.field?, hc])
  obtain ⟨v, hv⟩ := Option.isSome_iff_exists.1 hsome
  exact ⟨v, hv, hfield.trans hv⟩

theorem writeUnread_eq (h : o.field? letter = some v) :
    writeUnread v = [Item.note .noVerb, .note (.extra [o])].flatMap Item.text := by
  have htext : text "%!(NOVERB)%!(EXTRA " = text "%!(NOVERB)" ++ text "%!(EXTRA " := by decide
  have hshown : writeUnread v = unreadNote o.shown := by
    cases o with
    | _ =>
      simp only [Operand.field?] at h
      split at h <;> cases h <;> rfl
  simp [hshown, unreadNote, Item.text, Note.text, Bytes.join, htext]

theorem write_of_handed (h : handed? verb (argument args d.takes) = some (letter, o)) (hv : o.field? letter = some v) :
    (Piece.directive d verb).write args = writeField (d.spec args) v := by
  obtain ⟨v', hv', hfield⟩ := field_of_handed h
  cases hv.symm.trans hv'
  have hc : verb ≠ 99 := by
    rintro rfl
    cases h
  have hverb : takesArgument verb := by
    rw [← isSome_field? verb (argument args d.takes) hc, hfield]
    rfl
  obtain ⟨v', hv', hwrite⟩ := write_directive hverb hc d args
  cases hfield.symm.trans hv'
  exact hwrite d args rfl

theorem Piece.text_output {p : Piece} (hp : p.Proper) (args : List Arg) : (p.output args).text = p.write args := by
  cases p with
  | plain b | percent | unfinished d => rfl
  | directive d verb =>
    unfold Piece.output
    dsimp only
    cases h : handed? verb (argument args d.takes) with
    | none => rfl
    | some x =>
      obtain ⟨letter, o⟩ := x
      obtain ⟨v, hv, -⟩ := field_of_handed h
      have hprint := print_written (Shape.written hp args) hv
      dsimp only [Output.text]
      rw [write_of_handed h hv, writeField_eq]
      split at hprint
      · next hlarge => rw [if_pos hlarge, hprint, writeUnread_eq hv]
      · next hlarge =>
        obtain ⟨spec, hprint, hwrite⟩ := hprint
        rw [if_neg hlarge, hprint, ← hwrite]
        exact List.append_nil _

theorem text_outputs {ps : List Piece} (hps : ∀ p ∈ ps, p.Proper) (args : List Arg) :
    (outputs ps args).flatMap Output.text = write ps args := by
  induction ps generalizing args with
  | nil => rfl
  | cons p ps ih =>
    rw [outputs, List.flatMap_cons, Piece.text_output (hps p List.mem_cons_self), ih fun q hq =>
      hps q (List.mem_cons_of_mem p hq)]
    rfl

/-- A text that holds one directive and nothing else: flags, a width and a precision, of which each may be missing, and
a verb that makes a field of the one operand. -/
inductive OneDirective : Bytes → List Operand → Prop
  | intro {fl w : Bytes} {pr : Option Bytes} {letter : UInt8} {o : Operand} :
    (∀ b ∈ fl, isFlag b) → (∀ b ∈ w, isDigit b) →
    (∀ p ∈ pr, ∀ b ∈ p, isDigit b) → (o.field? letter).isSome →
      OneDirective (37 :: (fl ++ (w ++ (pointed pr ++ [letter])))) [o]

theorem Piece.call {p : Piece} (hp : p.Proper) (hsmall : ∀ n ∈ p.numbers args, n.natAbs ≤ 1000000)
    (h : p.output args = .call s os) :
    OneDirective s os ∧ ∃ spec v, print s os = [.field spec v] := by
  cases p with
  | plain b | percent | unfinished d => cases h
  | directive d verb =>
    unfold Piece.output at h
    dsimp only at h
    split at h
    · next letter o hhanded =>
      cases h
      obtain ⟨v, hv, -⟩ := field_of_handed hhanded
      have hwritten := Shape.written hp args
      refine ⟨?_, ?_⟩
      · have htext : (d.spec args).text ++ [letter]
            = 37 :: ((d.spec args).flags ++ ((d.spec args).width ++ (pointed
                (d.spec args).precision ++ [letter]))) := by
          cases hpr : (d.spec args).precision <;> simp [Spec.text, pointed, hpr]
        rw [htext]
        exact .intro hwritten.flags hwritten.width hwritten.precision (by rw [hv]; rfl)
      · have hwidth : (d.width.value args).natAbs ≤ 1000000 := hsmall _ List.mem_cons_self
        have hprecision : (d.precisionValue args).natAbs ≤ 1000000 :=
          hsmall _ (List.mem_cons_of_mem _ List.mem_cons_self)
        have hread : ¬(d.spec args).unreadable := fun h => by
          have := (Shape.readable hwidth).1 h
          omega
        have hprint := print_written hwritten hv
        rw [if_neg hread] at hprint
        obtain ⟨spec, hprint, -⟩ := hprint
        exact ⟨spec, v, hprint⟩
    · cases h

theorem calls_in_order {ps : List Piece} (hps : ∀ p ∈ ps, p.Proper) (hsmall : ∀ n ∈ numbers ps args, n.natAbs ≤ 1000000)
    (h : .call s os ∈ outputs ps args) : OneDirective s os ∧ ∃ spec v, print s os = [.field spec v] := by
  induction ps generalizing args with
  | nil => cases h
  | cons p ps ih =>
    rcases List.mem_cons.1 h with h | h
    · exact Piece.call (hps p List.mem_cons_self) (fun n hn => hsmall n (List.mem_append_left _ hn)) h.symm
    · exact ih (fun q hq => hps q (List.mem_cons_of_mem p hq)) (fun n hn => hsmall n (List.mem_append_right _ hn)) h

/-- Formatted text consists of bytes written as they are and of what the printer makes of the texts and operands that it
is handed. While no width or precision is beyond a million, each of these texts is one directive with one operand of a
kind for its verb, and the printer puts out the field and has nothing to note. -/
theorem handed_over_without_notes (f : Bytes) (args : List Arg) :
    sprintf f args = (outputs (pieces f) args).flatMap Output.text
    ∧ ((∀ n ∈ numbers (pieces f) args, n.natAbs ≤ 1000000) →
      ∀ s os, .call s os ∈ outputs (pieces f) args → OneDirective s os ∧ ∃ spec v, print s os = [.field spec v]) := by
  have hproper : ∀ p ∈ pieces f, p.Proper := fun p hp => proper_of_mem hp
  refine ⟨?_, fun hsmall s os h => calls_in_order hproper hsmall h⟩
  rw [sprintf_eq_write, text_outputs hproper]

/-- The width of the second directive is an argument. -/
theorem handed_over_without_notes_star :
    numbers (pieces (text "%+05d|%*s")) [.int 42, .int (-9), .str (text "x")] = [5, 0, -9, 0]
    ∧ .call (text "%+05d") [.signed 42] ∈ outputs (pieces (text "%+05d|%*s")) [.int 42, .int (-9), .str (text "x")]
    ∧ OneDirective (text "%+05d") [.signed 42] ∧ ∃ spec v, print (text "%+05d") [.signed 42] = [.field spec v] := by
  have hnumbers : numbers (pieces (text "%+05d|%*s")) [.int 42, .int (-9), .str (text "x")] = [5, 0, -9, 0] := by decide
  have hcall : .call (text "%+05d") [.signed 42] ∈ outputs (pieces (text "%+05d|%*s")) [.int 42, .int (-9),
    .str (text "x")] := .head _
  have hsmall : ∀ n ∈ numbers (pieces (text "%+05d|%*s")) [.int 42, .int (-9), .str (text "x")],
      n.natAbs ≤ 1000000 := by
    rw [hnumbers]
    decide
  obtain ⟨hone, hprint⟩ := (handed_over_without_notes _ _).2 hsmall _ _ hcall
  exact ⟨hnumbers, hcall, hone, hprint⟩

end RecordMill.Format

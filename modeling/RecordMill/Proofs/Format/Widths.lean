import RecordMill.Proofs.Format.Composition
import RecordMill.Proofs.Pattern.Characters

/-!
# Widths

Main statement: `widths_kept`. A directive writes at least as many characters as its width asks for. Blanks are added on
the right if the minus flag is given or the width is a negative argument, and on the left otherwise. -/

namespace RecordMill

/-! ## Counting characters -/

namespace Utf8

variable {b : UInt8} {rest r : Bytes}

theorem front_of_plain (hb : b < 0x80) (rest : Bytes) : front? (b :: rest) = some (b.toNat, 1) := if_pos hb

theorem front_append {s : Bytes} {code n : Nat} (h : front? s = some (code, n)) (r : Bytes) :
    front? (s ++ r) = some (code, n) ∧ n ≤ s.length := by
  cases front_of_eq h with
  | plain hb => exact ⟨front_of_plain hb _, Nat.le_add_left 1 _⟩
  | wide _ _ _ _ hfront =>
    rw [List.append_assoc]
    exact ⟨hfront _, by simp⟩

theorem front_append_plain (h : front? (b :: rest) = none) (hr : ∀ x, r.head? = some x → x < 0x80) :
    front? (b :: (rest ++ r)) = none := by
  have htail : ∀ x, r.head? = some x → isTail x = false := fun x hx => by
    have hlow := UInt8.lt_iff_toNat_lt.1 (hr x hx)
    cases ht : isTail x with
    | false => rfl
    | true => exact absurd (toNat_of_isTail ht).1 (Nat.not_le.2 hlow)
  cases r with
  | nil => rwa [List.append_nil]
  | cons x r =>
    have hx : isTail x = false := htail x rfl
    -- A character has at most three bytes behind its first.
    match rest with
    | [] | [_] | [_, _] =>
      simp only [front?, List.cons_append, List.nil_append] at h ⊢
      grind
    | _ :: _ :: _ :: _ => exact h

theorem units_append {s : Bytes} (hr : ∀ x, r.head? = some x → x < 0x80) : units (s ++ r) = units s ++ units r := by
  fun_induction units s with
  | case1 => rfl
  | case2 b rest code n h ih =>
    obtain ⟨hfront, hn⟩ := front_append h r
    have hn : n - 1 ≤ rest.length := Nat.sub_le_of_le_add hn
    rw [List.cons_append] at hfront ⊢
    rw [units_of_front hfront, List.take_append_of_le_length hn, List.drop_append_of_le_length hn, ih]
    rfl
  | case3 b rest h ih =>
    rw [List.cons_append, units_of_stray (front_append_plain h hr), ih]
    rfl

theorem count_cons_plain (hb : b < 0x80) (s : Bytes) : count (b :: s) = count s + 1 := by
  unfold count
  rw [units_of_front (front_of_plain hb s)]
  rfl

theorem count_replicate (hb : b < 0x80) (n : Nat) (s : Bytes) : count (List.replicate n b ++ s) = n + count s := by
  induction n with
  | zero => exact (Nat.zero_add _).symm
  | succ n ih =>
    rw [List.replicate_succ, List.cons_append, count_cons_plain hb, ih]
    omega

theorem count_append_replicate (hb : b < 0x80) (s : Bytes) (n : Nat) :
    count (s ++ List.replicate n b) = count s + n := by
  have hn : count (List.replicate n b) = n := by
    rw [← List.append_nil (List.replicate n b), count_replicate hb]
    simp [count, units]
  unfold count at hn ⊢
  rw [units_append, List.length_append, hn]
  intro x hx
  rwa [List.eq_of_mem_replicate (List.mem_of_mem_head? hx)]

end Utf8

namespace Format

open Bytes (isDigit)

/-! ## Filling up -/

/-- A text that is filled up to `w` characters, on the right with blanks, or else on the left with blanks, or in its
midst with zeros. No more blanks are added than it takes. -/
structure Filled (w : Nat) (onRight zeros : Prop) (bare out : Bytes) : Prop where
  enough : w ≤ Utf8.count out
  right : onRight → ∃ gap, out = bare ++ List.replicate gap 32 ∧ (gap ≠ 0 → Utf8.count out = w)
  left : ¬onRight → ∃ gap n front back, bare = front ++ back
    ∧ out = List.replicate gap 32 ++ (front ++ (List.replicate n 48 ++ back))
    ∧ (gap ≠ 0 → Utf8.count out = w) ∧ (n ≠ 0 → zeros)

variable {spec t : Spec} {front back s : Bytes} {n : Nat}

theorem filled_pad (hzeros : n ≠ 0 → spec.zero) :
    Filled spec.widthNat spec.minus spec.zero (front ++ back)
      (pad spec 32 (front ++ (List.replicate n 48 ++ back))) := by
  have hblank : (32 : UInt8) < 0x80 := by decide
  unfold pad
  dsimp only
  generalize hbody : front ++ (List.replicate n 48 ++ back) = body
  by_cases hminus : spec.minus
  · -- Zeros are not asked for then.
    have hn : n = 0 := by
      by_cases hn : n = 0
      · exact hn
      · have hzero := hzeros hn
        simp [Spec.zero, hminus] at hzero
    subst hn
    rw [if_pos hminus]
    refine ⟨?_, fun _ => ⟨spec.widthNat - Utf8.count body, ?_, ?_⟩, fun h => absurd hminus h⟩
    · rw [Utf8.count_append_replicate hblank]
      omega
    · rw [← hbody]
      rfl
    · rw [Utf8.count_append_replicate hblank]
      omega
  · rw [if_neg hminus]
    refine ⟨?_, fun h => absurd h hminus, fun _ =>
      ⟨spec.widthNat - Utf8.count body, n, front, back, rfl, ?_, ?_, hzeros⟩⟩
    · rw [Utf8.count_replicate hblank]
      omega
    · rw [hbody]
    · rw [Utf8.count_replicate hblank]
      omega

theorem filled_pad_plain : Filled spec.widthNat spec.minus spec.zero s (pad spec 32 s) := by
  have h : Filled spec.widthNat spec.minus spec.zero (s ++ []) (pad spec 32 (s ++ (List.replicate 0 48 ++ []))) :=
    filled_pad (absurd rfl)
  rwa [List.append_nil, List.replicate_zero, List.append_nil, List.append_nil] at h

/-! ## Fields -/

/-- What a field is written as under a specification that can be read. -/
def Field.write (spec : Spec) : Field → Bytes
  | .signed n => whole spec .decimal (n < 0) n.toInt.natAbs
  | .unsigned radix n => whole spec radix false n.toNat
  | .string s => Format.string spec s
  | .double layout f => Format.double spec (layout spec.precisionNat?) f

theorem writeField_eq (spec : Spec) (v : Field) :
    writeField spec v = if spec.unreadable then writeUnread v else v.write spec := rfl

def Spec.narrow (spec : Spec) : Spec := { spec with width := [] }

theorem pad_of_no_width (h : spec.widthNat = 0) (fill : UInt8) (s : Bytes) : pad spec fill s = s := by simp [pad, h]

theorem pad_narrow (fill : UInt8) (s : Bytes) : pad spec.narrow fill s = s := pad_of_no_width rfl fill s

theorem filled_string (spec : Spec) (s : Bytes) :
    Filled spec.widthNat spec.minus spec.zero (string spec.narrow s) (string spec s) := by
  have hplain : (48 : UInt8) < 0x80 := by decide
  obtain ⟨cut, hcut⟩ : ∃ cut, ∀ t : Spec, t.precisionNat? = spec.precisionNat? →
      string t s = pad t (if t.zero then 48 else 32) cut :=
    ⟨_, fun t ht => by rw [string, ht]⟩
  rw [hcut spec rfl, hcut spec.narrow rfl, pad_narrow]
  by_cases hzero : spec.zero
  · have hminus : spec.minus = false := by
      simp only [Spec.zero, Bool.and_eq_true, Bool.not_eq_true'] at hzero
      exact hzero.2
    have hpad : pad spec 48 cut = List.replicate (spec.widthNat - Utf8.count cut) 48 ++ cut := by simp [pad, hminus]
    rw [if_pos hzero, hpad]
    refine ⟨?_, fun h => absurd h (by simp [hminus]), fun _ => ⟨0, _, [], cut, rfl, rfl, absurd rfl, fun _ => hzero⟩⟩
    rw [Utf8.count_replicate hplain]
    omega
  · rw [if_neg hzero]
    exact filled_pad_plain

theorem Radix.mark_zeros (radix : Radix) (n : Nat) (ds : Bytes) : ∃ front back k, radix.mark ds = front ++ back
    ∧ radix.mark (List.replicate n 48 ++ ds) = front ++ (List.replicate k 48 ++ back) ∧ (k ≠ 0 → n ≠ 0) := by
  cases radix with
  | decimal => exact ⟨[], ds, n, rfl, rfl, id⟩
  | hexLower => exact ⟨[48, 120], ds, n, rfl, rfl, id⟩
  | hexUpper => exact ⟨[48, 88], ds, n, rfl, rfl, id⟩
  | octal =>
    cases n with
    | zero => exact ⟨[], Radix.octal.mark ds, 0, rfl, rfl, absurd rfl⟩
    | succ n =>
      have hmark : Radix.octal.mark (List.replicate (n + 1) 48 ++ ds) = List.replicate (n + 1) 48 ++ ds := by
        have hhead : (List.replicate (n + 1) 48 ++ ds).head? = some 48 := rfl
        rw [Radix.mark, if_pos hhead]
      by_cases h : ds.head? = some 48
      · exact ⟨[], ds, n + 1, by rw [Radix.mark, if_pos h]; rfl, hmark, fun _ => Nat.succ_ne_zero n⟩
      · refine ⟨[], 48 :: ds, n, by rw [Radix.mark, if_neg h]; rfl, hmark.trans ?_, fun _ => Nat.succ_ne_zero n⟩
        rw [List.replicate_succ', List.append_assoc]
        rfl

/-- How many digits a specification asks of a whole number with a sign of so many bytes. -/
def Spec.leastDigits (spec : Spec) (signs : Nat) : Nat :=
  match spec.precisionNat? with
  | some p => p
  | none => if spec.zero then spec.widthNat - signs else 0

def padded (least : Nat) (ds : Bytes) : Bytes := List.replicate (least - ds.length) 48 ++ ds

theorem whole_eq (spec : Spec) (radix : Radix) (neg : Bool) (n : Nat) : whole spec radix neg n
    = if spec.precisionNat? = some 0 ∧ n = 0 then List.replicate spec.widthNat 32
      else
        let ds := padded (spec.leastDigits (signOf spec neg).length) (radix.digits n)
        pad spec 32 (signOf spec neg ++ if spec.sharp then radix.mark ds else ds) := rfl

theorem padded_leastDigits (spec : Spec) (signs : Nat) (ds : Bytes) : ∃ k,
    padded (spec.leastDigits signs) ds = List.replicate k 48 ++ padded (spec.narrow.leastDigits signs) ds
    ∧ (k ≠ 0 → spec.zero) := by
  have hprecision : spec.narrow.precisionNat? = spec.precisionNat? := rfl
  have hwidth : spec.narrow.widthNat = 0 := rfl
  unfold Spec.leastDigits
  rw [hprecision, hwidth]
  cases spec.precisionNat? with
  | some p => exact ⟨0, rfl, absurd rfl⟩
  | none =>
    by_cases hzero : spec.zero
    · exact ⟨spec.widthNat - signs - ds.length, by simp [padded, hzero], fun _ => hzero⟩
    · exact ⟨0, by simp [padded, hzero], absurd rfl⟩

theorem filled_whole (spec : Spec) (radix : Radix) (neg : Bool) (n : Nat) :
    Filled spec.widthNat spec.minus spec.zero (whole spec.narrow radix neg n) (whole spec radix neg n) := by
  have hblank : (32 : UInt8) < 0x80 := by decide
  have hsign : signOf spec.narrow neg = signOf spec neg := rfl
  have hsharp : spec.narrow.sharp = spec.sharp := rfl
  have hprecision : spec.narrow.precisionNat? = spec.precisionNat? := rfl
  rw [whole_eq, whole_eq, hsign, hsharp, hprecision]
  by_cases hnone : spec.precisionNat? = some 0 ∧ n = 0
  · -- Nothing but blanks is written, on whichever side.
    have hcount : Utf8.count (List.replicate spec.widthNat 32) = spec.widthNat := by
      have h := Utf8.count_append_replicate hblank [] spec.widthNat
      simpa [Utf8.count, Utf8.units] using h
    rw [if_pos hnone, if_pos hnone]
    exact ⟨Nat.le_of_eq hcount.symm, fun _ => ⟨_, rfl, fun _ => hcount⟩,
      fun _ => ⟨_, 0, [], [], rfl, (List.append_nil _).symm, fun _ => hcount, absurd rfl⟩⟩
  · obtain ⟨k, hdigits, hk⟩ := padded_leastDigits spec (signOf spec neg).length (radix.digits n)
    rw [if_neg hnone, if_neg hnone]
    dsimp only
    rw [pad_narrow, hdigits]
    generalize padded _ (radix.digits n) = ds
    by_cases hsharp : spec.sharp
    · obtain ⟨front, back, z, hbare, hmark, hz⟩ := radix.mark_zeros k ds
      rw [if_pos hsharp, if_pos hsharp, hbare, hmark, ← List.append_assoc, ← List.append_assoc]
      exact filled_pad fun h => hk (hz h)
    · rw [if_neg hsharp, if_neg hsharp]
      exact filled_pad hk

theorem filled_double (spec : Spec) (layout : Double.Layout) (f : Float) :
    Filled spec.widthNat spec.minus spec.zero (double spec.narrow layout f) (double spec layout f) := by
  unfold double
  cases Double.parts f with
  | nan =>
    dsimp only
    rw [pad_narrow]
    exact filled_pad_plain
  | infinite neg =>
    dsimp only
    rw [pad_narrow]
    exact filled_pad_plain
  | finite neg mant exp =>
    have hsharp : spec.narrow.sharp = spec.sharp := rfl
    have hsign : signOf spec.narrow neg = signOf spec neg := rfl
    have hwidth : spec.narrow.widthNat = 0 := rfl
    dsimp only
    rw [pad_narrow, hsharp, hsign, hwidth]
    generalize (if spec.sharp then _ else _) = body
    have hnone : List.replicate (if spec.narrow.zero then 0 - (signOf spec neg).length - body.length else 0)
        (48 : UInt8) = [] := by
      simp
    rw [hnone, List.append_nil, List.append_assoc]
    refine filled_pad fun h => ?_
    by_cases hzero : spec.zero
    · exact hzero
    · exact absurd (if_neg hzero) h

theorem Field.filled (spec : Spec) (v : Field) :
    Filled spec.widthNat spec.minus spec.zero (v.write spec.narrow) (v.write spec) := by
  cases v with
  | signed n => exact filled_whole spec .decimal _ _
  | unsigned radix n => exact filled_whole spec radix _ _
  | string s => exact filled_string spec s
  | double layout f => exact filled_double spec _ f

/-! ## Specifications without a width -/

/-- What two specifications agree in that write the same where there is no width. -/
structure Spec.Alike (s t : Spec) : Prop where
  plus : s.plus = t.plus
  space : s.space = t.space
  sharp : s.sharp = t.sharp
  precision : s.precisionNat? = t.precisionNat?

theorem Spec.Alike.sign {s t : Spec} (h : s.Alike t) (neg : Bool) : signOf s neg = signOf t neg := by
  rw [signOf, signOf, h.plus, h.space]

theorem Spec.leastDigits_of_no_width (h : spec.widthNat = 0) (signs : Nat) :
    spec.leastDigits signs = spec.precisionNat?.getD 0 := by
  unfold Spec.leastDigits
  rw [h]
  cases spec.precisionNat? <;> simp

theorem write_of_alike {s t : Spec} (hs : s.widthNat = 0) (ht : t.widthNat = 0) (h : s.Alike t) (v : Field) :
    v.write s = v.write t := by
  have hwhole : ∀ radix neg n, whole s radix neg n = whole t radix neg n := fun radix neg n => by
    rw [whole_eq, whole_eq, hs, ht, s.leastDigits_of_no_width hs, t.leastDigits_of_no_width ht, h.precision,
      h.sign, h.sharp]
    simp only [pad_of_no_width hs, pad_of_no_width ht]
  cases v with
  | signed n => exact hwhole _ _ _
  | unsigned radix n => exact hwhole _ _ _
  | string text =>
    show string s text = string t text
    rw [string, string, pad_of_no_width hs, pad_of_no_width ht, h.precision]
  | double layout f =>
    show double s (layout s.precisionNat?) f = double t (layout t.precisionNat?) f
    rw [h.precision]
    unfold double
    cases Double.parts f <;> simp [pad_of_no_width hs, pad_of_no_width ht, h.sign, h.sharp, hs, ht]

/-! ## Directives -/

variable {d : Shape} {args : List Arg} {verb : UInt8}

@[simp] theorem flags_setPrecision (args : List Arg) (spec : Spec) (pr : Option Amount) :
    (setPrecision args spec pr).flags = spec.flags := by
  unfold setPrecision
  split <;> first | rfl | (dsimp only; split <;> rfl)

@[simp] theorem width_setPrecision (args : List Arg) (spec : Spec) (pr : Option Amount) :
    (setPrecision args spec pr).width = spec.width := by
  unfold setPrecision
  split <;> first | rfl | (dsimp only; split <;> rfl)

theorem Shape.width_spec (d : Shape) (args : List Arg) : (d.spec args).widthNat = (d.width.value args).natAbs := by
  unfold Spec.widthNat Shape.spec
  rw [width_setPrecision]
  cases d.width with
  | digits ds => rfl
  | star => exact (Bytes.decimal_spec _).2

theorem Shape.flags_spec (d : Shape) (args : List Arg) : ∃ minus : Bytes, (d.spec args).flags = d.flags ++ minus
    ∧ (∀ b ∈ minus, b = 45) ∧ (minus ≠ [] ↔ d.width.value args < 0) := by
  unfold Shape.spec
  rw [flags_setPrecision]
  cases d.width with
  | digits ds => exact ⟨[], (List.append_nil _).symm, nofun, by simp [Amount.value]⟩
  | star =>
    have hsign : (argument args 0).toInt < 0 ↔ (argument args 0).toInt.toInt < 0 := Int64.lt_iff_toInt_lt
    by_cases hmin : (argument args 0).toInt = Int64.minValue
    · exact ⟨[45, 45], by simp [Amount.setWidth, dynamicWidth, hmin], by simp, by simp [Amount.value, hmin]⟩
    · by_cases hneg : (argument args 0).toInt < 0
      · exact ⟨[45],
          by simp [Amount.setWidth, dynamicWidth, hmin, hneg], by simp, by simpa [Amount.value] using hsign.1 hneg⟩
      · exact ⟨[],
          by simp [Amount.setWidth, dynamicWidth, hmin, hneg], nofun, by simpa [Amount.value] using mt hsign.2 hneg⟩

theorem has_append {fl more : Bytes} {b c : UInt8} (hmore : ∀ x ∈ more, x = c) (hb : b ≠ c) :
    Bytes.has (fl ++ more) b = Bytes.has fl b := by
  have hnone : Bytes.has more b = false := by
    refine List.any_eq_false.2 fun x hx => ?_
    rw [hmore x hx]
    simpa using hb.symm
  unfold Bytes.has at hnone ⊢
  rw [List.any_append, hnone, Bool.or_false]

theorem Shape.minus_spec (d : Shape) (args : List Arg) :
    (d.spec args).minus ↔ 45 ∈ d.flags ∨ d.width.value args < 0 := by
  obtain ⟨minus, hflags, hminus, hneg⟩ := d.flags_spec args
  rw [Spec.minus, hflags, ← hneg, Bytes.has, List.any_append, Bool.or_eq_true]
  refine or_congr ?_ ?_
  · simp
  · cases minus with
    | nil => simp
    | cons b minus => simp [hminus b List.mem_cons_self]

theorem Shape.zero_spec (d : Shape) (args : List Arg) (h : (d.spec args).zero) : 48 ∈ d.flags := by
  obtain ⟨minus, hflags, hminus, -⟩ := d.flags_spec args
  rw [Spec.zero, Bool.and_eq_true, hflags, has_append hminus (by decide)] at h
  simpa [Bytes.has] using h.1

theorem precision_setPrecision (args : List Arg) {spec : Spec} (h : spec.precision = none) (pr : Option Amount) :
    (setPrecision args spec pr).precisionNat?.getD 0 = (pr.elim 0 (·.value args)).toNat := by
  match pr with
  | none => simp [setPrecision, Spec.precisionNat?, h]
  | some (.digits ds) => simp [setPrecision, Spec.precisionNat?, Amount.value]
  | some .star =>
    have hsign : (argument args 0).toInt < 0 ↔ (argument args 0).toInt.toInt < 0 := Int64.lt_iff_toInt_lt
    rw [setPrecision]
    dsimp only [Option.elim, Amount.value]
    by_cases hneg : (argument args 0).toInt < 0
    · rw [if_pos hneg, Spec.precisionNat?, h]
      exact (Int.toNat_of_nonpos (Int.le_of_lt (hsign.1 hneg))).symm
    · have hnonneg : 0 ≤ (argument args 0).toInt.toInt := Int.not_lt.1 (mt hsign.2 hneg)
      rw [if_neg hneg, Spec.precisionNat?, Option.map_some, Option.getD_some, (Bytes.decimal_spec _).2]
      omega

theorem setPrecision_precision (args : List Arg) {spec t : Spec} (h : spec.precision = t.precision)
    (pr : Option Amount) :
    (setPrecision args spec pr).precision = (setPrecision args t pr).precision := by
  match pr with
  | none => exact h
  | some (.digits ds) => rfl
  | some .star =>
    rw [setPrecision, setPrecision]
    split
    · exact h
    · rfl

theorem Shape.precision_spec (d : Shape) (args : List Arg) :
    (d.spec args).precisionNat?.getD 0 = (d.precisionValue args).toNat := by
  refine precision_setPrecision _ ?_ d.precision
  cases d.width <;> rfl

def Shape.bare (d : Shape) : Shape := { d with width := .digits [] }

theorem Shape.alike_bare (d : Shape) (args : List Arg) :
    (d.bare.spec (args.drop d.width.takes)).Alike (d.spec args).narrow := by
  obtain ⟨minus, hflags, hminus, -⟩ := d.flags_spec args
  have hbare : (d.bare.spec (args.drop d.width.takes)).flags = d.flags := flags_setPrecision _ _ _
  have hplus : ∀ b : UInt8, b ≠ 45 → (d.bare.spec (args.drop d.width.takes)).flags.has b
      = (d.spec args).narrow.flags.has b := by
    intro b hb
    rw [hbare, show (d.spec args).narrow.flags = _ from hflags, has_append hminus hb]
  refine ⟨hplus 43 (by decide), hplus 32 (by decide), hplus 35 (by decide), ?_⟩
  have hprecision : (d.width.setWidth args { flags := d.flags }).precision = none := by cases d.width <;> rfl
  exact congrArg (Option.map (Bytes.value 10)) (setPrecision_precision _ hprecision.symm d.precision)

/-! ## Directives as they are written -/

theorem write_directive (hverb : takesArgument verb) (hc : verb ≠ 99) (d : Shape) (args : List Arg) :
    ∃ v, field? verb (argument args d.takes) = some v ∧ ∀ (e : Shape) (args' : List Arg),
      argument args' e.takes = argument args d.takes → (Piece.directive e verb).write args'
        = writeField (e.spec args') v := by
  have hsome := isSome_field? verb (argument args d.takes) hc
  rw [hverb] at hsome
  obtain ⟨v, hv⟩ := Option.isSome_iff_exists.1 hsome
  refine ⟨v, hv, fun e args' hargument => ?_⟩
  show (writeVerb (e.spec args') (args'.drop e.takes) verb).1 = _
  unfold writeVerb
  rw [takeArg_eq, argument_drop, Nat.add_zero, hargument]
  dsimp only
  rw [if_neg hc, hv]

theorem write_char (d : Shape) (args : List Arg) :
    (Piece.directive d 99).write args = singleByte (argument args d.takes) := by
  show (writeVerb (d.spec args) (args.drop d.takes) 99).1 = _
  unfold writeVerb
  rw [takeArg_eq, argument_drop]
  rfl

theorem Shape.readable (hwidth : (d.width.value args).natAbs ≤ 1000000) :
    (d.spec args).unreadable ↔ 1000000 < d.precisionValue args / 10 := by
  have hprecision := d.precision_spec args
  have hsmall : Spec.tooLarge (d.spec args).widthNat = false := by
    rw [d.width_spec, Spec.tooLarge, decide_eq_false_iff_not]
    omega
  rw [Spec.unreadable, hsmall, Bool.false_or, Spec.tooLarge, decide_eq_true_iff]
  omega

theorem Shape.bare_readable (h : ¬(d.spec args).unreadable) : ¬(d.bare.spec (args.drop d.width.takes)).unreadable := by
  have hwidth : (d.bare.spec (args.drop d.width.takes)).widthNat = 0 := d.bare.width_spec _
  simp only [Spec.unreadable, Bool.or_eq_true, not_or, hwidth, (d.alike_bare args).precision] at h ⊢
  exact ⟨by decide, h.2⟩

/-- A directive, with whatever flags, width and precision, writes at least as many characters as its width asks for.
What it writes is what it would write without its width, filled up: with blanks on the right if the minus flag is given
or the width is a negative argument, and on the left otherwise. A single byte is never filled up, and a precision beyond
a million is not read. -/
theorem widths_kept {f : Bytes} {ps qs : List Piece} {rest : List Arg} (hf : pieces f = ps ++ .directive d verb :: qs)
    (hrest : args.drop (takenBy ps) = rest) (hverb : takesArgument verb)
    (hwidth : (d.width.value rest).natAbs ≤ 1000000) :
    ∃ out, sprintf f args = write ps args ++ (out ++ write qs (rest.drop (Piece.directive d verb).takes))
      ∧ (verb ≠ 99 → d.precisionValue rest / 10 ≤ 1000000 →
        Filled (d.width.value rest).natAbs (45 ∈ d.flags ∨ d.width.value rest < 0) (48 ∈ d.flags)
          ((Piece.directive d.bare verb).write (rest.drop d.width.takes)) out)
      ∧ (verb ≠ 99 → 1000000 < d.precisionValue rest / 10 →
        ∃ v, field? verb (argument rest d.takes) = some v ∧ out = writeUnread v)
      ∧ (verb = 99 → out = singleByte (argument rest d.takes)) := by
  refine ⟨(Piece.directive d verb).write rest, ?_, fun hc hprecision => ?_, fun hc hprecision => ?_, ?_⟩
  · rw [sprintf_eq_write, hf, write_append, hrest]
    rfl
  · obtain ⟨v, -, hwrite⟩ := write_directive hverb hc d rest
    have hargument : argument (rest.drop d.width.takes) d.bare.takes = argument rest d.takes := by
      rw [argument_drop]
      simp [Shape.bare, Shape.takes, Amount.takes]
    have hread : ¬(d.spec rest).unreadable := fun h => absurd (Shape.readable hwidth |>.1 h) (by omega)
    have hwidth : (d.bare.spec (rest.drop d.width.takes)).widthNat = 0 := d.bare.width_spec _
    rw [hwrite d rest rfl, hwrite d.bare _ hargument, writeField_eq, writeField_eq, if_neg hread,
      if_neg (Shape.bare_readable hread),
      write_of_alike hwidth rfl (d.alike_bare rest)]
    obtain ⟨henough, hright, hleft⟩ := v.filled (d.spec rest)
    rw [d.width_spec] at henough hright hleft
    refine ⟨henough, fun h => hright (d.minus_spec rest |>.2 h), fun h => ?_⟩
    obtain ⟨gap, n, front, back, hbare, hout, hgap, hzeros⟩ := hleft (mt (d.minus_spec rest).1 h)
    exact ⟨gap, n, front, back, hbare, hout, hgap, fun hn => d.zero_spec rest (hzeros hn)⟩
  · obtain ⟨v, hv, hwrite⟩ := write_directive hverb hc d rest
    refine ⟨v, hv, ?_⟩
    rw [hwrite d rest rfl, writeField_eq, if_pos ((Shape.readable hwidth).2 hprecision)]
  · rintro rfl
    exact write_char d rest

/-- A negative width is taken from the first argument, and two characters of the second are shown. -/
def leftAligned : Shape := { width := .star, precision := some (.digits (text "2")) }

theorem widths_kept_left_aligned : pieces (text "<%*.2s>") = [.plain 60] ++ .directive leftAligned 115 :: [.plain 62]
    ∧ ∃ out, sprintf (text "<%*.2s>") [.int (-5), .str (text "abcd")] = text "<" ++ (out ++ text ">")
      ∧ 5 ≤ Utf8.count out ∧ ∃ gap, out = text "ab" ++ List.replicate gap 32 := by
  have hf : pieces (text "<%*.2s>") = [.plain 60] ++ .directive leftAligned 115 :: [.plain 62] := by decide
  have hrest : [.int (-5), .str (text "abcd")].drop (takenBy [.plain 60]) = [Arg.int (-5), .str (text "abcd")] := rfl
  refine ⟨hf, ?_⟩
  obtain ⟨out, hout, hfilled, -⟩ := widths_kept hf hrest (by decide) (by decide)
  have h := hfilled (by decide) (by decide)
  obtain ⟨gap, hgap, -⟩ := h.right (.inr (by decide))
  have hbare : (Piece.directive leftAligned.bare 115).write [.str (text "abcd")] = text "ab" := by decide +kernel
  exact ⟨out, hout, h.enough, gap, hgap.trans (congrArg (· ++ List.replicate gap 32) hbare)⟩

/-- A single byte is written as it is. -/
theorem width_of_byte_not_kept : ¬∀ f d verb args, pieces f = [.directive d verb] → takesArgument verb →
    (d.width.value args).natAbs ≤ 1000000 → (d.width.value args).natAbs ≤ Utf8.count (sprintf f args) := by
  intro hkept
  have h := hkept (text "%5c") { width := .digits (text "5") } 99 [.str (text "A")] (by decide) (by decide) (by decide)
  exact absurd h (by decide +kernel)

end Format

end RecordMill

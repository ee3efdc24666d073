import RecordMill.Proofs.Number.Digits
import RecordMill.Number.Reading

/-!
# Numbers in front of a text

Main statements: `Reading.leadingInt_saturates` for texts used as whole numbers, and
`Reading.leadingDouble_reads_numeral` for those used as doubles.

## Whole numbers

A text used as a whole number is worth the number that its longest front of blanks, a sign and digits writes, held
within the signed words; and a signed word is read back from its text. -/

namespace RecordMill.Reading

open Bytes (isSpace isDigit value Stops Longest)

/-! ## Forms -/

/-- A sign, or none; `true` for a minus. -/
inductive Sign : Bytes → Bool → Prop
  | absent : Sign [] false
  | plus : Sign [43] false
  | minus : Sign [45] true

/-- Blanks, a sign and digits, of which each may be missing, and the number that they write. -/
inductive IntegerText : Bytes → Int → Prop
  | intro {ws sg ds : Bytes} {neg : Bool} : (∀ b ∈ ws, isSpace b) → Sign sg neg → (∀ d ∈ ds, isDigit d) →
    IntegerText (ws ++ (sg ++ ds)) (if neg then -(value 10 ds : Int) else value 10 ds)

variable {ws sg ds es r : Bytes} {neg : Bool}

def isSign (b : UInt8) : Bool := b == 43 || b == 45

theorem takeSign_of_stops (h : Stops isSign r) : takeSign r = (false, r) := by
  cases r with
  | nil => rfl
  | cons b r =>
    have hb := h b rfl
    simp only [isSign, Bool.or_eq_false_iff, beq_eq_false_iff_ne] at hb
    rw [takeSign]
    · exact fun s hs => hb.2 (List.cons.inj hs).1
    · exact fun s hs => hb.1 (List.cons.inj hs).1

theorem Sign.taken (h : Sign sg neg) (hr : sg = [] → Stops isSign r) : takeSign (sg ++ r) = (neg, r) := by
  cases h with
  | absent => exact takeSign_of_stops (hr rfl)
  | plus => rfl
  | minus => rfl

theorem Sign.stops_space (h : Sign sg neg) (hr : sg = [] → Stops isSpace r) : Stops isSpace (sg ++ r) := by
  cases h with
  | absent => exact hr rfl
  | plus | minus => exact Bytes.stops_cons rfl

theorem digit_not_sign {b : UInt8} (h : isDigit b) : isSign b = false := by
  cases hb : isSign b with
  | false => rfl
  | true =>
    rcases Bool.or_eq_true_iff.1 hb with hb | hb <;> rw [eq_of_beq hb] at h <;> exact absurd h (by decide)

theorem digit_not_space {b : UInt8} (h : isDigit b) : isSpace b = false := by
  simp only [isDigit, isSpace, Bool.and_eq_true, decide_eq_true_iff, UInt8.le_iff_toNat_le, Bool.or_eq_false_iff,
    beq_eq_false_iff_ne, Bool.and_eq_false_iff, decide_eq_false_iff_not] at h ⊢
  have hlow : 48 ≤ b.toNat := h.1
  refine ⟨?_, .inr ?_⟩
  · rintro rfl
    exact absurd hlow (by decide)
  · show ¬ b.toNat ≤ 13
    omega

/-- In front of digits stand neither blanks nor signs. -/
theorem stops_digits {c : UInt8 → Bool} (hc : ∀ b, isDigit b → c b = false) (hds : ∀ d ∈ ds, isDigit d)
    (hr : ds = [] → Stops c r) :
    Stops c (ds ++ r) := by
  cases ds with
  | nil => exact hr rfl
  | cons d ds => exact Bytes.stops_cons (hc d (hds d List.mem_cons_self))

/-! ## Saturation -/

/-- The digits taken so far write `n`. Once that is beyond the words it stays there, whatever digits follow. -/
structure Magnitude.Writes (m : Magnitude) (n : Nat) : Prop where
  fits : m.overflow = false → m.word.toNat = n
  beyond : m.overflow = true → maxWord.toNat < n

theorem toNat_maxWord : maxWord.toNat = 18446744073709551615 := by decide

theorem toNat_digit {c : UInt8} (hc : isDigit c) :
    (c - 48).toUInt64.toNat = Bytes.digitValue c ∧ Bytes.digitValue c ≤ 9 := by
  have hvalue : Bytes.digitValue c = c.toNat - 48 := by rw [Bytes.digitValue, if_pos hc]
  rw [isDigit, Bool.and_eq_true, decide_eq_true_iff, decide_eq_true_iff] at hc
  have hhigh : c.toNat ≤ 57 := UInt8.le_iff_toNat_le.1 hc.2
  rw [UInt8.toNat_toUInt64, UInt8.toNat_sub_of_le _ _ hc.1, hvalue]
  exact ⟨rfl, by omega⟩

theorem beyond_iff {w d : UInt64} (hd : d.toNat ≤ 9) :
    w > (maxWord - d) / 10 ↔ maxWord.toNat < w.toNat * 10 + d.toNat := by
  have hle : d ≤ maxWord := by
    rw [UInt64.le_iff_toNat_le, toNat_maxWord]
    omega
  have hten : (10 : UInt64).toNat = 10 := rfl
  rw [gt_iff_lt, UInt64.lt_iff_toNat_lt, UInt64.toNat_div, UInt64.toNat_sub_of_le _ _ hle, toNat_maxWord, hten]
  omega

theorem Magnitude.Writes.add {m : Magnitude} {n : Nat} {c : UInt8} (h : m.Writes n) (hc : isDigit c) :
    (m.add c).Writes (n * 10 + Bytes.digitValue c) := by
  obtain ⟨hdigit, hnine⟩ := toNat_digit hc
  have hbeyond := beyond_iff (w := m.word) (hdigit.symm ▸ hnine)
  rw [hdigit] at hbeyond
  by_cases hlarge : m.word > (maxWord - (c - 48).toUInt64) / 10
  · rw [show m.add c = ⟨m.word, true⟩ from if_pos hlarge]
    refine ⟨fun hno => Bool.noConfusion hno, fun _ => ?_⟩
    cases hover : m.overflow with
    | true =>
      have := h.beyond hover
      omega
    | false => exact h.fits hover ▸ hbeyond.1 hlarge
  · rw [show m.add c = ⟨m.word * 10 + (c - 48).toUInt64, m.overflow⟩ from if_neg hlarge]
    refine ⟨fun hover => ?_, fun hover => ?_⟩
    · have hroom := mt hbeyond.2 hlarge
      have hten : (10 : UInt64).toNat = 10 := rfl
      rw [toNat_maxWord] at hroom
      rw [UInt64.toNat_add, UInt64.toNat_mul, hdigit, hten, ← h.fits hover]
      omega
    · have := h.beyond hover
      omega

/-- The loop takes the digits in front, and what it has taken by then is what they write. -/
theorem Magnitude.Writes.addDigits {m : Magnitude} (hds : ∀ d ∈ ds, isDigit d) (hr : Stops isDigit r)
    (h : m.Writes (value 10 es)) :
    (m.addDigits (ds ++ r)).Writes (value 10 (es ++ ds)) := by
  induction ds generalizing m es with
  | nil =>
    rw [List.append_nil, List.nil_append]
    cases r with
    | nil => exact h
    | cons b r =>
      rw [Magnitude.addDigits, if_neg (by simp [hr b rfl])]
      exact h
  | cons d ds ih =>
    have hd := hds d List.mem_cons_self
    rw [List.cons_append, Magnitude.addDigits, if_pos hd, ← List.singleton_append, ← List.append_assoc]
    refine ih (fun c hc => hds c (List.mem_cons_of_mem d hc)) ?_
    rw [Bytes.value_append]
    exact h.add hd

theorem Magnitude.Writes.toInt_signed {m : Magnitude} {n : Nat} (h : m.Writes n) (neg : Bool) : (m.signed neg).toInt
    = max Int64.minValue.toInt (min (if neg then -(n : Int) else n) Int64.maxValue.toInt) := by
  have hmin : Int64.minValue.toInt = -9223372036854775808 := rfl
  have hmax : Int64.maxValue.toInt = 9223372036854775807 := rfl
  have hhalf : ((1 : UInt64) <<< 63).toNat = 9223372036854775808 := rfl
  have hpos : Int64.maxValue.toUInt64.toNat = 9223372036854775807 := rfl
  have hof : m.word.toInt64 = Int64.ofNat m.word.toNat := Int64.toBitVec_inj.1 (by simp)
  unfold signed
  cases hover : m.overflow with
  | true =>
    have hn := h.beyond hover
    rw [toNat_maxWord] at hn
    cases neg with
    | true =>
      simp only [Bool.true_or, Bool.and_self, if_true]
      omega
    | false =>
      simp only [Bool.false_and, Bool.true_or, Bool.false_eq_true, if_false, if_true]
      omega
  | false =>
    have hn := h.fits hover
    cases neg with
    | true =>
      simp only [Bool.true_and, Bool.false_or, decide_eq_true_eq, gt_iff_lt, UInt64.lt_iff_toNat_lt, hhalf, if_true]
      split
      · omega
      · rw [hof, Int64.toInt_neg_ofNat_of_le (by omega)]
        omega
    | false =>
      simp only [Bool.false_and, Bool.false_or, Bool.false_eq_true, decide_eq_true_eq, gt_iff_lt,
        UInt64.lt_iff_toNat_lt, hpos, if_false]
      split
      · omega
      · rw [hof, Int64.toInt_ofNat_of_lt (by omega)]
        omega

/-! ## Reading -/

theorem leadingInt_pieces (hws : ∀ b ∈ ws, isSpace b) (hsg : Sign sg neg) (hds : ∀ d ∈ ds, isDigit d)
    (hr : Stops isDigit r) (hbare : sg = [] → ds = [] → Stops isSpace r ∧ Stops isSign r) :
    (leadingInt (ws ++ (sg ++ (ds ++ r)))).toInt
      = max Int64.minValue.toInt (min (if neg then -(value 10 ds : Int) else value 10 ds) Int64.maxValue.toInt) := by
  have hspace : Stops isSpace (sg ++ (ds ++ r)) :=
    hsg.stops_space fun hs => stops_digits (fun _ => digit_not_space) hds fun hd => (hbare hs hd).1
  have hsign : takeSign (sg ++ (ds ++ r)) = (neg, ds ++ r) :=
    hsg.taken fun hs => stops_digits (fun _ => digit_not_sign) hds fun hd => (hbare hs hd).2
  have hwrites : (Magnitude.addDigits {} (ds ++ r)).Writes (value 10 ([] ++ ds)) :=
    .addDigits hds hr ⟨fun _ => rfl, fun hno => Bool.noConfusion hno⟩
  unfold leadingInt
  rw [Bytes.dropWhile_run hws hspace, hsign]
  exact hwrites.toInt_signed neg

theorem leadingInt_of_longest {s p : Bytes} {n : Int} (hlongest : Longest (fun q => ∃ m, IntegerText q m) s p)
    (hp : IntegerText p n) :
    (leadingInt s).toInt = max Int64.minValue.toInt (min n Int64.maxValue.toInt) := by
  obtain ⟨r, rfl⟩ := hlongest.front
  cases hp with
  | @intro ws sg ds neg hws hsg hds =>
  have hdigit : Stops isDigit r := hlongest.stops fun b hb => by
    have hds' : ∀ d ∈ ds ++ [b], isDigit d := by
      intro d hd
      rcases List.mem_append.1 hd with hd | hd
      · exact hds d hd
      · rwa [List.mem_singleton.1 hd]
    have := IntegerText.intro hws hsg hds'
    rw [← List.append_assoc sg, ← List.append_assoc ws] at this
    exact ⟨_, this⟩
  have hbare : sg = [] → ds = [] → Stops isSpace r ∧ Stops isSign r := by
    rintro rfl rfl
    rw [List.append_nil, List.append_nil] at hlongest
    refine ⟨hlongest.stops fun b hb => ?_, hlongest.stops fun b hb => ?_⟩
    · have hws' : ∀ c ∈ ws ++ [b], isSpace c := by
        intro c hc
        rcases List.mem_append.1 hc with hc | hc
        · exact hws c hc
        · rwa [List.mem_singleton.1 hc]
      have := IntegerText.intro hws' .absent hds
      rw [List.append_nil, List.append_nil] at this
      exact ⟨_, this⟩
    · rcases Bool.or_eq_true_iff.1 hb with hb | hb <;> rw [eq_of_beq hb]
      · exact ⟨_, .intro hws .plus hds⟩
      · exact ⟨_, .intro hws .minus hds⟩
  rw [List.append_assoc, List.append_assoc, leadingInt_pieces hws hsg hds hdigit hbare]

theorem leadingInt_integer (n : Int64) (hr : Stops isDigit r) : leadingInt (Bytes.integer n.toInt ++ r) = n := by
  obtain ⟨hdigits, hvalue⟩ := Bytes.decimal_spec n.toInt.natAbs
  have hne := Bytes.decimal_ne_nil n.toInt.natAbs
  have hlow := Int64.minValue_le_toInt n
  have hhigh := Int64.toInt_le n
  have hblank : ∀ b ∈ ([] : Bytes), isSpace b := nofun
  apply Int64.toInt_inj.1
  unfold Bytes.integer
  split
  · next hneg =>
    have hread := leadingInt_pieces hblank .minus hdigits hr nofun
    rw [List.nil_append, List.singleton_append, ← List.cons_append] at hread
    rw [hread, hvalue, if_pos rfl]
    omega
  · next hnonneg =>
    have hread := leadingInt_pieces hblank .absent hdigits hr fun _ h => absurd h hne
    rw [List.nil_append, List.nil_append] at hread
    rw [hread, hvalue, if_neg Bool.false_ne_true]
    omega

/-- There is a longest front that writes a whole number, and the text is worth that number, held within the signed
words. In particular a signed word is read back from its text, whatever follows that does not begin with a digit. -/
theorem leadingInt_saturates (s : Bytes) : (∃ p, Longest (fun q => ∃ m, IntegerText q m) s p)
    ∧ (∀ p n, Longest (fun q => ∃ m, IntegerText q m) s p → IntegerText p n →
      (leadingInt s).toInt = max Int64.minValue.toInt (min n Int64.maxValue.toInt))
    ∧ ∀ (n : Int64) (t : Bytes), Stops isDigit t → s = Bytes.integer n.toInt ++ t → leadingInt s = n := by
  refine ⟨?_, fun p n => leadingInt_of_longest, ?_⟩
  · have hnone : ∀ (q : UInt8 → Bool), ∀ b ∈ ([] : Bytes), q b := fun _ => nofun
    have hempty : IntegerText [] 0 := .intro (hnone isSpace) .absent (hnone isDigit)
    exact Bytes.exists_longest ⟨0, hempty⟩ List.nil_prefix
  · rintro n t ht rfl
    exact leadingInt_integer n ht

end RecordMill.Reading

/-!
## Doubles

A text used as a double is worth what its longest front that is a
numeral is worth as a literal, and 0 if no front is one.
-/

namespace RecordMill.Reading

open Bytes (isSpace isDigit Stops Longest)

/-! ## Numerals -/

/-- Digits with or without a point, which has digits on one side at least; then the digits on either side. -/
inductive Mantissa : Bytes → Bytes → Bytes → Prop
  | whole {ds : Bytes} : ds ≠ [] → (∀ d ∈ ds, isDigit d) → Mantissa ds ds []
  | pointed {ds fs : Bytes} :
    ds ++ fs ≠ [] → (∀ d ∈ ds, isDigit d) → (∀ d ∈ fs, isDigit d) → Mantissa (ds ++ 46 :: fs) ds fs

inductive Exponent : Bytes → Bool → Bytes → Prop
  | absent : Exponent [] false []
  | marked {mark : UInt8} {sg es : Bytes} {neg : Bool} :
    mark = 101 ∨ mark = 69 → Sign sg neg → es ≠ [] → (∀ d ∈ es, isDigit d) →
    Exponent (mark :: (sg ++ es)) neg es

inductive Numeral : Bytes → Prop
  | intro {sg m ds fs e es : Bytes} {neg small : Bool} :
    Sign sg neg → Mantissa m ds fs → Exponent e small es → Numeral (sg ++ (m ++ e))

/-- Text that is not read as a numeral, whatever it begins with: `nan` and `inf` in any case, and `0x` with something
behind it. -/
def Special (u : Bytes) : Prop := (u.take 3).map Bytes.toLower = text "nan" ∨ (u.take 3).map Bytes.toLower = text "inf"
  ∨ ∃ x d rest, u = 48 :: x :: d :: rest ∧ (x = 120 ∨ x = 88)

variable {sg m ds fs e es r t u : Bytes} {neg small : Bool}

def numeralByte (b : UInt8) : Bool := isDigit b || [43, 45, 46, 69, 101].contains b

theorem numeralByte_of_digits (hds : ∀ d ∈ ds, isDigit d) : ∀ d ∈ ds, numeralByte d := fun d hd => by
  rw [numeralByte, hds d hd, Bool.true_or]

theorem Sign.bytes (h : Sign sg neg) : ∀ b ∈ sg, numeralByte b := by
  cases h with
  | absent => nofun
  | plus | minus => exact List.forall_mem_singleton.2 (by decide)

theorem Mantissa.bytes (h : Mantissa m ds fs) : ∀ b ∈ m, numeralByte b := by
  cases h with
  | whole _ hds => exact numeralByte_of_digits hds
  | pointed _ hds hfs =>
    intro b hb
    rcases List.mem_append.1 hb with hb | hb
    · exact numeralByte_of_digits hds b hb
    · rcases List.mem_cons.1 hb with rfl | hb
      · rfl
      · exact numeralByte_of_digits hfs b hb

theorem Exponent.bytes (h : Exponent e small es) : ∀ b ∈ e, numeralByte b := by
  cases h with
  | absent => nofun
  | marked hmark hsg _ hes =>
    intro b hb
    rcases List.mem_cons.1 hb with rfl | hb
    · rcases hmark with rfl | rfl <;> rfl
    · rcases List.mem_append.1 hb with hb | hb
      · exact hsg.bytes b hb
      · exact numeralByte_of_digits hes b hb

theorem Numeral.bytes {p : Bytes} (h : Numeral p) : ∀ b ∈ p, numeralByte b := by
  cases h with
  | intro hsg hm he =>
    intro b hb
    rcases List.mem_append.1 hb with hb | hb
    · exact hsg.bytes b hb
    · rcases List.mem_append.1 hb with hb | hb
      · exact hm.bytes b hb
      · exact he.bytes b hb

theorem numeralByte_spec {b : UInt8} (h : numeralByte b) :
    isSpace b = false ∧ b ≠ 95 ∧ Bytes.toLower b ≠ 110 ∧ Bytes.toLower b ≠ 105
    ∧ b ≠ 120 ∧ b ≠ 88 := by
  have hall : ∀ n : Fin 256, numeralByte (UInt8.ofNat n) → isSpace (UInt8.ofNat n) = false ∧ UInt8.ofNat n ≠ 95
      ∧ Bytes.toLower (UInt8.ofNat n) ≠ 110 ∧ Bytes.toLower (UInt8.ofNat n) ≠ 105 ∧ UInt8.ofNat n ≠ 120
      ∧ UInt8.ofNat n ≠ 88 := by
    decide +kernel
  have := hall ⟨b.toNat, b.toNat_lt⟩
  rw [UInt8.ofNat_toNat] at this
  exact this h

theorem not_special (hu : ∀ b ∈ u, numeralByte b) : ¬Special u := by
  have hhead : ∀ (c d e : UInt8), (u.take 3).map Bytes.toLower = [c, d, e] → ∃ b ∈ u, Bytes.toLower b = c := by
    intro c d e h
    cases u with
    | nil => cases h
    | cons b u =>
      rw [List.take_succ_cons, List.map_cons] at h
      exact ⟨b, List.mem_cons_self, (List.cons.inj h).1⟩
  rintro (h | h | ⟨x, d, rest, rfl, hx⟩)
  · obtain ⟨b, hb, hn⟩ := hhead _ _ _ h
    exact (numeralByte_spec (hu b hb)).2.2.1 hn
  · obtain ⟨b, hb, hi⟩ := hhead _ _ _ h
    exact (numeralByte_spec (hu b hb)).2.2.2.1 hi
  · have hbyte := numeralByte_spec (hu x (by simp))
    exact hx.elim hbyte.2.2.2.2.1 hbyte.2.2.2.2.2

/-! ## Taking numerals apart -/

theorem takeSign_spec (s : Bytes) : ∃ sg, Sign sg (takeSign s).1 ∧ s = sg ++ (takeSign s).2 := by
  unfold takeSign
  split
  · exact ⟨[45], .minus, rfl⟩
  · exact ⟨[43], .plus, rfl⟩
  · exact ⟨[], .absent, rfl⟩

theorem Mantissa.stops_sign (h : Mantissa m ds fs) (t : Bytes) : Stops isSign (m ++ t) := by
  cases h with
  | whole hne hds => exact stops_digits (fun _ => digit_not_sign) hds fun h => absurd h hne
  | pointed _ hds _ =>
    rw [List.append_assoc]
    exact stops_digits (fun _ => digit_not_sign) hds fun _ => Bytes.stops_cons rfl

/-- The digits behind a point, if one stands in front, and the rest. -/
def fraction : Bytes → Bytes × Bytes
  | 46 :: t => (t.takeWhile isDigit, t.dropWhile isDigit)
  | t => ([], t)

theorem fraction_of_no_point (ht : t.head? ≠ some 46) : fraction t = ([], t) := by
  unfold fraction
  split
  · exact absurd rfl ht
  · rfl

theorem takeMantissa_eq (u : Bytes) : Literal.takeMantissa isDigit u =
    if (u.takeWhile isDigit).isEmpty && (fraction (u.dropWhile isDigit)).1.isEmpty then none
    else some (u.takeWhile isDigit ++ (fraction (u.dropWhile isDigit)).1, (fraction (u.dropWhile isDigit)).1.length,
      (fraction (u.dropWhile isDigit)).2) := rfl

theorem decimalNumber_eq (neg : Bool) (u : Bytes) : decimalNumber neg u = match Literal.takeMantissa isDigit u with
    | none => 0.0
    | some (ds, places, rest) => ofDigits neg ds (takeExponent rest - places) := by
  have hvalue : decimalNumber neg u =
      if (u.takeWhile isDigit).isEmpty ∧ (fraction (u.dropWhile isDigit)).1.isEmpty then 0.0
      else ofDigits neg (u.takeWhile isDigit ++ (fraction (u.dropWhile isDigit)).1)
        (takeExponent (fraction (u.dropWhile isDigit)).2 - (fraction (u.dropWhile isDigit)).1.length) := rfl
  rw [hvalue, takeMantissa_eq]
  by_cases hempty : (u.takeWhile isDigit).isEmpty ∧ (fraction (u.dropWhile isDigit)).1.isEmpty
  · rw [if_pos hempty, if_pos (Bool.and_eq_true_iff.2 hempty)]
  · rw [if_neg hempty, if_neg (mt Bool.and_eq_true_iff.1 hempty)]

/-- Behind a mantissa neither a digit follows, nor a point where it has none. -/
theorem takeMantissa_form (hm : Mantissa m ds fs) (hdigit : Stops isDigit t) (hpoint : m = ds → t.head? ≠ some 46) :
    Literal.takeMantissa isDigit (m ++ t) = some (ds ++ fs, fs.length, t) := by
  rw [takeMantissa_eq]
  cases hm with
  | whole hne hds =>
    rw [Bytes.takeWhile_run hds hdigit, Bytes.dropWhile_run hds hdigit, fraction_of_no_point (hpoint rfl),
      List.isEmpty_eq_false_iff.2 hne]
    rfl
  | @pointed ds fs hne hds hfs =>
    have hstop : Stops isDigit (46 :: (fs ++ t)) := Bytes.stops_cons rfl
    have hfraction : fraction (46 :: (fs ++ t)) = (fs, t) :=
      Prod.ext (Bytes.takeWhile_run hfs hdigit) (Bytes.dropWhile_run hfs hdigit)
    have hempty : (ds.isEmpty && fs.isEmpty) = false := by
      simpa using hne
    rw [List.append_assoc, List.cons_append, Bytes.takeWhile_run hds hstop, Bytes.dropWhile_run hds hstop,
      hfraction, hempty]
    rfl

theorem takeMantissa_front {x : Bytes × Nat × Bytes} (h : Literal.takeMantissa isDigit u = some x) :
    ∃ m ds fs, Mantissa m ds fs ∧ m <+: u := by
  rw [takeMantissa_eq] at h
  have hsplit : u.takeWhile isDigit ++ u.dropWhile isDigit = u := List.takeWhile_append_dropWhile
  by_cases hne : u.takeWhile isDigit = []
  · rw [hne, List.nil_append] at hsplit
    rw [hne, hsplit] at h
    by_cases hpoint : u.head? = some 46
    · obtain ⟨v, rfl⟩ := List.head?_eq_some_iff.1 hpoint
      have hfs : v.takeWhile isDigit ≠ [] := by
        intro hnil
        have hempty : (fraction (46 :: v)).1.isEmpty = true := by
          show (v.takeWhile isDigit).isEmpty = true
          rw [hnil]
          rfl
        rw [hempty] at h
        cases h
      have hnone : ∀ d ∈ ([] : Bytes), isDigit d := nofun
      exact ⟨_, _, _, .pointed hfs hnone (Bytes.all_takeWhile v), (List.prefix_cons_inj 46).2 (List.takeWhile_prefix _)⟩
    · rw [fraction_of_no_point hpoint] at h
      cases h
  · exact ⟨_, _, _, .whole hne (Bytes.all_takeWhile u), List.takeWhile_prefix _⟩

theorem takeExponent_form (he : Exponent e small es) (hdigit : Stops isDigit r) (hnone : e = [] → takeExponent r = 0) :
    takeExponent (e ++ r) = exponent small es := by
  cases he with
  | absent => exact hnone rfl
  | marked hmark hsg hne hes =>
    have hsign := hsg.taken (r := _ ++ r) fun _ => stops_digits (fun _ => digit_not_sign) hes fun h => absurd h hne
    rw [List.cons_append, List.append_assoc, takeExponent, if_pos hmark, hsign]
    show exponent small ((es ++ r).takeWhile isDigit) = _
    rw [Bytes.takeWhile_run hes hdigit]

theorem exponent_front (h : takeExponent r ≠ 0) : ∃ e small es, Exponent e small es ∧ e ≠ [] ∧ e <+: r := by
  unfold takeExponent at h
  split at h
  · next c s =>
    split at h
    · next hmark =>
      obtain ⟨sg, hsg, hs⟩ := takeSign_spec s
      have hes : (takeSign s).2.takeWhile isDigit ≠ [] := by
        intro hnil
        refine h ?_
        show exponent (takeSign s).1 ((takeSign s).2.takeWhile isDigit) = 0
        rw [hnil]
        cases (takeSign s).1 <;> rfl
      refine ⟨_, _, _, .marked hmark hsg hes (Bytes.all_takeWhile _), List.cons_ne_nil _ _,
        (List.prefix_cons_inj c).2 ?_⟩
      conv => rhs; rw [hs]
      exact (List.prefix_append_right_inj sg).2 (List.takeWhile_prefix _)
    · exact absurd rfl h
  · exact absurd rfl h

theorem Exponent.stops (h : Exponent e small es) (hr : e = [] → Stops isDigit r) : Stops isDigit (e ++ r) := by
  cases h with
  | absent => exact hr rfl
  | marked hmark =>
    refine Bytes.stops_cons ?_
    rcases hmark with rfl | rfl <;> rfl

theorem Exponent.no_point (h : Exponent e small es) (hr : e = [] → r.head? ≠ some 46) : (e ++ r).head? ≠ some 46 := by
  cases h with
  | absent => exact hr rfl
  | marked hmark =>
    rcases hmark with rfl | rfl <;> exact fun hpoint => absurd (Option.some.inj hpoint) (by decide)

theorem decimalNumber_form (hm : Mantissa m ds fs) (he : Exponent e small es) (hdigit : Stops isDigit r)
    (hnone : e = [] → takeExponent r = 0) (hpoint : e = [] → m = ds → r.head? ≠ some 46) :
    decimalNumber neg (m ++ (e ++ r)) = ofDigits neg (ds ++ fs) (exponent small es - fs.length) := by
  have htake := takeMantissa_form hm (he.stops fun _ => hdigit) fun hds => he.no_point fun h => hpoint h hds
  rw [decimalNumber_eq, htake]
  dsimp only
  rw [takeExponent_form he hdigit hnone]

/-! ## Literals -/

theorem exponent?_form (hsg : Sign sg neg) (hne : es ≠ []) (hes : ∀ d ∈ es, isDigit d) :
    Literal.exponent? (sg ++ es) = some (exponent neg es) := by
  have hsign := hsg.taken (r := es) fun _ => by
    rw [← List.append_nil es]
    exact stops_digits (fun _ => digit_not_sign) hes fun h => absurd h hne
  have hall : es.all isDigit = true := List.all_eq_true.2 hes
  rw [Literal.exponent?, hsign]
  dsimp only
  rw [hall, List.isEmpty_eq_false_iff.2 hne]
  rfl

theorem decimal?_form (hm : Mantissa m ds fs) (he : Exponent e small es) :
    Literal.decimal? neg (m ++ e) = some (ofDigits neg (ds ++ fs) (exponent small es - fs.length)) := by
  have hdigit : Stops isDigit e := List.append_nil e ▸ he.stops fun _ => Bytes.stops_nil
  have hpoint : e.head? ≠ some 46 := List.append_nil e ▸ he.no_point (r := []) fun _ => by decide
  rw [Literal.decimal?, takeMantissa_form hm hdigit fun _ => hpoint]
  cases he with
  | absent => rfl
  | @marked mark sg es small hmark hsg hne hes =>
    have hlower : Bytes.toLower mark = 101 := by rcases hmark with rfl | rfl <;> rfl
    rw [Option.bind_eq_bind, Option.bind_some]
    dsimp only
    rw [if_pos hlower, exponent?_form hsg hne hes]
    rfl

theorem finite?_form (hsg : Sign sg neg) (hm : Mantissa m ds fs) (he : Exponent e small es) :
    Literal.finite? (sg ++ (m ++ e)) = some (ofDigits neg (ds ++ fs) (exponent small es - fs.length)) := by
  have hbytes := (Numeral.intro hsg hm he).bytes
  have hunder : ∀ b ∈ sg ++ (m ++ e), b ≠ 95 := fun b hb => (numeralByte_spec (hbytes b hb)).2.1
  have hhas : Bytes.has (sg ++ (m ++ e)) 95 = false := by
    rw [Bytes.has, List.any_eq_false]
    exact fun b hb => by simpa using hunder b hb
  have hfilter : (sg ++ (m ++ e)).filter (· ≠ 95) = sg ++ (m ++ e) :=
    List.filter_eq_self.2 fun b hb => decide_eq_true (hunder b hb)
  rw [Literal.finite?, hhas, hfilter, hsg.taken fun _ => hm.stops_sign e]
  rw [Bool.false_and, if_neg Bool.false_ne_true]
  dsimp only
  split
  · next x d rest heq =>
    have hx := hbytes x (List.mem_append_right _ (heq ▸ by simp))
    have hlower : Bytes.toLower x ≠ 120 := by
      have hall : ∀ n : Fin 256, Bytes.toLower (UInt8.ofNat n) = 120 → UInt8.ofNat n = 120 ∨ UInt8.ofNat n = 88 := by
        decide +kernel
      have := hall ⟨x.toNat, x.toNat_lt⟩
      rw [UInt8.ofNat_toNat] at this
      exact fun h => (this h).elim (numeralByte_spec hx).2.2.2.2.1 (numeralByte_spec hx).2.2.2.2.2
    rw [if_neg hlower]
    exact decimal?_form hm he
  · exact decimal?_form hm he

theorem Numeral.isSome_finite? {p : Bytes} (h : Numeral p) : (Literal.finite? p).isSome := by
  cases h with
  | intro hsg hm he =>
    rw [finite?_form hsg hm he]
    rfl

theorem Numeral.double {p : Bytes} {f : Float} (h : Numeral p) (hf : Literal.finite? p = some f) :
    Literal.double p = .ok f ∨ Literal.double p = .error .outOfRange ∧ ∃ neg, Double.parts f = .infinite neg := by
  have hletters : ∀ c ∈ p.map Bytes.toLower, c ≠ 110 ∧ c ≠ 105 := by
    intro c hc
    obtain ⟨b, hb, rfl⟩ := List.mem_map.1 hc
    have hbyte := numeralByte_spec (h.bytes b hb)
    exact ⟨hbyte.2.2.1, hbyte.2.2.2.1⟩
  have hbare : ∀ w : Bytes, 105 ∈ w → (takeSign (p.map Bytes.toLower)).2 ≠ w := by
    intro w hw heq
    obtain ⟨sg, -, hword⟩ := takeSign_spec (p.map Bytes.toLower)
    refine (hletters 105 ?_).2 rfl
    rw [hword, heq]
    exact List.mem_append_right sg hw
  have hnan : p.map Bytes.toLower ≠ text "nan" := fun heq => (hletters 110 (heq ▸ List.mem_cons_self)).1 rfl
  have hinf : ¬((takeSign (p.map Bytes.toLower)).2 = text "inf" ∨ (takeSign (p.map Bytes.toLower)).2
      = text "infinity") :=
    not_or.2 ⟨hbare _ List.mem_cons_self, hbare _ List.mem_cons_self⟩
  unfold Literal.double
  dsimp only
  rw [if_neg hinf, if_neg hnan, hf]
  dsimp only
  split
  · next neg hparts => exact .inr ⟨rfl, neg, hparts⟩
  · exact .inl rfl

/-! ## Reading -/

theorem leadingDouble_plain {s : Bytes} (ht : s.dropWhile isSpace = t) (hplain : ¬Special (takeSign t).2) :
    leadingDouble s = decimalNumber (takeSign t).1 (takeSign t).2 := by
  have hnan : text "nan" = [110, 97, 110] := rfl
  have hinf : text "inf" = [105, 110, 102] := rfl
  rw [Special, hnan, hinf] at hplain
  unfold leadingDouble
  rw [ht]
  dsimp only
  rw [if_neg fun h => hplain (.inl h), if_neg fun h => hplain (.inr (.inl h))]
  split
  · next x d rest heq =>
    rw [if_neg fun hx => hplain (.inr (.inr ⟨x, d, rest, heq, hx⟩)), heq]
  · rfl

theorem decimalNumber_longest (hsg : Sign sg neg) (hm : Mantissa m ds fs) (he : Exponent e small es)
    (h : Longest Numeral (sg ++ (m ++ e) ++ r) (sg ++ (m ++ e))) :
    decimalNumber neg (m ++ (e ++ r)) = ofDigits neg (ds ++ fs) (exponent small es - fs.length) := by
  have hmore : ∀ {xs : Bytes} {d : UInt8}, (∀ b ∈ xs, isDigit b) → isDigit d → ∀ b ∈ xs ++ [d], isDigit b := by
    intro xs d hxs hd b hb
    rcases List.mem_append.1 hb with hb | hb
    · exact hxs b hb
    · rwa [List.mem_singleton.1 hb]
  refine decimalNumber_form hm he ?_ ?_ ?_
  · -- One more digit would lengthen the exponent, or else the mantissa.
    refine h.stops fun d hd => ?_
    cases he with
    | marked hmark hsg' hne hes =>
      have := Numeral.intro hsg hm (.marked hmark hsg' (by simp) (hmore hes hd))
      simpa using this
    | absent =>
      cases hm with
      | whole hne hds =>
        have := Numeral.intro hsg (.whole (by simp) (hmore hds hd)) .absent
        simpa using this
      | pointed hne hds hfs =>
        have := Numeral.intro hsg (.pointed (by simp) hds (hmore hfs hd)) .absent
        simpa using this
  · rintro rfl
    refine Classical.byContradiction fun hexp => ?_
    obtain ⟨e', small', es', he', hne, hfront⟩ := exponent_front hexp
    refine h.not_longer hfront hne ?_
    have := Numeral.intro hsg hm he'
    simpa using this
  · intro hnil hds hpoint
    subst hnil
    obtain ⟨r, rfl⟩ := List.head?_eq_some_iff.1 hpoint
    cases hm with
    | whole hne hdigits =>
      refine h.not_longer (x := [46]) ⟨r, rfl⟩ (List.cons_ne_nil _ _) ?_
      have hnone : ∀ d ∈ ([] : Bytes), isDigit d := nofun
      have := Numeral.intro hsg (.pointed (by simpa using hne) hdigits hnone) .absent
      simpa using this
    | pointed => exact absurd hds (by simp)

theorem decimalNumber_of_no_numeral (h : ∀ q, Numeral q → ¬q <+: t) :
    decimalNumber (takeSign t).1 (takeSign t).2 = 0.0 := by
  rw [decimalNumber_eq]
  cases htake : Literal.takeMantissa isDigit (takeSign t).2 with
  | none => rfl
  | some x =>
    obtain ⟨m, ds, fs, hm, hfront⟩ := takeMantissa_front htake
    obtain ⟨sg, hsg, ht⟩ := takeSign_spec t
    refine absurd ?_ (h _ (.intro hsg hm .absent))
    rw [ht, List.append_nil]
    exact (List.prefix_append_right_inj sg).2 hfront

theorem leadingDouble_longest {s p : Bytes} (ht : s.dropWhile isSpace = t) (hplain : ¬Special (takeSign t).2)
    (hp : Longest Numeral t p) :
    Literal.finite? p = some (leadingDouble s) ∧ leadingDouble s = leadingDouble p := by
  have hbytes := hp.has.bytes
  obtain ⟨r, rfl⟩ := hp.front
  have halone : Longest Numeral (p ++ []) p :=
    ⟨hp.has, List.prefix_append _ _, fun q _ hq => by simpa using hq.length_le⟩
  cases hp.has with
  | @intro sg m ds fs e es neg small hsg hm he =>
  have hblank : (sg ++ (m ++ e)).dropWhile isSpace = sg ++ (m ++ e) := by
    have hfirst : Stops isSpace (sg ++ (m ++ e)) := fun b hb => (numeralByte_spec (hbytes b (List.mem_of_head? hb))).1
    have hnone : ∀ b ∈ ([] : Bytes), isSpace b := nofun
    exact Bytes.dropWhile_run hnone hfirst
  have hsign : ∀ r, takeSign (sg ++ (m ++ e) ++ r) = (neg, m ++ (e ++ r)) := by
    intro r
    rw [List.append_assoc, List.append_assoc]
    exact hsg.taken fun _ => hm.stops_sign _
  have hsign₀ : takeSign (sg ++ (m ++ e)) = (neg, m ++ (e ++ [])) := by
    rw [← hsign [], List.append_nil]
  have hplain₀ : ¬Special (takeSign (sg ++ (m ++ e))).2 := by
    rw [hsign₀, List.append_nil]
    exact not_special fun b hb => hbytes b (List.mem_append_right _ hb)
  have hwhole : leadingDouble s = ofDigits neg (ds ++ fs) (exponent small es - fs.length) := by
    rw [leadingDouble_plain ht hplain, hsign]
    exact decimalNumber_longest hsg hm he hp
  have hfront : leadingDouble (sg ++ (m ++ e)) = ofDigits neg (ds ++ fs) (exponent small es - fs.length) := by
    rw [leadingDouble_plain hblank hplain₀, hsign₀]
    exact decimalNumber_longest hsg hm he halone
  rw [hwhole, hfront]
  exact ⟨finite?_form hsg hm he, rfl⟩

/-- A text that begins, behind its blanks, with numerals is worth what the longest of them is worth as a literal, which
is never malformed and at most too large for a double; what follows that numeral does not count. Any other text is worth
0, unless it is one of the special ones. -/
theorem leadingDouble_reads_numeral {s t : Bytes} (ht : s.dropWhile isSpace = t) (hplain : ¬Special (takeSign t).2) :
    ((∃ q, Numeral q ∧ q <+: t) → ∃ p, Longest Numeral t p)
      ∧ (∀ p, Longest Numeral t p → Literal.finite? p = some (leadingDouble s)
        ∧ (Literal.double p = .ok (leadingDouble s)
          ∨ Literal.double p = .error .outOfRange ∧ ∃ neg, Double.parts (leadingDouble s) = .infinite neg)
        ∧ leadingDouble s = leadingDouble p)
      ∧ ((∀ q, Numeral q → ¬q <+: t) → leadingDouble s = 0.0) := by
  refine ⟨fun ⟨q, hq, hfront⟩ => Bytes.exists_longest hq hfront, fun p hp => ?_, fun h => ?_⟩
  · obtain ⟨hvalue, halone⟩ := leadingDouble_longest ht hplain hp
    exact ⟨hvalue, hp.has.double hvalue, halone⟩
  · rw [leadingDouble_plain ht hplain]
    exact decimalNumber_of_no_numeral h

/-- An exponent without digits does not belong to the number. -/
theorem leadingDouble_reads_numeral_open_exponent : Longest Numeral (text "-12.5e+x") (text "-12.5")
    ∧ Literal.finite? (text "-12.5") = some (leadingDouble (text "  -12.5e+x")) := by
  have hplain : ¬Special (takeSign (text "-12.5e+x")).2 := by
    rintro (h | h | ⟨x, d, rest, h, -⟩)
    · exact absurd h (by decide)
    · exact absurd h (by decide)
    · exact absurd (List.cons.inj h).1 (by decide)
  have hdigits : ∀ d ∈ text "12", isDigit d := List.all_eq_true.1 (by decide)
  have hmantissa : Mantissa (text "12" ++ 46 :: text "5") (text "12") (text "5") :=
    .pointed (by decide) hdigits (List.all_eq_true.1 (by decide))
  have hnumeral : Numeral (text "-12.5") := .intro .minus hmantissa .absent
  have hlongest : Longest Numeral (text "-12.5e+x") (text "-12.5") := by
    refine ⟨hnumeral, ⟨text "e+x", rfl⟩, fun q hq hfront => ?_⟩
    have hread := hq.isSome_finite?
    have htake := List.prefix_iff_eq_take.1 hfront
    have hlength : q.length ≤ 8 := hfront.length_le
    have hnone : ∀ n : Fin 9, 5 < n.val → (Literal.finite? ((text "-12.5e+x").take n)).isSome = false := by decide
    refine Nat.le_of_not_lt fun hlonger => ?_
    rw [htake, hnone ⟨q.length, by omega⟩ hlonger] at hread
    cases hread
  exact ⟨hlongest, ((leadingDouble_reads_numeral (s := text "  -12.5e+x") rfl hplain).2.1 _ hlongest).1⟩

end RecordMill.Reading

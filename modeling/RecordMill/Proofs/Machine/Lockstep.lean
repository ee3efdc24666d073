import RecordMill.Proofs.Machine.Draft
import RecordMill.Proofs.Machine.Layout
import RecordMill.Proofs.Machine.Runs
import RecordMill.Proofs.Machine.View

/-!
# Steps and their machine code

The code of an instruction does to a view of the frame what the step of the instruction does to the
frame itself.
-/

namespace RecordMill.Machine

namespace X86

open Cpu

/-! ## Comparisons -/

theorem toInt_toInt64 (x : UInt64) :
    x.toInt64.toInt = if x.toNat < 9223372036854775808 then (x.toNat : Int) else x.toNat - 18446744073709551616 := by
  show x.toBitVec.toInt = _
  rw [BitVec.toInt_eq_toNat_cond]
  simp only [UInt64.toNat_toBitVec]
  split <;> split <;> omega

theorem sign_eq (x : UInt64) : sign x = decide (9223372036854775808 ≤ x.toNat) := by
  simp [sign, UInt64.le_iff_toNat_le]

theorem holds_equal (x y : UInt64) : Condition.equal.holds (subFlags x y) = (x.toInt64 == y.toInt64) := by
  have : x.toInt64 = y.toInt64 ↔ x = y := ⟨fun h => by simpa using congrArg Int64.toUInt64 h, fun h => h ▸ rfl⟩
  rw [Bool.eq_iff_iff, beq_iff_eq, this]
  show (x - y == 0) = true ↔ _
  rw [beq_iff_eq, UInt64.sub_eq_iff_eq_add]
  simp

theorem holds_less (x y : UInt64) : Condition.less.holds (subFlags x y) = decide (x.toInt64 < y.toInt64) := by
  have hx := x.toNat_lt
  have hy := y.toNat_lt
  simp only [Condition.holds, subFlags, sign_eq, Int64.lt_iff_toInt_lt, toInt_toInt64, UInt64.toNat_sub]
  by_cases h₁ : 9223372036854775808 ≤ x.toNat <;> by_cases h₂ : 9223372036854775808 ≤ y.toNat <;>
    by_cases h₃ : 9223372036854775808 ≤ (18446744073709551616 - y.toNat + x.toNat) % 18446744073709551616 <;>
    simp [h₁, h₂, h₃, Nat.not_lt.2, Nat.not_le.1] <;> omega

theorem holds_condByte {c : IntCond} {b : UInt8} (h : condByte? c = some b) (x y : UInt64) :
    ∃ k, X86.condition? b = some k ∧ c.holds? x.toInt64 y.toInt64 = some (k.holds (subFlags x y)) := by
  have he := holds_equal x y
  have hl := holds_less x y
  have hn : Condition.notLess.holds (subFlags x y) = !Condition.less.holds (subFlags x y) := by
    simp [Condition.holds, bne]
  cases c with
  | eq =>
    obtain rfl := Option.some.inj h
    exact ⟨.equal, rfl, by rw [he]; rfl⟩
  | ne =>
    obtain rfl := Option.some.inj h
    refine ⟨.notEqual, rfl, ?_⟩
    show _ = some (!Condition.equal.holds (subFlags x y))
    rw [he]
    rfl
  | lt =>
    obtain rfl := Option.some.inj h
    exact ⟨.less, rfl, by rw [hl]; rfl⟩
  | ge =>
    obtain rfl := Option.some.inj h
    refine ⟨.notLess, rfl, ?_⟩
    rw [hn, hl, IntCond.holds?, Option.some.injEq, ← decide_not, decide_eq_decide, Int64.not_lt]
  | le =>
    obtain rfl := Option.some.inj h
    refine ⟨.notGreater, rfl, ?_⟩
    show _ = some (Condition.equal.holds (subFlags x y) || Condition.less.holds (subFlags x y))
    rw [he, hl, IntCond.holds?, Option.some.injEq, Bool.eq_iff_iff]
    simp only [decide_eq_true_eq, Bool.or_eq_true, beq_iff_eq, Int64.le_iff_toInt_le, Int64.lt_iff_toInt_lt,
      ← Int64.toInt_inj]
    omega
  | gt =>
    obtain rfl := Option.some.inj h
    refine ⟨.greater, rfl, ?_⟩
    show _ = some (!Condition.equal.holds (subFlags x y) && Condition.notLess.holds (subFlags x y))
    rw [hn, he, hl, IntCond.holds?, Option.some.injEq, Bool.eq_iff_iff]
    simp only [decide_eq_true_eq, Bool.and_eq_true, Bool.not_eq_true', beq_eq_false_iff_ne, decide_eq_false_iff_not,
      Int64.lt_iff_toInt_lt, ne_eq, ← Int64.toInt_inj]
    omega
  | unknown _ => cases h

/-! ## Copying -/

theorem copyWords_succ (out source n : Nat) :
    copyWords out source (n + 1) = [.load .ax source, .store out .ax] ++ copyWords (out + 1) (source + 1) n := by
  simp [copyWords, List.range_succ_eq_map, List.flatMap_map, Nat.add_assoc, Nat.add_comm 1]

theorem act_copyWords (out source n : Nat) (v : View) :
    ∃ v', actAll (copyWords out source n) v = some v' ∧ v'.words = moved v.words out source n := by
  induction n generalizing out source v with
  | zero => exact ⟨v, rfl, rfl⟩
  | succ n ih =>
    obtain ⟨v', hv, hw⟩ := ih (out + 1) (source + 1) ({ v with ax := v.words source }.setWord out (v.words source))
    refine ⟨v', ?_, hw⟩
    rw [copyWords_succ, actAll_append]
    exact hv

theorem near_copyWords {size out source n : Nat} (ho : out + n ≤ size) (hs : source + n ≤ size) :
    ∀ c ∈ copyWords out source n, c.Near size := by
  intro c hc
  obtain ⟨k, hk, hc⟩ := List.mem_flatMap.1 hc
  have hk := List.mem_range.1 hk
  simp only [List.mem_cons, List.not_mem_nil, or_false] at hc
  rcases hc with rfl | rfl <;> simp only [Code.Near] <;> omega

theorem act_gather {out : Nat} {ss : List Span} (hs : ∀ s ∈ ss, s.offset + s.words ≤ out) (v : View) :
    ∃ v', actAll (gather out ss) v = some v' ∧ row v'.words out (Span.total ss) = rows v.words ss
      ∧ ∀ j, j < out → v'.words j = v.words j := by
  induction ss generalizing out v with
  | nil => exact ⟨v, rfl, rfl, fun _ _ => rfl⟩
  | cons s ss ih =>
    have hs₀ := hs s (by simp)
    obtain ⟨v₁, h₁, hw₁⟩ := act_copyWords out s.offset s.words v
    have hrest : ∀ t ∈ ss, t.offset + t.words ≤ out + s.words := fun t ht => by
      have := hs t (by simp [ht])
      omega
    obtain ⟨v₂, h₂, hr₂, hf₂⟩ := ih hrest v₁
    have hkeep : ∀ j, j < out → v₁.words j = v.words j := fun j hj => by
      rw [hw₁, moved_of_not_mem (by omega)]
    refine ⟨v₂, ?_, ?_, fun j hj => (hf₂ j (by omega)).trans (hkeep j hj)⟩
    · rw [gather, actAll_append, h₁]
      exact h₂
    · have hhead : row v₂.words out s.words = row v.words s.offset s.words := by
        have hmoved : row (moved v.words out s.offset s.words) out s.words = row v.words s.offset s.words :=
          row_moved (by omega)
        rw [← hmoved, ← hw₁]
        exact row_congr fun i _ hi => hf₂ i hi
      have htail : rows v₁.words ss = rows v.words ss := rows_congr fun t ht i _ hi => hkeep i (by
        have := hs t (by simp [ht])
        omega)
      rw [Span.total_cons, row_add, rows_cons, hhead, hr₂, htail]

theorem near_gather {size out : Nat} {ss : List Span} (hs : ∀ s ∈ ss, s.offset + s.words ≤ size)
    (ho : out + Span.total ss ≤ size) : ∀ c ∈ gather out ss, c.Near size := by
  induction ss generalizing out with
  | nil => simp [gather]
  | cons s ss ih =>
    rw [Span.total_cons] at ho
    intro c hc
    rcases List.mem_append.1 hc with hc | hc
    · exact near_copyWords (by omega) (hs s (by simp)) c hc
    · exact ih (fun t ht => hs t (by simp [ht])) (by omega) c hc

theorem act_scatter {size source : Nat} {ss : List Span} (hs : ∀ s ∈ ss, s.offset + s.words ≤ size)
    (ho : size ≤ source) {v : View} {ws : Array UInt64} (hv : Follows size v.words ws) (hw : size ≤ ws.size) :
    ∃ v', actAll (scatter source ss) v = some v'
      ∧ Follows size v'.words (Frame.writeSpans ws ss (row v.words source (Span.total ss))) := by
  induction ss generalizing source v ws with
  | nil => exact ⟨v, rfl, hv⟩
  | cons s ss ih =>
    have hs₀ := hs s (by simp)
    obtain ⟨v₁, h₁, hw₁⟩ := act_copyWords s.offset source s.words v
    have hv₁ : Follows size v₁.words (Frame.writeAll ws s.offset (row v.words source s.words)) :=
      hw₁ ▸ hv.write hw hs₀ (by omega)
    obtain ⟨v₂, h₂, hv₂⟩ := ih (fun t ht => hs t (by simp [ht]))
      (Nat.le_trans ho (Nat.le_add_right source s.words)) hv₁ (by simpa using hw)
    refine ⟨v₂, ?_, ?_⟩
    · rw [scatter, actAll_append, h₁]
      exact h₂
    · have hrow : row v₁.words (source + s.words) (Span.total ss) = row v.words (source + s.words) (Span.total ss) :=
        row_congr fun i hi _ => by rw [hw₁, moved_of_not_mem (by omega)]
      rw [hrow] at hv₂
      rw [Frame.writeSpans, Span.total_cons, row_add, List.take_left' (by simp), List.drop_left' (by simp)]
      exact hv₂

theorem near_scatter {size source : Nat} {ss : List Span} (hs : ∀ s ∈ ss, s.offset + s.words ≤ size)
    (ho : source + Span.total ss ≤ size) : ∀ c ∈ scatter source ss, c.Near size := by
  induction ss generalizing source with
  | nil => simp [scatter]
  | cons s ss ih =>
    rw [Span.total_cons] at ho
    intro c hc
    rcases List.mem_append.1 hc with hc | hc
    · exact near_copyWords (hs s (by simp)) (by omega) c hc
    · exact ih (fun t ht => hs t (by simp [ht])) (by omega) c hc

/-! ## Instructions -/

/-- The code does to the words below `size` what the step does to a frame. -/
structure Matches (size : Nat) (cs : List Code) (s : Step) : Prop where
  near : ∀ c ∈ cs, c.Near size
  inside : s.isCall = false
  run : ∀ {v : View} {ws : Array UInt64}, Follows size v.words ws → size ≤ ws.size →
    ∃ v' ws', actAll cs v = some v' ∧ (∀ stack m, s.run stack ws m = (.ok ws', m)) ∧ ws'.size = ws.size
      ∧ Follows size v'.words ws'

variable {size : Nat} {x y out : Nat}

theorem Matches.copy {source n : Nat} (ho : out + n ≤ size) (hs : source + n ≤ size) :
    Matches size (copyWords out source n) (.copy out source n) where
  near := near_copyWords ho hs
  inside := rfl
  run hv hw := by
    obtain ⟨v', h, hv'⟩ := act_copyWords out source n _
    exact ⟨v', _, h, fun _ _ => rfl, by simp, hv' ▸ hv.moved hw ho hs⟩

theorem Matches.compute (cs : List Code) {s : Step} (ho : out < size) (hn : ∀ c ∈ cs, c.Near size)
    (hi : s.isCall = false)
    (h : ∀ {v : View} {ws : Array UInt64}, Follows size v.words ws → size ≤ ws.size →
      ∃ v' w, actAll cs v = some v' ∧ v'.words = v.words ∧ v'.ax = w
        ∧ ∀ stack m, s.run stack ws m = (.ok (ws.setIfInBounds out w), m)) :
    Matches size (cs ++ [.store out .ax]) s where
  near c hc := by
    rcases List.mem_append.1 hc with hc | hc
    · exact hn c hc
    · obtain rfl : c = _ := by simpa using hc
      exact ho
  inside := hi
  run {v ws} hv hw := by
    obtain ⟨v', w, ha, hf, hax, hr⟩ := h hv hw
    refine ⟨v'.setWord out w, ws.setIfInBounds out w, ?_, hr, by simp, ?_⟩
    · rw [actAll_append, ha, ← hax]
      rfl
    · show Follows size (fun j => if j = out then w else v'.words j) _
      rw [hf]
      exact hv.set hw ho w

theorem Matches.binary {op : Alu} {s : Step} (hx : x < size) (hy : y < size) (ho : out < size)
    (hi : s.isCall = false)
    (h : ∀ ws stack m, s.run stack ws m
      = (.ok (ws.setIfInBounds out (aluResult (Frame.read ws x) (Frame.read ws y) op)), m)) :
    Matches size (X86.binary out x y op) s := by
  refine Matches.compute [.load .ax x, .load .cx y, .alu op] ho ?_ hi fun {v ws} hv _ => ?_
  · simp [Code.Near, hx, hy]
  · refine ⟨_, _, rfl, rfl, rfl, fun stack m => ?_⟩
    rw [h, ← hv x hx, ← hv y hy]

theorem and_63 (y : UInt64) : y &&& 63 = y % 64 := by
  apply UInt64.toNat_inj.1
  simp only [UInt64.toNat_and, UInt64.toNat_mod, UInt64.reduceToNat]
  exact Nat.and_two_pow_sub_one_eq_mod y.toNat 6

theorem aluResult_shiftAlu (op : ShiftOp) (a b : UInt64) : aluResult a b (shiftAlu op) = Word.shift op a b := by
  cases op <;> simp only [shiftAlu, aluResult, Word.shift, and_63]

theorem int_intAlu {op : IntOp} {alu : Alu} (h : intAlu? op = some alu) (a b : UInt64) :
    Word.int op a b = .ok (aluResult a b alu) := by
  cases op <;> cases h <;> rfl

theorem Matches.pair (ho : out + 2 ≤ size) (hx : x < size) (hy : y < size) :
    Matches size (copyWords out x 1 ++ copyWords (out + 1) y 1) (.pair out x y) where
  near c hc := by
    rcases List.mem_append.1 hc with hc | hc
    · exact near_copyWords (by omega) hx c hc
    · exact near_copyWords (by omega) hy c hc
  inside := rfl
  run {v ws} hv hw := by
    obtain ⟨v₁, h₁, hv₁⟩ := act_copyWords out x 1 v
    obtain ⟨v₂, h₂, hv₂⟩ := act_copyWords (out + 1) y 1 v₁
    have hf : Follows size v₁.words _ := (hv.set hw (i := out) (by omega) _).congr fun i _ => congrFun hv₁ i
    have hg : Follows size v₂.words _ :=
      (hf.set (by simpa using hw) (i := out + 1) (by omega) _).congr fun i _ => congrFun hv₂ i
    rw [hv x hx] at hf hg
    rw [hf y hy] at hg
    refine ⟨v₂, _, ?_, fun _ _ => rfl, by simp, hg⟩
    rw [actAll_append, h₁]
    exact h₂

theorem setByte_mod (a : UInt64) (b : Bool) : (a / 256 * 256 + if b then 1 else 0) % 256 = Word.ofBool b := by
  apply UInt64.toNat_inj.1
  have := a.toNat_lt
  cases b <;>
    simp only [Word.ofBool, UInt64.toNat_mod, UInt64.toNat_add, UInt64.toNat_mul, UInt64.toNat_div, UInt64.reduceToNat,
      if_true, Bool.false_eq_true, if_false] <;> omega

theorem Matches.compare {c : IntCond} {b : UInt8} (hb : condByte? c = some b) (hx : x < size) (hy : y < size)
    (ho : out < size) :
    Matches size [.load .ax x, .load .cx y, .cmp, .setcc b, .zeroExtend, .store out .ax] (.icmp c false out x y) := by
  refine Matches.compute [.load .ax x, .load .cx y, .cmp, .setcc b, .zeroExtend] ho ?_ rfl fun {v ws} hv _ => ?_
  · simp [Code.Near, hx, hy]
  · obtain ⟨k, hk, hc⟩ := holds_condByte hb (v.words x) (v.words y)
    refine ⟨{ ax := (v.words x / 256 * 256 + if k.holds (subFlags (v.words x) (v.words y)) then 1 else 0) % 256
              cx := v.words y, flags := some (subFlags (v.words x) (v.words y)), words := v.words },
      Word.ofBool (k.holds (subFlags (v.words x) (v.words y))), ?_, rfl, setByte_mod _ _, fun stack m => ?_⟩
    · simp only [actAll, Code.act, Option.bind_some, hk]
      rfl
    · rw [hv x hx, hv y hy] at hc ⊢
      simp only [Step.run, Bool.false_eq_true, if_false, hc]

variable {f : Body}

theorem Kind.words_pos {k : Kind} (h : k ≠ .invalid) : 1 ≤ k.words := by
  cases k <;> first | exact absurd rfl h | exact Nat.le_refl 1 | exact Nat.le_succ 1

theorem valueAt_lt (hv : ∀ k ∈ f.values, k ≠ .invalid) {v : Value} {k : Kind} (h : f.values[v]? = some k) :
    f.valueAt v < Layout.size f := by
  have hw := Kind.words_pos (hv k (Array.mem_of_getElem? h))
  exact Nat.lt_of_lt_of_le (Nat.lt_add_of_pos_right hw) (f.valueAt_le_size h)

theorem matches_code {i : Inst} {s : Step} {cs : List Code} {n n' m m' : Nat} (hf : i.Fits f)
    (hv : ∀ k ∈ f.values, k ≠ .invalid) (hc : covers i.action)
    (hs : Lay.step f (.ofBody f) i n = some (s, n')) (hx : code (.ofBody f) i m = some (cs, m')) :
    Matches (Layout.size f) cs s := by
  obtain ⟨first, ks, hres, hks, ha⟩ := hf
  have one : ∀ k, ks = [k] → i.results = [first] ∧ f.values[first]? = some k := by
    rintro k rfl
    exact ⟨hres, hks 0 k rfl⟩
  rcases hact : i.action <;> rw [hact] at ha hc
  case iconst k imm =>
    obtain ⟨hr, ho⟩ := one _ ha.1
    simp only [Lay.step, code, hact, Lay.bind_apply, Lay.result_ofBody hr ho, Option.bind_some, Lay.pure_apply] at hs hx
    cases hs
    cases hx
    refine Matches.compute [.moveImm imm] (valueAt_lt hv ho) (by simp [Code.Near]) rfl fun _ _ => ?_
    exact ⟨_, _, rfl, rfl, rfl, fun _ _ => rfl⟩
  case fconst imm =>
    obtain ⟨hr, ho⟩ := one _ ha
    simp only [Lay.step, code, hact, Lay.bind_apply, Lay.result_ofBody hr ho, Option.bind_some, Lay.pure_apply] at hs hx
    cases hs
    cases hx
    refine Matches.compute [.moveImm imm] (valueAt_lt hv ho) (by simp [Code.Near]) rfl fun _ _ => ?_
    exact ⟨_, _, rfl, rfl, rfl, fun _ _ => rfl⟩
  case concat lo hi =>
    obtain ⟨hr, ho⟩ := one _ ha.1
    simp only [Lay.step, code, hact, Lay.bind_apply, Lay.result_ofBody hr ho, Lay.place_ofBody ha.2.1,
      Lay.place_ofBody ha.2.2,
      Option.bind_some, Lay.pure_apply] at hs hx
    cases hs
    cases hx
    exact Matches.pair (f.valueAt_le_size ho) (valueAt_lt hv ha.2.1) (valueAt_lt hv ha.2.2)
  case int op k x y =>
    obtain ⟨hr, ho⟩ := one _ ha.1
    obtain ⟨halu, rfl⟩ : (intAlu? op).isSome ∧ k = .i64 := by simpa [covers] using hc
    obtain ⟨alu, halu⟩ := Option.isSome_iff_exists.1 halu
    simp only [Lay.step, code, hact, Lay.bind_apply, Lay.result_ofBody hr ho, Lay.place_ofBody ha.2.2.1,
      Lay.place_ofBody ha.2.2.2, Lay.liftM_apply, halu, Option.map_some, Option.bind_some, Lay.pure_apply] at hs hx
    cases hs
    cases hx
    refine Matches.binary (valueAt_lt hv ha.2.2.1) (valueAt_lt hv ha.2.2.2) (valueAt_lt hv ho) rfl fun ws stack m => ?_
    show (Except.map _ (Word.int op _ _), m) = _
    rw [int_intAlu halu]
    rfl
  case shift op x y =>
    obtain ⟨hr, ho⟩ := one _ ha.1
    simp only [Lay.step, code, hact, Lay.bind_apply, Lay.result_ofBody hr ho, Lay.place_ofBody ha.2.1,
      Lay.place_ofBody ha.2.2,
      Option.bind_some, Lay.pure_apply] at hs hx
    cases hs
    cases hx
    refine Matches.binary (valueAt_lt hv ha.2.1) (valueAt_lt hv ha.2.2) (valueAt_lt hv ho) rfl fun ws stack m => ?_
    rw [aluResult_shiftAlu]
    rfl
  case intUnary op k x =>
    obtain ⟨hr, ho⟩ := one _ ha.1
    obtain rfl : k = .i64 := by simpa [covers] using hc
    simp only [Lay.step, code, hact, Lay.bind_apply, Lay.result_ofBody hr ho, Lay.place_ofBody ha.2.2,
      Option.bind_some, Lay.pure_apply] at hs hx
    cases hs
    cases hx
    have hx := valueAt_lt hv ha.2.2
    refine Matches.compute [.load .ax (f.valueAt x), _] (valueAt_lt hv ho) ?_ rfl fun {v ws} hfol _ => ?_
    · cases op <;> simp [Code.Near, hx]
    · cases op <;> refine ⟨_, _, rfl, rfl, rfl, fun stack m => ?_⟩ <;> rw [hfol _ hx] <;> rfl
  case icmp c k x y =>
    obtain ⟨hr, ho⟩ := one _ ha.1
    obtain rfl : k = .i64 := by simpa [covers] using hc
    cases hb : condByte? c with
    | none =>
      simp [code, hact, Lay.bind_apply, Lay.place_ofBody ha.2.2.1, Lay.place_ofBody ha.2.2.2, Lay.liftM_apply, hb] at hx
    | some b =>
      simp only [Lay.step, code, hact, Lay.bind_apply, Lay.result_ofBody hr ho, Lay.place_ofBody ha.2.2.1,
        Lay.place_ofBody ha.2.2.2, Lay.liftM_apply, hb, Option.map_some, Option.bind_some, Lay.pure_apply] at hs hx
      cases hs
      cases hx
      exact Matches.compare hb (valueAt_lt hv ha.2.2.1) (valueAt_lt hv ha.2.2.2) (valueAt_lt hv ho)
  case bint k x =>
    obtain ⟨hr, ho⟩ := one _ ha.1
    simp only [Lay.step, code, hact, Lay.bind_apply, Lay.result_ofBody hr ho, Lay.place_ofBody ha.2,
      Option.bind_some, Lay.pure_apply] at hs hx
    cases hs
    cases hx
    have hx := valueAt_lt hv ha.2
    refine Matches.compute [.load .ax (f.valueAt x), .lowBit] (valueAt_lt hv ho) ?_ rfl fun {v ws} hfol hw => ?_
    · simp [Code.Near, hx]
    · refine ⟨_, _, rfl, rfl, rfl, fun stack m => ?_⟩
      show (Frame.put ws _ (Frame.read ws _ &&& 1), m) = _
      rw [hfol _ hx, Frame.put_eq (Nat.lt_of_lt_of_le (valueAt_lt hv ho) hw)]
  case useVar k v =>
    obtain ⟨hr, ho⟩ := one _ ha.1
    simp only [Lay.step, code, hact, Lay.bind_apply, Lay.result_ofBody hr ho, Lay.varPlace_ofBody ha.2.2,
      Option.bind_some, Lay.pure_apply] at hs hx
    cases hs
    cases hx
    exact Matches.copy (f.valueAt_le_size ho) (f.varAt_le_size ha.2.2)
  case defVar k v x =>
    simp only [Lay.step, code, hact, Lay.bind_apply, Lay.place_ofBody ha.2.2.2, Lay.varPlace_ofBody ha.2.2.1,
      Option.bind_some, Lay.pure_apply] at hs hx
    cases hs
    cases hx
    exact Matches.copy (f.varAt_le_size ha.2.2.1) (f.valueAt_le_size ha.2.2.2)
  case jump | brif | ret => simp [Lay.step, hact, Lay.failure_eq] at hs
  all_goals simp [covers] at hc

end X86

end RecordMill.Machine

import Mathlib.Algebra.Ring.Nat
import RecordMill.Proofs.Machine.Reference
import RecordMill.Proofs.Machine.Words

/-!
# Stack areas

The slots of a body stand one after another in a stack area, as long as their words do not come to more than
an address can tell. A function with machine code has no use for its slots.
-/

namespace RecordMill.Machine

/-! ## Slots -/

namespace Layout

theorem slotOffsets_eq {ws : List Nat} {s : Nat} (hs : s < ws.length) (n : Nat) :
    (slotOffsets n.toInt64 (ws.map Nat.toInt64))[s]? = some (n + (ws.take s).sum).toInt64 := by
  induction ws generalizing n s with
  | nil => cases hs
  | cons w ws ih =>
    cases s with
    | zero => rfl
    | succ s =>
      have hnext : n.toInt64 + w.toInt64 = (n + w).toInt64 := (Int64.ofNat_add n w).symm
      rw [List.map_cons, slotOffsets, List.getElem?_cons_succ, hnext, ih (Nat.lt_of_succ_lt_succ hs),
        List.take_succ_cons,
        List.sum_cons, Nat.add_assoc]

theorem sum_slots (ws : List Nat) (n : Nat) : (ws.map Nat.toInt64).foldl (· + ·) n.toInt64 = (n + ws.sum).toInt64 := by
  induction ws generalizing n with
  | nil => rfl
  | cons w ws ih =>
    have hnext : n.toInt64 + w.toInt64 = (n + w).toInt64 := (Int64.ofNat_add n w).symm
    rw [List.map_cons, List.foldl_cons, hnext, ih, List.sum_cons, Nat.add_assoc]

end Layout

/-- More words than all slots of a function may have. -/
def maxArea : Nat := Nat.pow 2 59

namespace Body

variable {f : Body} {ws : List Nat} {c : Compiled} {t : Target}

theorem slotPlace_eq_sum (hslots : f.slots = (ws.map Nat.toInt64).toArray) {s : Nat} (hs : s < ws.length) :
    f.slotPlace s 0 = UInt64.ofNat (8 * (ws.take s).sum) := by
  have hoff : (Layout.ofBody f).slots.getD s 0 = (ws.take s).sum.toInt64 := by
    have := Layout.slotOffsets_eq hs 0
    rw [Nat.zero_add] at this
    simp only [Layout.ofBody, hslots, Array.getD_eq_getD_getElem?, List.getElem?_toArray]
    rw [show (0 : Int64) = Nat.toInt64 0 from rfl, this]
    rfl
  rw [slotPlace, hoff, Nat.mul_comm, UInt64.ofNat_mul, Int64.toUInt64_mul]
  rw [show (0 : Int32).toInt64.toUInt64 = 0 from rfl, UInt64.add_zero]
  rfl

theorem sum_slots_at {s : Nat} (hs : s < ws.length) : ws.sum = (ws.take s).sum + (ws[s] + (ws.drop (s + 1)).sum) := by
  rw [← List.sum_cons, ← List.drop_eq_getElem_cons hs, ← List.sum_append, List.take_append_drop]

theorem getElem?_slots (hslots : f.slots = (ws.map Nat.toInt64).toArray) (hsum : ws.sum < maxArea) {s : Nat} {w : Int64}
    (hs : f.slots[s]? = some w) : ∃ h : s < ws.length, w.toInt.toNat = ws[s] := by
  have hmax : maxArea = 576460752303423488 := rfl
  have hlt : s < ws.length := by
    have := (Array.getElem?_eq_some_iff.1 hs).1
    simpa [hslots] using this
  have hwhole := sum_slots_at hlt
  have hw : some w = some ws[s].toInt64 := by rw [← hs, hslots]; simp [hlt]
  have hto : w.toInt = ws[s] := by
    rw [Option.some.inj hw]
    exact Int64.toInt_ofNat_of_lt (by omega)
  exact ⟨hlt, by rw [hto, Int.toNat_natCast]⟩

theorem slotPlace_eq (hslots : f.slots = (ws.map Nat.toInt64).toArray) (hsum : ws.sum < maxArea) {s : Nat} {w : Int64}
    (hs : f.slots[s]? = some w) : ∃ off, f.slotPlace s 0 = UInt64.ofNat (8 * off) ∧ off + w.toInt.toNat ≤ ws.sum := by
  obtain ⟨hlt, hw⟩ := getElem?_slots hslots hsum hs
  have hwhole := sum_slots_at hlt
  exact ⟨_, slotPlace_eq_sum hslots hlt, by omega⟩

theorem stack_of_compile (h : f.compile t = .ok c) :
    c.stackWords = f.slots.foldl (· + ·) 0 ∧ (c.machineCode.isSome → f.insts.all (X86.covers ·.action)) := by
  obtain ⟨-, n, h⟩ := lay_of_compile h
  simp only [lay, Lay.bind_eq] at h
  obtain ⟨params, _, -, steps, n₁, -, h⟩ := h
  split at h
  · next hcovers =>
    simp only [Lay.bind_eq] at h
    obtain ⟨_, n₂, -, _, _, hget, hpure⟩ := h
    cases hget
    cases hpure
    exact ⟨rfl, fun _ => hcovers.2⟩
  · obtain ⟨_, _, hget, hpure⟩ := Lay.bind_eq.1 h
    cases hget
    cases hpure
    exact ⟨rfl, fun h => by cases h⟩

/-- The stack area of a function has room for all its slots, unless machine code was made of it: then it uses none of
them. -/
theorem room_of_compile (h : f.compile t = .ok c) (hslots : f.slots = (ws.map Nat.toInt64).toArray) :
    ∃ room, c.stackArea = room.toInt64 ∧ room ≤ ws.sum ∧ (c.machineCode = none → room = ws.sum)
      ∧ (c.machineCode.isSome → ∀ i ∈ f.insts, X86.covers i.action) := by
  obtain ⟨hwords, hcovers⟩ := stack_of_compile h
  have hcovered : c.machineCode.isSome → ∀ i ∈ f.insts, X86.covers i.action := fun hm => by
    simpa using Array.all_eq_true'.1 (hcovers hm)
  unfold Compiled.stackArea
  split
  · next hm => exact ⟨0, rfl, Nat.zero_le _, fun hnone => by simp [hnone] at hm, hcovered⟩
  · refine ⟨ws.sum, ?_, Nat.le_refl _, fun _ => rfl, hcovered⟩
    rw [hwords, hslots, List.foldl_toArray, show (0 : Int64) = Nat.toInt64 0 from rfl, Layout.sum_slots, Nat.zero_add]

end Body

/-! ## The stack -/

namespace Memory

variable {m : Memory} {a room : Nat}

theorem getD_clear (ws : Array UInt64) (i n : Nat) {j : Nat} (hj : j < i) : (clear ws i n).getD j 0 = ws.getD j 0 := by
  induction n generalizing ws i with
  | zero => rfl
  | succ n ih =>
    rw [clear, ih _ _ (by omega)]
    simp only [Array.getD_eq_getD_getElem?, Array.getElem?_setIfInBounds_ne (show i ≠ j by omega)]

theorem mul_eight (w : UInt64) : w * 8 = addressOf w.toNat := by
  rw [addressOf, Nat.mul_comm, UInt64.ofNat_mul, UInt64.ofNat_toNat]
  rfl

theorem push_eq (hsp : m.sp.toNat = a) (ha : a ≤ m.length) (hmax : m.length ≤ maxIndex) (hroom : room < maxArea) :
    m.push room.toInt64 = .error { code := .stackOverflow } ∧ m.length < a + room
      ∨ ∃ m', m.push room.toInt64 = .ok (addressOf a, m') ∧ m'.length = m.length ∧ m'.sp.toNat = a + room
        ∧ a + room ≤ m.length
        ∧ ∀ j < a, m'.get j = m.get j := by
  obtain ⟨ws, length, stackBase, sp⟩ := m
  dsimp only at hsp ha hmax
  subst hsp
  have hindex : maxIndex = 1152921504606846976 := rfl
  have harea : maxArea = 576460752303423488 := rfl
  have hto : (room.toInt64.toUInt64).toNat = room := by
    show (UInt64.ofNat room).toNat = room
    rw [UInt64.toNat_ofNat']
    omega
  have hstop : (sp + room.toInt64.toUInt64).toNat = sp.toNat + room := by
    rw [UInt64.toNat_add, hto]
    omega
  simp only [push, hstop]
  split
  · next h0 =>
    have hzero : room = 0 := by
      rw [← hto, h0]
      rfl
    exact .inr ⟨_, by rw [mul_eight], rfl, by simp [hzero], by omega, fun _ _ => rfl⟩
  split
  · next hlt => exact .inl ⟨rfl, hlt⟩
  · next hle =>
    rw [if_neg (by rw [UInt64.lt_iff_toNat_lt, hstop]; omega)]
    exact .inr ⟨_, congrArg (fun x => Except.ok (x, _)) (mul_eight sp), rfl, hstop,
      by omega, fun j hj => getD_clear ws _ _ hj⟩

theorem sp_pop (m : Memory) (ha : a < maxIndex) : (m.pop (addressOf a)).sp.toNat = a := by
  show (addressOf a / 8).toNat = a
  rw [UInt64.toNat_div, toNat_addressOf ha]
  show 8 * a / 8 = a
  omega

theorem toInt_base {n : Nat} (hn : n < maxArea) : (1 + n.toInt64).toInt = 1 + n := by
  have harea : maxArea = 576460752303423488 := rfl
  have hone : (1 : Int64) + n.toInt64 = (1 + n).toInt64 := (Int64.ofNat_add 1 n).symm
  rw [hone, Int64.toInt_ofNat_of_lt (by omega)]
  omega

theorem ofSizes_isSome {n : Nat} (h : n < 35184372023295) : (ofSizes? n.toInt64 defaultStack).isSome := by
  have harea : maxArea = 576460752303423488 := rfl
  have hmax : maxLength.toInt = 35184372088832 := rfl
  have hstack : defaultStack.toInt = 65536 := rfl
  have hsum : (1 + n.toInt64 + defaultStack).toInt = 1 + n + 65536 := by
    rw [Int64.toInt_add, toInt_base (by omega), hstack, Int.bmod_eq_of_le (by omega) (by omega)]
  unfold ofSizes?
  have hfit : ¬(1 + n.toInt64 + defaultStack < 0 ∨ maxLength < 1 + n.toInt64 + defaultStack) := by
    rw [not_or, Int64.not_lt, Int64.not_lt, Int64.le_iff_toInt_le, Int64.le_iff_toInt_le, hmax, hsum]
    exact ⟨Int.le_trans (Int.le_refl 0) (by omega), by omega⟩
  simp only [hfit, if_false]
  rfl

theorem ofSizes_eq_some {n : Nat} (hn : n < maxArea) {stack : Int64} (hstack : 0 < stack)
    (h : ofSizes? n.toInt64 stack = some m) :
    m.length < maxIndex ∧ m.length = 1 + n + stack.toInt.toNat ∧ m.sp.toNat = 1 + n ∧ ∀ i, m.get i = 0 := by
  have hindex : maxIndex = 1152921504606846976 := rfl
  have harea : maxArea = 576460752303423488 := rfl
  have hmax : maxLength.toInt = 35184372088832 := rfl
  have hbase := toInt_base hn
  have hpos : 0 < stack.toInt := Int64.lt_iff_toInt_lt.1 hstack
  have hle : stack.toInt ≤ 9223372036854775807 := stack.toInt_le
  simp only [ofSizes?] at h
  split at h
  · cases h
  · next hfit =>
    cases h
    rw [not_or, Int64.not_lt, Int64.not_lt, Int64.le_iff_toInt_le, Int64.le_iff_toInt_le, hmax] at hfit
    have hsum : (1 + n.toInt64 + stack).toInt = 1 + n + stack.toInt := by
      have hnonneg : 0 ≤ (1 + n.toInt64 + stack).toInt := hfit.1
      rw [Int64.toInt_add, hbase] at hnonneg ⊢
      rw [Int.bmod_def] at hnonneg ⊢
      split at hnonneg <;> rename_i hlow <;> simp only [hlow, if_true, if_false] <;> omega
    refine ⟨?_, ?_, ?_, fun i => rfl⟩
    · show (1 + n.toInt64 + stack).toInt.toNat < maxIndex
      omega
    · show (1 + n.toInt64 + stack).toInt.toNat = 1 + n + stack.toInt.toNat
      omega
    · show (1 + n.toInt64).toUInt64.toNat = 1 + n
      rw [Int64.toNat_toUInt64_of_le (by rw [Int64.le_iff_toInt_le, hbase]; simp; omega)]
      show (1 + n.toInt64).toInt.toNat = 1 + n
      omega

end Memory

end RecordMill.Machine

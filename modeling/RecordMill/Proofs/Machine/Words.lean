import RecordMill.Machine.Memory

/-!
# Memory as a row of words

Loading and storing at addresses that are multiples of eight is reading and writing a row of words.
-/

namespace RecordMill.Machine.Memory

def get (m : Memory) (i : Nat) : UInt64 := m.words.getD i 0

def Holds (m : Memory) (i : Nat) (ws : List UInt64) : Prop := ∀ j w, ws[j]? = some w → m.get (i + j) = w

def addressOf (i : Nat) : UInt64 := UInt64.ofNat (8 * i)

def maxIndex : Nat := Nat.pow 2 60

theorem toNat_addressOf {i : Nat} (h : i < maxIndex) : (addressOf i).toNat = 8 * i := by
  have hmax : maxIndex = 1152921504606846976 := rfl
  rw [addressOf, UInt64.toNat_ofNat']
  omega

theorem addressOf_add (i j : Nat) : addressOf (i + j) = addressOf i + UInt64.ofNat (8 * j) := by
  rw [addressOf, addressOf, Nat.mul_add, UInt64.ofNat_add]

theorem addressOf_succ (i : Nat) : addressOf (i + 1) = addressOf i + 8 := addressOf_add i 1

variable {m : Memory} {i : Nat}

theorem index_addressOf (hi : 0 < i) (hm : i < m.length) (hmax : m.length ≤ maxIndex) :
    m.index (addressOf i) = .ok i := by
  have hto := toNat_addressOf (show i < maxIndex by omega)
  have h0 : addressOf i ≠ 0 := fun e => by
    rw [e] at hto
    simp at hto
    omega
  have h8 : addressOf i % 8 = 0 := UInt64.toNat_inj.1 (by rw [UInt64.toNat_mod, hto]; simp)
  have hlen : ¬ m.length ≤ 8 * i / 8 := by omega
  rw [index, hto, if_neg (by simp [h0, h8]; omega)]
  congr 1
  omega

theorem load_addressOf (hi : 0 < i) (hm : i < m.length) (hmax : m.length ≤ maxIndex) :
    m.load (addressOf i) = .ok (m.get i) := by
  rw [load, index_addressOf hi hm hmax]
  rfl

theorem loadAll_addressOf {n : Nat} {ws : List UInt64} (h : m.Holds i ws) (hn : ws.length = n) (hi : 0 < i)
    (hm : i + n ≤ m.length) (hmax : m.length ≤ maxIndex) : m.loadAll (addressOf i) n = .ok ws := by
  induction n generalizing i ws with
  | zero =>
    obtain rfl := List.length_eq_zero_iff.1 hn
    rfl
  | succ n ih =>
    cases ws with
    | nil => simp at hn
    | cons w ws =>
      have hw : m.get i = w := h 0 w rfl
      have hrest : m.Holds (i + 1) ws := fun j u hu => by
        rw [Nat.add_assoc, Nat.add_comm 1 j]
        exact h (j + 1) u hu
      rw [loadAll, load_addressOf hi (by omega) hmax, ← addressOf_succ,
        ih hrest (by simpa using hn) (by omega) (by omega), hw]
      rfl

/-! ## Storing -/

theorem getD_put (ws : Array UInt64) (i j : Nat) (w : UInt64) :
    (put ws i w).getD j 0 = if i = j then w else ws.getD j 0 := by
  unfold put
  simp only [Array.getD_eq_getD_getElem?]
  split
  · next h =>
    rw [Array.getElem?_setIfInBounds]
    by_cases hij : i = j
    · subst hij
      simp [h]
    · simp [hij]
  · next h =>
    rw [Array.getElem?_push]
    have hsize : (ws ++ Array.replicate (i - ws.size) 0).size = i := by
      simp only [Array.size_append, Array.size_replicate]
      omega
    rw [hsize]
    by_cases hij : i = j
    · subst hij
      simp
    · rw [if_neg (Ne.symm hij), if_neg hij, Array.getElem?_append]
      split
      · rfl
      · rw [Array.getElem?_replicate, Array.getElem?_eq_none (by omega)]
        split <;> rfl

structure Stored (m : Memory) (i : Nat) (ws : List UInt64) (m' : Memory) : Prop where
  length : m'.length = m.length
  stackBase : m'.stackBase = m.stackBase
  sp : m'.sp = m.sp
  holds : m'.Holds i ws
  others : ∀ j, j < i ∨ i + ws.length ≤ j → m'.get j = m.get j

theorem storeAll_addressOf (ws : List UInt64) (hi : 0 < i) (hm : i + ws.length ≤ m.length)
    (hmax : m.length ≤ maxIndex) :
    ∃ m', m.storeAll (addressOf i) ws = (.ok (), m') ∧ m.Stored i ws m' := by
  induction ws generalizing m i with
  | nil => exact ⟨m, rfl, rfl, rfl, rfl, fun j w h => by simp at h, fun _ _ => rfl⟩
  | cons w ws ih =>
    rw [List.length_cons] at hm
    have hget : ∀ j, ({ m with words := put m.words i w } : Memory).get j = if i = j then w else m.get j :=
      fun j => getD_put m.words i j w
    obtain ⟨m', hstore, hs⟩ := ih (m := { m with words := put m.words i w }) (i := i + 1) (by omega)
      (by dsimp only; omega) hmax
    refine ⟨m', ?_, hs.length, hs.stackBase, hs.sp, fun j u hu => ?_, fun j hj => ?_⟩
    · rw [storeAll, index_addressOf hi (by omega) hmax]
      dsimp only
      rw [← addressOf_succ, hstore]
    · cases j with
      | zero =>
        cases hu
        rw [Nat.add_zero, hs.others i (by omega), hget, if_pos rfl]
      | succ j =>
        rw [show i + (j + 1) = i + 1 + j by omega]
        exact hs.holds j u hu
    · rw [List.length_cons] at hj
      rw [hs.others j (by omega), hget, if_neg (by omega)]

theorem Stored.keeps {ws : List UInt64} {m' : Memory} (h : m.Stored i ws m') {j : Nat} {us : List UInt64}
    (hu : m.Holds j us) (hj : j + us.length ≤ i ∨ i + ws.length ≤ j) : m'.Holds j us := by
  intro n u hn
  have hlt := (List.getElem?_eq_some_iff.1 hn).1
  rw [h.others _ (by omega)]
  exact hu n u hn

/-! ## Sizes -/

theorem of_ofSizes {dataWords stackWords : Int64} (h : ofSizes? dataWords stackWords = some m) :
    0 ≤ 1 + dataWords + stackWords ∧ 1 + dataWords + stackWords ≤ maxLength
      ∧ m = { words := #[], length := (1 + dataWords + stackWords).toNatClampNeg,
              stackBase := (1 + dataWords).toUInt64, sp := (1 + dataWords).toUInt64 } := by
  simp only [ofSizes?] at h
  split at h
  · cases h
  · next hfit =>
    cases h
    rw [not_or, Int64.not_lt, Int64.not_lt] at hfit
    exact ⟨hfit.1, hfit.2, rfl⟩

theorem toInt_size {dataWords stackWords : Int64} (hstack : 0 < stackWords) (h : 0 ≤ 1 + dataWords + stackWords) :
    (1 + dataWords + stackWords).toInt = 1 + dataWords.toInt + stackWords.toInt := by
  have h0 : (0 : Int64).toInt = 0 := rfl
  have h1 : (1 : Int64).toInt = 1 := rfl
  have hhigh := dataWords.toInt_lt
  have hlow := dataWords.le_toInt
  have hhigh' := stackWords.toInt_lt
  rw [Int64.lt_iff_toInt_lt, h0] at hstack
  rw [Int64.le_iff_toInt_le, h0] at h
  rw [Int64.toInt_add, Int64.toInt_add, Int.bmod_add_bmod, h1, Int.bmod_def] at h ⊢
  split at h
  · next hlt =>
    rw [if_pos hlt]
    omega
  · next hle =>
    rw [if_neg hle]
    omega

end RecordMill.Machine.Memory

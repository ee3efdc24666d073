import RecordMill.Proofs.Heap.Ledger

/-!
# What packed strings stand for

A short string stands in the pair itself, a long one is a literal or a counted object. In each case the
string can be had back from the heap.
-/

namespace RecordMill

namespace Packed

/-! ## Bytes in words -/

theorem toNat_or_shiftLeft {x y : UInt64} {n : Nat} (hn : n < 64) (hx : x.toNat < 2 ^ n) (hy : y.toNat < 2 ^ (64 - n)) :
    (x ||| (y <<< n.toUInt64)).toNat = x.toNat + 2 ^ n * y.toNat := by
  have hcount : n.toUInt64.toNat % 64 = n := by
    simp only [Nat.toUInt64, UInt64.toNat_ofNat']
    omega
  have hpow : 2 ^ n * 2 ^ (64 - n) = 2 ^ 64 := by rw [← Nat.pow_add]; congr 1; omega
  have hlt : 2 ^ n * y.toNat < 2 ^ 64 := by
    rw [← hpow]
    exact Nat.mul_lt_mul_of_pos_left hy (Nat.two_pow_pos n)
  have hshift : y.toNat <<< n = 2 ^ n * y.toNat := by rw [Nat.shiftLeft_eq, Nat.mul_comm]
  rw [UInt64.toNat_or, UInt64.toNat_shiftLeft, hcount, hshift, Nat.mod_eq_of_lt hlt, Nat.or_comm, ← hshift,
    ← Nat.shiftLeft_add_eq_or_of_lt hx, Nat.add_comm]

theorem toNat_wordOf_cons {b : UInt8} {s : Bytes} (h : (wordOf s).toNat < 2 ^ 56) :
    (wordOf (b :: s)).toNat = b.toNat + 256 * (wordOf s).toNat := by
  have hb : b.toUInt64.toNat < 2 ^ 8 := by
    rw [UInt8.toNat_toUInt64]
    exact b.toNat_lt
  have := toNat_or_shiftLeft (n := 8) (by omega) hb h
  rw [UInt8.toNat_toUInt64] at this
  exact this

theorem wordOf_lt {s : Bytes} (h : s.length ≤ 8) : (wordOf s).toNat < 256 ^ s.length := by
  induction s with
  | nil => simp [wordOf]
  | cons b s ih =>
    rw [List.length_cons] at h
    have hs := ih (by omega)
    have hpow : 256 ^ s.length ≤ 2 ^ 56 := by
      have : (256 : Nat) ^ s.length ≤ 256 ^ 7 := Nat.pow_le_pow_right (by omega) (by omega)
      simpa using this
    rw [toNat_wordOf_cons (by omega), List.length_cons, Nat.pow_succ]
    have := b.toNat_lt
    omega

theorem bytesOf_wordOf {s : Bytes} {n : Nat} (hs : s.length ≤ n) (hn : n ≤ 8) {w : UInt64}
    (hw : w.toNat % 256 ^ n = (wordOf s).toNat) : bytesOf n w = s ++ List.replicate (n - s.length) 0 := by
  induction n generalizing s w with
  | zero =>
    obtain rfl : s = [] := List.length_eq_zero_iff.1 (by omega)
    rfl
  | succ n ih =>
    have hlow : w.toUInt8.toNat = w.toNat % 256 := UInt64.toNat_toUInt8 w
    have hhigh : (w >>> 8).toNat = w.toNat / 256 := by
      rw [UInt64.toNat_shiftRight]
      simp [Nat.shiftRight_eq_div_pow]
    have hsplit : w.toNat % 256 ^ (n + 1) = w.toNat % 256 + 256 * (w.toNat / 256 % 256 ^ n) := by
      rw [Nat.pow_succ, Nat.mul_comm, Nat.mod_mul]
    rw [bytesOf]
    cases s with
    | nil =>
      have hzero : w.toNat % 256 = 0 ∧ w.toNat / 256 % 256 ^ n = 0 := by
        rw [hsplit] at hw
        simp only [wordOf, UInt64.toNat_zero] at hw
        omega
      rw [ih (s := []) (by simp) (by omega) (by rw [hhigh]; simpa [wordOf] using hzero.2)]
      have : w.toUInt8 = 0 := UInt8.toNat_inj.1 (by rw [hlow]; simpa using hzero.1)
      simp [this, List.replicate_succ]
    | cons b s =>
      rw [List.length_cons] at hs
      have hlt : (wordOf s).toNat < 2 ^ 56 := by
        have h1 := wordOf_lt (s := s) (by omega)
        have h2 : (256 : Nat) ^ s.length ≤ 256 ^ 7 := Nat.pow_le_pow_right (by omega) (by omega)
        have h3 : (256 : Nat) ^ 7 = 2 ^ 56 := by decide
        omega
      rw [hsplit, toNat_wordOf_cons hlt] at hw
      have hb := b.toNat_lt
      have hparts : w.toNat % 256 = b.toNat ∧ w.toNat / 256 % 256 ^ n = (wordOf s).toNat := by omega
      rw [ih (s := s) (by omega) (by omega) (by rw [hhigh]; exact hparts.2)]
      have : w.toUInt8 = b := UInt8.toNat_inj.1 (by rw [hlow]; exact hparts.1)
      simp [this]

theorem length_bytesOf (n : Nat) (w : UInt64) : (bytesOf n w).length = n := by
  induction n generalizing w with
  | zero => rfl
  | succ n ih => rw [bytesOf, List.length_cons, ih]

/-! ## Tags -/

theorem toNat_tag (p : Packed) : p.tag.toNat = p.hi.toNat / 2 ^ 56 := by
  rw [tag, UInt64.toNat_shiftRight]
  simp [Nat.shiftRight_eq_div_pow]

theorem toNat_hi_inline {s : Bytes} (h : s.length ≤ maxInline) :
    (inline s).hi.toNat = (wordOf ((s.drop 8).take 7)).toNat + 2 ^ 56 * s.length := by
  have hmax : maxInline = 15 := rfl
  have hlen : s.length.toUInt64.toNat = s.length := by
    simp only [Nat.toUInt64, UInt64.toNat_ofNat']
    omega
  have hshort : ((s.drop 8).take 7).length ≤ 7 := List.length_take_le ..
  have hlow : (wordOf ((s.drop 8).take 7)).toNat < 2 ^ 56 := by
    have h1 := wordOf_lt (s := (s.drop 8).take 7) (by omega)
    have h2 : (256 : Nat) ^ ((s.drop 8).take 7).length ≤ 256 ^ 7 := Nat.pow_le_pow_right (by omega) hshort
    have h3 : (256 : Nat) ^ 7 = 2 ^ 56 := by decide
    omega
  have := toNat_or_shiftLeft (n := 56) (y := s.length.toUInt64) (by omega) hlow (by omega)
  rw [hlen] at this
  exact this

theorem toNat_tag_inline {s : Bytes} (h : s.length ≤ maxInline) : (inline s).tag.toNat = s.length := by
  have hshort : ((s.drop 8).take 7).length ≤ 7 := List.length_take_le ..
  have h1 := wordOf_lt (s := (s.drop 8).take 7) (by omega)
  have h2 : (256 : Nat) ^ ((s.drop 8).take 7).length ≤ 256 ^ 7 := Nat.pow_le_pow_right (by omega) hshort
  have h3 : (256 : Nat) ^ 7 = 2 ^ 56 := by decide
  rw [toNat_tag, toNat_hi_inline h]
  omega

theorem inlineBytes_inline {s : Bytes} (h : s.length ≤ maxInline) : (inline s).inlineBytes = s := by
  have hmax : maxInline = 15 := rfl
  have hlo : bytesOf 8 (inline s).lo = s.take 8 ++ List.replicate (8 - (s.take 8).length) 0 := by
    refine bytesOf_wordOf (List.length_take_le ..) (by omega) ?_
    exact Nat.mod_eq_of_lt (inline s).lo.toNat_lt
  have hhi : bytesOf 7 (inline s).hi
      = (s.drop 8).take 7 ++ List.replicate (7 - ((s.drop 8).take 7).length) 0 := by
    refine bytesOf_wordOf (List.length_take_le ..) (by omega) ?_
    have hshort : ((s.drop 8).take 7).length ≤ 7 := List.length_take_le ..
    have h1 := wordOf_lt (s := (s.drop 8).take 7) (by omega)
    have h2 : (256 : Nat) ^ ((s.drop 8).take 7).length ≤ 256 ^ 7 := Nat.pow_le_pow_right (by omega) hshort
    have h3 : (256 : Nat) ^ 7 = 2 ^ 56 := by decide
    rw [toNat_hi_inline h, h3]
    omega
  rw [inlineBytes, toNat_tag_inline h, hlo, hhi]
  have hrest : (s.drop 8).take 7 = s.drop 8 := List.take_of_length_le (by rw [List.length_drop]; omega)
  rw [hrest]
  rcases Nat.le_total s.length 8 with hle | hle
  · rw [List.take_of_length_le hle, List.append_assoc]
    exact List.take_left
  · have hpad : 8 - (s.take 8).length = 0 := by rw [List.length_take]; omega
    rw [hpad, List.replicate_zero, List.append_nil, ← List.append_assoc, List.take_append_drop]
    exact List.take_left

theorem storage_inline {s : Bytes} (h : s.length ≤ maxInline) : (inline s).storage? = some .inline := by
  have hmax : maxInline = 15 := rfl
  have : (inline s).tag ≤ 15 := by
    rw [UInt64.le_iff_toNat_le, toNat_tag_inline h]
    simpa [hmax] using h
  simp [storage?, this]

theorem toNat_hi_literal {i : Nat} {s : Bytes} (h : maxInline < s.length) :
    (literal i s).hi.toNat = s.length % 2 ^ 56 + 2 ^ 56 * 64 := by
  have hlong : ¬ s.length ≤ maxInline := by omega
  have hmask : (s.length.toUInt64 &&& lengthMask).toNat = s.length % 2 ^ 56 := by
    have hlen : s.length.toUInt64.toNat = s.length % 2 ^ 64 := by simp only [Nat.toUInt64, UInt64.toNat_ofNat']
    rw [UInt64.toNat_and, hlen]
    show s.length % 2 ^ 64 &&& (2 ^ 56 - 1) = s.length % 2 ^ 56
    rw [Nat.and_two_pow_sub_one_eq_mod]
    omega
  have := toNat_or_shiftLeft (x := s.length.toUInt64 &&& lengthMask) (y := literalTag) (n := 56) (by omega)
    (by omega) (by decide)
  rw [hmask] at this
  rw [literal, if_neg hlong]
  show ((literalTag <<< 56) ||| (s.length.toUInt64 &&& lengthMask)).toNat = _
  rw [UInt64.or_comm]
  exact this

theorem tag_literal {i : Nat} {s : Bytes} (h : maxInline < s.length) : (literal i s).tag = literalTag := by
  refine UInt64.toNat_inj.1 ?_
  rw [toNat_tag, toNat_hi_literal h]
  show _ = 64
  omega

theorem storage_literal {i : Nat} {s : Bytes} (h : maxInline < s.length) : (literal i s).storage? = some .literal := by
  simp only [storage?, tag_literal h]
  rfl

theorem toNat_lo_literal {i : Nat} {s : Bytes} (h : maxInline < s.length) (hi : i < 2 ^ 64) :
    (literal i s).lo.toNat = i := by
  rw [literal, if_neg (by omega)]
  simp only [Nat.toUInt64, UInt64.toNat_ofNat']
  omega

theorem storage_shared (a : UInt64) : (shared a).storage? = some .shared := by
  simp only [storage?, tag_shared]
  decide

end Packed

/-! ## Strings and their handles -/

def Packed.Stands (literals : Array Bytes) (Γ : Meaning) (s : Bytes) (p : Packed) : Prop :=
  match p.storage? with
  | some .inline => p.inlineBytes = s
  | some .literal => literals[p.lo.toNat]? = some s ∧ (p.hi &&& lengthMask).toNat = s.length
  | some .shared => p.lo ≠ 0 ∧ Γ p.lo = some (.str s)
  | none => False

namespace Packed

variable {literals : Array Bytes} {Γ : Meaning} {s : Bytes} {p : Packed}

theorem stands_inline (h : s.length ≤ maxInline) : (inline s).Stands literals Γ s := by
  simp only [Stands, storage_inline h]
  exact inlineBytes_inline h

theorem handle_inline (h : s.length ≤ maxInline) : (inline s).handle = 0 := by
  refine if_neg fun e => ?_
  have := congrArg UInt64.toNat e
  rw [toNat_tag_inline h] at this
  have hmax : maxInline = 15 := rfl
  have htag : sharedTag.toNat = 128 := rfl
  omega

theorem stands_literal {i : Nat} (hi : i < 2 ^ 64) (hs : s.length < 2 ^ 56) (hl : literals[i]? = some s) :
    (literal i s).Stands literals Γ s := by
  by_cases h : s.length ≤ maxInline
  · rw [literal, if_pos h]
    exact stands_inline h
  · have hlong : maxInline < s.length := by omega
    simp only [Stands, storage_literal hlong, toNat_lo_literal hlong hi]
    refine ⟨hl, ?_⟩
    rw [UInt64.toNat_and, toNat_hi_literal hlong]
    show _ &&& (2 ^ 56 - 1) = _
    rw [Nat.and_two_pow_sub_one_eq_mod]
    omega

theorem handle_literal {i : Nat} : (literal i s).handle = 0 := by
  by_cases h : s.length ≤ maxInline
  · rw [literal, if_pos h]
    exact handle_inline h
  · rw [handle, tag_literal (by omega)]
    rfl

theorem stands_shared {a : UInt64} (ha : a ≠ 0) (hΓ : Γ a = some (.str s)) : (shared a).Stands literals Γ s := by
  simp only [Stands, storage_shared]
  exact ⟨ha, hΓ⟩

theorem stands_empty : empty.Stands literals Γ [] := stands_inline (s := []) (by decide)

theorem handle_empty : empty.handle = 0 := rfl

theorem tag_of_storage (h : p.storage? = some .shared) : p.tag = sharedTag := by
  simp only [storage?] at h
  split at h
  · cases h
  · split at h
    · cases h
    · split at h
      · assumption
      · cases h

theorem tag_le_of_storage (h : p.storage? = some .inline) : p.tag.toNat ≤ 15 := by
  simp only [storage?] at h
  split at h
  · next hle => exact UInt64.le_iff_toNat_le.1 hle
  · split at h
    · cases h
    · split at h <;> cases h

theorem handle_of_storage (h : p.storage? = some .shared) : p.handle = p.lo := if_pos (tag_of_storage h)

theorem Stands.mono (h : p.Stands literals Γ s) {Γ' : Meaning} (hΓ : Γ' p.handle = Γ p.handle) :
    p.Stands literals Γ' s := by
  unfold Stands at h ⊢
  split
  · next hs => rwa [hs] at h
  · next hs => rwa [hs] at h
  · next hs =>
    rw [handle_of_storage hs] at hΓ
    rw [hs] at h
    exact ⟨h.1, hΓ.trans h.2⟩
  · next hs => rwa [hs] at h

end Packed

namespace Packed.Stands

variable {h : Heap} {Γ : Meaning} {s : Bytes} {p : Packed}

theorem string (hs : p.Stands h.literals Γ s) (hshared : p.storage? = some .shared → h.sharedBytes p.lo = .ok s) :
    h.string p = .ok s := by
  unfold Packed.Stands at hs
  split at hs
  · next hk =>
    simp only [Heap.string, Heap.storage, hk]
    exact congrArg Except.ok hs
  · next hk =>
    simp only [Heap.string, Heap.storage, hk]
    rw [hs.1]
    rfl
  · next hk =>
    simp only [Heap.string, Heap.storage, hk]
    exact hshared hk
  · exact hs.elim

theorem strLen (hs : p.Stands h.literals Γ s) (hshared : p.storage? = some .shared → h.sharedBytes p.lo = .ok s) :
    h.strLen p = .ok s.length := by
  unfold Packed.Stands at hs
  split at hs
  · next hk =>
    simp only [Heap.strLen, Heap.storage, hk]
    have htag := tag_le_of_storage hk
    have : s.length = p.tag.toNat := by
      rw [← hs, Packed.inlineBytes, List.length_take, List.length_append, length_bytesOf, length_bytesOf]
      omega
    rw [this]
    rfl
  · next hk =>
    simp only [Heap.strLen, Heap.storage, hk, hs.2]
    rfl
  · next hk =>
    simp only [Heap.strLen, Heap.storage, hk, hshared hk]
    rfl
  · exact hs.elim

end Packed.Stands

namespace Heap.Ledger

variable {h : Heap} {Γ : Meaning} {T : Array Plain.Table} {O : List UInt64} {s : Bytes} {p : Packed}

theorem sharedBytes (l : h.Ledger Γ T O) (hs : p.Stands h.literals Γ s) (hm : p.handle = 0 ∨ p.handle ∈ O)
    (hk : p.storage? = some .shared) : h.sharedBytes p.lo = .ok s := by
  rw [Packed.handle_of_storage hk] at hm
  simp only [Packed.Stands, hk] at hs
  exact l.str (hm.resolve_left hs.1) hs.1 hs.2

theorem string (l : h.Ledger Γ T O) (hs : p.Stands h.literals Γ s) (hm : p.handle = 0 ∨ p.handle ∈ O) :
    h.string p = .ok s := hs.string (l.sharedBytes hs hm)

theorem strLen (l : h.Ledger Γ T O) (hs : p.Stands h.literals Γ s) (hm : p.handle = 0 ∨ p.handle ∈ O) :
    h.strLen p = .ok s.length := hs.strLen (l.sharedBytes hs hm)

/-- A string made anew has one owner, unless it is short. -/
theorem newStr (l : h.Ledger Γ T O) (hlen : O.length < maxOwners) (s : Bytes) :
    ∃ p h' Γ', h.newStr s = (p, h') ∧ h'.Ledger Γ' T (p.handle :: O) ∧ p.Stands h'.literals Γ' s
      ∧ (∀ a ∈ O, Γ' a = Γ a) ∧ h'.literals = h.literals := by
  by_cases hs : s.length ≤ Packed.maxInline
  · refine ⟨Packed.inline s, h, Γ,
      by simp only [Heap.newStr, if_pos hs], ?_, Packed.stands_inline hs, fun _ _ => rfl, rfl⟩
    rw [Packed.handle_inline hs]
    exact l.congr fun b hb => List.count_cons_of_ne hb.symm
  · obtain ⟨a, h', ha, hne, hnot, hl, hlits⟩ := l.alloc hlen (c := .str s) (o := .str s) (fun h => h) rfl (by simp)
    refine ⟨Packed.shared a, h', Γ.set a (.str s), by simp only [Heap.newStr, if_neg hs, ha], ?_, ?_, ?_, hlits⟩
    · rw [Packed.handle_shared]
      exact hl
    · exact Packed.stands_shared hne (if_pos rfl)
    · intro b hb
      refine if_neg fun e => hnot ?_
      rwa [e] at hb

end Heap.Ledger

end RecordMill

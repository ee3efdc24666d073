import RecordMill.Proofs.Heap.Table
import RecordMill.Proofs.Plain.Values

/-!
# The ledger of the heap

A list of owners names a handle once for every place that owns it. The ledger is exact when every count is
the number of owners; then counting up and down and making objects keep it so, and what an owned handle
stands for does not change behind its owner's back.
-/

namespace RecordMill

open Plain (Table)

/-- What a handle stands for. Maps are kept apart, so that all who refer to one see it change. -/
inductive Content where
  | str (s : Bytes)
  | map (k : Key) (v : Scalar) (ref : Nat)
  | keys (k : Key) (items : List k.Carrier)

def Content.Models (tables : Array Table) : Content → Object → Prop
  | .str s, o => o = .str s
  | .map k v ref, o => ∃ e, o = .map k v e ∧ tables[ref]? = some ⟨k, v, e⟩
  | .keys k items, o => o = .keys k items.toArray

abbrev Meaning := UInt64 → Option Content

def Meaning.set (Γ : Meaning) (a : UInt64) (c : Content) : Meaning := fun b => if b = a then some c else Γ b

/-- So many owners at most, which keeps handles apart. -/
def Heap.maxOwners : Nat := Nat.pow 2 62

structure Heap.Ledger (h : Heap) (Γ : Meaning) (tables : Array Table) (owners : List UInt64) : Prop where
  count : ∀ a, a ≠ 0 → h.count a = owners.count a
  object : ∀ a ∈ owners, a ≠ 0 → ∃ s c, h.slots[a.toNat - 1]? = some s ∧ Γ a = some c ∧ c.Models tables s.object
  single : ∀ a ∈ owners, a ≠ 0 → ∀ b ∈ owners, b ≠ 0 → ∀ {k v k' v' ref}, Γ a = some (.map k v ref) →
    Γ b = some (.map k' v' ref) → a = b
  orderly : h.Orderly
  size : h.slots.size ≤ Heap.maxOwners

theorem Heap.handle_lt {i : Nat} (hi : i ≤ maxOwners) : i + 1 < 2 ^ 64 := by
  have hmax : maxOwners = 4611686018427387904 := rfl
  omega

namespace Heap.Ledger

variable {h : Heap} {Γ : Meaning} {T : Array Table} {O : List UInt64} {a : UInt64}

/-- The ledger depends on how often each handle is owned, not on the order of the owners. -/
theorem congr (l : h.Ledger Γ T O) {O' : List UInt64} (hO : ∀ b, b ≠ 0 → O'.count b = O.count b) : h.Ledger Γ T O' := by
  have hmem : ∀ b, b ≠ 0 → b ∈ O' → b ∈ O := fun b hb hm => by
    have := hO b hb
    have := List.count_pos_iff.2 hm
    exact List.count_pos_iff.1 (by omega)
  exact
    { l with
      count := fun b hb => (l.count b hb).trans (hO b hb).symm
      object := fun b hm hb => l.object b (hmem b hb hm) hb
      single := fun b hm hb c hm' hc => l.single b (hmem b hb hm) hb c (hmem c hc hm') hc }

theorem perm (l : h.Ledger Γ T O) {O' : List UInt64} (hO : O'.Perm O) :
    h.Ledger Γ T O' := l.congr fun b _ => hO.count_eq b

theorem slot (l : h.Ledger Γ T O) (ha : a ≠ 0) (hm : a ∈ O) :
    ∃ s c, h.slots[a.toNat - 1]? = some s ∧ h.slot a = .ok s ∧ s.count = O.count a ∧ Γ a = some c
      ∧ c.Models T s.object := by
  obtain ⟨s, c, hs, hc, ho⟩ := l.object a hm ha
  have hcount : s.count = O.count a := by
    have := l.count a ha
    simpa [count_of_ne ha, hs] using this
  have hpos := List.count_pos_iff.2 hm
  refine ⟨s, c, hs, ?_, hcount, hc, ho⟩
  simp only [Heap.slot, ha, if_false, hs]
  rw [if_neg (by omega)]

theorem recount (l : h.Ledger Γ T O) (ha : a ≠ 0) {s : Slot} (hs : h.slots[a.toNat - 1]? = some s) {n : Nat}
    (hn : n ≠ 0) (hpos : s.count ≠ 0) {O' : List UInt64} (hO : O'.count a = n)
    (hO' : ∀ b, b ≠ a → O'.count b = O.count b) (hm : ∀ b ∈ O', b ∈ O) :
    ({ h with slots := h.slots.setIfInBounds (a.toNat - 1) { s with count := n } } : Heap).Ledger Γ T O' where
  count b hb := by
    rw [count_set ha hs rfl hb]
    split
    · next hab => rw [hab, hO]
    · next hab => rw [l.count b hb, hO' b hab]
  object b hm' hb := by
    obtain ⟨t, c, ht, hc, ho⟩ := l.object b (hm b hm') hb
    obtain ⟨hlt, -⟩ := Array.getElem?_eq_some_iff.1 ht
    by_cases hab : a.toNat - 1 = b.toNat - 1
    · obtain rfl : s = t := Option.some.inj (hs.symm.trans (hab ▸ ht))
      exact ⟨{ s with count := n }, c, by simp [hab, hlt], hc, ho⟩
    · exact ⟨t, c, by simp [hab, ht], hc, ho⟩
  single b hm' hb c hmc hc := l.single b (hm b hm') hb c (hm c hmc) hc
  orderly := l.orderly.recount hs hpos hn
  size := by simpa using l.size

theorem ref (l : h.Ledger Γ T O) (hm : a = 0 ∨ a ∈ O) :
    ∃ h', h.ref a = .ok h' ∧ h'.Ledger Γ T (a :: O) ∧ h'.literals = h.literals := by
  by_cases ha : a = 0
  · subst ha
    exact ⟨h, rfl, l.congr fun b hb => List.count_cons_of_ne hb.symm, rfl⟩
  · have hm := hm.resolve_left ha
    obtain ⟨s, c, hs, hslot, hcount, -, -⟩ := l.slot ha hm
    have hpos := List.count_pos_iff.2 hm
    refine ⟨_, ref_of_slot ha hslot, ?_, rfl⟩
    refine l.recount ha hs (Nat.succ_ne_zero _) (by omega) ?_ ?_ ?_
    · rw [List.count_cons_self, hcount]
    · intro b hb
      exact List.count_cons_of_ne hb.symm
    · intro b hb
      rcases List.mem_cons.1 hb with rfl | hb
      · exact hm
      · exact hb

theorem drop (l : h.Ledger Γ T (a :: O)) :
    ∃ h', h.drop a = .ok h' ∧ h'.Ledger Γ T O ∧ h'.literals = h.literals := by
  by_cases ha : a = 0
  · subst ha
    exact ⟨h, rfl, l.congr fun b hb => (List.count_cons_of_ne hb.symm).symm, rfl⟩
  · obtain ⟨s, c, hs, hslot, hcount, -, -⟩ := l.slot ha (List.mem_cons_self ..)
    rw [List.count_cons_self] at hcount
    have hne : ∀ b, b ≠ a → O.count b = (a :: O).count b := fun b hb => (List.count_cons_of_ne hb.symm).symm
    by_cases hone : s.count = 1
    · -- The last owner: the slot is free again.
      refine ⟨_, drop_of_last ha hslot hone, ?_, rfl⟩
      have hzero : O.count a = 0 := by omega
      have hnot : a ∉ O := List.count_eq_zero.1 hzero
      exact
        { count := fun b hb => by
            rw [count_set ha hs rfl hb]
            split
            · next hab => rw [hab, hzero]
            · next hab => rw [l.count b hb, hne b hab]
          object := fun b hb hb0 => by
            obtain ⟨t, c, ht, hc, ho⟩ := l.object b (List.mem_cons_of_mem _ hb) hb0
            have hab : a.toNat - 1 ≠ b.toNat - 1 := fun e => hnot (toNat_pred_inj ha hb0 e ▸ hb)
            exact ⟨t, c, by simp [hab, ht], hc, ho⟩
          single := fun b hb hb0 c hc => l.single b (List.mem_cons_of_mem _ hb) hb0 c (List.mem_cons_of_mem _ hc)
          orderly := l.orderly.release hs (by omega) rfl _
          size := by simpa using l.size }
    · refine ⟨_, drop_of_more ha hslot hone, ?_, rfl⟩
      refine l.recount ha hs (show s.count - 1 ≠ 0 by omega) (by omega) (by omega) hne ?_
      exact fun b hb => List.mem_cons_of_mem _ hb

theorem size_le (l : h.Ledger Γ T O) (hf : h.free = []) : h.slots.size ≤ O.length := by
  have hlimit := l.size
  have hinj : ((List.range h.slots.size).map fun i => (i + 1).toUInt64).Nodup := by
    rw [List.nodup_iff_pairwise_ne, List.pairwise_map]
    refine List.Pairwise.imp_of_mem ?_ (List.nodup_iff_pairwise_ne.1 List.nodup_range)
    intro i j hi hj hne e
    rw [List.mem_range] at hi hj
    have := congrArg UInt64.toNat e
    rw [toNat_handle (handle_lt (by omega)), toNat_handle (handle_lt (by omega))] at this
    omega
  have hsub : (List.range h.slots.size).map (fun i => (i + 1).toUInt64) ⊆ O := by
    intro b hb
    obtain ⟨i, hi, rfl⟩ := List.mem_map.1 hb
    rw [List.mem_range] at hi
    have hs := Array.getElem?_eq_getElem hi
    refine List.count_pos_iff.1 (Nat.pos_of_ne_zero fun hz => ?_)
    rw [← l.count _ (handle_ne_zero (handle_lt (by omega))), count_handle (handle_lt (by omega)) hs] at hz
    have : i ∈ h.free := (l.orderly.free i).2 ⟨_, hs, hz⟩
    simp [hf] at this
  simpa using List.Nodup.length_le_of_subset hinj hsub

theorem live_eq_zero (l : h.Ledger Γ T []) : h.live = 0 := by
  have hlimit := l.size
  have hsub : List.range h.slots.size ⊆ h.free := by
    intro i hi
    rw [List.mem_range] at hi
    have hs := Array.getElem?_eq_getElem hi
    refine (l.orderly.free i).2 ⟨_, hs, ?_⟩
    rw [← count_handle (handle_lt (by omega)) hs, l.count _ (handle_ne_zero (handle_lt (by omega)))]
    rfl
  have hle := List.Nodup.length_le_of_subset List.nodup_range hsub
  have := l.orderly.live
  rw [List.length_range] at hle
  omega

/-! ## New objects -/

theorem put (l : h.Ledger Γ T O) {i : Nat} (hi : i ≤ maxOwners) (hold : ∀ s, h.slots[i]? = some s → s.count = 0)
    {h' : Heap} {o : Object} (hslots : ∀ j, h'.slots[j]? = if j = i then some ⟨1, o⟩ else h.slots[j]?)
    (horderly : h'.Orderly) (hsize : h'.slots.size ≤ maxOwners) {c : Content}
    {T' : Array Table} (hT : ∀ {r : Nat} {t : Table}, T[r]? = some t → T'[r]? = some t) (hc : c.Models T' o)
    (hnew : ∀ k v r, c = .map k v r → T[r]? = none) :
    (i + 1).toUInt64 ∉ O ∧ h'.Ledger (Γ.set (i + 1).toUInt64 c) T' ((i + 1).toUInt64 :: O) := by
  have hto := toNat_handle (handle_lt hi)
  have hne := handle_ne_zero (handle_lt hi)
  have hnone : O.count (i + 1).toUInt64 = 0 := by
    rw [← l.count _ hne, count_of_ne hne, hto, Nat.add_sub_cancel]
    cases hs : h.slots[i]? with
    | none => rfl
    | some s => exact hold s hs
  have hnot : (i + 1).toUInt64 ∉ O := List.count_eq_zero.1 hnone
  have hplace : ∀ b, b ≠ 0 → b ≠ (i + 1).toUInt64 → b.toNat - 1 ≠ i := fun b hb hb' e =>
    hb' (toNat_pred_inj hb hne (by rw [e, hto, Nat.add_sub_cancel]))
  have hmono : ∀ {d : Content} {o : Object}, d.Models T o → d.Models T' o := by
    intro d o hd
    cases d with
    | str s => exact hd
    | keys k items => exact hd
    | map k v r =>
      obtain ⟨e, he, ht⟩ := hd
      exact ⟨e, he, hT ht⟩
  have hsame : ∀ b ∈ O, Γ.set (i + 1).toUInt64 c b = Γ b := fun b hb => by
    refine if_neg fun e => hnot ?_
    rwa [e] at hb
  -- A map that was there before has a table that was there before.
  have hmap : ∀ b ∈ O, b ≠ 0 → ∀ {k v r}, Γ b = some (.map k v r) → T[r]? ≠ none := by
    intro b hb hb0 k v r hΓ
    obtain ⟨s, d, -, hd, hm⟩ := l.object b hb hb0
    cases hd.symm.trans hΓ
    obtain ⟨e, -, ht⟩ := hm
    simp [ht]
  refine ⟨hnot, ?_⟩
  exact
    { count := fun b hb => by
        rw [count_of_ne hb, hslots]
        by_cases hb' : b = (i + 1).toUInt64
        · rw [hb', hto, List.count_cons_self, hnone]
          simp
        · rw [if_neg (hplace b hb hb'), List.count_cons_of_ne (Ne.symm hb'), ← l.count b hb, count_of_ne hb]
      object := fun b hm hb => by
        rw [hslots]
        rcases List.mem_cons.1 hm with rfl | hm
        · exact ⟨⟨1, o⟩, c, by rw [hto, Nat.add_sub_cancel, if_pos rfl], if_pos rfl, hc⟩
        · obtain ⟨s, d, hs, hd, ho⟩ := l.object b hm hb
          refine ⟨s, d, ?_, (hsame b hm).trans hd, hmono ho⟩
          rw [if_neg (hplace b hb fun e => hnot (e ▸ hm)), hs]
      single := fun b hm hb d hm' hd => by
        intro k v k' v' r hΓ hΓ'
        rcases List.mem_cons.1 hm with rfl | hm <;> rcases List.mem_cons.1 hm' with rfl | hm'
        · rfl
        · rw [Meaning.set, if_pos rfl, Option.some.injEq] at hΓ
          exact absurd (hnew _ _ _ hΓ) (hmap d hm' hd ((hsame d hm').symm.trans hΓ'))
        · rw [Meaning.set, if_pos rfl, Option.some.injEq] at hΓ'
          exact absurd (hnew _ _ _ hΓ') (hmap b hm hb ((hsame b hm).symm.trans hΓ))
        · rw [hsame b hm] at hΓ
          rw [hsame d hm'] at hΓ'
          exact l.single b hm hb d hm' hd hΓ hΓ'
      orderly := horderly
      size := hsize }

theorem alloc (l : h.Ledger Γ T O) (hlen : O.length < maxOwners) {o : Object} {c : Content} {T' : Array Table}
    (hT : ∀ {r : Nat} {t : Table}, T[r]? = some t → T'[r]? = some t) (hc : c.Models T' o)
    (hnew : ∀ k v r, c = .map k v r → T[r]? = none) :
    ∃ a h', h.alloc o = (a, h') ∧ a ≠ 0 ∧ a ∉ O ∧ h'.Ledger (Γ.set a c) T' (a :: O) ∧ h'.literals = h.literals := by
  obtain ⟨i, h', halloc, horderly, hold, hslots, hlt, hgrown, -, -, hliterals⟩ := l.orderly.alloc o
  have hsize : h'.slots.size ≤ maxOwners := by
    have := l.size
    rcases hgrown with hsame | ⟨hfree, hmore⟩
    · omega
    · have := l.size_le hfree
      omega
  obtain ⟨hnot, hledger⟩ := l.put (by omega) hold hslots horderly hsize hT hc hnew
  exact ⟨_, h', halloc, handle_ne_zero (handle_lt (by omega)), hnot, hledger, hliterals⟩

/-! ## Looking at objects and changing maps -/

theorem str (l : h.Ledger Γ T O) (hm : a ∈ O) (ha : a ≠ 0) {s : Bytes} (hΓ : Γ a = some (.str s)) :
    h.sharedBytes a = .ok s := by
  obtain ⟨t, c, -, hslot, -, hc, ho⟩ := l.slot ha hm
  cases hc.symm.trans hΓ
  simp only [Heap.sharedBytes, hslot]
  dsimp only [Bind.bind, Except.bind]
  rw [show t.object = .str s from ho]
  rfl

theorem map (l : h.Ledger Γ T O) (hm : a ∈ O) (ha : a ≠ 0) {k : Key} {v : Scalar} {r : Nat}
    (hΓ : Γ a = some (.map k v r)) : ∃ e, T[r]? = some ⟨k, v, e⟩ ∧ h.map k v a = .ok e := by
  obtain ⟨t, c, -, hslot, -, hc, ho⟩ := l.slot ha hm
  cases hc.symm.trans hΓ
  obtain ⟨e, ho, ht⟩ := ho
  refine ⟨e, ht, ?_⟩
  simp only [Heap.map, hslot]
  dsimp only [Bind.bind, Except.bind]
  rw [ho]
  simp only [Object.asMap?, and_self, dite_true]
  rfl

theorem keys (l : h.Ledger Γ T O) (hm : a ∈ O) (ha : a ≠ 0) {k : Key} {items : List k.Carrier}
    (hΓ : Γ a = some (.keys k items)) : h.keys k a = .ok items.toArray := by
  obtain ⟨t, c, -, hslot, -, hc, ho⟩ := l.slot ha hm
  cases hc.symm.trans hΓ
  simp only [Heap.keys, hslot]
  dsimp only [Bind.bind, Except.bind]
  rw [show t.object = .keys k items.toArray from ho]
  simp only [Object.asKeys?, dite_true]
  rfl

theorem setMap (l : h.Ledger Γ T O) (hm : a ∈ O) (ha : a ≠ 0) {k : Key} {v : Scalar} {r : Nat}
    (hΓ : Γ a = some (.map k v r)) (e : Entries k v) :
    (h.setMap k v a e).Ledger Γ (T.setIfInBounds r ⟨k, v, e⟩) O := by
  obtain ⟨s, c, hs, -, -, hc, ho⟩ := l.slot ha hm
  cases hc.symm.trans hΓ
  obtain ⟨old, ho, ht⟩ := ho
  obtain ⟨hlt, -⟩ := Array.getElem?_eq_some_iff.1 ht
  have hslots : ∀ j, (h.setMap k v a e).slots[j]?
      = if a.toNat - 1 = j then some { s with object := .map k v e } else h.slots[j]? := by
    intro j
    simp only [Heap.setMap, Array.getElem?_modify]
    by_cases hj : a.toNat - 1 = j
    · subst hj
      simp [hs]
    · simp [hj]
  exact
    { count := fun b hb => by
        rw [← l.count b hb, count_of_ne hb, count_of_ne hb, hslots]
        by_cases hab : a.toNat - 1 = b.toNat - 1
        · rw [if_pos hab, ← hab, hs]
          rfl
        · rw [if_neg hab]
      object := fun b hb hb0 => by
        rw [hslots]
        by_cases hab : a.toNat - 1 = b.toNat - 1
        · obtain rfl : a = b := toNat_pred_inj ha hb0 hab
          exact ⟨_, _, if_pos rfl, hΓ, e, rfl, by simp [hlt]⟩
        · obtain ⟨t, d, ht', hd, hmodel⟩ := l.object b hb hb0
          refine ⟨t, d, by rw [if_neg hab, ht'], hd, ?_⟩
          cases d with
          | str s => exact hmodel
          | keys k items => exact hmodel
          | map k' v' r' =>
            obtain ⟨e', he', hr'⟩ := hmodel
            have hrr : r ≠ r' := fun hr => hab (by rw [l.single a hm ha b hb hb0 hΓ (hr ▸ hd)])
            exact ⟨e', he', by simp [hrr, hr']⟩
      single := l.single
      orderly := l.orderly.congr rfl rfl (by simp [Heap.setMap]) fun j => by
        rw [hslots]
        by_cases hj : a.toNat - 1 = j
        · rw [if_pos hj, ← hj, hs]
          rfl
        · rw [if_neg hj]
      size := by simpa [Heap.setMap] using l.size }

end Heap.Ledger

end RecordMill

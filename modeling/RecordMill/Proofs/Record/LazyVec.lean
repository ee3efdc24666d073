import Mathlib.Data.Finset.Card
import RecordMill.Record.LazyVec

/-!
# A lazy vector and its history

Whether it is dense or sparse, a vector holds at an index what was last put there. Main statements:
`LazyVec.holds_history`, that what a vector holds, how it is laid out and how many elements it counts is told by what
was put into it since it was last cleared; and `LazyVec.push_appends`, on where a push writes. -/

namespace RecordMill.LazyVec

section

variable {α : Type}

/-! ## Dense vectors as maps -/

theorem getElem?_foldl_insert (xs : List α) (m : Std.ExtTreeMap Int α compare) (k : Nat) (j : Int) :
    ((xs.zipIdx k).foldl (fun m (p : α × Nat) => m.insert (p.2 : Int) p.1) m)[j]?
      = if (k : Int) ≤ j ∧ j < k + xs.length then xs[(j - k).toNat]? else m[j]? := by
  induction xs generalizing m k with
  | nil =>
    rw [List.zipIdx_nil, List.foldl_nil, if_neg]
    simp only [List.length_nil]
    omega
  | cons x xs ih =>
    rw [List.zipIdx_cons, List.foldl_cons, ih, List.length_cons]
    by_cases hj : j = k
    · subst hj
      rw [if_neg (by omega), if_pos (by omega)]
      simp
    · by_cases hin : (k : Int) ≤ j ∧ j < k + (xs.length + 1 : Nat)
      · rw [if_pos (by omega), if_pos hin]
        obtain ⟨d, hd⟩ := Int.eq_ofNat_of_zero_le (show 0 ≤ j - (k + 1 : Nat) by omega)
        have hd' : j - k = ((d + 1 : Nat) : Int) := by omega
        rw [hd, hd', Int.toNat_natCast, Int.toNat_natCast, List.getElem?_cons_succ]
      · have hne : ¬ compare (k : Int) j = .eq := by
          rw [Std.LawfulEqCmp.compare_eq_iff_eq]
          omega
        rw [if_neg (by omega), if_neg hin, Std.ExtTreeMap.getElem?_insert, if_neg hne]

theorem getElem?_scatter (items : Array α) (j : Int) :
    (scatter items)[j]? = if j < 0 then none else items[j.toNat]? := by
  rw [scatter, getElem?_foldl_insert items.toList ∅ 0 j, Array.length_toList, Array.getElem?_toList]
  by_cases h0 : j < 0
  · rw [if_neg (by omega), if_pos h0]
    simp
  · rw [if_neg h0]
    by_cases hlt : j < (items.size : Int)
    · rw [if_pos (by omega)]
      simp
    · rw [if_neg (by omega), Array.getElem?_eq_none (by omega)]
      simp

/-! ## Contents -/

/-- What is read at an index; where nothing was put it is the default. -/
def at_ [Inhabited α] (v : LazyVec α) (i : Int) : α := (v.get? i).getD default

variable [Inhabited α]

@[simp] theorem at_empty (i : Int) : (empty : LazyVec α).at_ i = default := by
  simp [at_, empty, get?]

theorem at_ofList (xs : List α) (i : Nat) : (ofList xs).at_ i = (xs[i]?).getD default := by
  have hi : ¬ (i : Int) < 0 := by omega
  simp [at_, ofList, get?, hi]

theorem at_dense (items : Array α) (j : Int) :
    (dense items).at_ j = if j < 0 then default else (items[j.toNat]?).getD default := by
  by_cases hj : j < 0 <;> simp [at_, get?, hj]

theorem at_sparse_insert (items : Std.ExtTreeMap Int α) (i j : Int) (x : α) :
    (sparse (items.insert i x)).at_ j = if j = i then x else (sparse items).at_ j := by
  simp only [at_, get?, Std.ExtTreeMap.getElem?_insert, Std.LawfulEqCmp.compare_eq_iff_eq]
  by_cases hj : i = j
  · simp [hj]
  · simp [hj, Ne.symm hj]

theorem at_scatter (items : Array α) (j : Int) : (sparse (scatter items)).at_ j = (dense items).at_ j := by
  rw [at_dense]
  simp only [at_, get?, getElem?_scatter]
  split <;> rfl

theorem at_set {items : Array α} {n : Nat} (hn : n < items.size) (j : Int) (x : α) :
    (dense (items.setIfInBounds n x)).at_ j = if j = n then x else (dense items).at_ j := by
  rw [at_dense, at_dense]
  by_cases hj : j < 0
  · rw [if_pos hj, if_pos hj, if_neg (by omega)]
  · rw [if_neg hj, if_neg hj, Array.getElem?_setIfInBounds]
    by_cases hjn : j = n
    · simp [hjn, hn]
    · rw [if_neg (by omega), if_neg hjn]

/-- The gap in front of the new element holds default values, as reading past the end did. -/
theorem at_fill {items : Array α} {n : Nat} (hn : items.size ≤ n) (j : Int) (x : α) :
    (dense ((items ++ Array.replicate (n - items.size) default).push x)).at_ j
      = if j = n then x else (dense items).at_ j := by
  rw [at_dense, at_dense]
  by_cases hj : j < 0
  · rw [if_pos hj, if_pos hj, if_neg (by omega)]
  · rw [if_neg hj, if_neg hj, Array.getElem?_push, Array.size_append, Array.size_replicate]
    by_cases hjn : j = n
    · rw [if_pos (by omega), if_pos hjn]
      rfl
    · rw [if_neg (by omega), if_neg hjn, Array.getElem?_append]
      by_cases hold : j.toNat < items.size
      · rw [if_pos hold]
      · rw [if_neg hold, Array.getElem?_replicate, Array.getElem?_eq_none (by omega)]
        split <;> rfl

/-- A new element changes nothing elsewhere, however the vector is laid out before and after. -/
theorem insert?_at (v : LazyVec α) {i : Int} (hi : 0 ≤ i) (x : α) :
    ∃ v', v.insert? i x = some v' ∧ ∀ j, v'.at_ j = if j = i then x else v.at_ j := by
  cases v with
  | sparse items => exact ⟨_, rfl, fun j => at_sparse_insert items i j x⟩
  | dense items =>
    obtain ⟨n, rfl⟩ := Int.eq_ofNat_of_zero_le hi
    have hn : ¬ (n : Int) < 0 := by omega
    simp only [insert?, hn, if_false, Int.toNat_natCast]
    by_cases hin : n < items.size
    · rw [if_pos hin]
      exact ⟨_, rfl, fun j => at_set hin j x⟩
    · rw [if_neg hin]
      by_cases hnear : n < items.size + slack
      · rw [if_pos hnear]
        exact ⟨_, rfl, fun j => at_fill (by omega) j x⟩
      · -- The vector becomes a map.
        rw [if_neg hnear]
        refine ⟨_, rfl, fun j => ?_⟩
        rw [at_sparse_insert, at_scatter]

end

section

variable {α : Type}

/-! ## Uses -/

inductive Use (α : Type) where
  | insert (i : Nat) (x : α)
  | clear
  | look (i : Int)

def Use.isLook : Use α → Bool
  | look _ => true
  | _ => false

/-- `none` when the vector refuses. -/
def use [Inhabited α] (v : LazyVec α) : Use α → Option (LazyVec α)
  | .insert i x => v.insert? i x
  | .clear => some empty
  | .look _ => some v

def uses [Inhabited α] (v : LazyVec α) (us : List (Use α)) : Option (LazyVec α) := us.foldlM use v

/-! ## Histories -/

/-- What was put in since the vector was last cleared, in order. -/
def writes (us : List (Use α)) : List (Nat × α) := us.foldl after []
where
  after (w : List (Nat × α)) : Use α → List (Nat × α)
  | .insert i x => w ++ [(i, x)]
  | .clear => []
  | .look _ => w

def latest (w : List (Nat × α)) (i : Nat) : Option α := (w.reverse.find? (·.1 = i)).map (·.2)

def reach (w : List (Nat × α)) : Nat := (w.map (·.1 + 1)).foldl max 0

/-- Some element came sixteen or more places past the end of those before it. -/
def Far (w : List (Nat × α)) : Prop := ∃ before i x, before ++ [(i, x)] <+: w ∧ reach before + 16 ≤ i

/-- Something was put at the index, or behind it while gaps were still filled. -/
def Held (w : List (Nat × α)) (j : Nat) :
    Prop :=
  (∃ x, (j, x) ∈ w) ∨ ∃ before, before <+: w ∧ ¬Far before ∧ j < reach before

variable {w : List (Nat × α)} {i j : Nat} {x : α}

theorem latest_concat (w : List (Nat × α)) (i j : Nat) (x : α) :
    latest (w ++ [(i, x)]) j = if j = i then some x else latest w j := by
  unfold latest
  rw [List.reverse_append, List.reverse_singleton, List.singleton_append, List.find?_cons]
  by_cases hj : j = i
  · simp [hj]
  · simp [hj, Ne.symm hj]

theorem reach_concat (w : List (Nat × α)) (i : Nat) (x : α) : reach (w ++ [(i, x)]) = max (reach w) (i + 1) := by
  simp [reach]

theorem reach_mono {before : List (Nat × α)} (h : before <+: w) : reach before ≤ reach w := by
  induction w using List.reverseRecOn with
  | nil => rw [List.prefix_nil.1 h]
  | append_singleton w p ih =>
    rcases List.prefix_concat_iff.1 h with rfl | h
    · exact Nat.le_refl _
    · rw [reach_concat]
      exact Nat.le_trans (ih h) (Nat.le_max_left ..)

theorem lt_reach (h : (i, x) ∈ w) : i < reach w := by
  obtain ⟨before, after, rfl⟩ := List.append_of_mem h
  have hprefix : before ++ [(i, x)] <+: before ++ (i, x) :: after := ⟨after, by simp⟩
  refine Nat.lt_of_lt_of_le ?_ (reach_mono hprefix)
  rw [reach_concat]
  omega

theorem not_far_nil : ¬Far ([] : List (Nat × α)) := by
  rintro ⟨before, i, x, h, -⟩
  simp at h

theorem far_concat (w : List (Nat × α)) (i : Nat) (x : α) : Far (w ++ [(i, x)]) ↔ Far w ∨ reach w + 16 ≤ i := by
  constructor
  · rintro ⟨before, k, y, h, hk⟩
    rcases List.prefix_concat_iff.1 h with h | h
    · obtain ⟨rfl, hlast⟩ := List.append_inj' h rfl
      cases hlast
      exact .inr hk
    · exact .inl ⟨before, k, y, h, hk⟩
  · rintro (⟨before, k, y, h, hk⟩ | hi)
    · exact ⟨before, k, y, h.trans (List.prefix_append ..), hk⟩
    · exact ⟨w, i, x, List.prefix_rfl, hi⟩

theorem held_iff_lt_reach (h : ¬Far w) : Held w j ↔ j < reach w := by
  constructor
  · rintro (⟨x, hx⟩ | ⟨before, hbefore, -, hj⟩)
    · exact lt_reach hx
    · exact Nat.lt_of_lt_of_le hj (reach_mono hbefore)
  · exact fun hj => .inr ⟨w, List.prefix_rfl, h, hj⟩

theorem held_concat (h : Far (w ++ [(i, x)])) : Held (w ++ [(i, x)]) j ↔ j = i ∨ Held w j := by
  constructor
  · rintro (⟨y, hy⟩ | ⟨before, hbefore, hnear, hj⟩)
    · rcases List.mem_append.1 hy with hy | hy
      · exact .inr (.inl ⟨y, hy⟩)
      · cases List.mem_singleton.1 hy
        exact .inl rfl
    · rcases List.prefix_concat_iff.1 hbefore with rfl | hbefore
      · exact absurd h hnear
      · exact .inr (.inr ⟨before, hbefore, hnear, hj⟩)
  · rintro (rfl | ⟨y, hy⟩ | ⟨before, hbefore, hnear, hj⟩)
    · exact .inl ⟨x, by simp⟩
    · exact .inl ⟨y, List.mem_append_left _ hy⟩
    · exact .inr ⟨before, hbefore.trans (List.prefix_append ..), hnear, hj⟩

/-! ## The vector of a history -/

/-- How the vector is laid out. -/
inductive Layout (w : List (Nat × α)) : LazyVec α → Prop
  | dense {items : Array α} : ¬Far w → items.size = reach w → Layout w (.dense items)
  | sparse {items : Std.ExtTreeMap Int α compare} :
    Far w → (∀ k : Int, k ∈ items ↔ ∃ j : Nat, k = j ∧ Held w j) → Layout w (.sparse items)

variable {v : LazyVec α}

theorem mem_scatter (items : Array α) (k : Int) : k ∈ scatter items ↔ ∃ j : Nat, k = j ∧ j < items.size := by
  rw [Std.ExtTreeMap.mem_iff_isSome_getElem?, getElem?_scatter]
  by_cases hk : k < 0
  · rw [if_pos hk]
    simp only [Option.isSome_none, Bool.false_eq_true, false_iff]
    rintro ⟨j, rfl, -⟩
    omega
  · rw [if_neg hk]
    obtain ⟨n, rfl⟩ := Int.eq_ofNat_of_zero_le (Int.not_lt.1 hk)
    simp only [Int.toNat_natCast, isSome_getElem?, Int.natCast_inj, exists_eq_left']

theorem Layout.insert [Inhabited α] (h : Layout w v) (i : Nat) (x : α) :
    ∃ v', v.insert? i x = some v' ∧ Layout (w ++ [(i, x)]) v' := by
  cases h with
  | @sparse items hfar hkeys =>
    have hfar' : Far (w ++ [(i, x)]) := (far_concat ..).2 (.inl hfar)
    refine ⟨_, rfl, .sparse hfar' fun k => ?_⟩
    simp only [Std.ExtTreeMap.mem_insert, hkeys, Std.LawfulEqCmp.compare_eq_iff_eq, held_concat hfar']
    constructor
    · rintro (rfl | ⟨j, rfl, hj⟩)
      · exact ⟨i, rfl, .inl rfl⟩
      · exact ⟨j, rfl, .inr hj⟩
    · rintro ⟨j, rfl, rfl | hj⟩
      · exact .inl rfl
      · exact .inr ⟨j, rfl, hj⟩
  | @dense items hnear hsize =>
    have hi : ¬(i : Int) < 0 := by omega
    have hnear' : i < items.size + 16 → ¬Far (w ++ [(i, x)]) := fun hlt hfar => by
      rcases (far_concat ..).1 hfar with hfar | hle
      · exact hnear hfar
      · omega
    have hslack : slack = 16 := rfl
    simp only [insert?, hi, if_false, Int.toNat_natCast]
    by_cases hin : i < items.size
    · rw [if_pos hin]
      refine ⟨_, rfl, .dense (hnear' (by omega)) ?_⟩
      rw [Array.size_setIfInBounds, reach_concat]
      omega
    · rw [if_neg hin]
      by_cases hgap : i < items.size + slack
      · rw [if_pos hgap]
        refine ⟨_, rfl, .dense (hnear' hgap) ?_⟩
        rw [Array.size_push, Array.size_append, Array.size_replicate, reach_concat]
        omega
      · -- The elements become a map, with an entry for each place that was filled.
        rw [if_neg hgap]
        have hfar : Far (w ++ [(i, x)]) := (far_concat ..).2 (.inr (by omega))
        refine ⟨_, rfl, .sparse hfar fun k => ?_⟩
        simp only [Std.ExtTreeMap.mem_insert, mem_scatter, Std.LawfulEqCmp.compare_eq_iff_eq, held_concat hfar,
          held_iff_lt_reach hnear, hsize]
        constructor
        · rintro (rfl | ⟨j, rfl, hj⟩)
          · exact ⟨i, rfl, .inl rfl⟩
          · exact ⟨j, rfl, .inr hj⟩
        · rintro ⟨j, rfl, rfl | hj⟩
          · exact .inl rfl
          · exact .inr ⟨j, rfl, hj⟩

theorem Layout.isSparse_iff (h : Layout w v) : v.isSparse ↔ Far w := by
  cases h with
  | dense hnear => exact iff_of_false (by simp [isSparse]) hnear
  | sparse hfar => exact iff_of_true rfl hfar

theorem Layout.isSome_get? (h : Layout w v) (i : Int) : (v.get? i).isSome ↔ ∃ j : Nat, i = j ∧ Held w j := by
  cases h with
  | sparse _ hkeys => rw [← hkeys, Std.ExtTreeMap.mem_iff_isSome_getElem?, get?]
  | @dense items hnear hsize =>
    simp only [held_iff_lt_reach hnear, ← hsize]
    rw [← mem_scatter, Std.ExtTreeMap.mem_iff_isSome_getElem?, getElem?_scatter, get?]

theorem Layout.size_eq_card (h : Layout w v) : ∃ held :
    Finset Nat, (∀ j, j ∈ held ↔ Held w j) ∧ v.size = held.card := by
  cases h with
  | @dense items hnear hsize =>
    refine ⟨Finset.range (reach w), fun j => ?_, ?_⟩
    · rw [held_iff_lt_reach hnear, Finset.mem_range]
    · rw [Finset.card_range]
      exact hsize
  | @sparse items hfar hkeys =>
    have hnonneg : ∀ k ∈ items.keys, 0 ≤ k := fun k hk => by
      obtain ⟨j, rfl, -⟩ := (hkeys k).1 (Std.ExtTreeMap.mem_keys.1 hk)
      omega
    have hnodup : (items.keys.map Int.toNat).Nodup := by
      refine List.Nodup.map_on (fun a ha b hb hab => ?_) items.nodup_keys
      have := hnonneg a ha
      have := hnonneg b hb
      omega
    refine ⟨(items.keys.map Int.toNat).toFinset, fun j => ?_, ?_⟩
    · rw [List.mem_toFinset, List.mem_map]
      constructor
      · rintro ⟨k, hk, rfl⟩
        obtain ⟨j, rfl, hj⟩ := (hkeys k).1 (Std.ExtTreeMap.mem_keys.1 hk)
        exact hj
      · exact fun hj => ⟨j, Std.ExtTreeMap.mem_keys.2 ((hkeys j).2 ⟨j, rfl, hj⟩), rfl⟩
    · rw [List.toFinset_card_of_nodup hnodup, List.length_map, Std.ExtTreeMap.length_keys]
      rfl

/-! ## Whole histories -/

variable [Inhabited α]

/-- The vector is laid out as its history says, and holds what was put last. -/
structure Keeps (w : List (Nat × α)) (v : LazyVec α) : Prop where
  layout : Layout w v
  holds : ∀ i : Nat, v.at_ i = (latest w i).getD default

theorem keeps_empty : Keeps [] (empty : LazyVec α) := ⟨.dense not_far_nil rfl, fun i => at_empty i⟩

theorem Keeps.use (h : Keeps w v) (u : Use α) : ∃ v', v.use u = some v' ∧ Keeps (writes.after w u) v' := by
  cases u with
  | clear => exact ⟨_, rfl, keeps_empty⟩
  | look => exact ⟨_, rfl, h⟩
  | insert i x =>
    obtain ⟨v', hinsert, hlayout⟩ := h.layout.insert i x
    obtain ⟨v'', hinsert', hat⟩ := v.insert?_at (i := i) (by omega) x
    obtain rfl := Option.some.inj (hinsert.symm.trans hinsert')
    refine ⟨v', hinsert, hlayout, fun j => ?_⟩
    show _ = (latest (w ++ [(i, x)]) j).getD default
    rw [hat, latest_concat, h.holds]
    by_cases hj : j = i
    · rw [if_pos (congrArg _ hj), if_pos hj, Option.getD_some]
    · rw [if_neg (by omega), if_neg hj]

theorem Keeps.uses (h : Keeps w v) (us : List (Use α)) :
    ∃ v', v.uses us = some v' ∧ Keeps (us.foldl writes.after w) v' := by
  induction us generalizing w v with
  | nil => exact ⟨v, rfl, h⟩
  | cons u us ih =>
    obtain ⟨v₁, huse, h₁⟩ := h.use u
    obtain ⟨v', huses, h'⟩ := ih h₁
    refine ⟨v', ?_, h'⟩
    rw [LazyVec.uses, List.foldlM_cons, huse]
    exact huses

theorem uses_filter_look (v : LazyVec α) (us : List (Use α)) : v.uses (us.filter (!·.isLook)) = v.uses us := by
  induction us generalizing v with
  | nil => rfl
  | cons u us ih =>
    cases u with
    | look i => exact ih v
    | insert i x =>
      show (v.insert? i x).bind _ = (v.insert? i x).bind _
      exact congrArg _ (funext ih)
    | clear => exact ih empty

/-- However a vector is used from the start, nothing is refused. It holds at each index what was put there last, and has
an element wherever something was put or a gap was filled. It is sparse if and only if something came sixteen or more
places past the end; until then its size is its end. Its size is always the number of its elements. Looking changes
nothing. -/
theorem holds_history (us : List (Use α)) : ∃ v, empty.uses us = some v
    ∧ (∀ i : Nat, (v.get? i).getD default = (latest (writes us) i).getD default)
    ∧ (∀ i x, (i, x) ∈ writes us → (v.get? i).isSome)
    ∧ (∀ i : Int, (v.get? i).isSome ↔ ∃ j : Nat, i = j ∧ Held (writes us) j)
    ∧ (v.isSparse ↔ Far (writes us))
    ∧ (v.isSparse = false → v.size = reach (writes us))
    ∧ (∃ held : Finset Nat, (∀ j, j ∈ held ↔ Held (writes us) j) ∧ v.size = held.card)
    ∧ empty.uses (us.filter (!·.isLook)) = some v := by
  obtain ⟨v, huses, h⟩ := keeps_empty.uses us
  refine ⟨v, huses, h.holds, fun i x hx => ?_, h.layout.isSome_get?, h.layout.isSparse_iff, fun hdense => ?_,
    h.layout.size_eq_card, ?_⟩
  · exact (h.layout.isSome_get? i).2 ⟨i, rfl, .inl ⟨x, hx⟩⟩
  · cases h.layout with
    | dense _ hsize => exact hsize
    | sparse => cases hdense
  · rw [uses_filter_look]
    exact huses

end

end RecordMill.LazyVec

/-!
## Appending to a lazy vector

A push writes at the index that equals the number of elements. While the vector
is dense nothing stands there; in a sparse one an element may, behind a gap, and then it is replaced.
-/

namespace RecordMill.LazyVec

variable {α : Type}

/-! ## Changes -/

inductive Change (α : Type) where
  | insert (i : Nat) (x : α)
  | push (x : α)
  | clear

/-- `none` when the vector refuses. -/
def change [Inhabited α] (v : LazyVec α) : Change α → Option (LazyVec α)
  | .insert i x => v.insert? i x
  | .push x => some (v.push x)
  | .clear => some empty

def changes [Inhabited α] (v : LazyVec α) (cs : List (Change α)) : Option (LazyVec α) := cs.foldlM change v

variable {w : List (Nat × α)} {v : LazyVec α}

theorem insert?_size [Inhabited α] (v : LazyVec α) (x : α) : v.insert? v.size x = some (v.push x) := by
  cases v with
  | sparse items => rfl
  | dense items =>
    have hsize : (LazyVec.dense items).size = items.size := rfl
    have hnonneg : ¬ (items.size : Int) < 0 := by omega
    have hnear : items.size < items.size + slack := by simp [slack]
    rw [hsize, insert?, if_neg hnonneg, Int.toNat_natCast]
    dsimp only
    rw [if_neg (Nat.lt_irrefl _), if_pos hnear, Nat.sub_self]
    simp [push]

def wrote (v : LazyVec α) (w : List (Nat × α)) : Change α → List (Nat × α)
  | .insert i x => w ++ [(i, x)]
  | .push x => w ++ [(v.size, x)]
  | .clear => []

variable [Inhabited α]

theorem Layout.change (h : Layout w v) (c : Change α) : ∃ v', v.change c = some v' ∧ Layout (v.wrote w c) v' := by
  cases c with
  | insert i x => exact h.insert i x
  | push x =>
    obtain ⟨v', hinsert, hlayout⟩ := h.insert v.size x
    rw [insert?_size] at hinsert
    exact ⟨v', hinsert, hlayout⟩
  | clear => exact ⟨empty, rfl, .dense not_far_nil rfl⟩

theorem Layout.changes (h : Layout w v) (cs : List (Change α)) : ∃ v' w', v.changes cs = some v' ∧ Layout w' v' := by
  induction cs generalizing v w with
  | nil => exact ⟨v, w, rfl, h⟩
  | cons c cs ih =>
    obtain ⟨v₁, hchange, h₁⟩ := h.change c
    obtain ⟨v', w', hchanges, h'⟩ := ih h₁
    refine ⟨v', w', ?_, h'⟩
    rw [LazyVec.changes, List.foldlM_cons, hchange]
    exact hchanges

/-! ## Pushing -/

omit [Inhabited α]

theorem get?_push (v : LazyVec α) (x : α) (i : Int) : (v.push x).get? i = if i = v.size then some x else v.get? i := by
  cases v with
  | sparse items =>
    show (items.insert (items.size : Int) x)[i]? = if i = items.size then some x else items[i]?
    simp only [Std.ExtTreeMap.getElem?_insert, Std.LawfulEqCmp.compare_eq_iff_eq, eq_comm (a := i)]
  | dense items =>
    show (if i < 0 then none else (items.push x)[i.toNat]?)
      = if i = items.size then some x else if i < 0 then none else items[i.toNat]?
    rw [Array.getElem?_push]
    by_cases hi : i < 0
    · rw [if_pos hi, if_pos hi, if_neg (by omega)]
    · rw [if_neg hi, if_neg hi]
      by_cases hend : i = items.size
      · rw [if_pos (by omega), if_pos hend]
      · rw [if_neg (by omega), if_neg hend]

theorem get?_size_of_dense (h : v.isSparse = false) : v.get? v.size = none := by
  cases v with
  | sparse => cases h
  | dense items =>
    have hnonneg : ¬ (items.size : Int) < 0 := by omega
    show (if (items.size : Int) < 0 then none else items[(items.size : Int).toNat]?) = none
    rw [if_neg hnonneg, Int.toNat_natCast]
    exact Array.getElem?_eq_none (Nat.le_refl _)

theorem size_push (v : LazyVec α) (x : α) :
    (v.push x).size = if (v.get? v.size).isSome then v.size else v.size + 1 := by
  cases v with
  | dense items =>
    rw [get?_size_of_dense rfl]
    exact Array.size_push x
  | sparse items =>
    show (items.insert (items.size : Int) x).size
      = if (items[(items.size : Int)]?).isSome then items.size else items.size + 1
    rw [Std.ExtTreeMap.size_insert]
    exact if_congr Std.ExtTreeMap.mem_iff_isSome_getElem? rfl rfl

theorem Layout.gap (h : Layout w v) (hheld : (v.get? v.size).isSome) : ∃ j < v.size, v.get? j = none := by
  obtain ⟨held, hmem, hcard⟩ := h.size_eq_card
  by_contra hfull
  have hsub : Finset.range (v.size + 1) ⊆ held := by
    intro j hj
    have hsome : (v.get? j).isSome := by
      rcases Nat.lt_succ_iff_lt_or_eq.1 (Finset.mem_range.1 hj) with hlt | rfl
      · exact Option.isSome_iff_ne_none.2 fun hnone => hfull ⟨j, hlt, hnone⟩
      · exact hheld
    obtain ⟨k, hk, hin⟩ := (h.isSome_get? j).1 hsome
    rw [hmem, Int.ofNat_inj.1 hk]
    exact hin
  have hle := Finset.card_le_card hsub
  rw [Finset.card_range] at hle
  omega

variable [Inhabited α]

/-- However a vector has been changed, a push writes its element at the index that equals the count, and nothing else
changes. Where nothing stood there, as is so in every dense vector, the count grows by one. Where an element stood there
it is replaced and the count stays, which takes a sparse vector with a gap in front. -/
theorem push_appends (cs : List (Change α)) : ∃ v, empty.changes cs = some v ∧ ∀ x,
    (v.push x).get? v.size = some x
    ∧ (∀ i : Int, i ≠ v.size → (v.push x).get? i = v.get? i)
    ∧ (v.get? v.size = none → (v.push x).size = v.size + 1)
    ∧ (v.isSparse = false → v.get? v.size = none)
    ∧ ((v.get? v.size).isSome → (v.push x).size = v.size ∧ v.isSparse ∧ ∃ j < v.size, v.get? j = none) := by
  obtain ⟨v, w, hchanges, hlayout⟩ := Layout.changes (.dense not_far_nil rfl : Layout [] (empty : LazyVec α)) cs
  refine ⟨v, hchanges, fun x => ⟨?_, fun i hi => ?_, fun hnone => ?_, get?_size_of_dense, fun hsome =>
    ⟨?_, ?_, hlayout.gap hsome⟩⟩⟩
  · rw [get?_push, if_pos rfl]
  · rw [get?_push, if_neg hi]
  · rw [size_push, hnone]
    rfl
  · rw [size_push, if_pos hsome]
  · by_contra hdense
    rw [get?_size_of_dense (by simpa using hdense)] at hsome
    cases hsome

/-- The third element takes the place of the second. -/
theorem push_replaces_element : (empty.changes [.insert 16 10, .insert 2 20]).map (fun v : LazyVec Nat =>
    (v.size, v.get? 2, (v.push 30).size, (v.push 30).get? 2)) = some (2, some 20, 2, some 30) := by
  decide +kernel

end RecordMill.LazyVec

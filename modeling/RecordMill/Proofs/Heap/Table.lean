import Mathlib.Algebra.Ring.Nat
import RecordMill.Heap.Basic

/-!
# The table of handles

However the heap is used, and whatever is refused on the way, the free list holds the released slots and
each of them once, and the count of a handle is what its history says: one for the object made, one more
for every reference taken since and one less for every reference given back.
-/

namespace RecordMill

/-! ## Handles -/

namespace Packed

theorem tag_shared (a : UInt64) : (shared a).tag = sharedTag := by
  show (sharedTag <<< 56) >>> 56 = sharedTag
  decide

theorem handle_shared (a : UInt64) : (shared a).handle = a := if_pos (tag_shared a)

end Packed

namespace Heap

theorem toNat_pred_inj {a b : UInt64} (ha : a ≠ 0) (hb : b ≠ 0) (h : a.toNat - 1 = b.toNat - 1) : a = b := by
  have ha' : a.toNat ≠ 0 := fun h0 => ha (UInt64.toNat_inj.1 h0)
  have hb' : b.toNat ≠ 0 := fun h0 => hb (UInt64.toNat_inj.1 h0)
  exact UInt64.toNat_inj.1 (by omega)

theorem toNat_handle {i : Nat} (hi : i + 1 < 2 ^ 64) : ((i + 1).toUInt64).toNat = i + 1 := by
  simp only [Nat.toUInt64, UInt64.toNat_ofNat']
  omega

theorem handle_ne_zero {i : Nat} (hi : i + 1 < 2 ^ 64) : (i + 1).toUInt64 ≠ 0 := fun e => by
  have := congrArg UInt64.toNat e
  rw [toNat_handle hi] at this
  simp at this

theorem count_of_ne {h : Heap} {a : UInt64} (ha : a ≠ 0) :
    h.count a = ((h.slots[a.toNat - 1]?).map Slot.count).getD 0 := by
  simp [count, ha]

theorem count_handle {h : Heap} {i : Nat} (hi : i + 1 < 2 ^ 64) {s : Slot} (hs : h.slots[i]? = some s) :
    h.count (i + 1).toUInt64 = s.count := by
  rw [count_of_ne (handle_ne_zero hi), toNat_handle hi, Nat.add_sub_cancel, hs]
  rfl

theorem count_set {h : Heap} {a : UInt64} (ha : a ≠ 0) {s : Slot} (hs : h.slots[a.toNat - 1]? = some s) {t : Slot}
    {h' : Heap} (hh : h'.slots = h.slots.setIfInBounds (a.toNat - 1) t) {b : UInt64} (hb : b ≠ 0) :
    h'.count b = if b = a then t.count else h.count b := by
  obtain ⟨hlt, -⟩ := Array.getElem?_eq_some_iff.1 hs
  rw [count_of_ne hb, count_of_ne hb, hh, Array.getElem?_setIfInBounds]
  by_cases hab : b = a
  · subst hab
    simp [hlt]
  · have : a.toNat - 1 ≠ b.toNat - 1 := fun e => hab (toNat_pred_inj ha hb e).symm
    simp [this, hab]

variable {h : Heap} {a : UInt64} {s : Slot}

theorem slot_eq_ok : h.slot a = .ok s ↔ a ≠ 0 ∧ h.slots[a.toNat - 1]? = some s ∧ s.count ≠ 0 := by
  unfold slot
  by_cases ha : a = 0
  · simp [ha]
  · cases hs : h.slots[a.toNat - 1]? with
    | none => simp [ha]
    | some t =>
      by_cases ht : t.count = 0
      · simp only [ha, if_false, ht, if_true, ne_eq, not_false_eq_true, Option.some.injEq, true_and]
        constructor
        · intro e
          cases e
        · rintro ⟨rfl, hc⟩
          exact absurd ht hc
      · simp only [ha, if_false, ht, ne_eq, not_false_eq_true, Option.some.injEq, true_and, Except.ok.injEq]
        constructor
        · rintro rfl
          exact ⟨rfl, ht⟩
        · exact fun e => e.1

theorem ref_of_slot (ha : a ≠ 0) (hs : h.slot a = .ok s) : h.ref a
    = .ok { h with slots := h.slots.setIfInBounds (a.toNat - 1) { s with count := s.count + 1 } } := by
  simp only [ref, ha, if_false, hs]
  rfl

theorem drop_of_last (ha : a ≠ 0) (hs : h.slot a = .ok s) (hc : s.count = 1) : h.drop a = .ok { h with
    slots := h.slots.setIfInBounds (a.toNat - 1) ⟨0, .str []⟩
    free := (a.toNat - 1) :: h.free
    live := h.live - 1
    destroyed := h.destroyed + 1 } := by
  simp only [drop, ha, if_false, hs]
  exact if_pos hc

theorem drop_of_more (ha : a ≠ 0) (hs : h.slot a = .ok s) (hc : s.count ≠ 1) : h.drop a
    = .ok { h with slots := h.slots.setIfInBounds (a.toNat - 1) { s with count := s.count - 1 } } := by
  simp only [drop, ha, if_false, hs]
  exact if_neg hc

/-! ## The free list -/

theorem countP_range {α : Type} (p : α → Bool) (xs : List α) :
    (List.range xs.length).countP (fun i => (xs[i]?).any p) = xs.countP p := by
  induction xs with
  | nil => rfl
  | cons x xs ih =>
    rw [List.length_cons, List.range_succ_eq_map, List.countP_cons, List.countP_map, List.countP_cons, ← ih]
    rfl

/-- The free list holds the slots without a count, each once, and all others are live. -/
structure Orderly (h : Heap) : Prop where
  free : ∀ i, i ∈ h.free ↔ ∃ s, h.slots[i]? = some s ∧ s.count = 0
  nodup : h.free.Nodup
  live : h.live + h.free.length = h.slots.size

namespace Orderly

theorem empty (literals : List Bytes) : (ofLiterals literals).Orderly where
  free i := by simp [ofLiterals]
  nodup := List.nodup_nil
  live := rfl

theorem congr (o : h.Orderly) {h' : Heap} (hfree : h'.free = h.free) (hlive : h'.live = h.live)
    (hsize : h'.slots.size = h.slots.size)
    (hcount : ∀ i : Nat, (h'.slots[i]?).map Slot.count = (h.slots[i]?).map Slot.count) : h'.Orderly where
  free i := by
    have hi := hcount i
    rw [hfree, o.free i]
    constructor
    · rintro ⟨s, hs, hc⟩
      rw [hs] at hi
      obtain ⟨t, ht, hct⟩ := Option.map_eq_some_iff.1 hi
      exact ⟨t, ht, hct.trans hc⟩
    · rintro ⟨s, hs, hc⟩
      rw [hs] at hi
      obtain ⟨t, ht, hct⟩ := Option.map_eq_some_iff.1 hi.symm
      exact ⟨t, ht, hct.trans hc⟩
  nodup := hfree ▸ o.nodup
  live := by rw [hlive, hfree, hsize, o.live]

theorem recount (o : h.Orderly) {i : Nat} {t : Slot} (hs : h.slots[i]? = some s) (hc : s.count ≠ 0)
    (ht : t.count ≠ 0) : ({ h with slots := h.slots.setIfInBounds i t } : Heap).Orderly where
  free j := by
    obtain ⟨hlt, -⟩ := Array.getElem?_eq_some_iff.1 hs
    rw [o.free j, Array.getElem?_setIfInBounds]
    by_cases hj : i = j
    · subst hj
      rw [hs]
      simp [hlt, ht, hc]
    · simp [hj]
  nodup := o.nodup
  live := by simpa using o.live

theorem nodup_cons (o : h.Orderly) {i : Nat} (hs : h.slots[i]? = some s) (hc : s.count ≠ 0) : (i :: h.free).Nodup := by
  refine List.nodup_cons.2 ⟨fun hi => ?_, o.nodup⟩
  obtain ⟨t, ht, hc'⟩ := (o.free _).1 hi
  obtain rfl : s = t := Option.some.inj (hs.symm.trans ht)
  exact hc hc'

theorem live_pos (o : h.Orderly) {i : Nat} (hs : h.slots[i]? = some s) (hc : s.count ≠ 0) : 0 < h.live := by
  have hsub : i :: h.free ⊆ List.range h.slots.size := fun j hj => by
    rcases List.mem_cons.1 hj with rfl | hj
    · exact List.mem_range.2 (Array.getElem?_eq_some_iff.1 hs).1
    · obtain ⟨t, ht, -⟩ := (o.free j).1 hj
      exact List.mem_range.2 (Array.getElem?_eq_some_iff.1 ht).1
  have hle := List.Nodup.length_le_of_subset (o.nodup_cons hs hc) hsub
  rw [List.length_range, List.length_cons] at hle
  have := o.live
  omega

theorem release (o : h.Orderly) {i : Nat} {t : Slot} (hs : h.slots[i]? = some s) (hc : s.count ≠ 0)
    (ht : t.count = 0) (n : Nat) : ({ h with
      slots := h.slots.setIfInBounds i t, free := i :: h.free, live := h.live - 1,
        destroyed := n } : Heap).Orderly where
  free j := by
    obtain ⟨hlt, -⟩ := Array.getElem?_eq_some_iff.1 hs
    rw [List.mem_cons, o.free j, Array.getElem?_setIfInBounds]
    by_cases hj : i = j
    · subst hj
      simp [hlt, ht]
    · simp [hj, Ne.symm hj]
  nodup := o.nodup_cons hs hc
  live := by
    have := o.live
    have := o.live_pos hs hc
    simp only [Array.size_setIfInBounds, List.length_cons]
    omega

theorem alloc (o : h.Orderly) (x : Object) : ∃ i h', h.alloc x = ((i + 1).toUInt64, h') ∧ h'.Orderly
    ∧ (∀ s, h.slots[i]? = some s → s.count = 0) ∧ (∀ j, h'.slots[j]? = if j = i then some ⟨1, x⟩ else h.slots[j]?)
    ∧ i < h'.slots.size ∧ (h'.slots.size = h.slots.size ∨ h.free = [] ∧ h'.slots.size = h.slots.size + 1)
    ∧ h'.live = h.live + 1 ∧ h'.destroyed = h.destroyed ∧ h'.literals = h.literals := by
  have hlive := o.live
  cases hf : h.free with
  | cons i free =>
    obtain ⟨s, hs, hcount⟩ := (o.free i).1 (by simp [hf])
    obtain ⟨hlt, -⟩ := Array.getElem?_eq_some_iff.1 hs
    have hnodup := hf ▸ o.nodup
    have hslots : ∀ j, (h.slots.setIfInBounds i ⟨1, x⟩)[j]? = if j = i then some ⟨1, x⟩ else h.slots[j]? := by
      intro j
      rw [Array.getElem?_setIfInBounds]
      by_cases hj : i = j
      · subst hj
        simp [hlt]
      · simp [hj, Ne.symm hj]
    refine ⟨i, { h with slots := h.slots.setIfInBounds i ⟨1, x⟩, free, live := h.live + 1 },
      by simp only [Heap.alloc, hf],
      ?_, fun t ht => ?_, hslots, by simpa using hlt, .inl (by simp), rfl, rfl, rfl⟩
    · exact
        { free := fun j => by
            have hnot := (List.nodup_cons.1 hnodup).1
            have hj := o.free j
            rw [hf, List.mem_cons] at hj
            dsimp only
            rw [hslots]
            by_cases hji : j = i
            · subst hji
              simp [hnot]
            · simp only [hji, false_or] at hj
              simp [hji, hj]
          nodup := (List.nodup_cons.1 hnodup).2
          live := by
            rw [hf, List.length_cons] at hlive
            simp only [Array.size_setIfInBounds]
            omega }
    · cases hs.symm.trans ht
      exact hcount
  | nil =>
    have hslots : ∀ j, (h.slots.push ⟨1, x⟩)[j]? = if j = h.slots.size then some ⟨1, x⟩ else h.slots[j]? :=
      fun j => Array.getElem?_push
    refine ⟨h.slots.size, { h with slots := h.slots.push ⟨1, x⟩, live := h.live + 1 }, by simp only [Heap.alloc, hf],
      ?_, by simp, hslots, by simp, .inr ⟨rfl, by simp⟩, rfl, rfl, rfl⟩
    exact
      { free := fun j => by
          have hj := o.free j
          dsimp only
          rw [hslots, hj]
          by_cases hji : j = h.slots.size
          · simp [hji]
          · simp [hji]
        nodup := o.nodup
        live := by
          simp only [Array.size_push]
          omega }

theorem live_eq (o : h.Orderly) : h.live = h.slots.countP fun s => s.count ≠ 0 := by
  have hperm : h.free.Perm ((List.range h.slots.size).filter fun i => (h.slots[i]?).any fun s => s.count = 0) := by
    refine (List.perm_ext_iff_of_nodup o.nodup (List.nodup_range.filter _)).2 fun i => ?_
    rw [o.free i, List.mem_filter, List.mem_range]
    constructor
    · rintro ⟨s, hs, hc⟩
      exact ⟨(Array.getElem?_eq_some_iff.1 hs).1, by simp [hs, hc]⟩
    · rintro ⟨hlt, hany⟩
      exact ⟨_, Array.getElem?_eq_getElem hlt, by simpa [hlt] using hany⟩
  have hfree : h.free.length = h.slots.toList.countP fun s => s.count = 0 := by
    rw [hperm.length_eq, ← List.countP_eq_length_filter, ← countP_range (fun s : Slot => s.count = 0),
      Array.length_toList]
    simp only [Array.getElem?_toList]
  have htotal := List.length_eq_countP_add_countP (fun s : Slot => s.count = 0) (l := h.slots.toList)
  have hlive := o.live
  rw [Array.length_toList] at htotal
  rw [← Array.countP_toList]
  simp only [decide_not, decide_eq_true_eq] at htotal ⊢
  omega

end Orderly

/-! ## Uses -/

inductive Use where
  | newStr (s : Bytes)
  | newMap (k : Key) (v : Scalar)
  | newKeys (k : Key) (items : List k.Carrier)
  | ref (a : UInt64)
  | drop (a : UInt64)
  | refStr (p : Packed)
  | dropStr (p : Packed)
  | map (k : Key) (v : Scalar) (a : UInt64)
  | keys (k : Key) (a : UInt64)
  | string (p : Packed)
  | strLen (p : Packed)

/-- The handle of the object that was made, if one was, and the heap after the use. -/
def use (h : Heap) : Use → Except HeapFault (Option UInt64 × Heap)
  | .newStr s =>
    let (p, h) := h.newStr s
    .ok (if s.length ≤ Packed.maxInline then none else some p.handle, h)
  | .newMap k v =>
    let (a, h) := h.newMap k v
    .ok (some a, h)
  | .newKeys k items =>
    let (a, h) := h.newKeys k items
    .ok (some a, h)
  | .ref a => do return (none, ← h.ref a)
  | .drop a => do return (none, ← h.drop a)
  | .refStr p => do return (none, ← h.refStr p)
  | .dropStr p => do return (none, ← h.dropStr p)
  | .map k v a => do
    let _ ← h.map k v a
    return (none, h)
  | .keys k a => do
    let _ ← h.keys k a
    return (none, h)
  | .string p => do
    let _ ← h.string p
    return (none, h)
  | .strLen p => do
    let _ ← h.strLen p
    return (none, h)

/-- What happened to a handle. -/
inductive Event where
  | made (a : UInt64)
  | ref (a : UInt64)
  | drop (a : UInt64)
  deriving DecidableEq

def Event.isMade : Event → Bool
  | .made _ => true
  | _ => false

def Use.events (u : Use) (made : Option UInt64) : List Event :=
  match u with
  | .ref a => [.ref a]
  | .refStr p => [.ref p.handle]
  | .drop a => [.drop a]
  | .dropStr p => [.drop p.handle]
  | _ => made.toList.map .made

def record : Heap × List Event → Use → Heap × List Event
  | (h, es), u => match h.use u with
    | .ok (made, h') => (h', u.events made ++ es)
    | .error _ => (h, es)

/-- The heap after some uses, and what happened, the latest first. -/
def history (h : Heap) (us : List Use) : Heap × List Event := us.foldl record (h, [])

/-- What happened since the object of a handle was made. -/
def since (a : UInt64) (es : List Event) : List Event := es.takeWhile (· ≠ .made a)

/-! ## What a use can do -/

def object? (h : Heap) (a : UInt64) : Option Object :=
  if h.count a = 0 then none else (h.slots[a.toNat - 1]?).map (·.object)

/-- The uses that are refused: of a handle that is not in use or names another kind of object, and of a
string that is none. -/
def Faulty (h : Heap) : Use → Prop
  | .newStr _ | .newMap .. | .newKeys .. => False
  | .ref a | .drop a => a ≠ 0 ∧ h.count a = 0
  | .refStr p | .dropStr p => p.handle ≠ 0 ∧ h.count p.handle = 0
  | .map k v a => (h.object? a).bind (·.asMap? k v) = none
  | .keys k a => (h.object? a).bind (·.asKeys? k) = none
  | .string p => match p.storage? with
    | none => True
    | some .inline => False
    | some .literal => h.literals[p.lo.toNat]? = none
    | some .shared => (h.object? p.lo).bind (·.asStr?) = none
  | .strLen p => match p.storage? with
    | none => True
    | some .inline | some .literal => False
    | some .shared => (h.object? p.lo).bind (·.asStr?) = none

theorem slot_cases (h : Heap) (a : UInt64) :
    (h.count a = 0 ∧ h.object? a = none ∧ ∃ f, h.slot a = .error f)
      ∨ ∃ s, a ≠ 0 ∧ h.slots[a.toNat - 1]? = some s ∧ s.count ≠ 0 ∧ h.count a = s.count ∧ h.object? a = some s.object
        ∧ h.slot a = .ok s := by
  cases hs : h.slot a with
  | error f =>
    refine .inl ?_
    have hcount : h.count a = 0 := by
      by_cases ha : a = 0
      · simp [count, ha]
      · rw [count_of_ne ha]
        cases ht : h.slots[a.toNat - 1]? with
        | none => rfl
        | some t =>
          by_cases hc : t.count = 0
          · exact hc
          · rw [slot_eq_ok.2 ⟨ha, ht, hc⟩] at hs
            cases hs
    exact ⟨hcount, if_pos hcount, f, rfl⟩
  | ok s =>
    obtain ⟨ha, ht, hc⟩ := slot_eq_ok.1 hs
    have hcount : h.count a = s.count := by simp [count_of_ne ha, ht]
    exact .inr ⟨s, ha, ht, hc, hcount, by simp [object?, hcount, hc, ht], rfl⟩

theorem ref_cases {h' : Heap} (hr : h.ref a = .ok h') : (a = 0 ∧ h' = h) ∨ ∃ s, a ≠ 0
    ∧ h.slots[a.toNat - 1]? = some s ∧ s.count ≠ 0
    ∧ h' = { h with slots := h.slots.setIfInBounds (a.toNat - 1) { s with count := s.count + 1 } } := by
  by_cases ha : a = 0
  · subst ha
    cases hr
    exact .inl ⟨rfl, rfl⟩
  · obtain ⟨-, -, f, hs⟩ | ⟨s, -, hs, hc, -, -, hslot⟩ := h.slot_cases a
    · simp only [ref, ha, if_false, hs] at hr
      cases hr
    · rw [ref_of_slot ha hslot] at hr
      cases hr
      exact .inr ⟨s, ha, hs, hc, rfl⟩

theorem drop_cases {h' : Heap} (hd : h.drop a = .ok h') : (a = 0 ∧ h' = h) ∨ ∃ s, a ≠ 0
    ∧ h.slots[a.toNat - 1]? = some s ∧ s.count ≠ 0
    ∧ (s.count = 1 ∧ h' = { h with
          slots := h.slots.setIfInBounds (a.toNat - 1) ⟨0, .str []⟩
          free := (a.toNat - 1) :: h.free
          live := h.live - 1
          destroyed := h.destroyed + 1 }
      ∨ s.count ≠ 1
          ∧ h' = { h with slots := h.slots.setIfInBounds (a.toNat - 1) { s with count := s.count - 1 } }) := by
  by_cases ha : a = 0
  · subst ha
    cases hd
    exact .inl ⟨rfl, rfl⟩
  · obtain ⟨-, -, f, hs⟩ | ⟨s, -, hs, hc, -, -, hslot⟩ := h.slot_cases a
    · simp only [drop, ha, if_false, hs] at hd
      cases hd
    · refine .inr ⟨s, ha, hs, hc, ?_⟩
      by_cases hone : s.count = 1
      · rw [drop_of_last ha hslot hone] at hd
        cases hd
        exact .inl ⟨hone, rfl⟩
      · rw [drop_of_more ha hslot hone] at hd
        cases hd
        exact .inr ⟨hone, rfl⟩

/-- All that an accepted use can do. -/
inductive Change (h : Heap) : List Event → Heap → Prop
  | look : Change h [] h
  | made {x : Object} {a : UInt64} {h' : Heap} : h.alloc x = (a, h') → Change h [.made a] h'
  | ref {a : UInt64} {h' : Heap} : h.ref a = .ok h' → Change h [.ref a] h'
  | drop {a : UInt64} {h' : Heap} : h.drop a = .ok h' → Change h [.drop a] h'

theorem ref_fate (h : Heap) (a : UInt64) :
    (a ≠ 0 ∧ h.count a = 0) ∧ (∃ f, h.ref a = .error f) ∨ ¬ (a ≠ 0 ∧ h.count a = 0) ∧ ∃ h', h.ref a = .ok h' := by
  by_cases ha : a = 0
  · exact .inr ⟨by simp [ha], h, by simp [ref, ha]⟩
  · obtain ⟨hc, -, f, hs⟩ | ⟨s, -, hs, hc, hcount, -, hslot⟩ := h.slot_cases a
    · refine .inl ⟨⟨ha, hc⟩, f, ?_⟩
      simp only [ref, ha, if_false, hs]
      rfl
    · exact .inr ⟨by omega, _, ref_of_slot ha hslot⟩

theorem drop_fate (h : Heap) (a : UInt64) :
    (a ≠ 0 ∧ h.count a = 0) ∧ (∃ f, h.drop a = .error f) ∨ ¬ (a ≠ 0 ∧ h.count a = 0) ∧ ∃ h', h.drop a = .ok h' := by
  by_cases ha : a = 0
  · exact .inr ⟨by simp [ha], h, by simp [drop, ha]⟩
  · obtain ⟨hc, -, f, hs⟩ | ⟨s, -, hs, hc, hcount, -, hslot⟩ := h.slot_cases a
    · refine .inl ⟨⟨ha, hc⟩, f, ?_⟩
      simp only [drop, ha, if_false, hs]
      rfl
    · refine .inr ⟨by omega, ?_⟩
      by_cases hone : s.count = 1
      · exact ⟨_, drop_of_last ha hslot hone⟩
      · exact ⟨_, drop_of_more ha hslot hone⟩

theorem look_fate {α : Type} (h : Heap) (a : UInt64) {look : Except HeapFault α} (as : Object → Option α)
    (herror : ∀ f, h.slot a = .error f → look = .error f)
    (hnone : ∀ s, h.slot a = .ok s → as s.object = none → ∃ f, look = .error f)
    (hsome : ∀ s x, h.slot a = .ok s → as s.object = some x → look = .ok x) :
    (h.object? a).bind as = none ∧ (∃ f, look = .error f) ∨ (h.object? a).bind as ≠ none ∧ ∃ x, look = .ok x := by
  obtain ⟨-, ho, f, hs⟩ | ⟨s, -, -, -, -, ho, hs⟩ := h.slot_cases a
  · exact .inl ⟨by simp [ho], f, herror f hs⟩
  · rw [ho, Option.bind_some]
    cases hx : as s.object with
    | none => exact .inl ⟨rfl, hnone s hs hx⟩
    | some x => exact .inr ⟨by simp, x, hsome s x hs hx⟩

theorem sharedBytes_fate (h : Heap) (a : UInt64) :
    (h.object? a).bind (·.asStr?) = none ∧ (∃ f, h.sharedBytes a = .error f)
      ∨ (h.object? a).bind (·.asStr?) ≠ none ∧ ∃ s, h.sharedBytes a = .ok s := by
  refine h.look_fate a (·.asStr?) (fun f hs => ?_) (fun s hs hx => ⟨.notString, ?_⟩) fun s x hs hx => ?_
  · rw [sharedBytes, hs]
    rfl
  all_goals
    rw [sharedBytes, hs]
    dsimp only [Bind.bind, Except.bind]
    rw [hx]
    rfl

theorem map_fate (h : Heap) (k : Key) (v : Scalar) (a : UInt64) :
    (h.object? a).bind (·.asMap? k v) = none ∧ (∃ f, h.map k v a = .error f)
      ∨ (h.object? a).bind (·.asMap? k v) ≠ none ∧ ∃ e, h.map k v a = .ok e := by
  refine h.look_fate a (·.asMap? k v) (fun f hs => ?_) (fun s hs hx =>
    ⟨.notMap a s.object.kind, ?_⟩) fun s x hs hx => ?_
  · rw [map, hs]
    rfl
  all_goals
    rw [map, hs]
    dsimp only [Bind.bind, Except.bind]
    rw [hx]
    rfl

theorem keys_fate (h : Heap) (k : Key) (a : UInt64) :
    (h.object? a).bind (·.asKeys? k) = none ∧ (∃ f, h.keys k a = .error f)
      ∨ (h.object? a).bind (·.asKeys? k) ≠ none ∧ ∃ items, h.keys k a = .ok items := by
  refine h.look_fate a (·.asKeys? k) (fun f hs => ?_)
    (fun s hs hx => ⟨.notIterator a s.object.kind, ?_⟩) fun s x hs hx => ?_
  · rw [keys, hs]
    rfl
  all_goals
    rw [keys, hs]
    dsimp only [Bind.bind, Except.bind]
    rw [hx]
    rfl

theorem string_fate (h : Heap) (p : Packed) :
    h.Faulty (.string p) ∧ (∃ f, h.string p = .error f) ∨ ¬ h.Faulty (.string p) ∧ ∃ s, h.string p = .ok s := by
  simp only [Faulty, string, storage]
  cases hp : p.storage? with
  | none => exact .inl ⟨trivial, _, rfl⟩
  | some k =>
    cases k with
    | inline => exact .inr ⟨id, _, rfl⟩
    | literal =>
      cases hl : h.literals[p.lo.toNat]? with
      | none => exact .inl ⟨rfl, .noLiteral, rfl⟩
      | some s => exact .inr ⟨by simp, s, rfl⟩
    | shared => exact h.sharedBytes_fate p.lo

theorem strLen_fate (h : Heap) (p : Packed) :
    h.Faulty (.strLen p) ∧ (∃ f, h.strLen p = .error f) ∨ ¬ h.Faulty (.strLen p) ∧ ∃ n, h.strLen p = .ok n := by
  simp only [Faulty, strLen, storage]
  cases hp : p.storage? with
  | none => exact .inl ⟨trivial, _, rfl⟩
  | some k =>
    cases k with
    | inline => exact .inr ⟨id, _, rfl⟩
    | literal => exact .inr ⟨id, _, rfl⟩
    | shared =>
      obtain ⟨hf, f, hl⟩ | ⟨hf, x, hl⟩ := h.sharedBytes_fate p.lo
      · exact .inl ⟨hf, f, by simp only [hl]; rfl⟩
      · exact .inr ⟨hf, x.length, by simp only [hl]; rfl⟩

theorem use_cases (h : Heap) (u : Use) : h.Faulty u ∧ (∃ f, h.use u = .error f)
    ∨ ¬ h.Faulty u ∧ ∃ made h', h.use u = .ok (made, h') ∧ h.Change (u.events made) h'
      ∧ (made = none ∨ ∃ a, made = some a ∧ u.events made = [.made a]) := by
  cases u with
  | newStr s =>
    refine .inr ⟨id, ?_⟩
    by_cases hs : s.length ≤ Packed.maxInline
    · exact ⟨none, h, by simp [use, newStr, hs], .look, .inl rfl⟩
    · refine ⟨some (h.alloc (.str s)).1, (h.alloc (.str s)).2, ?_, .made rfl, .inr ⟨_, rfl, rfl⟩⟩
      simp only [use, newStr, hs, if_false, Packed.handle_shared]
  | newMap k v => exact .inr ⟨id, _, _, rfl, .made rfl, .inr ⟨_, rfl, rfl⟩⟩
  | newKeys k items => exact .inr ⟨id, _, _, rfl, .made rfl, .inr ⟨_, rfl, rfl⟩⟩
  | ref a =>
    obtain ⟨hf, f, hr⟩ | ⟨hf, h', hr⟩ := h.ref_fate a
    · exact .inl ⟨hf, f, by simp only [use, hr]; rfl⟩
    · exact .inr ⟨hf, none, h', by simp only [use, hr]; rfl, .ref hr, .inl rfl⟩
  | drop a =>
    obtain ⟨hf, f, hr⟩ | ⟨hf, h', hr⟩ := h.drop_fate a
    · exact .inl ⟨hf, f, by simp only [use, hr]; rfl⟩
    · exact .inr ⟨hf, none, h', by simp only [use, hr]; rfl, .drop hr, .inl rfl⟩
  | refStr p =>
    obtain ⟨hf, f, hr⟩ | ⟨hf, h', hr⟩ := h.ref_fate p.handle
    · exact .inl ⟨hf, f, by simp only [use, refStr, hr]; rfl⟩
    · exact .inr ⟨hf, none, h', by simp only [use, refStr, hr]; rfl, .ref hr, .inl rfl⟩
  | dropStr p =>
    obtain ⟨hf, f, hr⟩ | ⟨hf, h', hr⟩ := h.drop_fate p.handle
    · exact .inl ⟨hf, f, by simp only [use, dropStr, hr]; rfl⟩
    · exact .inr ⟨hf, none, h', by simp only [use, dropStr, hr]; rfl, .drop hr, .inl rfl⟩
  | map k v a =>
    obtain ⟨hf, f, hl⟩ | ⟨hf, x, hl⟩ := h.map_fate k v a
    · exact .inl ⟨hf, f, by simp only [use, hl]; rfl⟩
    · exact .inr ⟨hf, none, h, by simp only [use, hl]; rfl, .look, .inl rfl⟩
  | keys k a =>
    obtain ⟨hf, f, hl⟩ | ⟨hf, x, hl⟩ := h.keys_fate k a
    · exact .inl ⟨hf, f, by simp only [use, hl]; rfl⟩
    · exact .inr ⟨hf, none, h, by simp only [use, hl]; rfl, .look, .inl rfl⟩
  | string p =>
    obtain ⟨hf, f, hl⟩ | ⟨hf, x, hl⟩ := h.string_fate p
    · exact .inl ⟨hf, f, by simp only [use, hl]; rfl⟩
    · exact .inr ⟨hf, none, h, by simp only [use, hl]; rfl, .look, .inl rfl⟩
  | strLen p =>
    obtain ⟨hf, f, hl⟩ | ⟨hf, x, hl⟩ := h.strLen_fate p
    · exact .inl ⟨hf, f, by simp only [use, hl]; rfl⟩
    · exact .inr ⟨hf, none, h, by simp only [use, hl]; rfl, .look, .inl rfl⟩

/-! ## Histories -/

/-- The heap is what the history of its handles says. -/
structure Journaled (h : Heap) (es : List Event) : Prop where
  orderly : h.Orderly
  made : h.live + h.destroyed = es.countP Event.isMade
  balance : ∀ a, a ≠ 0 → h.count a ≠ 0 → .made a ∈ es
    ∧ h.count a + (since a es).count (.drop a) = 1 + (since a es).count (.ref a)

theorem Change.size_le {es : List Event} {h' : Heap} (c : h.Change es h') : h.slots.size ≤ h'.slots.size := by
  cases c with
  | look => exact Nat.le_refl _
  | made ha =>
    unfold alloc at ha
    split at ha <;> cases ha <;> simp
  | ref hr => obtain ⟨-, rfl⟩ | ⟨s, -, -, -, rfl⟩ := ref_cases hr <;> simp
  | drop hd => obtain ⟨-, rfl⟩ | ⟨s, -, -, -, ⟨-, rfl⟩ | ⟨-, rfl⟩⟩ := drop_cases hd <;> simp

@[simp] theorem since_made (a : UInt64) (es : List Event) : since a (.made a :: es) = [] := by simp [since]

theorem since_cons {a : UInt64} {e : Event} (he : e ≠ .made a) (es : List Event) :
    since a (e :: es) = e :: since a es := by
  simp [since, he]

theorem Journaled.change {es es' : List Event} {h' : Heap} (j : h.Journaled es) (c : h.Change es' h')
    (hsize : h'.slots.size < 2 ^ 64) : h'.Journaled (es' ++ es) := by
  cases c with
  | look => exact j
  | @made x a h' ha =>
    obtain ⟨i, h'', halloc, ho, hold, hslots, hlt, -, hlive, hdestroyed, -⟩ := j.orderly.alloc x
    cases halloc.symm.trans ha
    have hi : i + 1 < 2 ^ 64 := by omega
    have hcount : ∀ b, b ≠ 0 → b ≠ (i + 1).toUInt64 → h'.count b = h.count b := fun b hb hne => by
      have : b.toNat - 1 ≠ i := fun e =>
        hne (toNat_pred_inj hb (handle_ne_zero hi) (by rw [e, toNat_handle hi, Nat.add_sub_cancel]))
      rw [count_of_ne hb, count_of_ne hb, hslots, if_neg this]
    refine ⟨ho, ?_, fun b hb hb0 => ?_⟩
    · rw [List.singleton_append, List.countP_cons, ← j.made, hlive, hdestroyed]
      simp only [Event.isMade, if_true]
      omega
    · by_cases hne : b = (i + 1).toUInt64
      · subst hne
        refine ⟨by simp, ?_⟩
        rw [count_handle hi ((hslots i).trans (if_pos rfl)), List.singleton_append, since_made]
        rfl
      · rw [hcount b hb hne] at hb0 ⊢
        obtain ⟨hm, hbal⟩ := j.balance b hb hb0
        rw [List.singleton_append, since_cons (by simpa using Ne.symm hne)]
        exact ⟨List.mem_cons_of_mem _ hm, by simpa using hbal⟩
  | @ref a h' hr =>
    obtain ⟨rfl, rfl⟩ | ⟨s, ha, hs, hc, rfl⟩ := ref_cases hr
    · refine ⟨j.orderly, by simpa [Event.isMade] using j.made, fun b hb hb0 => ?_⟩
      obtain ⟨hm, hbal⟩ := j.balance b hb hb0
      rw [List.singleton_append, since_cons (by simp)]
      exact ⟨List.mem_cons_of_mem _ hm, by simpa [Ne.symm hb] using hbal⟩
    · refine ⟨j.orderly.recount hs hc (Nat.succ_ne_zero _), by simpa [Event.isMade] using j.made, fun b hb hb0 => ?_⟩
      rw [count_set ha hs rfl hb] at hb0 ⊢
      rw [List.singleton_append, since_cons (by simp)]
      by_cases hba : b = a
      · subst hba
        have hcount : h.count b = s.count := by simp [count_of_ne hb, hs]
        obtain ⟨hm, hbal⟩ := j.balance b hb (by omega)
        refine ⟨List.mem_cons_of_mem _ hm, ?_⟩
        simp only [if_true, List.count_cons_self, List.count_cons_of_ne (show Event.ref b ≠ .drop b by simp)]
        omega
      · rw [if_neg hba] at hb0 ⊢
        obtain ⟨hm, hbal⟩ := j.balance b hb hb0
        exact ⟨List.mem_cons_of_mem _ hm, by simpa [Ne.symm hba] using hbal⟩
  | @drop a h' hd =>
    obtain ⟨rfl, rfl⟩ | ⟨s, ha, hs, hc, hcase⟩ := drop_cases hd
    · refine ⟨j.orderly, by simpa [Event.isMade] using j.made, fun b hb hb0 => ?_⟩
      obtain ⟨hm, hbal⟩ := j.balance b hb hb0
      rw [List.singleton_append, since_cons (by simp)]
      exact ⟨List.mem_cons_of_mem _ hm, by simpa [Ne.symm hb] using hbal⟩
    · have hcount : h.count a = s.count := by simp [count_of_ne ha, hs]
      obtain ⟨hm, hbal⟩ := j.balance a ha (by omega)
      -- What is true of the other handles does not depend on whether the object goes.
      have hother : ∀ b, b ≠ 0 → b ≠ a → h.count b ≠ 0 → .made b ∈ [Event.drop a] ++ es
          ∧ h.count b + (since b ([.drop a] ++ es)).count (.drop b) = 1 + (since b ([.drop a] ++ es)).count
              (.ref b) := by
        intro b hb hba hb0
        obtain ⟨hm, hbal⟩ := j.balance b hb hb0
        rw [List.singleton_append, since_cons (by simp)]
        exact ⟨List.mem_cons_of_mem _ hm, by simpa [Ne.symm hba] using hbal⟩
      rcases hcase with ⟨hone, rfl⟩ | ⟨hmore, rfl⟩
      · have hpos := j.orderly.live_pos hs hc
        refine ⟨j.orderly.release hs hc rfl _, ?_, fun b hb hb0 => ?_⟩
        · have := j.made
          simp only [List.singleton_append, List.countP_cons, Event.isMade, Bool.false_eq_true, if_false]
          omega
        · rw [count_set ha hs rfl hb] at hb0 ⊢
          by_cases hba : b = a
          · simp [hba] at hb0
          · rw [if_neg hba] at hb0 ⊢
            exact hother b hb hba hb0
      · refine ⟨j.orderly.recount hs hc (by dsimp only; omega),
          by simpa [Event.isMade] using j.made, fun b hb hb0 => ?_⟩
        rw [count_set ha hs rfl hb] at hb0 ⊢
        by_cases hba : b = a
        · subst hba
          rw [List.singleton_append, since_cons (by simp)]
          refine ⟨List.mem_cons_of_mem _ hm, ?_⟩
          simp only [if_true, List.count_cons_self, List.count_cons_of_ne (show Event.drop b ≠ .ref b by simp)]
          omega
        · rw [if_neg hba] at hb0 ⊢
          exact hother b hb hba hb0

theorem size_le_record (st : Heap × List Event) (us : List Use) :
    st.1.slots.size ≤ (us.foldl record st).1.slots.size := by
  induction us generalizing st with
  | nil => exact Nat.le_refl _
  | cons u us ih =>
    obtain ⟨h, es⟩ := st
    refine Nat.le_trans ?_ (ih _)
    obtain ⟨-, f, hu⟩ | ⟨-, made, h', hu, hchange, -⟩ := h.use_cases u
    · simp [record, hu]
    · simpa only [record, hu] using hchange.size_le

theorem Journaled.uses {h : Heap} {es : List Event} (j : h.Journaled es) (us : List Use)
    (hsize : (us.foldl record (h, es)).1.slots.size < 2 ^ 64) :
    (us.foldl record (h, es)).1.Journaled (us.foldl record (h, es)).2 := by
  induction us generalizing h es with
  | nil => exact j
  | cons u us ih =>
    rw [List.foldl_cons] at hsize ⊢
    obtain ⟨-, f, hu⟩ | ⟨-, made, h', hu, hchange, -⟩ := h.use_cases u
    · simp only [record, hu] at hsize ⊢
      exact ih j hsize
    · simp only [record, hu] at hsize ⊢
      exact ih (j.change hchange (Nat.lt_of_le_of_lt (size_le_record (h', u.events made ++ es) us) hsize)) hsize

theorem Journaled.start (literals : List Bytes) : (ofLiterals literals).Journaled [] where
  orderly := .empty literals
  made := rfl
  balance a _ h0 := absurd (by simp [count, ofLiterals]) h0

theorem Journaled.fresh {es : List Event} {u : Use} {h' : Heap} (j : h.Journaled es) (hu : h.use u = .ok (some a, h'))
    (hsize : h'.slots.size < 2 ^ 64) : a ≠ 0 ∧ h.count a = 0 ∧ h'.count a = 1 := by
  obtain ⟨-, f, hu'⟩ | ⟨-, made, h'', hu', hchange, hmade⟩ := h.use_cases u
  · cases hu'.symm.trans hu
  · cases hu'.symm.trans hu
    obtain hmade | ⟨b, hb, hevents⟩ := hmade
    · cases hmade
    · cases hb
      rw [hevents] at hchange
      cases hchange with
      | made halloc =>
        obtain ⟨i, h'', halloc', -, hold, hslots, hlt, -⟩ := j.orderly.alloc _
        cases halloc'.symm.trans halloc
        have hi : i + 1 < 2 ^ 64 := by omega
        refine ⟨handle_ne_zero hi, ?_, count_handle hi ((hslots i).trans (if_pos rfl))⟩
        rw [count_of_ne (handle_ne_zero hi), toNat_handle hi, Nat.add_sub_cancel]
        cases hs : h.slots[i]? with
        | none => rfl
        | some s => exact hold s hs

/-- Giving back a reference destroys the object when it balances the making of the object and all
references taken since, and not otherwise. -/
theorem Journaled.destroys_iff {es : List Event} {h' : Heap} (j : h.Journaled es) (ha : a ≠ 0)
    (hd : h.drop a = .ok h') :
    (h'.count a = 0 ↔ 1 + (since a es).count (.ref a) = (since a es).count (.drop a) + 1)
      ∧ h'.destroyed = h.destroyed + if h'.count a = 0 then 1 else 0 := by
  obtain ⟨h0, -⟩ | ⟨s, -, hs, hc, hcase⟩ := drop_cases hd
  · exact absurd h0 ha
  · have hcount : h.count a = s.count := by simp [count_of_ne ha, hs]
    obtain ⟨-, hbal⟩ := j.balance a ha (by omega)
    rcases hcase with ⟨hone, rfl⟩ | ⟨hmore, rfl⟩
    · rw [count_set ha hs rfl ha, if_pos rfl]
      exact ⟨by simp only [true_iff]; omega, by simp⟩
    · rw [count_set ha hs rfl ha, if_pos rfl]
      have : s.count - 1 ≠ 0 := by omega
      exact ⟨by simp only [this, false_iff]; omega, by simp [this]⟩

/-- Whatever a heap was used for, its table is consistent. Handles are words, so a table has at most
`2 ^ 64 - 1` slots. -/
theorem table_consistent (literals : List Bytes) (us : List Use) {h : Heap} {es : List Event}
    (hrun : (ofLiterals literals).history us = (h, es)) (hsize : h.slots.size < 2 ^ 64) :
    (h.free.Nodup ∧ ∀ i, i ∈ h.free ↔ ∃ s, h.slots[i]? = some s ∧ s.count = 0)
      ∧ h.live = h.slots.countP (fun s => s.count ≠ 0)
      ∧ h.live + h.destroyed = es.countP Event.isMade
      ∧ (∀ u a h', h.use u = .ok (some a, h') → h'.slots.size < 2 ^ 64 → a ≠ 0 ∧ h.count a = 0 ∧ h'.count a = 1)
      ∧ (∀ a h', a ≠ 0 → h.drop a = .ok h' →
          (h'.count a = 0 ↔ 1 + (since a es).count (.ref a) = (since a es).count (.drop a) + 1)
            ∧ h'.destroyed = h.destroyed + if h'.count a = 0 then 1 else 0)
      ∧ ∀ u, ((∃ f, h.use u = .error f) ↔ h.Faulty u)
          ∧ ∀ f, h.use u = .error f → (ofLiterals literals).history (us ++ [u]) = (h, es) := by
  have hsize' : (us.foldl record (ofLiterals literals, [])).1.slots.size < 2 ^ 64 := by
    rw [show us.foldl record (ofLiterals literals, []) = (h, es) from hrun]
    exact hsize
  have j := (Journaled.start literals).uses us hsize'
  rw [show us.foldl record (ofLiterals literals, []) = (h, es) from hrun] at j
  refine ⟨⟨j.orderly.nodup, j.orderly.free⟩, j.orderly.live_eq, j.made, fun u a h' => j.fresh,
    fun a h' => j.destroys_iff, fun u => ⟨?_, fun f hu => ?_⟩⟩
  · obtain ⟨hf, hu⟩ | ⟨hf, made, h', hu, -⟩ := h.use_cases u
    · exact ⟨fun _ => hf, fun _ => hu⟩
    · refine ⟨fun ⟨f, hu'⟩ => ?_, fun hf' => absurd hf' hf⟩
      cases hu'.symm.trans hu
  · have hrun' : us.foldl record (ofLiterals literals, []) = (h, es) := hrun
    simp only [history, List.foldl_append, hrun', List.foldl_cons, List.foldl_nil, record, hu]

/-- A map is released, its handle used once too often, and its slot given to a list of keys. -/
def recycling : List Use :=
  [.newMap .int .str, .ref 1, .drop 1, .drop 1, .drop 1, .newKeys .int [], .newStr (List.replicate 16 65),
    .ref 2, .drop 2]

/-- The first handle is a list of keys by now, and the second one is about to be released. -/
theorem table_consistent_recycling :
    ((ofLiterals []).history recycling).1.slots.size < 2 ^ 64
      ∧ ((ofLiterals []).history recycling).1.live = 2
      ∧ ((ofLiterals []).history recycling).1.live + ((ofLiterals []).history recycling).1.destroyed = 3
      ∧ (∃ h', ((ofLiterals []).history recycling).1.drop 2 = .ok h' ∧ h'.count 2 = 0)
      ∧ (ofLiterals []).history (recycling ++ [.map .int .str 1]) = (ofLiterals []).history recycling := by
  have hsize : ((ofLiterals []).history recycling).1.slots.size < 2 ^ 64 := by decide +kernel
  obtain ⟨-, hlive, hmade, -, hdrop, hrefused⟩ :=
    table_consistent [] recycling (Prod.eta ((ofLiterals []).history recycling)).symm hsize
  refine ⟨hsize, hlive.trans (by decide +kernel), hmade.trans (by decide +kernel), ?_, ?_⟩
  · have hcount : ((ofLiterals []).history recycling).1.count 2 = 1 := by decide +kernel
    obtain ⟨hf, -⟩ | ⟨-, h', hd⟩ := ((ofLiterals []).history recycling).1.drop_fate 2
    · rw [hcount] at hf
      exact absurd hf.2 (by decide)
    · exact ⟨h', hd, (hdrop 2 h' (by decide) hd).1.2 (by decide +kernel)⟩
  · have hfaulty : ((ofLiterals []).history recycling).1.Faulty (.map .int .str 1) := by
      show ((((ofLiterals []).history recycling).1.object? 1).bind (·.asMap? .int .str)) = none
      exact Option.isNone_iff_eq_none.1 (by decide +kernel)
    obtain ⟨f, hf⟩ := (hrefused (.map .int .str 1)).1.2 hfaulty
    exact (hrefused (.map .int .str 1)).2 f hf

end Heap

end RecordMill

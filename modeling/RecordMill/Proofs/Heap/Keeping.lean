import RecordMill.Proofs.Heap.Packing

/-!
# Strings that are kept

A packed string stands for the same bytes as long as fewer references to it are given back than were
taken, the first one included. What else is done with the heap does not matter, and slots may be used
again as often as they are released.
-/

namespace RecordMill

namespace Packed

variable {s : Bytes} {i : Nat}

theorem isEmpty_inline (h : s.length ≤ maxInline) : (inline s).isEmpty = true ↔ s = [] := by
  simp only [isEmpty, storage_inline h, beq_iff_eq]
  rw [← UInt64.toNat_inj, toNat_tag_inline h]
  exact List.length_eq_zero_iff

theorem isEmpty_literal (h : maxInline < s.length) (hs : s.length < 2 ^ 56) : (literal i s).isEmpty = false := by
  have hmax : maxInline = 15 := rfl
  simp only [isEmpty, storage_literal h, beq_eq_false_iff_ne, ne_eq]
  intro h0
  have hlen := congrArg UInt64.toNat h0
  rw [UInt64.toNat_and, toNat_hi_literal h] at hlen
  have hmask : (s.length % 2 ^ 56 + 2 ^ 56 * 64) &&& (2 ^ 56 - 1) = s.length := by
    rw [Nat.and_two_pow_sub_one_eq_mod]
    omega
  have : s.length = 0 := hmask.symm.trans hlen
  omega

theorem isEmpty_shared (a : UInt64) : (shared a).isEmpty = false := by simp only [isEmpty, storage_shared]

end Packed

namespace Heap

/-! ## What is done with a heap -/

/-- A use of the heap, or a change of the entries of a map. -/
inductive Deed where
  | use (u : Use)
  | update (k : Key) (v : Scalar) (a : UInt64) (f : Entries k v → Entries k v)

/-- The references that a deed takes and gives back. -/
def Deed.events : Deed → List Event
  | .use u => u.events none
  | .update .. => []

def Deed.apply (h : Heap) : Deed → Heap
  | .use u => match h.use u with
    | .ok (_, h') => h'
    | .error _ => h
  | .update k v a f => match h.updateMap k v a f with
    | .ok h' => h'
    | .error _ => h

def after (h : Heap) (ds : List Deed) : Heap := ds.foldl Deed.apply h

/-- Of `n` references at the start one is always left. -/
def HeldFrom (a : UInt64) (n : Nat) (ds : List Deed) : Prop :=
  ∀ k, ((ds.take k).flatMap Deed.events).count (.drop a) < n + ((ds.take k).flatMap Deed.events).count (.ref a)

/-- The references given back stay fewer than one plus those taken. -/
abbrev Held (a : UInt64) (ds : List Deed) : Prop := HeldFrom a 1 ds

instance (a : UInt64) (n : Nat) (ds : List Deed) : Decidable (HeldFrom a n ds) :=
  decidable_of_iff (∀ k < ds.length + 1,
      ((ds.take k).flatMap Deed.events).count (.drop a) < n + ((ds.take k).flatMap Deed.events).count (.ref a)) <| by
    constructor
    · intro h k
      have hmin := h (min k ds.length) (by omega)
      rwa [← List.take_eq_take_min] at hmin
    · exact fun h k _ => h k

theorem HeldFrom.pos {a : UInt64} {n : Nat} {ds : List Deed} (h : HeldFrom a n ds) : 0 < n := by simpa using h 0

theorem HeldFrom.head {a : UInt64} {n : Nat} {d : Deed} {ds : List Deed} (h : HeldFrom a n (d :: ds)) :
    d.events.count (.drop a) < n + d.events.count (.ref a) := by simpa using h 1

theorem HeldFrom.tail {a : UInt64} {n : Nat} {d : Deed} {ds : List Deed} (h : HeldFrom a n (d :: ds)) :
    HeldFrom a (n + d.events.count (.ref a) - d.events.count (.drop a)) ds := fun k => by
  have hk := h (k + 1)
  have hhead := h.head
  simp only [List.take_succ_cons, List.flatMap_cons, List.count_append] at hk
  omega

/-! ## The slot of a string -/

variable {h h' : Heap} {a : UInt64} {s : Bytes} {n : Nat} {es : List Event}

/-- The handle `a` names the string `s`, which has `n` references. -/
structure Keeps (h : Heap) (a : UInt64) (s : Bytes) (n : Nat) : Prop where
  orderly : h.Orderly
  ne_zero : a ≠ 0
  slot : h.slots[a.toNat - 1]? = some ⟨n, .str s⟩

theorem Keeps.count (k : h.Keeps a s n) : h.count a = n := by simp [count_of_ne k.ne_zero, k.slot]

theorem Keeps.sharedBytes (k : h.Keeps a s n) (hn : 0 < n) : h.sharedBytes a = .ok s := by
  have hslot : h.slot a = .ok ⟨n, .str s⟩ := slot_eq_ok.2 ⟨k.ne_zero, k.slot, by dsimp only; omega⟩
  simp only [Heap.sharedBytes, hslot]
  rfl

theorem Change.orderly (o : h.Orderly) (c : h.Change es h') : h'.Orderly := by
  cases c with
  | look => exact o
  | made ha =>
    obtain ⟨i, h'', halloc, ho, -⟩ := o.alloc _
    cases halloc.symm.trans ha
    exact ho
  | ref hr =>
    obtain ⟨-, rfl⟩ | ⟨t, -, ht, hc, rfl⟩ := ref_cases hr
    · exact o
    · exact o.recount ht hc (Nat.succ_ne_zero _)
  | drop hd =>
    obtain ⟨-, rfl⟩ | ⟨t, -, ht, hc, ⟨-, rfl⟩ | ⟨hmore, rfl⟩⟩ := drop_cases hd
    · exact o
    · exact o.release ht hc rfl _
    · exact o.recount ht hc (by dsimp only; omega)

theorem Change.literals (c : h.Change es h') : h'.literals = h.literals := by
  cases c with
  | look => rfl
  | made ha =>
    unfold alloc at ha
    split at ha <;> cases ha <;> rfl
  | ref hr => obtain ⟨-, rfl⟩ | ⟨t, -, -, -, rfl⟩ := ref_cases hr <;> rfl
  | drop hd => obtain ⟨-, rfl⟩ | ⟨t, -, -, -, ⟨-, rfl⟩ | ⟨-, rfl⟩⟩ := drop_cases hd <;> rfl

theorem Keeps.change (k : h.Keeps a s n) (hn : 0 < n) (c : h.Change es h')
    (hlt : es.count (.drop a) < n + es.count (.ref a)) :
    h'.Keeps a s (n + es.count (.ref a) - es.count (.drop a)) := by
  have hother : ∀ {b : UInt64}, b ≠ 0 → b ≠ a → b.toNat - 1 ≠ a.toNat - 1 := fun hb hba e =>
    hba (toNat_pred_inj hb k.ne_zero e)
  obtain ⟨hlen, -⟩ := Array.getElem?_eq_some_iff.1 k.slot
  refine ⟨c.orderly k.orderly, k.ne_zero, ?_⟩
  cases c with
  | look => exact k.slot
  | made ha =>
    -- A new object goes to a slot without a count.
    obtain ⟨i, h'', halloc, -, hold, hslots, -⟩ := k.orderly.alloc _
    cases halloc.symm.trans ha
    have hi : a.toNat - 1 ≠ i := fun e => by
      have := hold _ (e ▸ k.slot)
      dsimp only at this
      omega
    rw [hslots, if_neg hi]
    simpa using k.slot
  | @ref b h' hr =>
    obtain ⟨rfl, rfl⟩ | ⟨t, hb, ht, hc, rfl⟩ := ref_cases hr
    · have : Event.ref 0 ≠ .ref a := fun e => k.ne_zero (by cases e; rfl)
      simpa [this] using k.slot
    · by_cases hba : b = a
      · subst hba
        cases ht.symm.trans k.slot
        simp [hlen]
      · simpa [hba, hother hb hba] using k.slot
  | @drop b h' hd =>
    obtain ⟨rfl, rfl⟩ | ⟨t, hb, ht, hc, hcase⟩ := drop_cases hd
    · have : Event.drop 0 ≠ .drop a := fun e => k.ne_zero (by cases e; rfl)
      simpa [this] using k.slot
    · by_cases hba : b = a
      · subst hba
        cases ht.symm.trans k.slot
        obtain ⟨hone, -⟩ | ⟨-, rfl⟩ := hcase
        · simp only [List.count_cons_self, List.count_nil,
            List.count_cons_of_ne (show Event.drop b ≠ .ref b by simp)] at hlt
          dsimp only at hone
          omega
        · simp [hlen]
      · obtain ⟨-, rfl⟩ | ⟨-, rfl⟩ := hcase <;> simpa [hba, hother hb hba] using k.slot

theorem count_events_of_faulty {u : Use} (hf : h.Faulty u) (hc : h.count a ≠ 0) :
    (u.events none).count (.ref a) = 0 ∧ (u.events none).count (.drop a) = 0 := by
  have hne : ∀ {b : UInt64}, h.count b = 0 → b ≠ a := fun hb e => hc (e ▸ hb)
  cases u with
  | ref b => simp [Use.events, hne hf.2]
  | drop b => simp [Use.events, hne hf.2]
  | refStr p => simp [Use.events, hne hf.2]
  | dropStr p => simp [Use.events, hne hf.2]
  | _ => exact ⟨rfl, rfl⟩

theorem count_events (u : Use) (made : Option UInt64) (a : UInt64) :
    (u.events made).count (.ref a) = (u.events none).count (.ref a)
      ∧ (u.events made).count (.drop a) = (u.events none).count (.drop a) := by
  cases u with
  | ref | drop | refStr | dropStr => exact ⟨rfl, rfl⟩
  | _ => cases made <;> simp [Use.events]

theorem updateMap_cases {k : Key} {v : Scalar} {b : UInt64} {f : Entries k v → Entries k v}
    (hu : h.updateMap k v b f = .ok h') :
    ∃ t m, b ≠ 0 ∧ h.slots[b.toNat - 1]? = some t ∧ t.object.asMap? k v = some m ∧ h' = h.setMap k v b (f m) := by
  unfold updateMap at hu
  cases hm : h.map k v b with
  | error e =>
    rw [hm] at hu
    cases hu
  | ok m =>
    rw [hm] at hu
    cases hu
    unfold map at hm
    cases hs : h.slot b with
    | error e =>
      rw [hs] at hm
      cases hm
    | ok t =>
      rw [hs] at hm
      dsimp only [Bind.bind, Except.bind] at hm
      obtain ⟨hb, ht, -⟩ := slot_eq_ok.1 hs
      cases hobject : t.object.asMap? k v with
      | none =>
        rw [hobject] at hm
        cases hm
      | some m' =>
        rw [hobject] at hm
        cases hm
        exact ⟨t, m, hb, ht, hobject, rfl⟩

theorem slots_setMap (h : Heap) (k : Key) (v : Scalar) (b : UInt64) (m : Entries k v) (j : Nat) :
    (h.setMap k v b m).slots[j]?
      = (h.slots[j]?).map fun s => if b.toNat - 1 = j then { s with object := .map k v m } else s := by
  simp only [setMap, Array.getElem?_modify]
  by_cases hj : b.toNat - 1 = j
  · simp [hj]
  · simp [hj]

theorem Orderly.setMap (o : h.Orderly) (k : Key) (v : Scalar) (b : UInt64) (m : Entries k v) :
    (h.setMap k v b m).Orderly :=
  o.congr rfl rfl (by simp [Heap.setMap]) fun j => by
    rw [slots_setMap, Option.map_map]
    congr 1
    funext t
    dsimp only [Function.comp_apply]
    split <;> rfl

theorem Keeps.apply (k : h.Keeps a s n) (hn : 0 < n) (d : Deed)
    (hlt : d.events.count (.drop a) < n + d.events.count (.ref a)) :
    (d.apply h).Keeps a s (n + d.events.count (.ref a) - d.events.count (.drop a)) := by
  cases d with
  | use u =>
    obtain ⟨hf, f, hu⟩ | ⟨-, made, h', hu, hchange, -⟩ := h.use_cases u
    · obtain ⟨href, hdrop⟩ := count_events_of_faulty hf (a := a) (by rw [k.count]; omega)
      simp only [Deed.apply, Deed.events, hu, href, hdrop]
      exact k
    · obtain ⟨href, hdrop⟩ := count_events u made a
      simp only [Deed.apply, Deed.events, hu] at hlt ⊢
      rw [← href, ← hdrop] at hlt ⊢
      exact k.change hn hchange hlt
  | update kk v b f =>
    simp only [Deed.apply, Deed.events, List.count_nil, Nat.add_zero, Nat.sub_zero]
    cases hu : h.updateMap kk v b f with
    | error e => exact k
    | ok h' =>
      obtain ⟨t, m, hb, ht, hm, rfl⟩ := updateMap_cases hu
      have hba : b.toNat - 1 ≠ a.toNat - 1 := fun e => by
        cases (e ▸ ht).symm.trans k.slot
        cases hm
      refine ⟨k.orderly.setMap .., k.ne_zero, ?_⟩
      rw [slots_setMap, k.slot]
      simp [hba]

theorem Keeps.after (k : h.Keeps a s n) {ds : List Deed} (hds : HeldFrom a n ds) :
    ∃ m, 0 < m ∧ (h.after ds).Keeps a s m := by
  induction ds generalizing h n with
  | nil => exact ⟨n, hds.pos, k⟩
  | cons d ds ih => exact ih (k.apply hds.pos d hds.head) hds.tail

theorem apply_cases (h : Heap) (d : Deed) :
    d.apply h = h ∨ (∃ es, h.Change es (d.apply h)) ∨ ∃ k v b m, d.apply h = h.setMap k v b m := by
  cases d with
  | use u =>
    obtain ⟨-, f, hu⟩ | ⟨-, made, h', hu, hchange, -⟩ := h.use_cases u
    · exact .inl (by simp only [Deed.apply, hu])
    · exact .inr (.inl ⟨_, by simpa only [Deed.apply, hu] using hchange⟩)
  | update k v b f =>
    cases hu : h.updateMap k v b f with
    | error e => exact .inl (by simp only [Deed.apply, hu])
    | ok h' =>
      obtain ⟨t, m, -, -, -, rfl⟩ := updateMap_cases hu
      exact .inr (.inr ⟨k, v, b, f m, by simp only [Deed.apply, hu]⟩)

theorem literals_after (h : Heap) (ds : List Deed) : (h.after ds).literals = h.literals := by
  induction ds generalizing h with
  | nil => rfl
  | cons d ds ih =>
    refine (ih _).trans ?_
    obtain hd | ⟨es, hd⟩ | ⟨k, v, b, m, hd⟩ := h.apply_cases d
    · rw [hd]
    · exact hd.literals
    · rw [hd]
      rfl

theorem Orderly.after (o : h.Orderly) (ds : List Deed) : (h.after ds).Orderly := by
  induction ds generalizing h with
  | nil => exact o
  | cons d ds ih =>
    refine ih ?_
    obtain hd | ⟨es, hd⟩ | ⟨k, v, b, m, hd⟩ := h.apply_cases d
    · rwa [hd]
    · exact hd.orderly o
    · rw [hd]
      exact o.setMap k v b m

/-! ## Packed strings -/

/-- Where a packed string comes from. -/
inductive Origin where
  | made
  | literal (i : Nat)

def pack (h : Heap) (s : Bytes) : Origin → Packed × Heap
  | .made => h.newStr s
  | .literal i => (Packed.literal i s, h)

/-- A literal has its index in the table, and words are wide enough for it and for its length. A new
string leaves as many slots as there are handles. -/
def CanPack (h : Heap) (s : Bytes) : Origin → Prop
  | .made => (h.newStr s).2.slots.size < 2 ^ 64
  | .literal i => h.literals[i]? = some s ∧ i < 2 ^ 64 ∧ s.length < 2 ^ 56

def Origin.storage (s : Bytes) : Origin → Storage
  | .made => if s.length ≤ Packed.maxInline then .inline else .shared
  | .literal _ => if s.length ≤ Packed.maxInline then .inline else .literal

variable {p : Packed} {from_ : Origin}

theorem storage_pack (hcan : h.CanPack s from_) : (h.pack s from_).1.storage? = some (from_.storage s) := by
  by_cases hs : s.length ≤ Packed.maxInline
  · cases from_ <;> simp only [pack, newStr, Packed.literal, Origin.storage, hs, if_true, Packed.storage_inline]
  · cases from_ with
    | made => simp only [pack, newStr, Origin.storage, hs, if_false, Packed.storage_shared]
    | literal i =>
      simp only [pack, Origin.storage, hs, if_false]
      exact Packed.storage_literal (by omega)

theorem isEmpty_pack (hcan : h.CanPack s from_) : (h.pack s from_).1.isEmpty = true ↔ s = [] := by
  by_cases hs : s.length ≤ Packed.maxInline
  · cases from_ <;> simp only [pack, newStr, Packed.literal, hs, if_true, Packed.isEmpty_inline]
  · have hne : s ≠ [] := fun e => hs (by simp [e])
    cases from_ with
    | made => simp only [pack, newStr, hs, if_false, Packed.isEmpty_shared, hne, Bool.false_eq_true]
    | literal i =>
      simp [pack, Packed.isEmpty_literal (i := i) (show Packed.maxInline < s.length by omega) hcan.2.2, hne]

theorem pack_short (h : Heap) (hs : s.length ≤ Packed.maxInline) (from_ : Origin) :
    h.pack s from_ = (Packed.inline s, h) := by
  cases from_ <;> simp only [pack, newStr, Packed.literal, hs, if_true]

theorem pack_made (o : h.Orderly) (hs : ¬ s.length ≤ Packed.maxInline) (hcan : h.CanPack s .made) :
    ∃ a, (h.pack s .made).1 = Packed.shared a ∧ (h.pack s .made).2.Keeps a s 1 := by
  obtain ⟨i, h', halloc, ho, -, hslots, hlt, -⟩ := o.alloc (.str s)
  simp only [CanPack, newStr, hs, if_false, halloc] at hcan
  have hi : i + 1 < 2 ^ 64 := by omega
  refine ⟨(i + 1).toUInt64, by simp only [pack, newStr, hs, if_false, halloc], ?_⟩
  simp only [pack, newStr, hs, if_false, halloc]
  exact ⟨ho, handle_ne_zero hi, by rw [toNat_handle hi, Nat.add_sub_cancel, hslots, if_pos rfl]⟩

/-- A packed string can be had back, whatever was done since, as long as it was not given back. -/
theorem unpack (o : h.Orderly) (hcan : h.CanPack s from_) {ds : List Deed}
    (hheld : (h.pack s from_).1.handle ≠ 0 → Held (h.pack s from_).1.handle ds) :
    ∃ Γ, (h.pack s from_).1.Stands ((h.pack s from_).2.after ds).literals Γ s
      ∧ ((h.pack s from_).1.storage? = some .shared →
          ((h.pack s from_).2.after ds).sharedBytes (h.pack s from_).1.lo = .ok s) := by
  by_cases hs : s.length ≤ Packed.maxInline
  · rw [pack_short h hs, Packed.storage_inline hs]
    exact ⟨fun _ => none, Packed.stands_inline hs, by simp⟩
  · cases from_ with
    | literal i =>
      obtain ⟨hl, hi, hlen⟩ := hcan
      refine ⟨fun _ => none, ?_, ?_⟩
      · rw [literals_after]
        exact Packed.stands_literal hi hlen hl
      · rw [pack, Packed.storage_literal (by omega)]
        simp
    | made =>
      obtain ⟨a, hp, k⟩ := pack_made o hs hcan
      rw [hp, Packed.handle_shared] at hheld
      obtain ⟨n, hn, kept⟩ := k.after (hheld k.ne_zero)
      rw [hp]
      exact ⟨fun _ => some (.str s), Packed.stands_shared k.ne_zero rfl, fun _ => kept.sharedBytes hn⟩

/-- A packed string decodes to what was packed, for as long as it is owned: whatever came before and
whatever comes after, other slots being used again included, as long as the references to it that were given
back stay fewer than one plus those that were taken. -/
theorem packed_string_kept (literals : List Bytes) (before later : List Deed) (s : Bytes) (from_ : Origin) {h h' : Heap}
    {p : Packed} (hbefore : (ofLiterals literals).after before = h) (hcan : h.CanPack s from_)
    (hpack : h.pack s from_ = (p, h')) (hheld : p.handle ≠ 0 → Held p.handle later) :
    (h'.after later).string p = .ok s
      ∧ (h'.after later).strLen p = .ok s.length
      ∧ (p.isEmpty = true ↔ s = [])
      ∧ storage p = .ok (from_.storage s)
      ∧ (s.length ≤ 15 → p.handle = 0 ∧ h' = h) := by
  have o : h.Orderly := hbefore ▸ (Orderly.empty literals).after before
  obtain rfl : (h.pack s from_).1 = p := congrArg Prod.fst hpack
  obtain rfl : (h.pack s from_).2 = h' := congrArg Prod.snd hpack
  obtain ⟨Γ, hstands, hshared⟩ := unpack o hcan hheld
  refine ⟨hstands.string hshared, hstands.strLen hshared, isEmpty_pack hcan, ?_, fun hs => ?_⟩
  · simp only [storage, storage_pack hcan]
  · rw [pack_short h hs]
    exact ⟨Packed.handle_inline hs, rfl⟩

def sixteen : Bytes := List.replicate 16 65

/-- Slot 1 was used before, and slot 2 is used again while the string lives. -/
theorem packed_string_kept_recycling :
    let before : List Deed := [.use (.newMap .int .str), .use (.newKeys .str []), .use (.drop 1)]
    let later : List Deed := [.use (.ref 1), .use (.drop 2), .use (.drop 2), .use (.dropStr (.shared 1)),
      .use (.newMap .str .int), .update .str .int 2 (·.insert [66] 7), .update .str .int 1 (·.insert [66] 7),
        .use (.newStr sixteen)]
    let h := (ofLiterals []).after before
    (h.newStr sixteen).1.handle = 1 ∧ ((h.newStr sixteen).2.after later).live = 3
      ∧ ((h.newStr sixteen).2.after later).string (h.newStr sixteen).1 = .ok sixteen := by
  intro before later h
  refine ⟨by decide +kernel, by decide +kernel, ?_⟩
  exact (packed_string_kept [] before later sixteen .made rfl
    (show (h.newStr sixteen).2.slots.size < 2 ^ 64 by decide +kernel) (Prod.eta (h.newStr sixteen)).symm
      (fun _ => by decide +kernel)).1

end Heap

end RecordMill

/-! ## How counts change

A reference taken or given back changes one count by one, and nothing but these and new objects changes counts. -/

namespace RecordMill.Heap

variable {h h' : Heap} {a b : UInt64}

/-- How often `b` is meant. -/
def one (a b : UInt64) : Nat := if a = b then 1 else 0

theorem count_ref (hr : h.ref a = .ok h') (hb : b ≠ 0) : h'.count b = h.count b + one a b := by
  obtain ⟨rfl, rfl⟩ | ⟨s, ha, hs, hc, rfl⟩ := ref_cases hr
  · simp [one, Ne.symm hb]
  · rw [count_set ha hs rfl hb]
    by_cases hab : b = a
    · subst hab
      simp [one, count_of_ne hb, hs]
    · simp [one, hab, Ne.symm hab]

theorem count_drop (hd : h.drop a = .ok h') (hb : b ≠ 0) : h'.count b + one a b = h.count b := by
  obtain ⟨rfl, rfl⟩ | ⟨s, ha, hs, hc, hcases⟩ := drop_cases hd
  · simp [one, Ne.symm hb]
  · have hslots : ∃ t, h'.slots = h.slots.setIfInBounds (a.toNat - 1) t ∧ t.count + 1 = s.count := by
      obtain ⟨hone, rfl⟩ | ⟨-, rfl⟩ := hcases
      · exact ⟨_, rfl, hone.symm⟩
      · exact ⟨_, rfl, by dsimp only; omega⟩
    obtain ⟨t, ht, hcount⟩ := hslots
    rw [count_set ha hs ht hb]
    by_cases hab : b = a
    · subst hab
      simp [one, count_of_ne hb, hs, hcount]
    · simp [one, hab, Ne.symm hab]

/-- As long as there are not too many slots for the words, a new object has a handle that was not in use. -/
theorem count_alloc {x : Object} (o : h.Orderly) (ha : h.alloc x = (a, h')) (hsize : h'.slots.size < UInt64.size)
    (hb : b ≠ 0) :
    h'.count b = h.count b + one a b := by
  obtain ⟨i, h'', halloc, -, hfree, hslots, hlt, -⟩ := o.alloc x
  obtain ⟨rfl, rfl⟩ : (i + 1).toUInt64 = a ∧ h'' = h' := by
    rw [ha] at halloc
    exact ⟨congrArg Prod.fst halloc.symm, congrArg Prod.snd halloc.symm⟩
  have hi : i + 1 < 2 ^ 64 := Nat.lt_of_le_of_lt hlt hsize
  rw [count_of_ne hb, count_of_ne hb, hslots]
  by_cases hat : b.toNat - 1 = i
  · have hbi : (i + 1).toUInt64 = b := by
      refine toNat_pred_inj (handle_ne_zero hi) hb ?_
      rw [toNat_handle hi, hat, Nat.add_sub_cancel]
    rw [if_pos hat, hat, one, if_pos hbi]
    cases hs : h.slots[i]? with
    | none => rfl
    | some s => simp [hfree s hs]
  · have hbi : (i + 1).toUInt64 ≠ b := by
      rintro rfl
      rw [toNat_handle hi] at hat
      exact hat (Nat.add_sub_cancel ..)
    rw [if_neg hat, one, if_neg hbi, Nat.add_zero]

theorem count_newStr {s : Bytes} {p : Packed} (o : h.Orderly) (hp : h.newStr s = (p, h'))
    (hsize : h'.slots.size < UInt64.size) (hb : b ≠ 0) : h'.count b = h.count b + one p.handle b := by
  unfold newStr at hp
  split at hp
  · next hshort =>
    cases hp
    rw [Packed.handle_inline hshort]
    simp [one, Ne.symm hb]
  · rcases ha : h.alloc (.str s) with ⟨a, h''⟩
    rw [ha] at hp
    cases hp
    rw [Packed.handle_shared]
    exact count_alloc o ha hsize hb

theorem count_updateMap {k : Key} {v : Scalar} {f : Entries k v → Entries k v} (hu : h.updateMap k v a f = .ok h') :
    h'.count b = h.count b := by
  obtain ⟨t, m, -, -, -, rfl⟩ := updateMap_cases hu
  by_cases hb : b = 0
  · simp [count, hb]
  · rw [count_of_ne hb, count_of_ne hb, slots_setMap, Option.map_map]
    congr 2
    funext s
    dsimp only [Function.comp_apply]
    split <;> rfl

theorem size_ref (hr : h.ref a = .ok h') : h'.slots.size = h.slots.size := by
  obtain ⟨rfl, rfl⟩ | ⟨s, -, -, -, rfl⟩ := ref_cases hr
  · rfl
  · exact Array.size_setIfInBounds

theorem size_drop (hd : h.drop a = .ok h') : h'.slots.size = h.slots.size := by
  obtain ⟨rfl, rfl⟩ | ⟨s, -, -, -, ⟨-, rfl⟩ | ⟨-, rfl⟩⟩ := drop_cases hd
  · rfl
  · exact Array.size_setIfInBounds
  · exact Array.size_setIfInBounds

/-! ## Objects that live on -/

/-- The object of `a` is in use before and after, and is the same. -/
def Outlives (h h' : Heap) (a : UInt64) : Prop := ∃ x, h.object? a = some x ∧ h'.object? a = some x

theorem object?_eq_some {x : Object} :
    h.object? a = some x ↔ h.count a ≠ 0 ∧ (h.slots[a.toNat - 1]?).map (·.object) = some x := by
  unfold object?
  split <;> simp [*]

theorem Outlives.count_ne_zero (hlives : h.Outlives h' a) : h.count a ≠ 0 := by
  obtain ⟨x, hx, -⟩ := hlives
  exact (object?_eq_some.1 hx).1

theorem Outlives.count_after_ne_zero (hlives : h.Outlives h' a) : h'.count a ≠ 0 := by
  obtain ⟨x, -, hx⟩ := hlives
  exact (object?_eq_some.1 hx).1

theorem Outlives.trans {h'' : Heap} (hfirst : h.Outlives h' a) (hthen : h'.Outlives h'' a) : h.Outlives h'' a := by
  obtain ⟨x, hx, hx'⟩ := hfirst
  obtain ⟨y, hy, hy'⟩ := hthen
  obtain rfl := Option.some.inj (hx'.symm.trans hy)
  exact ⟨x, hx, hy'⟩

theorem outlives_of_slots (hb : h.count b ≠ 0) (hb' : h'.count b ≠ 0)
    (hsame : (h'.slots[b.toNat - 1]?).map (·.object) = (h.slots[b.toNat - 1]?).map (·.object)) : h.Outlives h' b := by
  obtain ⟨hzero, -⟩ | ⟨s, -, hs, -, -, hx⟩ := h.slot_cases b
  · exact absurd hzero hb
  · exact ⟨s.object, hx.1, object?_eq_some.2 ⟨hb', by rw [hsame, hs]; rfl⟩⟩

theorem outlives_refl (hb : h.count b ≠ 0) : h.Outlives h b := outlives_of_slots hb hb rfl

theorem ne_zero_of_count (hb : h.count b ≠ 0) : b ≠ 0 := fun e => hb (if_pos e)

theorem map_object_set {slots : Array Slot} {i : Nat} {s : Slot} (hs : slots[i]? = some s) (n j : Nat) :
    ((slots.setIfInBounds i { s with count := n })[j]?).map (·.object) = (slots[j]?).map (·.object) := by
  rw [Array.getElem?_setIfInBounds]
  split
  · next heq =>
    obtain ⟨hlt, -⟩ := Array.getElem?_eq_some_iff.1 hs
    rw [← heq, if_pos hlt, hs, Option.map_some, Option.map_some]
  · rfl

theorem outlives_ref (hr : h.ref a = .ok h') (hb : h'.count b ≠ 0) : h.Outlives h' b := by
  have hcount := count_ref hr (ne_zero_of_count hb)
  obtain ⟨rfl, rfl⟩ | ⟨s, ha, hs, hc, rfl⟩ := ref_cases hr
  · exact outlives_refl hb
  · refine outlives_of_slots (fun hzero => ?_) hb (map_object_set hs _ _)
    have hab : a = b := by
      by_contra hne
      rw [one, if_neg hne] at hcount
      exact hb (hcount.trans (by omega))
    rw [← hab, count_of_ne ha, hs] at hzero
    exact hc hzero

theorem outlives_drop (hd : h.drop a = .ok h') (hb : h'.count b ≠ 0) : h.Outlives h' b := by
  have hcount := count_drop hd (ne_zero_of_count hb)
  refine outlives_of_slots (by omega) hb ?_
  obtain ⟨rfl, rfl⟩ | ⟨s, ha, hs, hc, ⟨hone, rfl⟩ | ⟨-, rfl⟩⟩ := drop_cases hd
  · rfl
  · have hne : a ≠ b := by
      rintro rfl
      have hold : h.count a = 1 := by rw [count_of_ne ha, hs, Option.map_some, Option.getD_some, hone]
      rw [one, if_pos rfl] at hcount
      omega
    rw [Array.getElem?_setIfInBounds, if_neg fun heq => hne (toNat_pred_inj ha (ne_zero_of_count hb) heq)]
  · exact map_object_set hs _ _

theorem outlives_alloc {x : Object} (o : h.Orderly) (ha : h.alloc x = (a, h')) (hb : h.count b ≠ 0) :
    h.Outlives h' b := by
  obtain ⟨i, h'', halloc, -, hfree, hslots, -⟩ := o.alloc x
  obtain rfl : h'' = h' := by
    rw [ha] at halloc
    exact congrArg Prod.snd halloc.symm
  have hb₀ := ne_zero_of_count hb
  have hne : b.toNat - 1 ≠ i := by
    rintro rfl
    rw [count_of_ne hb₀] at hb
    cases hs : h.slots[b.toNat - 1]? with
    | none => simp [hs] at hb
    | some s => simp [hs, hfree s hs] at hb
  have hsame : h''.slots[b.toNat - 1]? = h.slots[b.toNat - 1]? := (hslots _).trans (if_neg hne)
  refine outlives_of_slots hb ?_ (by rw [hsame])
  rwa [count_of_ne hb₀, hsame, ← count_of_ne hb₀]

end RecordMill.Heap

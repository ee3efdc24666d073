import RecordMill.Proofs.Record.Contract

/-!
# References for owners

Where a step of the context succeeds, each owner still has its reference, and so has what the step gives. A service that
does not count references by itself never leaves an owner without one. -/

namespace RecordMill

open Heap (one)

def Ty.handle : Ty → List UInt64 → UInt64
  | .str, [lo, hi] => (⟨lo, hi⟩ : Packed).handle
  | .map .., [a] => a
  | _, _ => 0

/-! ## The context -/

/-- Besides those of the built-in variables there is a reference for each owner in `l`. A handle is only as good as a
word, so that the table must not have outgrown it. -/
structure Context.Affords (c : Context) (l : List UInt64) : Prop where
  orderly : c.heap.Orderly
  count : c.heap.slots.size < UInt64.size → ∀ a, a ≠ 0 → c.owners.count a + l.count a ≤ c.heap.count a

namespace Context.Affords

variable {c c' : Context} {l l' : List UInt64} {a : UInt64} {heap : Heap}

theorem mono (h : c.Affords l) (hl : ∀ a, a ≠ 0 → l'.count a ≤ l.count a) : c.Affords l' :=
  ⟨h.orderly, fun hsize a ha => Nat.le_trans (Nat.add_le_add_left (hl a ha) _) (h.count hsize a ha)⟩

theorem perm (h : c.Affords l) (hl : l'.Perm l) : c.Affords l' := h.mono fun a _ => Nat.le_of_eq (hl.count_eq a)

theorem tail (h : c.Affords (a :: l)) : c.Affords l := h.mono fun _ _ => List.count_le_count_cons

theorem zero (h : c.Affords l) : c.Affords (0 :: l) := h.mono fun _ ha => Nat.le_of_eq (List.count_cons_of_ne ha.symm)

theorem books (h : c.Affords l) (hsize : c.heap.slots.size < UInt64.size) :
    ∃ held, c.Books held ∧ ∀ a, a ≠ 0 → l.count a ≤ held a := by
  refine ⟨fun a => c.heap.count a - c.owners.count a, ⟨h.orderly, fun a ha => ?_⟩, fun a ha => ?_⟩
  · have hcount := h.count hsize a ha
    omega
  · have hcount := h.count hsize a ha
    dsimp only
    omega

theorem of_books {held : UInt64 → Nat} (h : c.Books held) (hl : ∀ a, a ≠ 0 → l.count a ≤ held a) : c.Affords l :=
  ⟨h.orderly, fun _ a ha => by have hcount := h.count a ha; have hle := hl a ha; omega⟩

theorem count_cons (a b : UInt64) (l : List UInt64) : (a :: l).count b = l.count b + one a b := by
  rw [List.count_cons]
  simp only [one, beq_iff_eq]

theorem count_ne_zero (h : c.Affords l) (hsize : c.heap.slots.size < UInt64.size) (ha : a ≠ 0) (hmem : a ∈ l) :
    c.heap.count a ≠ 0 := by
  have hcount := h.count hsize a ha
  have hpos := List.count_pos_iff.2 hmem
  omega

theorem exists_ref (h : c.Affords l) (hsize : c.heap.slots.size < UInt64.size) (ha : a ≠ 0 → a ∈ l) :
    ∃ heap, c.heap.ref a = .ok heap := by
  obtain ⟨⟨hne, hzero⟩, -⟩ | ⟨-, heap, hr⟩ := c.heap.ref_fate a
  · exact absurd hzero (h.count_ne_zero hsize hne (ha hne))
  · exact ⟨heap, hr⟩

theorem exists_drop (h : c.Affords l) (hsize : c.heap.slots.size < UInt64.size) (ha : a ≠ 0 → a ∈ l) :
    ∃ heap, c.heap.drop a = .ok heap := by
  obtain ⟨⟨hne, hzero⟩, -⟩ | ⟨-, heap, hd⟩ := c.heap.drop_fate a
  · exact absurd hzero (h.count_ne_zero hsize hne (ha hne))
  · exact ⟨heap, hd⟩

theorem ref (h : c.Affords l) (hr : c.heap.ref a = .ok heap) : ({ c with heap } : Context).Affords (a :: l) := by
  have hsize : c.heap.slots.size ≤ heap.slots.size := Heap.Change.size_le (.ref hr)
  refine ⟨Heap.Change.orderly h.orderly (.ref hr), fun hroom b hb => ?_⟩
  have hcount := h.count (Nat.lt_of_le_of_lt hsize hroom) b hb
  have href := Heap.count_ref hr hb
  rw [count_cons]
  show c.owners.count b + _ ≤ heap.count b
  omega

theorem drop (h : c.Affords (a :: l)) (hd : c.heap.drop a = .ok heap) : ({ c with heap } : Context).Affords l := by
  have hsize : c.heap.slots.size ≤ heap.slots.size := Heap.Change.size_le (.drop hd)
  refine ⟨Heap.Change.orderly h.orderly (.drop hd), fun hroom b hb => ?_⟩
  have hcount := h.count (Nat.lt_of_le_of_lt hsize hroom) b hb
  have hdrop := Heap.count_drop hd hb
  rw [count_cons] at hcount
  show c.owners.count b + _ ≤ heap.count b
  omega

end Context.Affords

/-! ## Steps of the context -/

namespace Act

variable {α β : Type} {x : Act α} {f : α → Act β} {owned : α → UInt64}

theorem change_eq_ok {g : Heap → Except HeapFault Heap} {c c' : Context} (h : change g c = (.ok (), c')) :
    ∃ heap, g c.heap = .ok heap ∧ c' = { c with heap } := by
  cases hg : g c.heap with
  | error e =>
    rw [change, bind_error (look_error hg)] at h
    cases h
  | ok heap =>
    rw [change_ok hg] at h
    cases h
    exact ⟨heap, rfl, rfl⟩

/-- Where the step succeeds, there is a reference for its result as well. -/
structure Grants (x : Act α) (owned : α → UInt64) : Prop where
  affords : ∀ {c c' : Context} {a : α} {l : List UInt64}, x c = (.ok a, c') → c.Affords l → c'.Affords (owned a :: l)

namespace Grants

theorem of_settles [hx : Deeds x] (h : Settles x owned) : Grants x owned := by
  constructor
  intro c c' a l hrun hc
  have hreach := hx.reaches c
  rw [hrun] at hreach
  refine ⟨hreach.orderly hc.orderly, fun hroom b hb => ?_⟩
  obtain ⟨held, hbooks, hheld⟩ := hc.books (Nat.lt_of_le_of_lt hreach.size_le hroom)
  have hafter := h.books hbooks (by rwa [hrun])
  rw [hrun] at hafter
  have hcount : c'.heap.count b = c'.owners.count b + also (owned a) held b := hafter.count b hb
  have hle := hheld b hb
  rw [Context.Affords.count_cons]
  unfold also at hcount
  omega

theorem of_same [Deeds x] [Along SameCounts x] : Grants x fun _ => 0 := of_settles (.of_same inferInstance)

theorem pure {a : α} (h : owned a = 0) : Grants (pure a) owned := by
  constructor
  rintro c _ _ l ⟨⟩ hc
  rw [h]
  exact hc.zero

theorem bind {owned' : β → UInt64} (hx : Grants x owned) (hf : ∀ a, Grants (f a) owned') : Grants (x >>= f) owned' := by
  constructor
  intro c c' b l hrun hc
  obtain ⟨a, c₁, hfirst, hrest⟩ := bind_eq_ok hrun
  exact (hf a).affords hrest (hx.affords hfirst hc).tail

theorem map {g : α → β} {owned' : β → UInt64} (hx : Grants x owned) (hg : ∀ a, owned' (g a) = owned a) :
    Grants (do return g (← x)) owned' := by
  constructor
  intro c c' b l hrun hc
  obtain ⟨a, c₁, hfirst, hrest⟩ := bind_eq_ok hrun
  cases hrest
  rw [hg]
  exact hx.affords hfirst hc

theorem ofPacked {x : Act Packed} (hx : Grants x Packed.handle) :
    Grants (do return Service.ofPacked (← x)) (Ty.handle .str) :=
  hx.map fun _ => rfl

theorem newStr (s : Bytes) : Grants (newStr s) Packed.handle := of_settles (.newStr s)

theorem allocate (o : Object) (k : Key) (v : Scalar) :
    Grants (Service.allocate (·.alloc o)) (Ty.handle (.map k v)) := by
  constructor
  intro c c' ws l hrun hc
  rcases hmade : c.heap.alloc o with ⟨a, heap⟩
  have heq : Service.allocate (·.alloc o) c = (.ok [(c.heap.alloc o).1], { c with heap := (c.heap.alloc o).2 }) := rfl
  rw [heq, hmade] at hrun
  cases hrun
  have hsize : c.heap.slots.size ≤ heap.slots.size := Heap.Change.size_le (.made hmade)
  refine ⟨Heap.Change.orderly hc.orderly (.made hmade), fun hroom b hb => ?_⟩
  have hcount := hc.count (Nat.lt_of_le_of_lt hsize hroom) b hb
  have hmore := Heap.count_alloc hc.orderly hmade hroom hb
  rw [Context.Affords.count_cons]
  show c.owners.count b + (l.count b + one a b) ≤ heap.count b
  omega

theorem reread {x : Act α} {g : α → Heap → Except HeapFault Heap} {f : α → List UInt64} {ty : Ty}
    [Deeds x] [Along SameCounts x] (hg : ∀ a heap, g a heap = heap.ref (ty.handle (f a))) :
    Grants (do
      let a ← x
      change (g a)
      return f a) ty.handle := by
  constructor
  intro c c' ws l hrun hc
  obtain ⟨a, c₁, hread, hrun⟩ := bind_eq_ok hrun
  obtain ⟨_, c₂, hchange, hrun⟩ := bind_eq_ok hrun
  cases hrun
  obtain ⟨heap, href, rfl⟩ := change_eq_ok hchange
  exact ((of_same.affords hread hc).tail).ref (hg a c₁.heap ▸ href)

instance (s : Packed) (m : UInt64) (p : Packed) : Along SameCounts (splitInt s m p) :=
  inferInstanceAs (Along SameCounts (splitInto .int Int64.ofNat s m p))

instance (s : Packed) (m : UInt64) (p : Packed) : Along SameCounts (splitStr s m p) :=
  inferInstanceAs (Along SameCounts (splitInto .str Bytes.decimal s m p))

end Grants

end Act

/-! ## Services -/

namespace Service

open Act (Grants)
open Machine (HostM)

/-- The type as which the caller owns the result of a service; a list of keys goes for a map. -/
def granted : Service → Ty
  | .intToStr | .floatToStr | .concat | .getColumn | .readFileLine | .loadStr => .str
  | .loadMap => .map .int .str
  | .iterGet k => k.ty
  | .map k v what => match what with
    | .alloc | .iterBegin => .map k v
    | .lookup => v.ty
    | _ => .null
  | _ => .null

def isCount : Service → Bool
  | .refStr | .dropStr | .ref | .drop => true
  | _ => false

theorem grants_giveKey (k : Key) (x : k.Carrier) : Grants (giveKey k x) (granted (.iterGet k)).handle := by
  cases k with
  | int => exact .pure rfl
  | str => exact (Grants.newStr x).ofPacked

theorem grants_giveScalar (k : Key) (v : Scalar) (x : v.Carrier) :
    Grants (giveScalar v x) (granted (.map k v .lookup)).handle := by
  cases v with
  | int => exact .pure rfl
  | float => exact .pure rfl
  | str => exact (Grants.newStr x).ofPacked

instance (k : Key) (args : List UInt64) : Act.Along SameCounts (takeKey k args) := by
  unfold takeKey
  split <;> infer_instance

instance (v : Scalar) (args : List UInt64) : Act.Along SameCounts (takeScalar v args) := by
  unfold takeScalar
  split <;> infer_instance

theorem grants_onMap (k : Key) (v : Scalar) (m : UInt64) (rest : List UInt64) (what : MapService) :
    Grants (onMap k v m rest what) (granted (.map k v what)).handle := by
  cases what with
  | alloc => exact .allocate (.map k v ∅) k v
  | lookup => exact .bind .of_same fun _ => .bind .of_same fun _ => grants_giveScalar k v _
  | insert => exact .bind .of_same fun _ => .bind .of_same fun _ => .bind .of_same fun _ => .pure rfl
  | contains | delete => exact .bind .of_same fun _ => .bind .of_same fun _ => .pure rfl
  | len => exact .bind .of_same fun _ => .pure rfl
  | iterBegin => exact .bind .of_same fun entries => .allocate (.keys k entries.keys.toArray) k v

theorem grants_keyAt (k : Key) (iter : UInt64) (pos : Int64) :
    Grants (keyAt k iter pos) (granted (.iterGet k)).handle :=
  .bind .of_same fun _ => grants_giveKey k _

/-- Where a string cannot be stored, the call fails. -/
theorem grants_storeStr (v : Variable) (s : Packed) : Grants (Act.storeStr v s) fun _ => 0 := by
  by_cases hv : v.ty = .str
  · exact .of_settles (Act.settles_storeStr hv s)
  · constructor
    intro c c' a l hrun hc
    obtain ⟨_, c₁, -, hrest⟩ := Act.bind_eq_ok hrun
    obtain ⟨old, c₂, hload, -⟩ := Act.bind_eq_ok hrest
    cases v <;> first | exact absurd rfl hv | cases hload

/-- Where the host function succeeds, there is a reference for its result as well. -/
structure Affords (x : HostM Context (List UInt64)) (ty : Ty) : Prop where
  result : ∀ {out out' : Machine.Outside Context} {rs : List UInt64} {l : List UInt64}, x out = (.ok rs, out') →
    out.host.Affords l →
    out'.host.Affords (ty.handle rs :: l)

theorem Affords.misfit {ty : Ty} : Affords misfit ty := ⟨fun hrun => by cases hrun⟩

theorem Affords.pure {ty : Ty} {ws : List UInt64} (h : ty.handle ws = 0) : Affords (Pure.pure ws) ty := by
  constructor
  rintro out _ _ l ⟨⟩ hc
  rw [h]
  exact hc.zero

theorem Affords.lift {ty : Ty} {x : Act (List UInt64)} (h : Grants x ty.handle) : Affords (Service.lift x) ty := by
  constructor
  rintro ⟨m, c⟩ out' rs l hrun hc
  rw [lift_apply] at hrun
  rcases hx : x c with ⟨e | ws, c'⟩ <;> rw [hx] at hrun <;> cases hrun
  exact h.affords hx hc

theorem affords_perform {s : Service} (hs : s.isCount = false) (hm : s.readsMemory = false) (args : List UInt64) :
    Affords (perform s args) s.granted := by
  fun_cases perform s args <;> first
    | with_reducible exact .misfit
    | (with_reducible refine .pure ?_) <;> rfl
    | with_reducible exact .lift (Grants.newStr _).ofPacked
    | with_reducible exact .lift (Grants.of_settles (Act.settles_concat _ _)).ofPacked
    | with_reducible exact .lift (Grants.of_settles (Act.settles_column _)).ofPacked
    | (with_reducible refine .lift (.bind .of_same fun _ => .pure ?_)) <;> rfl
    | (with_reducible refine .lift (.bind (.of_settles Act.settles_nextLine) fun _ => .pure ?_)) <;> rfl
    | (with_reducible refine .lift (.bind (.of_settles (Act.settles_storeMap _ _)) fun _ => .pure ?_)) <;> rfl
    | (with_reducible refine .lift (.bind (grants_storeStr _ _) fun _ => .pure ?_)) <;> rfl
    | (with_reducible refine .lift ((Grants.of_settles (Act.settles_readFileLine _)).map fun _ => ?_)) <;> rfl
    | exact .lift (grants_keyAt _ _ _)
    | exact .lift (grants_onMap _ _ _ _ _)
    | (with_reducible refine .lift (.reread fun _ _ => ?_)) <;> rfl
    | exact absurd hs (by decide)
    | exact absurd hm (by decide)

end Service

end RecordMill

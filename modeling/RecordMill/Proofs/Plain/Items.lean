import RecordMill.Proofs.Heap.Packing

/-!
# Values in words

An item is a value together with the words that hold it in some place. A heap backs some items when the
words of each stand for its value and the count of every handle is the number of items that have it.
-/

namespace RecordMill

open Plain (Val Table)

inductive Item where
  | reg (ty : Ty) (x : Val) (ws : List UInt64)
  /-- An iterator, by the handle of its list of keys and the index of the next one. -/
  | iter (k : Key) (c : Option Plain.Cursor) (handle position : UInt64)

namespace Item

abbrev null : Item := .reg .null (.int 0) [0]

abbrev int (n : Int64) : Item := .reg .int (.int n) [n.toUInt64]

abbrev float (w : UInt64) : Item := .reg .float (.float w) [w]

abbrev str (s : Bytes) (p : Packed) : Item := .reg .str (.str s) [p.lo, p.hi]

abbrev map (k : Key) (v : Scalar) (ref : Nat) (a : UInt64) : Item := .reg (.map k v) (.map ref) [a]

def handle : Item → UInt64
  | .reg .str _ [lo, hi] => (⟨lo, hi⟩ : Packed).handle
  | .reg (.map ..) _ [a] => a
  | .reg .. => 0
  | .iter _ _ a _ => a

@[simp] theorem handle_str (s : Bytes) (p : Packed) : (str s p).handle = p.handle := rfl

@[simp] theorem handle_map (k : Key) (v : Scalar) (ref : Nat) (a : UInt64) : (map k v ref a).handle = a := rfl

theorem handle_reg {ty : Ty} (h : ty.isHeap = false) (x : Val) (ws : List UInt64) : (reg ty x ws).handle = 0 := by
  cases ty <;> first | rfl | cases h

inductive Stands (L : Array Bytes) (Γ : Meaning) : Item → Prop
  | null : Stands L Γ .null
  | int (n : Int64) : Stands L Γ (.int n)
  | float (w : UInt64) : Stands L Γ (.float w)
  | str {s : Bytes} {lo hi : UInt64} : (⟨lo, hi⟩ : Packed).Stands L Γ s → Stands L Γ (.reg .str (.str s) [lo, hi])
  | map {k : Key} {v : Scalar} {ref : Nat} {a : UInt64} :
    a ≠ 0 → Γ a = some (.map k v ref) → Stands L Γ (.map k v ref a)
  | idle (k : Key) (position : UInt64) : Stands L Γ (.iter k none 0 position)
  | keys {k : Key} {items : List k.Carrier} {position : Int64} {a : UInt64} : a ≠ 0 → Γ a = some (.keys k items) →
      Stands L Γ (.iter k (some ⟨k, items, position⟩) a position.toUInt64)

variable {L : Array Bytes} {Γ Γ' : Meaning} {x : Item}

theorem Stands.mono (h : x.Stands L Γ) (hΓ : Γ' x.handle = Γ x.handle) : x.Stands L Γ' := by
  cases h with
  | null => exact .null
  | int n => exact .int n
  | float w => exact .float w
  | str h => exact .str (h.mono hΓ)
  | map ha h => exact .map ha (hΓ.trans h)
  | idle k position => exact .idle k position
  | keys ha h => exact .keys ha (hΓ.trans h)

theorem Stands.any (h : x.Stands L Γ) (hx : x.handle = 0) (Γ' : Meaning) : x.Stands L Γ' := by
  cases h with
  | null => exact .null
  | int n => exact .int n
  | float w => exact .float w
  | idle k position => exact .idle k position
  | map ha => exact absurd hx ha
  | keys ha => exact absurd hx ha
  | @str s lo hi h =>
    refine .str ?_
    unfold Packed.Stands at h ⊢
    split
    · next hs => rwa [hs] at h
    · next hs => rwa [hs] at h
    · next hs =>
      rw [hs] at h
      exact absurd ((Packed.handle_of_storage hs).symm.trans hx) h.1
    · next hs => rwa [hs] at h

def Swap (old new : Item) (items items' : List Item) :
    Prop :=
  ∃ l₁ l₂, items = l₁ ++ old :: l₂ ∧ items' = l₁ ++ new :: l₂

namespace Swap

variable {old new : Item} {items items' : List Item}

theorem append_left (h : Swap old new items items') (l : List Item) : Swap old new (l ++ items) (l ++ items') := by
  obtain ⟨a, b, rfl, rfl⟩ := h
  exact ⟨l ++ a, b, by simp, by simp⟩

theorem append_right (h : Swap old new items items') (l : List Item) : Swap old new (items ++ l) (items' ++ l) := by
  obtain ⟨a, b, rfl, rfl⟩ := h
  exact ⟨a, b ++ l, by simp, by simp⟩

theorem map {α : Type} {f g : α → Item} {as : List α} {a : α} (ha : a ∈ as) (has : as.Nodup)
    (h : ∀ b ∈ as, b ≠ a → g b = f b) :
    Swap (f a) (g a) (as.map f) (as.map g) := by
  obtain ⟨l₁, l₂, rfl⟩ := List.append_of_mem ha
  have hnot : a ∉ l₁ ++ l₂ := (List.nodup_cons.1 (List.perm_middle.nodup_iff.1 has)).1
  have hsame : ∀ l, l ⊆ l₁ ++ l₂ → l.map g = l.map f := fun l hl => List.map_congr_left fun b hb =>
    h b (List.perm_middle.mem_iff.2 (.tail _ (hl hb))) fun e => hnot (e ▸ hl hb)
  refine ⟨l₁.map f, l₂.map f, by simp, ?_⟩
  rw [List.map_append, List.map_cons, hsame l₁ (List.subset_append_left ..), hsame l₂ (List.subset_append_right ..)]

theorem mem (h : Swap old new items items') : old ∈ items := by
  obtain ⟨l₁, l₂, rfl, -⟩ := h
  simp

end Swap

end Item

/-- The heap has exactly the objects that some items need. -/
structure Heap.Backs (h : Heap) (L : Array Bytes) (T : Array Table) (items : List Item) : Prop where
  literals : h.literals = L
  ledger : ∃ Γ, h.Ledger Γ T (items.map Item.handle) ∧ ∀ x ∈ items, x.Stands L Γ

namespace Heap.Backs

variable {h : Heap} {L : Array Bytes} {T : Array Table} {items items' : List Item} {x : Item}

theorem congr (b : h.Backs L T items)
    (hcount : ∀ a, a ≠ 0 → (items'.map Item.handle).count a = (items.map Item.handle).count a)
    (hnew : ∀ x ∈ items', x ∈ items ∨ ∀ Γ, x.Stands L Γ) : h.Backs L T items' := by
  obtain ⟨hL, Γ, l, hs⟩ := b
  exact ⟨hL, Γ, l.congr hcount, fun x hx => (hnew x hx).elim (hs x) (fun h => h Γ)⟩

theorem perm (b : h.Backs L T items) (hp : items'.Perm items) : h.Backs L T items' :=
  b.congr (fun a _ => (hp.map _).count_eq a) fun _ hx => .inl (hp.mem_iff.1 hx)

theorem cons (b : h.Backs L T items) (hx : x.handle = 0) (hs : ∀ Γ, x.Stands L Γ) : h.Backs L T (x :: items) := by
  refine b.congr (fun a ha => ?_) fun y hy => ?_
  · rw [List.map_cons, hx]
    exact List.count_cons_of_ne ha.symm
  · rcases List.mem_cons.1 hy with rfl | hy
    · exact .inr hs
    · exact .inl hy

theorem uncons (b : h.Backs L T (x :: items)) (hx : x.handle = 0) : h.Backs L T items := by
  refine b.congr (fun a ha => ?_) fun y hy => .inl (List.mem_cons_of_mem _ hy)
  rw [List.map_cons, hx]
  exact (List.count_cons_of_ne ha.symm).symm

theorem again (b : h.Backs L T items) (hx : x ∈ items) (h0 : x.handle = 0) : h.Backs L T (x :: items) := by
  obtain ⟨-, Γ, -, hs⟩ := id b
  exact b.cons h0 ((hs x hx).any h0)

theorem mem_handle (hx : x ∈ items) : x.handle ∈ items.map Item.handle := List.mem_map_of_mem hx

theorem ref (b : h.Backs L T items) (hx : x ∈ items) : ∃ h', h.ref x.handle = .ok h' ∧ h'.Backs L T (x :: items) := by
  obtain ⟨hL, Γ, l, hs⟩ := b
  obtain ⟨h', href, l', hlits⟩ := l.ref (.inr (mem_handle hx))
  refine ⟨h', href, hlits.trans hL, Γ, l', fun y hy => ?_⟩
  rcases List.mem_cons.1 hy with rfl | hy
  · exact hs _ hx
  · exact hs _ hy

theorem drop (b : h.Backs L T (x :: items)) : ∃ h', h.drop x.handle = .ok h' ∧ h'.Backs L T items := by
  obtain ⟨hL, Γ, l, hs⟩ := b
  obtain ⟨h', hdrop, l', hlits⟩ := l.drop
  exact ⟨h', hdrop, hlits.trans hL, Γ, l', fun y hy => hs y (List.mem_cons_of_mem _ hy)⟩

theorem swap {old new : Item} (b : h.Backs L T (new :: items)) (hs : Item.Swap old new items items') :
    h.Backs L T (old :: items') := by
  obtain ⟨l₁, l₂, rfl, rfl⟩ := hs
  refine b.perm ?_
  calc (old :: (l₁ ++ new :: l₂)).Perm (old :: new :: (l₁ ++ l₂)) := List.perm_middle.cons old
    _ |>.Perm (new :: old :: (l₁ ++ l₂)) := .swap ..
    _ |>.Perm (new :: (l₁ ++ old :: l₂)) := List.perm_middle.symm.cons new

theorem live_eq_zero (b : h.Backs L T []) : h.live = 0 := by
  obtain ⟨-, Γ, l, -⟩ := b
  exact l.live_eq_zero

/-! ## Reading -/

theorem stands (b : h.Backs L T items) (hx : x ∈ items) : ∃ Γ, x.Stands L Γ := by
  obtain ⟨-, Γ, -, hs⟩ := b
  exact ⟨Γ, hs x hx⟩

theorem null {v : Val} {ws : List UInt64} (b : h.Backs L T items) (hx : .reg .null v ws ∈ items) :
    v = .int 0 ∧ ws = [0] := by
  obtain ⟨Γ, hs⟩ := b.stands hx
  cases hs
  exact ⟨rfl, rfl⟩

theorem int {v : Val} {ws : List UInt64} (b : h.Backs L T items) (hx : .reg .int v ws ∈ items) :
    ∃ n : Int64, v = .int n ∧ ws = [n.toUInt64] := by
  obtain ⟨Γ, hs⟩ := b.stands hx
  cases hs
  exact ⟨_, rfl, rfl⟩

theorem float {v : Val} {ws : List UInt64} (b : h.Backs L T items) (hx : .reg .float v ws ∈ items) :
    ∃ w : UInt64, v = .float w ∧ ws = [w] := by
  obtain ⟨Γ, hs⟩ := b.stands hx
  cases hs
  exact ⟨_, rfl, rfl⟩

theorem str {v : Val} {ws : List UInt64} (b : h.Backs L T items) (hx : .reg .str v ws ∈ items) :
    ∃ (s : Bytes) (p : Packed), v = .str s ∧ ws = [p.lo, p.hi] := by
  obtain ⟨Γ, hs⟩ := b.stands hx
  cases hs with
  | @str s lo hi h => exact ⟨s, ⟨lo, hi⟩, rfl, rfl⟩

theorem map {k : Key} {v : Scalar} {y : Val} {ws : List UInt64} (b : h.Backs L T items)
    (hx : .reg (.map k v) y ws ∈ items) :
    ∃ ref a, y = .map ref ∧ ws = [a] := by
  obtain ⟨Γ, hs⟩ := b.stands hx
  cases hs
  exact ⟨_, _, rfl, rfl⟩

theorem iter {k : Key} {c : Option Plain.Cursor} {a w : UInt64} (b : h.Backs L T items) (hx : .iter k c a w ∈ items) :
    (c = none ∧ a = 0) ∨ ∃ (keys : List k.Carrier) (position : Int64), c = some ⟨k, keys, position⟩
      ∧ w = position.toUInt64
      ∧ h.keys k a = .ok keys.toArray := by
  obtain ⟨-, Γ, l, hs⟩ := b
  have hm := mem_handle hx
  cases hs _ hx with
  | idle => exact .inl ⟨rfl, rfl⟩
  | keys ha hΓ => exact .inr ⟨_, _, rfl, rfl, l.keys hm ha hΓ⟩

theorem string {s : Bytes} {p : Packed} (b : h.Backs L T items) (hx : .str s p ∈ items) : h.string p = .ok s := by
  obtain ⟨rfl, Γ, l, hs⟩ := b
  cases hs _ hx with
  | str hp => exact l.string hp (.inr (mem_handle hx))

theorem strLen {s : Bytes} {p : Packed} (b : h.Backs L T items) (hx : .str s p ∈ items) :
    h.strLen p = .ok s.length := by
  obtain ⟨rfl, Γ, l, hs⟩ := b
  cases hs _ hx with
  | str hp => exact l.strLen hp (.inr (mem_handle hx))

theorem entries {k : Key} {v : Scalar} {ref : Nat} {a : UInt64} (b : h.Backs L T items) (hx : .map k v ref a ∈ items) :
    ∃ e, T[ref]? = some ⟨k, v, e⟩ ∧ h.map k v a = .ok e := by
  obtain ⟨-, Γ, l, hs⟩ := b
  have hm := mem_handle hx
  cases hs _ hx with
  | map ha hΓ => exact l.map hm ha hΓ

/-! ## New objects -/

theorem newStr (b : h.Backs L T items) (hlen : items.length < maxOwners) (s : Bytes) :
    ∃ p h', h.newStr s = (p, h') ∧ h'.Backs L T (.str s p :: items) := by
  obtain ⟨rfl, Γ, l, hs⟩ := b
  obtain ⟨p, h', Γ', hnew, l', hp, hsame, hlits⟩ := l.newStr (by simpa using hlen) s
  refine ⟨p, h', hnew, hlits, Γ', l', fun y hy => ?_⟩
  rcases List.mem_cons.1 hy with rfl | hy
  · exact .str (hlits ▸ hp)
  · exact (hs y hy).mono (hsame _ (mem_handle hy))

theorem alloc (b : h.Backs L T items) (hlen : items.length < maxOwners) {o : Object} {c : Content} {U : Array Table}
    (hT : ∀ {r : Nat} {t : Table}, T[r]? = some t → U[r]? = some t) (hc : c.Models U o)
    (hnew : ∀ k v r, c = .map k v r → T[r]? = none) {x : UInt64 → Item} (hhandle : ∀ a, (x a).handle = a)
    (hx : ∀ a Γ, a ≠ 0 → Γ a = some c → (x a).Stands L Γ) :
    ∃ a h', h.alloc o = (a, h') ∧ h'.Backs L U (x a :: items) := by
  obtain ⟨rfl, Γ, l, hs⟩ := b
  obtain ⟨a, h', halloc, ha, hnot, l', hlits⟩ := l.alloc (by simpa using hlen) hT hc hnew
  refine ⟨a, h', halloc, hlits, Γ.set a c, by rwa [List.map_cons, hhandle], fun y hy => ?_⟩
  rcases List.mem_cons.1 hy with rfl | hy
  · exact hx a _ ha (if_pos rfl)
  · refine (hs y hy).mono (if_neg fun e => hnot ?_)
    rw [← e]
    exact mem_handle hy

theorem newMap (b : h.Backs L T items) (hlen : items.length < maxOwners) (k : Key) (v : Scalar) :
    ∃ a h', h.newMap k v = (a, h') ∧ h'.Backs L (T.push (.empty k v)) (.map k v T.size a :: items) := by
  refine b.alloc hlen (c := .map k v T.size) (fun {r t} ht => ?_) ⟨∅, rfl, by simp [Table.empty]⟩ (fun _ _ r hr => ?_)
    (fun _ => rfl)
    fun a Γ ha hΓ => .map ha hΓ
  · have hlt := (Array.getElem?_eq_some_iff.1 ht).1
    rw [Array.getElem?_push_lt hlt]
    exact (Array.getElem?_eq_getElem hlt).symm.trans ht
  · cases hr
    simp

theorem newKeys (b : h.Backs L T items) (hlen : items.length < maxOwners) (k : Key) (keys : List k.Carrier) :
    ∃ a h', h.newKeys k keys = (a, h') ∧ h'.Backs L T (.iter k (some ⟨k, keys, 0⟩) a 0 :: items) :=
  b.alloc hlen (fun h => h) (c := .keys k keys) rfl (by simp) (fun _ => rfl) fun _ _ ha hΓ => .keys ha hΓ

theorem setMap {k : Key} {v : Scalar} {ref : Nat} {a : UInt64} (b : h.Backs L T items) (hx : .map k v ref a ∈ items)
    (e : Entries k v) : (h.setMap k v a e).Backs L (T.setIfInBounds ref ⟨k, v, e⟩) items := by
  obtain ⟨hL, Γ, l, hs⟩ := b
  have hm := mem_handle hx
  cases hs _ hx with
  | map ha hΓ => exact ⟨hL, Γ, l.setMap hm ha hΓ e, hs⟩

theorem advance {k : Key} {keys : List k.Carrier} {position q : Int64} {a : UInt64}
    (b : h.Backs L T (.iter k (some ⟨k, keys, position⟩) a position.toUInt64 :: items)) :
    h.Backs L T (.iter k (some ⟨k, keys, q⟩) a q.toUInt64 :: items) := by
  obtain ⟨hL, Γ, l, hs⟩ := b
  refine ⟨hL, Γ, l, fun y hy => ?_⟩
  rcases List.mem_cons.1 hy with rfl | hy
  · cases hs _ (List.mem_cons_self ..) with
    | keys ha hΓ => exact .keys ha hΓ
  · exact hs y (List.mem_cons_of_mem _ hy)

end Heap.Backs

end RecordMill

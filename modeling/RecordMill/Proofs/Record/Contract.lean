import RecordMill.Proofs.Heap.Keeping
import RecordMill.Proofs.Record.Steps
import RecordMill.Proofs.Service.Deeds

/-!
# Who owns what after an operation

## The books of the context

The count of a handle is made up of the built-in variables that hold it and of the references held elsewhere. Each step
of the context changes the references held elsewhere by a strict account.
-/

namespace RecordMill

open Heap (one)

/-- One more reference to `a`. -/
def also (a : UInt64) (held : UInt64 → Nat) : UInt64 → Nat := fun b => held b + one a b

theorem also_zero {a : UInt64} (held : UInt64 → Nat) (ha : a ≠ 0) :
    also 0 held a = held a := by simp [also, one, Ne.symm ha]

/-- Besides the variables, `held` refers to the handles. -/
structure Context.Books (c : Context) (held : UInt64 → Nat) : Prop where
  orderly : c.heap.Orderly
  count : ∀ a, a ≠ 0 → c.heap.count a = c.owners.count a + held a

/-- No reference is taken or given back. -/
structure SameCounts (c c' : Context) : Prop where
  owners : c'.owners = c.owners
  count : ∀ a, c'.heap.count a = c.heap.count a
  orderly : c.heap.Orderly → c'.heap.Orderly

instance : Act.Lasting SameCounts where
  refl _ := ⟨rfl, fun _ => rfl, id⟩
  trans h h' := ⟨h'.owners.trans h.owners, fun a => (h'.count a).trans (h.count a), h'.orderly ∘ h.orderly⟩

theorem count_owners_perm {c c' : Context} {p old : UInt64} (h : (old :: c'.owners).Perm (p :: c.owners)) (a : UInt64) :
    c'.owners.count a + one old a = c.owners.count a + one p a := by
  have hcount := h.count_eq a
  simp only [List.count_cons, beq_iff_eq] at hcount
  exact hcount

namespace Context.Books

variable {c c' : Context} {held held' : UInt64 → Nat} {a p old : UInt64}

theorem congr (b : c.Books held) (h : ∀ a, a ≠ 0 → held' a = held a) : c.Books held' :=
  ⟨b.orderly, fun a ha => (b.count a ha).trans (by rw [h a ha])⟩

theorem same (b : c.Books held) (h : SameCounts c c') : c'.Books held :=
  ⟨h.orderly b.orderly, fun a ha => by rw [h.count, h.owners, b.count a ha]⟩

theorem place {d : Context} (b : c.Books (also p held)) (hheap : d.heap = c.heap)
    (howners : (old :: d.owners).Perm (p :: c.owners)) :
    d.Books (also old held) := by
  refine ⟨hheap ▸ b.orderly, fun a ha => ?_⟩
  have hcount := b.count a ha
  have hperm := count_owners_perm howners a
  rw [hheap]
  unfold also at hcount ⊢
  omega

theorem drop (b : c.Books (also a held)) :
    ∃ heap, c.heap.drop a = .ok heap ∧ ({ c with heap } : Context).Books held := by
  obtain ⟨⟨hne, hzero⟩, -⟩ | ⟨-, heap, hd⟩ := c.heap.drop_fate a
  · have hcount := b.count a hne
    simp [also, one, hzero] at hcount
  · refine ⟨heap, hd, Heap.Change.orderly b.orderly (.drop hd), fun x hx => ?_⟩
    have hcount := b.count x hx
    have hdrop := Heap.count_drop hd hx
    show heap.count x = c.owners.count x + held x
    unfold also at hcount
    omega

theorem ref {heap : Heap} (b : c.Books held) (hr : c.heap.ref a = .ok heap) :
    ({ c with heap } : Context).Books (also a held) := by
  refine ⟨Heap.Change.orderly b.orderly (.ref hr), fun x hx => ?_⟩
  have hcount := b.count x hx
  have href := Heap.count_ref hr hx
  show heap.count x = c.owners.count x + also a held x
  unfold also
  omega

theorem newStr (b : c.Books held) (s : Bytes) (hsize : (Act.newStr s c).2.heap.slots.size < UInt64.size) :
    ∃ p heap, Act.newStr s c = (.ok p, { c with heap }) ∧ ({ c with heap } : Context).Books (also p.handle held) := by
  rcases hnew : c.heap.newStr s with ⟨p, heap⟩
  have hrun := Act.newStr_ok hnew
  rw [hrun] at hsize
  have hreach : c.heap.Reaches heap := by
    have hdeeds : Act.Deeds (Act.newStr s) := inferInstance
    have hreaches := hdeeds.reaches c
    rwa [hrun] at hreaches
  refine ⟨p, heap, hrun, hreach.orderly b.orderly, fun x hx => ?_⟩
  have hcount := b.count x hx
  have hmore := Heap.count_newStr b.orderly hnew hsize hx
  show heap.count x = c.owners.count x + also p.handle held x
  unfold also
  omega

end Context.Books

/-! ## Steps and what they leave to be owned -/

namespace Act

variable {α β : Type}

/-- However the step ends, the books are kept. A result that is owned is the only reference to be added, and a step that
is refused changes no count. -/
structure Settles (x : Act α) (owned : α → UInt64) : Prop where
  books : ∀ {c : Context} {held : UInt64 → Nat}, c.Books held → (x c).2.heap.slots.size < UInt64.size →
    match x c with
    | (.ok a, c') => c'.Books (also (owned a) held)
    | (.error _, c') => SameCounts c c'

namespace Settles

variable {x : Act α} {f : α → Act β} {owned : β → UInt64}

theorem of_same (h : Along SameCounts x) : Settles x fun _ => 0 := by
  constructor
  intro c held b _
  have hsame := h.along c
  rcases hrun : x c with ⟨e | a, c'⟩ <;> rw [hrun] at hsame
  · exact hsame
  · exact (b.same hsame).congr fun a ha => also_zero held ha

theorem bind (hx : Along SameCounts x) (hf : ∀ a, Settles (f a) owned) : Settles (x >>= f) owned := by
  constructor
  intro c held b hsize
  have hsame := hx.along c
  rcases hrun : x c with ⟨e | a, c₁⟩ <;> rw [hrun] at hsame
  · rw [bind_error hrun]
    exact hsame
  · rw [bind_ok hrun] at hsize ⊢
    have hrest := (hf a).books (b.same hsame) hsize
    rcases hrun' : f a c₁ with ⟨e | v, c₂⟩ <;> rw [hrun'] at hrest
    · exact Lasting.trans hsame hrest
    · exact hrest

theorem map {g : α → β} {owned : α → UInt64} {owned' : β → UInt64} (hx : Settles x owned)
    (hg : ∀ a, owned' (g a) = owned a) :
    Settles (do return g (← x)) owned' := by
  constructor
  intro c held b hsize
  have hpure : ∀ a c', (pure (g a) : Act β) c' = (.ok (g a), c') := fun _ _ => rfl
  have hone := fun hsize => hx.books b hsize
  rcases hrun : x c with ⟨e | a, c₁⟩ <;> rw [hrun] at hone
  · rw [bind_error hrun] at hsize ⊢
    exact hone hsize
  · rw [bind_ok hrun, hpure] at hsize ⊢
    dsimp only
    rw [hg]
    exact hone hsize

theorem newStr (s : Bytes) : Settles (newStr s) Packed.handle := by
  constructor
  intro c held b hsize
  obtain ⟨p, heap, hrun, b'⟩ := b.newStr s hsize
  rw [hrun]
  exact b'

end Settles

end Act

end RecordMill

/-!
## Operations

Whatever is asked of the context, and whether it is done, fails or is refused, each count changes by as much as the
number of built-in variables that hold the handle, and by one more for a result that is owned. There is one exception:
assigning a string to a variable that holds none takes a reference before it is refused.
-/

namespace RecordMill.Act

open Heap (one)
open Settles

/-! ## Operations that take no reference -/

instance {α : Type} (act : Recording α) : Along SameCounts (onRecords act) := ⟨fun _ => ⟨rfl, fun _ => rfl, id⟩⟩

instance (k : Key) (v : Scalar) (a : UInt64) (f : Entries k v → Entries k v) :
    Along SameCounts (change (·.updateMap k v a f)) := by
  constructor
  intro c
  cases hu : c.heap.updateMap k v a f with
  | error e =>
    rw [change, bind_error (look_error hu)]
    exact Lasting.refl c
  | ok heap =>
    rw [change_ok (g := (·.updateMap k v a f)) hu]
    refine ⟨rfl, fun a => Heap.count_updateMap hu, fun o => ?_⟩
    obtain ⟨t, m, -, -, -, rfl⟩ := Heap.updateMap_cases hu
    exact o.setMap k v _ _

instance (s : Packed) : Along SameCounts (bytes s) := inferInstanceAs (Along SameCounts (look _))

instance : Along SameCounts fieldSeparator := by
  unfold fieldSeparator
  infer_instance

instance : Along SameCounts outputSeparator := by
  unfold outputSeparator
  infer_instance

instance (s p : Packed) : Along SameCounts (isMatch s p) := by
  unfold isMatch
  infer_instance

instance (k : Key) (key : Nat → k.Carrier) (s : Packed) (m : UInt64) (p : Packed) :
    Along SameCounts (splitInto k key s m p) := by
  unfold splitInto
  have hset : ∀ parts : Option (List Bytes), Along SameCounts (match parts with
      | none => (return -1 : Act Int64)
      | some parts => do
        change (·.updateMap k .str m fun _ => numbered k key parts)
        return Int64.ofNat parts.length) := by
    intro parts
    split <;> infer_instance
  infer_instance

instance (i : Int64) (s : Packed) : Along SameCounts (setColumn i s) := by
  unfold setColumn
  infer_instance

instance (n : Int64) : Along SameCounts (setCount n) := by
  unfold setCount
  infer_instance

instance (v : Variable) : Along SameCounts (loadInt v) := by
  unfold loadInt
  refine .bind inferInstance fun c => ?_
  split <;> infer_instance

instance (v : Variable) (n : Int64) : Along SameCounts (storeInt v n) := by
  unfold storeInt
  split
  · exact .of_modify fun _ => ⟨rfl, fun _ => rfl, id⟩
  · infer_instance
  · exact .of_modify fun _ => ⟨rfl, fun _ => rfl, id⟩
  · infer_instance

instance (v : Variable) : Along SameCounts (loadStr v) := by
  unfold loadStr
  refine .bind inferInstance fun c => ?_
  split <;> infer_instance

instance (v : Variable) : Along SameCounts (loadMap v) := by
  unfold loadMap
  split <;> infer_instance

instance (a b : Packed) : Along SameCounts (compareStr a b) := by
  unfold compareStr
  infer_instance

instance (dest : Destination) (path : Packed) (s : Bytes) : Along SameCounts (write dest path s) := by
  unfold write pathOf
  infer_instance

instance (dest : Destination) (path : Packed) (args : List Packed) : Along SameCounts (printAll dest path args) := by
  unfold printAll
  infer_instance

instance (dest : Destination) (path format : Packed) (args : List Format.Arg) :
    Along SameCounts (printf dest path format args) := by
  unfold printf
  infer_instance

/-! ## Results that are owned -/

theorem settles_column (i : Int64) : Settles (column i) Packed.handle :=
  .bind inferInstance fun _ => .newStr _

theorem settles_concat (a b : Packed) : Settles (concat a b) Packed.handle :=
  .bind inferInstance fun _ => .bind inferInstance fun _ => .newStr _

theorem settles_sprintf (format : Packed) (args : List Format.Arg) : Settles (sprintf format args) Packed.handle :=
  .bind inferInstance fun _ => .newStr _

theorem settles_readFileLine (path : Packed) : Settles (readFileLine path) (·.1.handle) := by
  refine .bind inferInstance fun name => .bind inferInstance fun line => ?_
  exact .map (Settles.newStr line.1) fun _ => rfl

/-! ## Variables -/

theorem placeStr_perm {v : Variable} {old : Packed} {c c' : Context} (h : loadStr v c = (.ok old, c')) (p : Packed) :
    (old.handle :: (placeStr v p c).owners).Perm (p.handle :: c.owners) := by
  refine List.perm_iff_count.2 fun a => ?_
  cases v <;> cases h <;> simp only [Context.owners, placeStr, List.count_cons] <;> omega

theorem heap_placeStr (v : Variable) (p : Packed) (c : Context) : (placeStr v p c).heap = c.heap := by cases v <;> rfl

theorem settles_storeStr {v : Variable} (hv : v.ty = .str) (s : Packed) : Settles (storeStr v s) fun _ => 0 := by
  constructor
  intro c held b _
  obtain ⟨-, f, hr⟩ | ⟨-, heap, hr⟩ := c.heap.ref_fate s.handle
  · have hrun : storeStr v s c = (.error (.heap f), c) := bind_error (bind_error (look_error hr))
    rw [hrun]
    exact Lasting.refl c
  · obtain ⟨old, hload⟩ : ∃ old, loadStr v { c with heap } = (.ok old, { c with heap }) := by
      cases v <;> first | exact ⟨_, rfl⟩ | cases hv
    obtain ⟨heap', hdrop, b'⟩ := ((b.ref hr).place (heap_placeStr v s _) (placeStr_perm hload s)).drop
    have hrun : storeStr v s c = (.ok (), { placeStr v s { c with heap } with heap := heap' }) := by
      unfold storeStr
      rw [bind_ok (change_ok (g := (·.refStr s)) hr), bind_ok hload, bind_ok (modify_ok _ _)]
      exact change_ok (g := (·.dropStr old)) hdrop
    rw [hrun]
    exact b'.congr fun a ha => also_zero held ha

theorem storeStr_of_ne {v : Variable} (hv : v.ty ≠ .str) (s : Packed) {c : Context} {held : UInt64 → Nat}
    (b : c.Books held) :
    ∃ e c', storeStr v s c = (.error e, c') ∧ c'.owners = c.owners
      ∧ c'.Books (also (if c.heap.count s.handle = 0 then 0 else s.handle) held) := by
  obtain ⟨⟨-, hdead⟩, f, hr⟩ | ⟨hlive, heap, hr⟩ := c.heap.ref_fate s.handle
  · refine ⟨.heap f, c, bind_error (bind_error (look_error hr)), rfl, ?_⟩
    rw [if_pos hdead]
    exact b.congr fun a ha => also_zero held ha
  · have hload : loadStr v { c with heap } = (.error (.wrongVariable v .str), { c with heap }) := by
      cases v <;> first | rfl | exact absurd rfl hv
    refine ⟨.wrongVariable v .str, { c with heap }, ?_, rfl, ?_⟩
    · unfold storeStr
      rw [bind_ok (change_ok (g := (·.refStr s)) hr), bind_error hload]
    · by_cases hzero : c.heap.count s.handle = 0
      · have hnone : s.handle = 0 := Decidable.byContradiction fun hne => hlive ⟨hne, hzero⟩
        rw [if_pos hzero, ← hnone]
        exact b.ref hr
      · rw [if_neg hzero]
        exact b.ref hr

theorem settles_storeMap (v : Variable) (m : UInt64) : Settles (storeMap v m) fun _ => 0 := by
  by_cases hv : v = .argv
  · subst hv
    constructor
    intro c held b _
    obtain ⟨-, f, hr⟩ | ⟨-, heap, hr⟩ := c.heap.ref_fate m
    · have hrun : storeMap .argv m c = (.error (.heap f), c) := bind_error (bind_error (look_error hr))
      rw [hrun]
      exact Lasting.refl c
    · have hperm : (c.argv :: ({ c with heap, argv := m } : Context).owners).Perm (m :: c.owners) := by
        refine List.perm_iff_count.2 fun a => ?_
        simp only [Context.owners, List.count_cons]
        omega
      obtain ⟨heap', hdrop, b'⟩ := Context.Books.drop <|
        (b.ref hr).place (d := { c with heap, argv := m }) rfl hperm
      have hrun : storeMap .argv m c = (.ok (), { c with heap := heap', argv := m }) := by
        unfold storeMap
        dsimp only
        rw [bind_ok (change_ok (g := (·.ref m)) hr), bind_ok (get_ok _), bind_ok (modify_ok _ _)]
        exact change_ok (g := (·.drop c.argv)) hdrop
      rw [hrun]
      exact b'.congr fun a ha => also_zero held ha
  · have hrun : storeMap v m = throw (.wrongVariable v .map) := by
      cases v <;> first | rfl | exact absurd rfl hv
    rw [hrun]
    exact .of_same inferInstance

/-! ## Reading records -/

theorem setFilename_books {c : Context} {held : UInt64 → Nat} {p : Packed} (b : c.Books (also p.handle held)) :
    ∃ c', setFilename p c = (.ok (), c') ∧ c'.Books held := by
  have hperm : (c.filename.handle :: ({ c with filename := p } : Context).owners).Perm (p.handle :: c.owners) :=
    placeStr_perm (v := .filename) rfl p
  obtain ⟨heap, hdrop, b'⟩ := Context.Books.drop (b.place (d := { c with filename := p }) rfl hperm)
  refine ⟨{ c with filename := p, heap }, ?_, b'⟩
  unfold setFilename
  rw [bind_ok (get_ok c), bind_ok (modify_ok _ c)]
  exact change_ok (g := (·.dropStr c.filename)) hdrop

def takeName (name : Bytes) : Act Unit := do setFilename (← newStr name)

instance (name : Bytes) : Deeds (takeName name) := by
  unfold takeName
  infer_instance

theorem takeNames_books (names : List Bytes) {c : Context} {held : UInt64 → Nat} (b : c.Books held)
    (hsize : (names.forM takeName c).2.heap.slots.size < UInt64.size) :
    ∃ c', names.forM takeName c = (.ok (), c') ∧ c'.Books held := by
  induction names generalizing c with
  | nil => exact ⟨c, rfl, b⟩
  | cons name rest ih =>
    have hcons : (name :: rest).forM takeName = newStr name >>= fun p =>
      (setFilename p >>= fun _ => rest.forM takeName) := rfl
    obtain ⟨p, c₁, hnew⟩ : ∃ p c₁, newStr name c = (.ok p, c₁) := ⟨_, _, rfl⟩
    rw [hcons, bind_ok hnew] at hsize ⊢
    -- The table only grows, so that there was room for the name as well.
    have hgrows : Deeds (setFilename p >>= fun _ => rest.forM takeName) := inferInstance
    have b₁ := (Settles.newStr name).books b (by
      rw [hnew]
      exact Nat.lt_of_le_of_lt (hgrows.reaches c₁).size_le hsize)
    rw [hnew] at b₁
    obtain ⟨c₂, hset, b₂⟩ := setFilename_books b₁
    rw [bind_ok hset] at hsize ⊢
    exact ih b₂ hsize

theorem settles_nextLine : Settles nextLine fun _ => 0 := by
  have htake : ∀ names : List Bytes, Settles (names.forM takeName) fun _ => 0 := by
    intro names
    constructor
    intro c held b hsize
    obtain ⟨c', hrun, b'⟩ := takeNames_books names b hsize
    rw [hrun]
    exact b'.congr fun a ha => also_zero held ha
  refine .bind inferInstance fun fs => .bind inferInstance fun (n, names) => ?_
  exact (htake names).map (g := fun _ => n) fun _ => rfl

/-! ## Closing -/

theorem release_books {v : Variable} {s : Packed} {c : Context} {held : UInt64 → Nat} (hload : loadStr v c = (.ok s, c))
    (b : c.Books held) : ∃ heap, release s (placeStr v .empty) c = (.ok (), { placeStr v .empty c with heap })
      ∧ ({ placeStr v .empty c with heap } : Context).Books held := by
  have b₀ : c.Books (also 0 held) := b.congr fun a ha => also_zero held ha
  obtain ⟨heap, hdrop, b'⟩ := (b₀.place (heap_placeStr v .empty c) (placeStr_perm hload .empty)).drop
  refine ⟨heap, ?_, b'⟩
  unfold release
  rw [bind_ok (modify_ok (placeStr v .empty) c)]
  exact change_ok (g := (·.dropStr s)) hdrop

theorem dropArgv_books {c : Context} {held : UInt64 → Nat} (b : c.Books held) :
    ∃ heap, c.heap.drop c.argv = .ok heap ∧ ({ c with argv := 0, heap } : Context).Books held := by
  have hperm : (c.argv :: ({ c with argv := 0 } : Context).owners).Perm (0 :: c.owners) := by
    refine List.perm_iff_count.2 fun a => ?_
    simp only [Context.owners, List.count_cons]
    omega
  have b₀ : c.Books (also 0 held) := b.congr fun a ha => also_zero held ha
  exact (b₀.place (d := { c with argv := 0 }) rfl hperm).drop

theorem giveBack_books {c : Context} {held : UInt64 → Nat} (b : c.Books held) :
    ∃ c', giveBack c = (.ok (), c') ∧ c'.Books held ∧ ∀ a ∈ c'.owners, a = 0 := by
  obtain ⟨h₁, hfs, b₁⟩ := release_books (v := .fs) rfl b
  obtain ⟨h₂, hofs, b₂⟩ := release_books (v := .ofs) rfl b₁
  obtain ⟨h₃, hors, b₃⟩ := release_books (v := .ors) rfl b₂
  obtain ⟨h₄, hname, b₄⟩ := release_books (v := .filename) rfl b₃
  obtain ⟨h₅, hargv, b₅⟩ := dropArgv_books b₄
  refine ⟨_, ?_, b₅, fun a ha => ?_⟩
  · unfold giveBack
    rw [bind_ok (get_ok _)]
    refine (bind_ok hfs).trans ?_
    rw [bind_ok (get_ok _)]
    refine (bind_ok hofs).trans ?_
    rw [bind_ok (get_ok _)]
    refine (bind_ok hors).trans ?_
    rw [bind_ok (get_ok _)]
    refine (bind_ok hname).trans ?_
    rw [bind_ok (get_ok _)]
    exact (bind_ok (change_ok hargv)).trans rfl
  · simpa [Context.owners, placeStr, Packed.handle_empty] using ha

theorem close_books {c : Context} {held : UInt64 → Nat} (b : c.Books held) :
    ∃ errors c', close c = (.ok errors, c') ∧ c'.Books held ∧ ∀ a ∈ c'.owners, a = 0 := by
  obtain ⟨errors, c₁, hrecords⟩ : ∃ errors c₁, onRecords Records.close c = (.ok errors, c₁) := ⟨_, _, rfl⟩
  have hsame : SameCounts c c₁ := by
    have hkeeps : Along SameCounts (onRecords Records.close) := inferInstance
    have hone := hkeeps.along c
    rwa [hrecords] at hone
  obtain ⟨c', hback, b', hnone⟩ := giveBack_books (b.same hsame)
  refine ⟨errors, c', ?_, b', hnone⟩
  rw [close_eq, bind_ok hrecords, bind_ok hback]
  rfl

end RecordMill.Act

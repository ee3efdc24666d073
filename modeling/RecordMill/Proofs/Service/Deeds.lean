import RecordMill.Proofs.Heap.Keeping
import RecordMill.Proofs.Record.Owners
import RecordMill.Proofs.Service.Shape

/-!
# What services do to the heap

Whatever a service does, and wherever it breaks off, the heap is then one after some deeds. So it stays
orderly, and its table only grows.
-/

namespace RecordMill

namespace Heap

theorem after_append (h : Heap) (ds ds' : List Deed) : h.after (ds ++ ds') = (h.after ds).after ds' := List.foldl_append

theorem size_le_after (h : Heap) (ds : List Deed) : h.slots.size ≤ (h.after ds).slots.size := by
  induction ds generalizing h with
  | nil => exact Nat.le_refl _
  | cons d ds ih =>
    refine Nat.le_trans ?_ (ih (d.apply h))
    obtain hd | ⟨es, hd⟩ | ⟨k, v, b, m, hd⟩ := h.apply_cases d
    · exact Nat.le_of_eq (congrArg (·.slots.size) hd).symm
    · exact hd.size_le
    · rw [hd]
      exact Nat.le_of_eq (Array.size_modify).symm

def Reaches (h h' : Heap) : Prop := ∃ ds : List Deed, h' = h.after ds

namespace Reaches

variable {h h' h'' : Heap}

theorem refl : h.Reaches h := ⟨[], rfl⟩

theorem trans (a : h.Reaches h') (b : h'.Reaches h'') : h.Reaches h'' := by
  obtain ⟨ds, rfl⟩ := a
  obtain ⟨ds', rfl⟩ := b
  exact ⟨ds ++ ds', (after_append _ _ _).symm⟩

theorem use {u : Use} {made : Option UInt64} (hu : h.use u = .ok (made, h')) : h.Reaches h' := by
  refine ⟨[.use u], ?_⟩
  show h' = Deed.apply h (.use u)
  rw [Deed.apply, hu]

theorem update {k : Key} {v : Scalar} {a : UInt64} {f : Entries k v → Entries k v} (hu : h.updateMap k v a f = .ok h') :
    h.Reaches h' := by
  refine ⟨[.update k v a f], ?_⟩
  show h' = Deed.apply h (.update k v a f)
  rw [Deed.apply, hu]

theorem orderly (r : h.Reaches h') (o : h.Orderly) : h'.Orderly := by
  obtain ⟨ds, rfl⟩ := r
  exact o.after ds

theorem size_le (r : h.Reaches h') : h.slots.size ≤ h'.slots.size := by
  obtain ⟨ds, rfl⟩ := r
  exact size_le_after h ds

end Reaches

end Heap

namespace Act

variable {α β : Type}

theorem look_error {g : Heap → Except HeapFault α} {e : HeapFault} {c : Context} (h : g c.heap = .error e) :
    look g c = (.error (.heap e), c) := by
  rw [look_apply, h]
  rfl

/-- The step changes the heap by deeds only. -/
class Deeds (x : Act α) : Prop where
  reaches : ∀ c : Context, c.heap.Reaches (x c).2.heap

namespace Deeds

theorem of_modify {f : Context → Context} (hf : ∀ c, (f c).heap = c.heap) : Deeds (modify f : Act Unit) :=
  ⟨fun c => ⟨[], hf c⟩⟩

theorem of_change {f : Heap → Except HeapFault Heap} (hf : ∀ {h h'}, f h = .ok h' → h.Reaches h') :
    Deeds (change f) where
  reaches c := by
    cases hc : f c.heap with
    | ok h' =>
      rw [change_ok hc]
      exact hf hc
    | error e =>
      rw [change, bind_error (look_error hc)]
      exact .refl

theorem of_use {g : Heap → Except HeapFault Heap} {u : Heap.Use}
    (hu : ∀ h : Heap, h.use u = (do return (none, ← g h))) :
    Deeds (change g) := of_change fun {h h'} hg => .use (u := u) <| by
  rw [hu, hg]
  rfl

instance (a : α) : Deeds (pure a : Act α) := ⟨fun _ => .refl⟩

instance (e : Fault) : Deeds (throw e : Act α) := ⟨fun _ => .refl⟩

instance : Deeds (get : Act Context) := ⟨fun _ => .refl⟩

instance (priority := low) {x : Act α} {f : α → Act β} [hx : Deeds x] [hf : ∀ a, Deeds (f a)] : Deeds (x >>= f) where
  reaches c := by
    have hfirst := hx.reaches c
    rcases hrun : x c with ⟨e | a, c'⟩
    · rw [bind_error hrun]
      rwa [hrun] at hfirst
    · rw [bind_ok hrun]
      rw [hrun] at hfirst
      exact hfirst.trans ((hf a).reaches c')

instance {p : Prop} [Decidable p] {x y : Act α} [hx : Deeds x] [hy : Deeds y] : Deeds (if p then x else y) := by
  split
  · exact hx
  · exact hy

instance {f : α → Act β} [∀ a, Deeds (f a)] (xs : List α) : Deeds (xs.mapM f) := by
  induction xs with
  | nil => exact inferInstanceAs (Deeds (pure []))
  | cons y ys ih =>
    rw [List.mapM_cons]
    infer_instance

instance {f : α → Act PUnit} [∀ a, Deeds (f a)] (xs : List α) : Deeds (xs.forM f) := by
  induction xs with
  | nil => exact inferInstanceAs (Deeds (pure _))
  | cons y ys ih => exact inferInstanceAs (Deeds (f y >>= fun _ => ys.forM f))

instance (f : Heap → Except HeapFault α) : Deeds (look f) where
  reaches c := by
    cases hc : f c.heap with
    | ok a =>
      rw [look_ok hc]
      exact .refl
    | error e =>
      rw [look_error hc]
      exact .refl

/-! ### References -/

instance (a : UInt64) : Deeds (change (·.ref a)) := of_use (u := .ref a) fun _ => rfl

instance (a : UInt64) : Deeds (change (·.drop a)) := of_use (u := .drop a) fun _ => rfl

instance (s : Packed) : Deeds (change (·.refStr s)) := of_use (u := .refStr s) fun _ => rfl

instance (s : Packed) : Deeds (change (·.dropStr s)) := of_use (u := .dropStr s) fun _ => rfl

instance (k : Key) (v : Scalar) (a : UInt64) (f : Entries k v → Entries k v) :
    Deeds (change (·.updateMap k v a f)) := of_change .update

instance (s : Bytes) : Deeds (newStr s) := ⟨fun _ => .use (u := .newStr s) rfl⟩

/-! ### Strings and the record -/

instance (s : Packed) : Deeds (bytes s) := inferInstanceAs (Deeds (look _))

instance (act : Recording α) : Deeds (onRecords act) := ⟨fun _ => .refl⟩

instance : Deeds fieldSeparator := by
  unfold fieldSeparator
  infer_instance

instance : Deeds outputSeparator := by
  unfold outputSeparator
  infer_instance

instance (s p : Packed) : Deeds (isMatch s p) := by
  unfold isMatch
  infer_instance

instance (k : Key) (key : Nat → k.Carrier) (s : Packed) (m : UInt64) (p : Packed) : Deeds (splitInto k key s m p) := by
  unfold splitInto
  have hset : ∀ parts : Option (List Bytes), Deeds (match parts with
      | none => (return -1 : Act Int64)
      | some parts => do
        change (·.updateMap k .str m fun _ => numbered k key parts)
        return Int64.ofNat parts.length) := fun parts => by split <;> infer_instance
  infer_instance

instance (s p : Packed) (m : UInt64) : Deeds (splitInt s m p) :=
  inferInstanceAs (Deeds (splitInto .int Int64.ofNat s m p))

instance (s p : Packed) (m : UInt64) : Deeds (splitStr s m p) :=
  inferInstanceAs (Deeds (splitInto .str Bytes.decimal s m p))

instance (i : Int64) : Deeds (column i) := by
  unfold column
  infer_instance

instance (i : Int64) (s : Packed) : Deeds (setColumn i s) := by
  unfold setColumn
  infer_instance

instance (n : Int64) : Deeds (setCount n) := by
  unfold setCount
  infer_instance

instance (s : Packed) : Deeds (setFilename s) := by
  unfold setFilename
  have hset : Deeds (modify fun c => { c with filename := s } : Act Unit) := of_modify fun _ => rfl
  infer_instance

instance : Deeds nextLine := by
  unfold nextLine
  infer_instance

instance (p : Packed) : Deeds (readFileLine p) := by
  unfold readFileLine
  infer_instance

/-! ### Variables -/

instance (v : Variable) : Deeds (loadInt v) := by
  unfold loadInt
  have hread : ∀ c : Context, Deeds (match v with
      | .argc => (return c.argc : Act Int64)
      | .nf => return c.nf
      | .nr => return c.nr
      | _ => throw (.wrongVariable v .int)) := fun c => by split <;> infer_instance
  infer_instance

instance (v : Variable) (n : Int64) : Deeds (storeInt v n) := by
  unfold storeInt
  split
  · exact of_modify fun _ => rfl
  · infer_instance
  · exact of_modify fun _ => rfl
  · infer_instance

instance (v : Variable) : Deeds (loadStr v) := by
  unfold loadStr
  have hread : ∀ c : Context, Deeds (match v with
      | .fs => (return c.fs : Act Packed)
      | .ofs => return c.ofs
      | .ors => return c.ors
      | .filename => return c.filename
      | _ => throw (.wrongVariable v .str)) := fun c => by split <;> infer_instance
  infer_instance

instance (v : Variable) (s : Packed) : Deeds (storeStr v s) := by
  unfold storeStr
  have hplace : Deeds (modify (placeStr v s) : Act Unit) := of_modify fun c => by cases v <;> rfl
  infer_instance

instance (v : Variable) : Deeds (loadMap v) := by
  unfold loadMap
  split <;> infer_instance

instance (v : Variable) (m : UInt64) : Deeds (storeMap v m) := by
  unfold storeMap
  split
  · have hplace : Deeds (modify fun c => { c with argv := m } : Act Unit) := of_modify fun _ => rfl
    infer_instance
  · infer_instance

/-! ### Printing -/

instance (a b : Packed) : Deeds (concat a b) := by
  unfold concat
  infer_instance

instance (a b : Packed) : Deeds (compareStr a b) := by
  unfold compareStr
  infer_instance

instance (dest : Destination) (path : Packed) (s : Bytes) : Deeds (write dest path s) := by
  unfold write pathOf
  infer_instance

instance (dest : Destination) (path : Packed) (args : List Packed) : Deeds (printAll dest path args) := by
  unfold printAll
  infer_instance

instance (dest : Destination) (path format : Packed) (args : List Format.Arg) :
    Deeds (printf dest path format args) := by
  unfold printf
  infer_instance

instance (format : Packed) (args : List Format.Arg) : Deeds (sprintf format args) := by
  unfold sprintf
  infer_instance

end Deeds

end Act

/-! ## Services -/

namespace Service

open Act (Deeds)
open Machine (HostM)

variable {α β : Type}

instance (k : Key) (args : List UInt64) : Deeds (takeKey k args) := by
  unfold takeKey
  split <;> infer_instance

instance (v : Scalar) (args : List UInt64) : Deeds (takeScalar v args) := by
  unfold takeScalar
  split <;> infer_instance

instance (k : Key) (x : k.Carrier) : Deeds (giveKey k x) := by
  unfold giveKey
  split <;> infer_instance

instance (v : Scalar) (x : v.Carrier) : Deeds (giveScalar v x) := by
  unfold giveScalar
  split <;> infer_instance

instance (k : Key) (v : Scalar) : Deeds (allocate fun h => h.newMap k v) := ⟨fun _ => .use (u := .newMap k v) rfl⟩

instance (k : Key) (items : List k.Carrier) : Deeds (allocate fun h => h.newKeys k items) :=
  ⟨fun _ => .use (u := .newKeys k items) rfl⟩

instance (k : Key) (it : UInt64) (pos : Int64) : Deeds (keyAt k it pos) := by
  unfold keyAt
  infer_instance

instance (k : Key) (v : Scalar) (m : UInt64) (rest : List UInt64) (what : MapService) :
    Deeds (onMap k v m rest what) := by
  unfold onMap
  split <;> infer_instance

/-- The host function changes the heap by deeds only. -/
class Lawful (x : HostM Context α) : Prop where
  reaches : ∀ out : Machine.Outside Context, out.host.heap.Reaches (x out).2.host.heap

namespace Lawful

instance (a : α) : Lawful (pure a : HostM Context α) := ⟨fun _ => .refl⟩

instance : Lawful (misfit : HostM Context α) := ⟨fun _ => .refl⟩

instance (t : Machine.Trap) : Lawful (throw t : HostM Context α) := ⟨fun _ => .refl⟩

instance : Lawful (get : HostM Context (Machine.Outside Context)) := ⟨fun _ => .refl⟩

instance (priority := low) {x : HostM Context α} {f : α → HostM Context β} [hx : Lawful x] [hf : ∀ a, Lawful (f a)] :
    Lawful (x >>= f) where
  reaches out := by
    have hfirst := hx.reaches out
    show out.host.heap.Reaches (match x out with | (r, out) => ExceptT.bindCont f r out).2.host.heap
    rcases hrun : x out with ⟨t | a, out'⟩ <;> rw [hrun] at hfirst
    · exact hfirst
    · exact hfirst.trans ((hf a).reaches out')

instance (a : Act α) [ha : Deeds a] : Lawful (lift a) where
  reaches := by
    rintro ⟨m, c⟩
    have hone := ha.reaches c
    rw [lift_apply]
    rcases hrun : a c with ⟨f | x, c'⟩ <;> rw [hrun] at hone <;> exact hone

instance {p : Prop} [Decidable p] {x y : HostM Context α} [hx : Lawful x] [hy : Lawful y] :
    Lawful (if p then x else y) := by
  split
  · exact hx
  · exact hy

instance (address : UInt64) : Lawful (load address) := by
  unfold load
  have hread : ∀ out : Machine.Outside Context, Lawful (match out.memory.load address with
      | .ok w => (return w : HostM Context UInt64)
      | .error t => throw t) := fun out => by split <;> infer_instance
  infer_instance

instance (address : UInt64) (n : Nat) : Lawful (loadStrings address n) := by
  induction n generalizing address with
  | zero => exact inferInstanceAs (Lawful (pure []))
  | succ n ih =>
    unfold loadStrings
    infer_instance

instance (address : UInt64) : Lawful (loadArg address) := by
  unfold loadArg
  infer_instance

instance (address : UInt64) (n : Nat) : Lawful (loadArgs address n) := by
  induction n generalizing address with
  | zero => exact inferInstanceAs (Lawful (pure []))
  | succ n ih =>
    unfold loadArgs
    infer_instance

end Lawful

instance lawful_perform (s : Service) (args : List UInt64) : Lawful (perform s args) := by
  fun_cases perform s args <;> infer_instance

/-! ## The keys of a map -/

theorem onMap_iterBegin {k : Key} {v : Scalar} {m : UInt64} {rest rs : List UInt64} {c c' : Context}
    (h : onMap k v m rest .iterBegin c = (.ok rs, c')) :
    ∃ items, rs = [(c.heap.newKeys k items).1] ∧ c'.heap = (c.heap.newKeys k items).2 := by
  have h : (Act.look (·.map k v m) >>= fun entries => allocate fun h => h.newKeys k entries.keys) c = (.ok rs, c') := h
  cases hm : c.heap.map k v m with
  | error e =>
    rw [Act.bind_error (Act.look_error hm)] at h
    cases h
  | ok entries =>
    rw [Act.bind_ok (Act.look_ok hm)] at h
    cases h
    exact ⟨entries.keys, rfl, rfl⟩

theorem perform_iterBegin_heap {k : Key} {v : Scalar} {args rs : List UInt64} {out out' : Machine.Outside Context}
    (h : perform (.map k v .iterBegin) args out = (.ok rs, out')) :
    ∃ items, rs = [(out.host.heap.newKeys k items).1] ∧ out'.host.heap = (out.host.heap.newKeys k items).2 := by
  obtain ⟨mem, c⟩ := out
  rcases args with _ | ⟨w, _ | ⟨m, rest⟩⟩
  · cases h
  · cases h
  have hrun : perform (.map k v .iterBegin) (w :: m :: rest) ⟨mem, c⟩ = lift (onMap k v m rest .iterBegin)
    ⟨mem, c⟩ := rfl
  rw [hrun, lift_apply] at h
  rcases hmap : onMap k v m rest .iterBegin c with ⟨f | ws, c'⟩ <;> rw [hmap] at h <;> cases h
  exact onMap_iterBegin hmap

theorem perform_iterBegin {k : Key} {v : Scalar} {args rs : List UInt64} {out out' : Machine.Outside Context}
    (h : perform (.map k v .iterBegin) args out = (.ok rs, out')) (o : out.host.heap.Orderly)
    (hsize : out'.host.heap.slots.size < UInt64.size) : rs.headD 0 ≠ 0 := by
  obtain ⟨items, rfl, hheap⟩ := perform_iterBegin_heap h
  obtain ⟨i, h', halloc, -, -, -, hlt, -⟩ := Heap.Orderly.alloc o (.keys k items.toArray)
  have hkeys : out.host.heap.newKeys k items = ((i + 1).toUInt64, h') := halloc
  rw [hheap, hkeys] at hsize
  rw [hkeys]
  -- There are more words than slots, so that the handle did not wrap.
  have hword : ((i + 1).toUInt64).toNat = i + 1 := UInt64.toNat_ofNat_of_lt' (Nat.lt_of_le_of_lt hlt hsize)
  intro hzero
  have hnat : i + 1 = 0 := hword.symm.trans (congrArg UInt64.toNat hzero)
  cases hnat

end Service

end RecordMill

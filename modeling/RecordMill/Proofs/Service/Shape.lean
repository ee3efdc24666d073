import RecordMill.Proofs.Machine.Transitions
import RecordMill.Service.Meaning

/-!
# What services read and give

A service gives as many words as its signature says. Only those that print look at the memory, and none
changes it.
-/

namespace RecordMill.Service

open Machine (HostM Trap Outside Memory Kind)

/-! ## Results -/

def Counts (n : Nat) (a : Act (List UInt64)) : Prop := ∀ c rs c', a c = (.ok rs, c') → rs.length = n

theorem Counts.pure {n : Nat} {ws : List UInt64} (h : ws.length = n) : Counts n (Pure.pure ws) := by
  intro c rs c' e
  cases e
  exact h

theorem Counts.bind {n : Nat} {α : Type} {a : Act α} {f : α → Act (List UInt64)} (h : ∀ x, Counts n (f x)) :
    Counts n (a >>= f) := by
  intro c rs c' e
  have e : (match a c with | (r, c) => ExceptT.bindCont f r c) = (.ok rs, c') := e
  rcases ha : a c with ⟨_ | x, c₁⟩ <;> rw [ha] at e
  · cases e
  · exact h x _ _ _ e

theorem counts_giveKey (k : Key) (x : k.Carrier) : Counts (keyKind k).words (giveKey k x) := by
  cases k with
  | int => exact .pure rfl
  | str => exact .bind fun _ => .pure rfl

theorem counts_giveScalar (v : Scalar) (x : v.Carrier) : Counts (scalarKind v).words (giveScalar v x) := by
  cases v with
  | int => exact .pure rfl
  | float => exact .pure rfl
  | str => exact .bind fun _ => .pure rfl

theorem counts_allocate (f : Heap → UInt64 × Heap) : Counts 1 (allocate f) := .bind fun _ => .bind fun _ => .pure rfl

theorem counts_keyAt (k : Key) (iter : UInt64) (pos : Int64) : Counts (keyKind k).words (keyAt k iter pos) :=
  .bind fun _ => counts_giveKey k _

theorem counts_onMap (k : Key) (v : Scalar) (m : UInt64) (rest : List UInt64) (what : MapService) :
    Counts (Kind.total (mapSig k v what).returns) (onMap k v m rest what) := by
  cases what with
  | alloc => exact counts_allocate fun h => h.newMap k v
  | lookup => exact .bind fun _ => .bind fun _ => counts_giveScalar v _
  | insert => exact .bind fun _ => .bind fun _ => .bind fun _ => .pure rfl
  | contains => exact .bind fun _ => .bind fun _ => .pure rfl
  | delete => exact .bind fun _ => .bind fun _ => .pure rfl
  | len => exact .bind fun _ => .pure rfl
  | iterBegin => exact .bind fun _ => counts_allocate _

/-- Whatever the host function gives, it is so many words. -/
def Yields (n : Nat) (x : HostM Context (List UInt64)) : Prop :=
  ∀ out rs out', x out = (.ok rs, out') → rs.length = n

theorem Yields.pure {n : Nat} {ws : List UInt64} (h : ws.length = n) : Yields n (Pure.pure ws) := by
  intro c rs c' e
  cases e
  exact h

theorem Yields.misfit {n : Nat} : Yields n misfit := by
  intro c rs c' e
  cases e

theorem lift_apply {α : Type} (a : Act α) (m : Memory) (c : Context) : Service.lift a ⟨m, c⟩ = match a c with
    | (.ok x, c) => (.ok x, ⟨m, c⟩)
    | (.error f, c) => (.error (trapOf f), ⟨m, c⟩) := rfl

theorem Yields.lift {n : Nat} {a : Act (List UInt64)} (h : Counts n a) : Yields n (Service.lift a) := by
  rintro ⟨m, c⟩ rs out' e
  rw [lift_apply] at e
  rcases ha : a c with ⟨_ | x, c'⟩ <;> rw [ha] at e <;> cases e
  exact h _ _ _ ha

theorem Yields.bind {n : Nat} {α : Type} {x : HostM Context α} {f : α → HostM Context (List UInt64)}
    (h : ∀ a, Yields n (f a)) : Yields n (x >>= f) := by
  intro c rs c' e
  have e : (match x c with | (r, c) => ExceptT.bindCont f r c) = (.ok rs, c') := e
  rcases hx : x c with ⟨_ | a, c₁⟩ <;> rw [hx] at e
  · cases e
  · exact h a _ _ _ e

theorem returns_cases (s : Service) : s.sig.returns = [] ∨ ∃ k, s.sig.returns = [k] := by
  cases s with
  | map k v what => cases what <;> first | exact .inl rfl | exact .inr ⟨_, rfl⟩
  | _ => first | exact .inl rfl | exact .inr ⟨_, rfl⟩

/-! ## Memory -/

/-- The host function is the same whatever the memory is. -/
def Blind {α : Type} (x : HostM Context α) : Prop := ∀ (m m' : Memory) (c : Context),
  x ⟨m, c⟩ = ((x ⟨m', c⟩).1, ⟨m, (x ⟨m', c⟩).2.host⟩)

theorem Blind.pure {α : Type} (a : α) : Blind (Pure.pure a : HostM Context α) := fun _ _ _ => rfl

theorem Blind.misfit {α : Type} : Blind (Service.misfit : HostM Context α) := fun _ _ _ => rfl

theorem Blind.lift {α : Type} (a : Act α) : Blind (Service.lift a) := by
  intro m m' c
  rw [lift_apply, lift_apply]
  rcases a c with ⟨_ | x, c⟩ <;> rfl

open Machine.HostM (LoadsAndStores)

theorem loadsAndStores_lift {α : Type} (act : Act α) : (lift act).LoadsAndStores := by
  have hlift : lift act = HostM.onHost fun host => ((act host).1.mapError trapOf, (act host).2) := by
    funext ⟨memory, host⟩
    simp only [lift, HostM.onHost]
    rcases act host with ⟨f | a, host'⟩ <;> rfl
  rw [hlift]
  exact .onHost _

theorem loadsAndStores_misfit {α : Type} : (misfit : HostM Context α).LoadsAndStores := .throw _

theorem loadsAndStores_load (address : UInt64) : (load address).LoadsAndStores := by
  have hload : load address = HostM.load address := by
    funext out
    have hget : (get : HostM Context _) out = (.ok out, out) := rfl
    rw [load, Machine.HostM.bind_apply, hget, HostM.load]
    dsimp only
    cases out.memory.load address <;> rfl
  rw [hload]
  exact .load address

theorem loadsAndStores_loadStrings (address : UInt64) (n : Nat) : (loadStrings address n).LoadsAndStores := by
  induction n generalizing address with
  | zero => exact .pure []
  | succ n ih =>
    exact .bind (loadsAndStores_load _) fun _ => .bind (loadsAndStores_load _) fun _ => .bind (ih _) fun _ => .pure _

theorem loadsAndStores_loadArg (address : UInt64) : (loadArg address).LoadsAndStores := by
  refine .bind (loadsAndStores_load _) fun kind => .bind (loadsAndStores_load _) fun lo => ?_
  split
  · exact .pure _
  split
  · exact .pure _
  split
  · exact .bind (loadsAndStores_load _) fun hi => .bind (loadsAndStores_lift _) fun s => .pure _
  · exact .throw _

theorem loadsAndStores_loadArgs (address : UInt64) (n : Nat) : (loadArgs address n).LoadsAndStores := by
  induction n generalizing address with
  | zero => exact .pure []
  | succ n ih => exact .bind (loadsAndStores_loadArg _) fun _ => .bind (ih _) fun _ => .pure _

/-! ## All services -/

def readsMemory : Service → Bool
  | .printAll | .printf | .sprintf => true
  | _ => false

/-- What a service does with its arguments: it refuses them, computes, or acts on the context, and those that print read
the memory first. -/
inductive Form (n : Nat) : Bool → HostM Context (List UInt64) → Prop
  | misfit {reads : Bool} : Form n reads misfit
  | pure {reads : Bool} {ws : List UInt64} (h : ws.length = n) : Form n reads (pure ws)
  | lift {reads : Bool} {a : Act (List UInt64)} (h : Counts n a) : Form n reads (lift a)
  | strings {address : UInt64} {count : Nat} {f : List Packed → Act (List UInt64)} (h : ∀ args, Counts n (f args)) :
    Form n true (loadStrings address count >>= fun args => Service.lift (f args))
  | args {address : UInt64} {count : Nat} {f : List Format.Arg → Act (List UInt64)} (h : ∀ args, Counts n (f args)) :
    Form n true (loadArgs address count >>= fun args => Service.lift (f args))

theorem form_perform (s : Service) (args : List UInt64) :
    Form (Kind.total s.sig.returns) s.readsMemory (perform s args) := by
  fun_cases perform s args <;> first
    | with_reducible exact .misfit
    | (with_reducible refine .pure ?_) <;> rfl
    | (with_reducible refine .lift (.bind fun _ => .pure ?_)) <;> rfl
    | (with_reducible refine .lift (.bind fun _ => .bind fun _ => .pure ?_)) <;> rfl
    | exact .strings fun _ => .bind fun _ => .pure rfl
    | exact .args fun _ => .bind fun _ => .pure rfl
    | exact .lift (counts_keyAt _ _ _)
    | exact .lift (counts_onMap _ _ _ _ _)

theorem Form.yields {n : Nat} {reads : Bool} {x : HostM Context (List UInt64)} (h : Form n reads x) : Yields n x := by
  cases h with
  | misfit => exact .misfit
  | pure h => exact .pure h
  | lift h => exact .lift h
  | strings h | args h => exact .bind fun _ => .lift (h _)

theorem Form.blind {n : Nat} {x : HostM Context (List UInt64)} (h : Form n false x) : Blind x := by
  cases h with
  | misfit => exact .misfit
  | pure _ => exact .pure _
  | lift _ => exact .lift _

theorem Form.loadsAndStores {n : Nat} {reads : Bool} {x : HostM Context (List UInt64)} (h : Form n reads x) :
    x.LoadsAndStores := by
  cases h with
  | misfit => exact loadsAndStores_misfit
  | pure _ => exact .pure _
  | lift _ => exact loadsAndStores_lift _
  | strings _ => exact .bind (loadsAndStores_loadStrings _ _) fun _ => loadsAndStores_lift _
  | args _ => exact .bind (loadsAndStores_loadArgs _ _) fun _ => loadsAndStores_lift _

theorem yields_perform (s : Service) (args : List UInt64) : Yields (Kind.total s.sig.returns) (perform s args) :=
  (form_perform s args).yields

theorem blind_perform {s : Service} (h : s.readsMemory = false) (args : List UInt64) : Blind (perform s args) :=
  (h ▸ form_perform s args).blind

theorem loadsAndStores_perform (s : Service) (args : List UInt64) : (perform s args).LoadsAndStores :=
  (form_perform s args).loadsAndStores

theorem keepsShape_perform (s : Service) (args : List UInt64) : (perform s args).KeepsShape :=
  (loadsAndStores_perform s args).keepsShape

end RecordMill.Service

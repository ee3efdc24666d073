import RecordMill.Proofs.Lowering.Mentions
import RecordMill.Proofs.Lowering.Parameters

/-!
# What instructions depend on

Two activations of one function may differ in all registers but those that an instruction uses. With the same context
they hold the same in the registers it defines when it is done, and if the one gets that far, so does the other: what is
given up on the way is different, but it is owned in either. -/

namespace RecordMill

namespace Direct

/-- What a register holds; an iterator holds a list of keys and the index of the next one. -/
def Store.holds (e : Setting) (δ : Store) (r : Reg) : List UInt64 :=
  if r.ty.isIter then [δ.keys r, δ.position r] else δ.reads e r

/-- The stores have the same context, hold the same in the registers `rs` and go the same way. -/
structure Store.Agree (e : Setting) (rs : List Reg) (δ₁ δ₂ : Store) : Prop where
  flow : δ₂.flow = δ₁.flow
  holds : ∀ r ∈ rs, δ₂.holds e r = δ₁.holds e r
  context : δ₂.context = δ₁.context

/-- The stores may have given up different objects. -/
structure Store.Match (e : Setting) (rs : List Reg) (δ₁ δ₂ : Store) : Prop where
  flow : δ₂.flow = δ₁.flow
  holds : ∀ r ∈ rs, δ₂.holds e r = δ₁.holds e r
  context : ∃ heap, δ₂.context = { δ₁.context with heap }
  size : δ₂.context.heap.slots.size = δ₁.context.heap.slots.size

/-- The step looks at no other registers and changes nothing but the context. -/
class Looks (e : Setting) (rs : List Reg) {α : Type} (x : Direct α) : Prop where
  same : ∀ {δ₁ δ₂ : Store}, δ₁.Agree e rs δ₂ → ∃ a c, x e δ₁ = (a, { δ₁ with context := c })
    ∧ x e δ₂ = (a, { δ₂ with context := c })

/-- Where the step succeeds in one store it succeeds in another one, which holds the same in the registers `rs` and has
a reference for every owner. Afterwards they hold the same in the registers `ds`. References to `given` are used up. -/
class Sets (e : Setting) (rs ds : List Reg) (given : List UInt64) (x : Direct Unit) : Prop where
  done : ∀ {others : List UInt64} {δ₁ δ₂ δ₁' : Store}, δ₁.Agree e rs δ₂ → δ₂.Solvent e (given ++ others) →
    x e δ₁ = (.ok (), δ₁') →
    δ₁'.context.heap.slots.size < UInt64.size → ∃ δ₂', x e δ₂ = (.ok (), δ₂') ∧ δ₁'.Match e ds δ₂'

section

variable {e : Setting} {rs ds : List Reg} {r : Reg} {b : Binding} {ws : List UInt64} {δ₁ δ₂ δ₁' : Store}
  {others : List UInt64}

theorem Store.holds_of_iter (hr : r.ty.isIter = true) (δ : Store) : δ.holds e r = [δ.keys r, δ.position r] := if_pos hr

theorem Store.holds_of_not_iter (hr : r.ty.isIter = false) (δ : Store) :
    δ.holds e r = δ.reads e r := if_neg (by simp [hr])

theorem Setting.Binds.holds_put (hb : e.Binds r b) (δ : Store) (ws : List UInt64) (u : Reg) :
    (δ.put r b ws).holds e u = if u = r then ws else δ.holds e u := by
  have hkeys : (δ.put r b ws).keys = δ.keys ∧ (δ.put r b ws).position = δ.position := by
    unfold Store.put
    split <;> exact ⟨rfl, rfl⟩
  unfold Store.holds
  rw [hb.reads_put, hkeys.1, hkeys.2]
  by_cases hu : u = r
  · simp [hu, hb.iter]
  · simp [hu]

namespace Store

theorem Agree.act (h : δ₁.Agree e rs δ₂) (c : Context) : Agree e rs { δ₁ with context := c } { δ₂ with context := c } :=
  ⟨h.flow, h.holds, rfl⟩

theorem Match.of_agree (h : δ₁.Agree e rs δ₂) : δ₁.Match e rs δ₂ := ⟨h.flow, h.holds, ⟨_, h.context⟩, by rw [h.context]⟩

theorem Match.mono (h : δ₁.Match e rs δ₂) (hds : ∀ r ∈ ds, r ∈ rs) : δ₁.Match e ds δ₂ :=
  ⟨h.flow, fun r hr => h.holds r (hds r hr), h.context, h.size⟩

theorem Match.put (h : δ₁.Match e rs δ₂) (hb : e.Binds r b) (ws : List UInt64) :
    (δ₁.put r b ws).Match e (r :: rs) (δ₂.put r b ws) := by
  refine ⟨by simpa using h.flow, fun u hu => ?_, by simpa using h.context, by simpa using h.size⟩
  rw [hb.holds_put, hb.holds_put]
  by_cases hur : u = r
  · rw [if_pos hur, if_pos hur]
  · rw [if_neg hur, if_neg hur, h.holds u ((List.mem_cons.1 hu).resolve_left hur)]

theorem Match.heaps (h : δ₁.Match e rs δ₂) {h₁ h₂ : Heap} (hsize : h₂.slots.size = h₁.slots.size) :
    Match e rs { δ₁ with context := { δ₁.context with heap := h₁ } } { δ₂ with context :=
      { δ₂.context with heap := h₂ } } := by
  obtain ⟨heap, hcontext⟩ := h.context
  exact ⟨h.flow, h.holds, ⟨h₂, by rw [hcontext]⟩, hsize⟩

end Store

end

section

variable {e : Setting} {rs ds : List Reg} {given : List UInt64} {α β : Type} {x : Direct α}

/-! ## Looking -/

namespace Looks

instance (a : α) : Looks e rs (pure a : Direct α) := ⟨fun h => ⟨_, _, rfl, by rw [← h.context]; rfl⟩⟩

instance (t : Machine.Trap) : Looks e rs (trap t : Direct α) := ⟨fun h => ⟨_, _, rfl, by rw [← h.context]; rfl⟩⟩

instance (s : Stop) : Looks e rs (stop s : Direct α) := ⟨fun h => ⟨_, _, rfl, by rw [← h.context]; rfl⟩⟩

instance (s : Stop) : Looks e rs (throw s : Direct α) := inferInstanceAs (Looks e rs (stop s))

instance (r : Reg) (p : BindingProblem) : Looks e rs (fail r p : Direct α) := inferInstanceAs (Looks e rs (stop _))

instance (priority := low) of_bind {f : α → Direct β} [hx : Looks e rs x] [hf : ∀ a, Looks e rs (f a)] :
    Looks e rs (x >>= f) where
  same {δ₁ δ₂} h := by
    obtain ⟨a, c, h₁, h₂⟩ := hx.same h
    rw [bind_apply, bind_apply, h₁, h₂]
    rcases a with halt | a
    · exact ⟨_, c, rfl, rfl⟩
    · exact (hf a).same (h.act c)

instance of_read {f : Setting → Direct β} [h : Looks e rs (f e)] :
    Looks e rs ((MonadReader.read : Direct Setting) >>= f) :=
  ⟨fun hδ => h.same hδ⟩

instance {p : Prop} [Decidable p] {y : Direct α} [hx : Looks e rs x] [hy : Looks e rs y] :
    Looks e rs (if p then x else y) := by
  split
  · exact hx
  · exact hy

theorem mapM {f : β → Direct α} {xs : List β} (h : ∀ a ∈ xs, Looks e rs (f a)) : Looks e rs (xs.mapM f) := by
  induction xs with
  | nil => exact inferInstanceAs (Looks e rs (pure []))
  | cons y ys ih =>
    have hone := h y (.head _)
    have hrest := ih fun a ha => h a (.tail _ ha)
    rw [List.mapM_cons]
    infer_instance

end Looks

instance (a : Act α) : Looks e rs (act a) where
  same {δ₁ δ₂} h := by
    unfold act
    rw [h.context]
    rcases a δ₁.context with ⟨f | r, c⟩ <;> exact ⟨_, c, rfl, rfl⟩

instance (s : Service) (args : List (List UInt64)) : Looks e rs (service s args) where
  same {δ₁ δ₂} h := by
    rw [Realizes.service_apply, Realizes.service_apply, h.context]
    rcases Service.perform s args.flatten ⟨⟨#[], 0, 0, 0⟩, δ₁.context⟩ with ⟨t | ws, out⟩
      <;> exact ⟨_, out.host, rfl, rfl⟩

instance (s : Service) (args : List (List UInt64)) : Looks e rs (tell s args) := by
  unfold tell
  infer_instance

instance (s : Bytes) : Looks e rs (constStr s) := by
  unfold constStr
  split
  · infer_instance
  · refine Looks.of_read (h := ?_)
    split <;> infer_instance

instance (r : Reg) [e.Scoped] [hr : r.Among rs] : Looks e rs (value r) where
  same {δ₁ δ₂} h := by
    cases hnull : r.isNull with
    | true => exact ⟨_, _, value_null hnull, by rw [value_null hnull, ← h.context]⟩
    | false =>
      have hmem : r ∈ rs := hr.mem.resolve_left (by simp [hnull])
      unfold value
      rw [if_neg (by simp [hnull])]
      cases hiter : r.ty.isIter with
      | true =>
        have hfail : Looks e rs (fail r .loadIterator : Direct (List UInt64)) := inferInstance
        exact hfail.same h
      | false =>
        cases hb : e.scope.binding? r with
        | none =>
          refine (Looks.of_read (h := ?_)).same h
          rw [hb]
          infer_instance
        | some b =>
          have hbinds := Setting.binds hb
          have hvalue := fun δ : Store => hbinds.value (δ := δ)
          unfold value at hvalue
          simp only [hnull, hiter, Bool.false_eq_true, if_false] at hvalue ⊢
          have hsame := h.holds r hmem
          rw [Store.holds_of_not_iter hiter, Store.holds_of_not_iter hiter] at hsame
          exact ⟨_, _, hvalue δ₁, by rw [hvalue δ₂, hsame, ← h.context]⟩

theorem looks_values [e.Scoped] {args : List Reg} (h : ∀ a ∈ args, a.Among rs) : Looks e rs (args.mapM value) :=
  .mapM fun a ha => by
    have hone := h a ha
    infer_instance

/-! ### Operations -/

instance (op : ValueOp) : Looks e rs (unsupported op : Direct α) := inferInstanceAs (Looks e rs (stop _))

instance (b : Option Bool) : Looks e rs (truth b) := by
  unfold truth
  split <;> infer_instance

instance (fn : MathFn) (args : List (List UInt64)) : Looks e rs (applyMath fn args) := by
  unfold applyMath
  split
  · infer_instance
  · split <;> infer_instance

instance (op : Machine.IntOp) (x y : UInt64) : Looks e rs (int op x y) := by
  unfold int
  split <;> infer_instance

instance (float : Bool) (op : Arith) (args : List (List UInt64)) : Looks e rs (applyArith float op args) := by
  unfold applyArith
  split
  · infer_instance
  · infer_instance
  · infer_instance
  · split <;> infer_instance
  · split <;> infer_instance
  · infer_instance

instance (op : Bitwise) (args : List (List UInt64)) : Looks e rs (applyBit op args) := by
  unfold applyBit
  split <;> infer_instance

instance (op : ValueOp) (args : List (List UInt64)) : Looks e rs (applyFitting op args) := by
  unfold applyFitting
  cases op with
  | compare float c => rcases float with _ | _ <;> rcases args with _ | ⟨x, _ | ⟨y, _ | _⟩⟩ <;> infer_instance
  | arith | bit | math | service | unknown => infer_instance
  | div | pow | floatToInt | intToFloat => rcases args with _ | ⟨x, _ | ⟨y, _ | _⟩⟩ <;> infer_instance

instance (op : ValueOp) (args : List (List UInt64)) : Looks e rs (apply op args) := by
  unfold apply
  split <;> infer_instance

/-! ### Iterators and output -/

instance (r : Reg) : Looks e rs (iterKey r) := by
  unfold iterKey
  refine Looks.of_read (h := ?_)
  split <;> infer_instance

theorem Store.Agree.iterator {r : Reg} {δ₁ δ₂ : Store} (h : δ₁.Agree e rs δ₂) (hr : r ∈ rs)
    (hiter : r.ty.isIter = true) :
    δ₂.keys r = δ₁.keys r ∧ δ₂.position r = δ₁.position r := by
  have hsame := h.holds r hr
  rw [Store.holds_of_iter hiter, Store.holds_of_iter hiter] at hsame
  simpa using hsame

theorem looks_keysOf {r : Reg} (hr : r ∈ rs) (hiter : r.ty.isIter = true) : Looks e rs (keysOf r) :=
  ⟨fun {δ₁ δ₂} h => ⟨.ok [δ₁.keys r], δ₁.context, rfl, by rw [← (h.iterator hr hiter).1, ← h.context]; rfl⟩⟩

theorem looks_positionOf {r : Reg} (hr : r ∈ rs) (hiter : r.ty.isIter = true) : Looks e rs (positionOf r) :=
  ⟨fun {δ₁ δ₂} h => ⟨.ok [δ₁.position r], δ₁.context, rfl, by rw [← (h.iterator hr hiter).2, ← h.context]; rfl⟩⟩

instance (r : Reg) (what : MapService) : Looks e rs (Lowering.mapService r what : Direct Service) := by
  unfold Lowering.mapService
  split <;> infer_instance

theorem looks_output [e.Scoped] {out : Option Output} (h : ∀ r ∈ Instr.outputRegs out, r.Among rs) :
    Looks e rs (output out) := by
  cases out with
  | none => exact inferInstanceAs (Looks e rs (constStr [] >>= fun _ => pure _))
  | some o =>
    have hpath := h o.path (.head _)
    exact inferInstanceAs (Looks e rs (value o.path >>= fun _ => pure _))

/-! ## Setting -/

namespace Sets

instance (priority := low) after {f : α → Direct Unit} [hx : Looks e rs x] [hfair : Fair e x]
    [hf : ∀ a, Sets e rs ds given (f a)] :
    Sets e rs ds given (x >>= f) where
  done {others δ₁ δ₂ δ₁'} h hs hrun hsize := by
    obtain ⟨r, c, h₁, h₂⟩ := hx.same h
    obtain ⟨a, δ, hfirst, hrest⟩ := bind_eq_ok hrun
    cases h₁.symm.trans hfirst
    obtain ⟨δ₂', hdone, hmatch⟩ := (hf a).done (h.act c) (hfair.solvent h₂ hs) hrest hsize
    exact ⟨δ₂', (bind_ok h₂).trans hdone, hmatch⟩

theorem follow {f : α → Direct Unit} [Looks e rs x] [Fair e x] (h : ∀ a, Sets e rs ds given (f a)) :
    Sets e rs ds given (x >>= f) :=
  inferInstance

theorem spend {owned : α → UInt64} {f : α → Direct Unit} [hx : Looks e rs x] (hyields : Yields e owned x)
    (hf : ∀ a, Sets e rs ds [owned a] (f a)) : Sets e rs ds [] (x >>= f) where
  done {others δ₁ δ₂ δ₁'} h hs hrun hsize := by
    obtain ⟨r, c, h₁, h₂⟩ := hx.same h
    obtain ⟨a, δ, hfirst, hrest⟩ := bind_eq_ok hrun
    cases h₁.symm.trans hfirst
    obtain ⟨δ₂', hdone, hmatch⟩ := (hf a).done (h.act c) (hyields.solvent h₂ hs) hrest hsize
    exact ⟨δ₂', (bind_ok h₂).trans hdone, hmatch⟩

theorem of_none {a : UInt64} {y : Direct Unit} (h : Sets e rs ds [] y) : Sets e rs ds [a] y :=
  ⟨fun hδ hs hrun hsize => h.done hδ (hs.mono fun _ _ => List.count_le_count_cons) hrun hsize⟩

theorem of_looks {y : Direct Unit} (hy : Looks e rs y) : Sets e rs [] given y where
  done h _ hrun _ := by
    obtain ⟨r, c, h₁, h₂⟩ := hy.same h
    cases h₁.symm.trans hrun
    exact ⟨_, h₂, (Store.Match.of_agree (h.act c)).mono (List.forall_mem_nil _)⟩

instance {p : Prop} [Decidable p] {y z : Direct Unit} [hy : Sets e rs ds given y] [hz : Sets e rs ds given z] :
    Sets e rs ds given (if p then y else z) := by
  split
  · exact hy
  · exact hz

instance (s : Stop) : Sets e rs ds given (stop s) := ⟨fun _ _ hrun => by cases hrun⟩

instance (s : Stop) : Sets e rs ds given (throw s) := ⟨fun _ _ hrun => by cases hrun⟩

end Sets

/-! ### Binding -/

theorem Store.Agree.bind [e.Scoped] {r : Reg} {ws : List UInt64} {δ₁ δ₂ δ₁' : Store} {others : List UInt64}
    (h : δ₁.Agree e rs δ₂) (hs : δ₂.Solvent e others) (hrun : Direct.bind r ws e δ₁ = (.ok (), δ₁'))
    (hsize : δ₁'.context.heap.slots.size < UInt64.size) :
    ∃ δ₂', Direct.bind r ws e δ₂ = (.ok (), δ₂') ∧ δ₁'.Match e (Instr.nonNull [r]) δ₂' := by
  have hmatch := Match.of_agree h
  obtain ⟨hnull, rfl⟩ | ⟨b, hb, ⟨hcounted, rfl⟩ | ⟨hcounted, hfits, h₁, h₂, hup, hdown, rfl⟩⟩ := bind_cases hrun
  · refine ⟨δ₂, bind_null hnull, hmatch.mono fun u hu => ?_⟩
    simp [Instr.nonNull, hnull] at hu
  · refine ⟨δ₂.put r b ws, ?_, (hmatch.put hb ws).mono fun u hu => ?_⟩
    · rw [bind_apply' hb.null hb.iter hb.found, hcounted]
      rfl
    · exact List.mem_cons.2 (.inl (List.mem_singleton.1 (List.mem_filter.1 hu).1))
  · obtain ⟨hheap, hl⟩ : r.ty.isHeap = true ∧ b.isLiteral = false := by simpa using hcounted
    rw [← h.context] at hup
    have hsize₁ : h₁.slots.size < UInt64.size := Heap.size_drop hdown ▸ hsize
    have hold : r.ty.handle (δ₂.reads e r) ∈ r.ty.handle ws :: (others ++ δ₂.owned e) :=
      .tail _ (List.mem_append_right _ (hb.mem_owned hheap hl δ₂))
    obtain ⟨h₂', hdown'⟩ := (hs.affords.ref hup).exists_drop hsize₁ fun _ => hold
    refine ⟨_, bind_counted hb hcounted hfits (hs.reads_fits hb) hup hdown', ?_⟩
    have hput := (hmatch.put hb ws).heaps ((Heap.size_drop hdown').trans (Heap.size_drop hdown).symm)
    rw [Store.put_context, Store.put_context] at hput
    refine hput.mono fun u hu => ?_
    exact List.mem_cons.2 (.inl (List.mem_singleton.1 (List.mem_filter.1 hu).1))

theorem Store.Match.drop {ty : Ty} {ws : List UInt64} {δ₁ δ₂ δ₁' : Store} {others : List UInt64} (h : δ₁.Match e ds δ₂)
    (hs : δ₂.Solvent e (ty.handle ws :: others)) (hrun : Direct.drop ty ws e δ₁ = (.ok (), δ₁'))
    (hsize : δ₁'.context.heap.slots.size < UInt64.size) :
    ∃ δ₂', Direct.drop ty ws e δ₂ = (.ok (), δ₂') ∧ δ₁'.Match e ds δ₂' := by
  obtain ⟨hfits, heap, hdown, rfl⟩ := drop_eq_ok hrun
  have hsizes := Heap.size_drop hdown
  obtain ⟨heap', hdown'⟩ := hs.affords.exists_drop (by rw [h.size, ← hsizes]; exact hsize) fun _ => .head _
  exact ⟨_, drop_apply hfits hdown', h.heaps ((Heap.size_drop hdown').trans (h.size.trans hsizes.symm))⟩

namespace Sets

instance (r : Reg) (ws : List UInt64) [e.Scoped] :
    Sets e rs (Instr.nonNull [r]) given (Direct.bind r ws) := ⟨fun h hs => h.bind hs⟩

/-- Words are of the type of the register they go to, unless there is nothing to count. -/
theorem as {r : Reg} {ty : Ty} {ws : List UInt64} {y : Direct Unit} (h : Sets e rs ds [r.ty.handle ws] y)
    (hr : r.ty.isHeap → r.ty = ty) :
    Sets e rs ds [ty.handle ws] y := by
  cases hheap : r.ty.isHeap with
  | true => rwa [← hr hheap]
  | false =>
    rw [Ty.handle_of_not_heap hheap] at h
    refine ⟨fun {others δ₁ δ₂ δ₁'} hδ hs hrun hsize => ?_⟩
    have hzero : δ₂.Solvent e ([0] ++ others) := hs.mono fun a ha => by
      rw [List.singleton_append, count_cons_zero rfl ha]
      exact List.count_le_count_cons
    exact h.done hδ hzero hrun hsize

theorem bindOwned [e.Scoped] {r : Reg} [Counted e r] {ty : Ty} {ws : List UInt64} (hr : r.ty.isHeap → r.ty = ty) :
    Sets e rs (Instr.nonNull [r]) [ty.handle ws] (Direct.bindOwned r ws) := by
  refine Sets.as (r := r) ⟨fun {others δ₁ δ₂ δ₁'} h hs hrun hsize => ?_⟩ hr
  obtain ⟨⟨⟩, δ₁'', hbind, hdrop⟩ := bind_eq_ok hrun
  obtain ⟨-, heap, hdown, rfl⟩ := drop_eq_ok hdrop
  obtain ⟨δ₂'', hbind', hmatch⟩ := h.bind hs hbind (Heap.size_drop hdown ▸ hsize)
  obtain ⟨δ₂', hdrop', hmatch'⟩ := hmatch.drop (hs.bind hbind') hdrop hsize
  exact ⟨δ₂', (bind_ok hbind').trans hdrop', hmatch'⟩

theorem loaded [e.Scoped] {r : Reg} [Counted e r] {ws : List UInt64} :
    Sets e rs (Instr.nonNull [r]) [r.ty.handle ws] (Direct.bind r ws >>= fun _ => Direct.loaded r) where
  done {others δ₁ δ₂ δ₁'} h hs hrun hsize := by
    obtain ⟨⟨⟩, δ₁'', hbind, hloaded⟩ := bind_eq_ok hrun
    unfold Direct.loaded at hloaded ⊢
    cases hheap : r.ty.isHeap with
    | false =>
      rw [hheap, if_neg (by simp)] at hloaded
      cases hloaded
      obtain ⟨δ₂', hbind', hmatch⟩ := h.bind hs hbind hsize
      exact ⟨δ₂', (bind_ok hbind').trans rfl, hmatch⟩
    | true =>
      rw [if_pos hheap, bind_ok (value_of_bind hbind hheap)] at hloaded
      obtain ⟨-, heap, hdown, rfl⟩ := drop_eq_ok hloaded
      obtain ⟨δ₂'', hbind', hmatch⟩ := h.bind hs hbind (Heap.size_drop hdown ▸ hsize)
      obtain ⟨δ₂', hdrop', hmatch'⟩ := hmatch.drop (hs.bind hbind') hloaded hsize
      refine ⟨δ₂', (bind_ok hbind').trans ?_, hmatch'⟩
      rw [if_pos rfl]
      exact (bind_ok (value_of_bind hbind' hheap)).trans hdrop'

instance (t : Ty) (d s : Nat) [e.Scoped] [Reg.Among rs ⟨s, t⟩] :
    Sets e rs (Instr.nonNull [⟨d, t⟩]) given (mov t d s) := by
  unfold mov
  infer_instance

/-! ### Iterators -/

instance (r : Reg) (w : UInt64) {f : Unit → Direct Unit} [hf : ∀ u, Sets e rs ds given (f u)] :
    Sets e rs ds given (setPosition r w >>= f) where
  done {others δ₁ δ₂ δ₁'} h hs hrun hsize := by
    have hmoved : ∀ δ : Store, setPosition r w e δ
        = (.ok (), { δ with position := fun u => if u = r then w else δ.position u }) :=
      fun _ => rfl
    rw [bind_ok (hmoved δ₁)] at hrun
    rw [bind_ok (hmoved δ₂)]
    have hagree : Store.Agree e rs { δ₁ with position := fun u => if u = r then w else δ₁.position u }
        { δ₂ with position := fun u => if u = r then w else δ₂.position u } := ⟨h.flow, fun u hu => ?_, h.context⟩
    · exact (hf ()).done hagree ⟨hs.affords, hs.globals, hs.locals, hs.literals⟩ hrun hsize
    cases hiter : u.ty.isIter with
    | true =>
      obtain ⟨hkeys, hposition⟩ := h.iterator hu hiter
      simp [Store.holds_of_iter hiter, hkeys, hposition]
    | false =>
      have hsame := h.holds u hu
      rwa [Store.holds_of_not_iter hiter, Store.holds_of_not_iter hiter] at hsame ⊢

theorem setKeys {r : Reg} (hr : r ∈ e.iterators) (w : UInt64) : Sets e rs [r] [w] (do
    dropKeys r
    Direct.setKeys r w
    setPosition r 0) where
  done {others δ₁ δ₂ δ₁'} h hs hrun hsize := by
    obtain ⟨⟨⟩, δ, hdrop, hset⟩ := bind_eq_ok hrun
    obtain ⟨heap, hdown, rfl⟩ := tell_change_eq_ok (g := (·.drop (δ₁.keys r))) rfl hdrop
    cases hset
    have hsizes := Heap.size_drop hdown
    have hold : δ₂.keys r ∈ [w] ++ others ++ δ₂.owned e :=
      List.mem_append_right _ (List.mem_append_right _ (List.mem_append_right _ (List.mem_map_of_mem hr)))
    obtain ⟨heap', hdown'⟩ := hs.affords.exists_drop (by rw [h.context, ← hsizes]; exact hsize) fun _ => hold
    have hdrop' : dropKeys r e δ₂ = (.ok (), { δ₂ with context := { δ₂.context with heap := heap' } }) :=
      tell_of_act (w := [contextWord, [δ₂.keys r]]) rfl (Act.change_ok (g := (·.drop (δ₂.keys r))) hdown')
    refine ⟨_, (bind_ok hdrop').trans rfl, h.flow, List.forall_mem_singleton.2 ?_, ⟨heap', by rw [h.context]⟩, ?_⟩
    · have hiter : r.ty.isIter = true := (List.mem_filter.1 hr).2
      simp [Store.holds_of_iter hiter]
    · rw [h.context] at hdown'
      exact (Heap.size_drop hdown').trans hsizes.symm

theorem iterKey {r : Reg} {k : Key} (hr : r.ty = .iter k) {f : Key → Direct Unit} (h : Sets e rs ds given (f k)) :
    Sets e rs ds given (Direct.iterKey r >>= f) where
  done {others δ₁ δ₂ δ₁'} hδ hs hrun hsize := by
    obtain ⟨j, δ, hkey, hrest⟩ := bind_eq_ok hrun
    have hlooks : Looks e rs (Direct.iterKey r) := inferInstance
    have hkeyed : Fair e (Direct.iterKey r) := inferInstance
    obtain ⟨a, c, h₁, h₂⟩ := hlooks.same hδ
    cases h₁.symm.trans hkey
    obtain rfl : k = j := by simpa [hr] using iterKey_ty hkey
    obtain ⟨δ₂', hdone, hmatch⟩ := h.done (hδ.act c) (hkeyed.solvent h₂ hs) hrest hsize
    exact ⟨δ₂', (bind_ok h₂).trans hdone, hmatch⟩

theorem iterBegin [e.Scoped] {d m : Reg} [m.Among rs] (hd : d ∈ e.iterators) {k : Key} {v : Scalar}
    (hm : m.ty = .map k v) :
    Sets e rs [d] [] (Direct.iterBegin d m) := by
  have hbegin : ∀ wss, Sets e rs [d] [] (service (.map k v .iterBegin) wss >>= fun keys => do
      dropKeys d
      Direct.setKeys d (word keys)
      setPosition d 0) := fun wss => .spend (yields_iterBegin k v wss) fun keys => .setKeys hd (word keys)
  unfold Direct.iterBegin
  simp only [Lowering.mapService_eq hm, pure_bind]
  infer_instance

theorem iterHasNext [e.Scoped] {d r : Reg} (hr : r ∈ rs) (hiter : r.ty.isIter = true) :
    Sets e rs (Instr.nonNull [d]) given (Direct.iterHasNext d r) := by
  have hkeys : Looks e rs (keysOf r) := looks_keysOf hr hiter
  have hposition : Looks e rs (positionOf r) := looks_positionOf hr hiter
  have hlen : ∀ k wss, Fair e (service (.iterLen k) wss) := fun k => fair_service rfl rfl
  unfold Direct.iterHasNext
  infer_instance

theorem iterGetNext [e.Scoped] {d r : Reg} [Counted e d] (hr : r ∈ rs) {k : Key} (hk : r.ty = .iter k)
    (hd : d.ty = k.ty) :
    Sets e rs (Instr.nonNull [d]) [] (Direct.iterGetNext d r) := by
  have hiter : r.ty.isIter = true := by rw [hk]; rfl
  have hkeys : Looks e rs (keysOf r) := looks_keysOf hr hiter
  have hposition : Looks e rs (positionOf r) := looks_positionOf hr hiter
  have hget : ∀ it pos, Sets e rs (Instr.nonNull [d]) [] (service (.iterGet k) [contextWord, it, pos] >>= fun key => do
      setPosition r (word (← int .add (word pos) 1))
      Direct.bindOwned d key) := fun it pos => by
    refine .spend (yields_service (s := .iterGet k) rfl rfl _) fun key => ?_
    have hbind : Sets e rs (Instr.nonNull [d]) [(Service.iterGet k).granted.handle key] (Direct.bindOwned d key) :=
      .bindOwned fun _ => hd
    infer_instance
  unfold Direct.iterGetNext
  refine .iterKey hk ?_
  infer_instance

/-! ### Printing and control -/

section

variable [e.Scoped] {d f : Reg} {out : Option Output} {args : List Reg}

theorem printAll (hout : ∀ r ∈ Instr.outputRegs out, r.Among rs) (hargs : ∀ r ∈ args, r.Among rs) :
    Sets e rs (Instr.nonNull [d]) given (Direct.printAll d out args) := by
  have houtput : Looks e rs (output out) := looks_output hout
  have hvalues : Looks e rs (args.mapM value) := looks_values hargs
  unfold Direct.printAll
  infer_instance

theorem printf [f.Among rs] (hout : ∀ r ∈ Instr.outputRegs out, r.Among rs) (hargs : ∀ r ∈ args, r.Among rs) :
    Sets e rs (Instr.nonNull [d]) given (Direct.printf d out f args) := by
  have houtput : Looks e rs (output out) := looks_output hout
  have hvalues : Looks e rs (args.mapM value) := looks_values hargs
  unfold Direct.printf
  infer_instance

theorem sprintf [f.Among rs] [Counted e d] (hd : d.ty = .str) (hargs : ∀ r ∈ args, r.Among rs) :
    Sets e rs (Instr.nonNull [d]) [] (Direct.sprintf d f args) := by
  have hvalues : Looks e rs (args.mapM value) := looks_values hargs
  have hgiven : ∀ w wss, Sets e rs (Instr.nonNull [d]) []
      (act (formatArgs args wss >>= fun args => Act.sprintf (packed w) args) >>= fun q =>
      Direct.bindOwned d (ofPacked q)) := fun w wss => by
    have hgrants : Act.Grants (formatArgs args wss >>= fun args => Act.sprintf (packed w) args) Packed.handle :=
      .bind .of_same fun args => .of_settles (Act.settles_sprintf _ args)
    refine .spend (yields_act hgrants) fun q => ?_
    have howned : Sets e rs (Instr.nonNull [d]) [d.ty.handle (ofPacked q)] (Direct.bindOwned d (ofPacked q)) :=
      .bindOwned fun _ => rfl
    rwa [hd] at howned
  unfold Direct.sprintf
  infer_instance

omit [e.Scoped] in
instance (f : Flow) : Sets e rs [] given (Direct.follow f) where
  done h _ hrun _ := by
    cases hrun
    exact ⟨_, rfl, rfl, List.forall_mem_nil _, ⟨_, h.context⟩, by rw [h.context]⟩

instance (r : Reg) (l : Label) [r.Among rs] : Sets e rs [] given (jumpIf r l) := by
  have hstay : Sets e rs [] given (pure () : Direct Unit) := .of_looks inferInstance
  unfold jumpIf
  infer_instance

omit [e.Scoped] in
theorem drop {ty : Ty} {ws : List UInt64} : Sets e rs [] [ty.handle ws] (Direct.drop ty ws) :=
  ⟨fun h hs hrun hsize => (Store.Match.of_agree h).drop hs hrun hsize |>.imp fun _ hdone =>
    ⟨hdone.1, hdone.2.mono (List.forall_mem_nil _)⟩⟩

theorem resume {dst : Reg} [Counted e dst] {ret : Ty} {ws : List UInt64} (hdst : dst.ty = .null ∨ dst.ty = ret) :
    Sets e rs (Instr.nonNull [dst]) [ret.handle ws] (Direct.resume dst ret ws) := by
  have hnone : dst.isNull = true → Instr.nonNull [dst] = [] := fun h => by simp [Instr.nonNull, h]
  unfold Direct.resume
  split
  · next hret =>
    have hnull : dst.isNull = true := isNull_eq_true.2 (hdst.elim id fun h => h.trans hret)
    rw [hnone hnull]
    exact .of_looks inferInstance
  · split
    · next hnull =>
      rw [hnone hnull]
      exact .drop
    · next hnull => exact .bindOwned fun _ => hdst.resolve_left (isNull_eq_false.1 (by simpa using hnull))

end

end Sets

end

end Direct

/-! ## Instructions -/

namespace Lowering

open Direct (Looks Sets Fair Yields Counted)

section

variable {e : Direct.Setting} [he : e.Scoped] {rs ds : List Reg} {given : List UInt64} {d : Reg} {args : List Reg}

omit he in
instance (op : ValueOp) (wss : List (List UInt64)) : Looks e rs (Emitter.apply op wss : Direct (List UInt64)) :=
  inferInstanceAs (Looks e rs (Direct.apply op wss))

instance (r : Reg) [r.Among rs] :
    Looks e rs (Emitter.value r : Direct (List UInt64)) := inferInstanceAs (Looks e rs (Direct.value r))

instance (ws : List UInt64) : Sets e rs (Instr.nonNull [d]) given (Emitter.bind d ws : Direct Unit) :=
  inferInstanceAs (Sets e rs (Instr.nonNull [d]) given (Direct.bind d ws))

omit he in
instance (sv : Service) (wss : List (List UInt64)) : Looks e rs (callService sv wss : Direct (List UInt64)) :=
  inferInstanceAs (Looks e rs (Direct.apply (.service sv) (Direct.contextWord :: wss)))

omit he in
instance (sv : Service) (wss : List (List UInt64)) : Looks e rs (performService sv wss : Direct Unit) :=
  inferInstanceAs (Looks e rs (Direct.tell sv (Direct.contextWord :: wss)))

omit he in
instance (us : List Reg) (wss : List (List UInt64)) : Looks e rs (toFloats us wss : Direct (List (List UInt64))) := by
  induction us generalizing wss with
  | nil => exact inferInstanceAs (Looks e rs (pure wss))
  | cons u us ih =>
    cases wss with
    | nil => exact inferInstanceAs (Looks e rs (pure []))
    | cons ws wss =>
      unfold toFloats
      infer_instance

theorem looks_values (h : ∀ a ∈ args, a.Among rs) :
    Looks e rs (args.mapM Emitter.value : Direct (List (List UInt64))) :=
  Direct.looks_values h

section

variable {sv : Service} (hs : sv.isCount = false) (hm : sv.readsMemory = false) [Counted e d]
  (hd : d.ty.isHeap → d.ty = sv.granted)

include hs hm hd

theorem sets_bindResult (wss : List (List UInt64)) :
    Sets e rs (Instr.nonNull [d]) [] (bindResult d sv wss : Direct Unit) := by
  unfold bindResult
  refine .spend (yields_callService hs hm wss) fun ws => ?_
  split
  · exact Sets.bindOwned hd
  · exact .of_none inferInstance

theorem sets_bindService (h : ∀ a ∈ args, a.Among rs) :
    Sets e rs (Instr.nonNull [d]) [] (bindService d sv args : Direct Unit) := by
  have hvalues : Looks e rs (args.mapM Emitter.value : Direct (List (List UInt64))) := looks_values h
  have hresult : ∀ wss, Sets e rs (Instr.nonNull [d]) [] (bindResult d sv wss : Direct Unit) := sets_bindResult hs hm hd
  unfold bindService
  infer_instance

end

theorem sets_bindMapService [Counted e d] {m : Reg} {k : Key} {v : Scalar} (hm : m.ty = .map k v) {what : MapService}
    (hd : d.ty.isHeap → d.ty = (Service.map k v what).granted) (h : ∀ a ∈ m :: args, a.Among rs) :
    Sets e rs (Instr.nonNull [d]) [] (bindMapService d m what args : Direct Unit) := by
  have hbind : Sets e rs (Instr.nonNull [d]) [] (bindService d (.map k v what) (m :: args) : Direct Unit) :=
    sets_bindService rfl rfl hd h
  unfold bindMapService
  rwa [mapService_eq hm, pure_bind]

theorem sets_onMap (m : Reg) (what : MapService) (h : ∀ a ∈ args, a.Among rs) : Sets e rs [] given (do
    let vs ← args.mapM Emitter.value
    performService (← mapService m what) vs : Direct Unit) := by
  have hvalues : Looks e rs (args.mapM Emitter.value : Direct (List (List UInt64))) := looks_values h
  exact .of_looks inferInstance

theorem sets_bindOp (op : ValueOp) [op.Computes] (h : ∀ a ∈ args, a.Among rs) :
    Sets e rs (Instr.nonNull [d]) given (bindOp d op args : Direct Unit) := by
  have hvalues : Looks e rs (args.mapM Emitter.value : Direct (List (List UInt64))) := looks_values h
  unfold bindOp
  infer_instance

theorem sets_bindFloatOp (op : ValueOp) [op.Computes] (h : ∀ a ∈ args, a.Among rs) :
    Sets e rs (Instr.nonNull [d]) given (bindFloatOp d op args : Direct Unit) := by
  have hvalues : Looks e rs (args.mapM Emitter.value : Direct (List (List UInt64))) := looks_values h
  unfold bindFloatOp
  infer_instance

theorem sets_compare (op : Cmp) {l r : Reg} (h : ∀ a ∈ [l, r], a.Among rs) :
    Sets e rs (Instr.nonNull [d]) given (compare d op l r : Direct Unit) := by
  have hvalues : Looks e rs ([l, r].mapM Emitter.value : Direct (List (List UInt64))) := looks_values h
  have horder : ∀ wss, Fair e (callService .compareStr wss : Direct (List UInt64)) :=
    fun wss => (yields_callService rfl rfl wss).fair
  have hop : Sets e rs (Instr.nonNull [d]) given (bindOp d (.compare (l.ty = .float) op) [l, r] : Direct Unit) :=
    sets_bindOp _ h
  have hzero : Looks e rs (Emitter.constInt 0 : Direct (List UInt64)) := inferInstanceAs (Looks e rs (pure _))
  unfold compare
  infer_instance

theorem sets_convert [Counted e d] {r : Reg} [r.Among rs] :
    Sets e rs (Instr.nonNull [d]) [] (convert d r : Direct Unit) := by
  unfold convert
  refine .follow fun ws => ?_
  split
  · infer_instance
  · split
    · infer_instance
    · infer_instance
    · next hd => exact sets_bindResult rfl rfl (fun _ => hd) _
    · next hd => exact sets_bindResult rfl rfl (fun _ => hd) _
    · next hd => exact sets_bindResult rfl rfl (not_heap (by rw [hd]; rfl)) _
    · next hd => exact sets_bindResult rfl rfl (not_heap (by rw [hd]; rfl)) _
    · exact inferInstanceAs (Sets e rs (Instr.nonNull [d]) [] (Direct.stop _))

theorem sets_loadVar [Counted e d] {v : Variable} (hd : d.ty = v.ty) :
    Sets e rs (Instr.nonNull [d]) [] (loadVar d v : Direct Unit) := by
  have hgranted : d.ty.isHeap → d.ty = (loadService d.ty).granted := fun hheap => by
    rw [hd] at hheap ⊢
    cases v <;> first | rfl | cases hheap
  have hquiet : (loadService d.ty).isCount = false ∧ (loadService d.ty).readsMemory = false := by
    cases d.ty <;> exact ⟨rfl, rfl⟩
  have hload : ∀ wss, Sets e rs (Instr.nonNull [d]) [] (callService (loadService d.ty) wss >>= fun ws =>
      Direct.bind d ws >>= fun _ =>
      Direct.loaded d) := fun wss => .spend (yields_callService hquiet.1 hquiet.2 wss) fun _ => Sets.loaded.as hgranted
  exact hload _

/-- The outcome of the read is not on the heap, so that it is the same even though other lines were given up. -/
theorem sets_readFileLine {status path : Reg} [Counted e d] [path.Among rs] (hd : d.ty = .str)
    (hstatus : status.ty = .int) :
    Sets e rs (Instr.nonNull [d, status]) [] (lower (.readFileLine d status path) : Direct Unit) where
  done {others δ₁ δ₂ δ₁'} h hs hrun hsize := by
    have hgranted : d.ty.isHeap → d.ty = Service.readFileLine.granted := fun _ => hd
    have hread : Sets e rs (Instr.nonNull [d]) [] (bindService d .readFileLine [path] : Direct Unit) :=
      sets_bindService rfl rfl hgranted (List.forall_mem_singleton.2 inferInstance)
    have houtcome : ∀ δ : Direct.Store, (bindResult status .lineStatus [] : Direct Unit) e δ
        = Direct.bind status (Service.ofInt δ.context.status) e δ := fun δ => by
      unfold bindResult
      simp only [hstatus, Ty.isHeap, Bool.false_eq_true, if_false]
      rfl
    obtain ⟨⟨⟩, δ, hfirst, hrest⟩ := Direct.bind_eq_ok hrun
    rw [houtcome] at hrest
    obtain ⟨hnull, -⟩ | ⟨b, hb, ⟨hcounted, rfl⟩ | ⟨hcounted, -⟩⟩ := Direct.bind_cases hrest
    · simp [Direct.isNull_eq_true.1 hnull] at hstatus
    · rw [Direct.Store.put_context] at hsize
      obtain ⟨δ₂', hdone, hmatch⟩ := hread.done h hs hfirst hsize
      obtain ⟨heap, hcontext⟩ := hmatch.context
      refine ⟨δ₂'.put status b (Service.ofInt δ.context.status), (Direct.bind_ok hdone).trans ?_,
        (hmatch.put hb _).mono fun u hu => ?_⟩
      · rw [houtcome, Direct.bind_apply' hb.null hb.iter hb.found, hcounted, hcontext]
        rfl
      · simp only [Instr.nonNull, List.mem_filter, List.mem_cons, List.not_mem_nil, or_false] at hu ⊢
        exact hu.1.symm.imp_right fun hd => ⟨hd, hu.2⟩
    · simp [hstatus, Ty.isHeap] at hcounted

theorem sets_lower {i : Instr} (hi : i ∈ e.scope.func.body) (hret : ∀ src, i ≠ .ret src)
    (hcall : ∀ dst fn args, i ≠ .call dst fn args) :
    Sets e i.uses i.defs [] (lower i : Direct Unit) := by
  have hty : i.Typed e.program e.scope.func.ret := he.typed hi
  have huse : ∀ {us : List Reg}, ∀ r ∈ us, r.Among (Instr.nonNull us) := fun r hr => .of_mem hr
  cases i with
  | constInt d _ | constFloat d _ =>
    exact inferInstanceAs (Sets e [] (Instr.nonNull [d]) [] (pure _ >>= fun ws => Direct.bind d ws))
  | constStr d s =>
    exact inferInstanceAs (Sets e [] (Instr.nonNull [d]) [] (Direct.constStr s >>= fun ws => Direct.bind d ws))
  | mov d r =>
    have hr : Reg.Among (Instr.nonNull [r]) ⟨r.id, d.ty⟩ := by
      rw [← hty.1]
      exact huse r (.head _)
    exact inferInstanceAs (Sets e (Instr.nonNull [r]) (Instr.nonNull [⟨d.id, d.ty⟩]) [] (Direct.mov d.ty d.id r.id))
  | compare d op l r => exact sets_compare op huse
  | arith d op args | bit d op args | math d fn args => exact sets_bindOp _ huse
  | div d l r | pow d l r => exact sets_bindFloatOp _ huse
  | convert d r =>
    have hd : Counted e d := counted hi [d] rfl (.head _) rfl
    have hr : r.Among (Instr.convert d r).uses := huse r (.head _)
    exact sets_convert
  | concat d l r =>
    have hd : Counted e d := counted hi [d] rfl (.head _) rfl
    exact sets_bindService rfl rfl (fun _ => hty.1) huse
  | getColumn d n =>
    have hd : Counted e d := counted hi [d] rfl (.head _) rfl
    exact sets_bindService rfl rfl (fun _ => hty.1) huse
  | strLen d r =>
    have hd : Counted e d := counted hi [d] rfl (.head _) rfl
    exact sets_bindService rfl rfl (not_heap (by rw [hty.1]; rfl)) huse
  | matchPattern d r pat =>
    have hd : Counted e d := counted hi [d] rfl (.head _) rfl
    exact sets_bindService rfl rfl (not_heap (by rw [hty.1]; rfl)) huse
  | split d r m pat =>
    have hd : Counted e d := counted hi [d] rfl (.head _) rfl
    exact sets_bindService rfl rfl (not_heap (by rw [hty.1]; rfl)) huse
  | nextLine d =>
    have hd : Counted e d := counted hi [d] rfl (.head _) rfl
    exact sets_bindResult rfl rfl (not_heap (by rw [show d.ty = .int from hty]; rfl)) _
  | lookup d m key =>
    have hd : Counted e d := counted hi [d] rfl (.head _) rfl
    obtain ⟨k, v, hm, -, hdv⟩ := hty
    exact sets_bindMapService hm (fun _ => hdv) huse
  | contains d m key =>
    have hd : Counted e d := counted hi [d] rfl (.head _) rfl
    obtain ⟨hint, k, v, hm, -⟩ := hty
    exact sets_bindMapService hm (not_heap (by rw [hint]; rfl)) huse
  | len d m =>
    have hd : Counted e d := counted hi [d] rfl (.head _) rfl
    obtain ⟨hint, k, v, hm⟩ := hty
    exact sets_bindMapService hm (not_heap (by rw [hint]; rfl)) huse
  | store m k v => exact sets_onMap m .insert huse
  | delete m k => exact sets_onMap m .delete huse
  | setColumn n r =>
    have hvalues : Looks e (Instr.nonNull [n, r]) ([n, r].mapM Emitter.value : Direct (List (List UInt64))) :=
      looks_values huse
    have hset : Looks e (Instr.nonNull [n, r]) (performOn .setColumn [n, r] : Direct Unit) := by
      unfold performOn
      infer_instance
    exact .of_looks hset
  | readFileLine d status path =>
    have hd : Counted e d := counted hi [d, status] rfl (.head _) rfl
    have hpath : path.Among (Instr.readFileLine d status path).uses := huse path (.head _)
    exact sets_readFileLine hty.1 hty.2.1
  | loadVar d v =>
    have hd : Counted e d := counted hi [d] rfl (.head _) rfl
    exact sets_loadVar hty
  | storeVar v r =>
    have hr : r.Among (Instr.nonNull [r]) := huse r (.head _)
    have hcode : Looks e (Instr.nonNull [r]) (Emitter.constInt (Int64.ofNat v.code) : Direct (List UInt64)) :=
      inferInstanceAs (Looks e _ (pure _))
    have hstore : Looks e (Instr.nonNull [r]) (storeVar v r : Direct Unit) := by
      unfold storeVar
      infer_instance
    exact .of_looks hstore
  | iterBegin d m =>
    obtain ⟨k, v, hm, hd⟩ := hty
    have hmem : d ∈ Instr.defs (.iterBegin d m) := List.mem_filter.2 ⟨.head _, by simp [Reg.isNull, hd]⟩
    have hiterators : d ∈ e.iterators :=
      Direct.Setting.Scoped.mem_iterators hi (List.mem_append_left _ hmem) (by rw [hd]; rfl)
    have hm' : m.Among (Instr.iterBegin d m).uses := huse m (.head _)
    have hdefs : (Instr.iterBegin d m).defs = [d] := by simp [Instr.defs, Instr.nonNull, Reg.isNull, hd]
    rw [hdefs]
    exact Sets.iterBegin hiterators hm
  | iterHasNext d it =>
    obtain ⟨-, k, hit⟩ := hty
    have hiter : it.ty.isIter = true := by rw [hit]; rfl
    exact Sets.iterHasNext (List.mem_filter.2 ⟨.head _, by simp [Reg.isNull, hit]⟩) hiter
  | iterGetNext d it =>
    have hd : Counted e d := counted hi [d] rfl (.head _) rfl
    obtain ⟨k, hit, hdk⟩ := hty
    exact Sets.iterGetNext (List.mem_filter.2 ⟨.head _, by simp [Reg.isNull, hit]⟩) hit hdk
  | print out args status =>
    exact Sets.printAll (fun r hr => huse r (List.mem_append_left _ hr)) fun r hr => huse r (List.mem_append_right _ hr)
  | printf out f args status =>
    have hf : f.Among (Instr.printf out f args status).uses := huse f (List.mem_append_right _ (.head _))
    exact Sets.printf (fun r hr => huse r (List.mem_append_left _ hr)) fun r hr =>
      huse r (List.mem_append_right _ (.tail _ hr))
  | sprintf d f args =>
    have hd : Counted e d := counted hi [d] rfl (.head _) rfl
    have hf : f.Among (Instr.sprintf d f args).uses := huse f (.head _)
    exact Sets.sprintf hty.1 fun r hr => huse r (.tail _ hr)
  | label l => exact .of_looks (inferInstanceAs (Looks e [] (pure ())))
  | jmp l => exact inferInstanceAs (Sets e [] [] [] (Direct.follow (.goto l)))
  | jmpIf cond l =>
    have hcond : cond.Among (Instr.nonNull [cond]) := huse cond (.head _)
    exact inferInstanceAs (Sets e (Instr.nonNull [cond]) [] [] (Direct.jumpIf cond l))
  | call dst fn args => exact absurd rfl (hcall dst fn args)
  | ret src => exact absurd rfl (hret src)
  | missing => cases hty

end

end Lowering

end RecordMill

import RecordMill.Proofs.Lowering.Iterators
import RecordMill.Proofs.Lowering.LiteralTable
import RecordMill.Proofs.Lowering.SolventRuns
import RecordMill.Proofs.Record.Ownership

/-!
# Parameters take the values of arguments

Main statement: `Program.parameters_take_arguments`. A call borrows its arguments while the callee binds its parameters
one after another, and each binding gives up what its register held before. An argument that is a local register of the
caller outlasts that in any case. One that is a global may not: it may be a parameter as well, and bound to something
else too early. -/

namespace RecordMill

open Machine (Instance StateOf)

namespace Direct

/-! ## One parameter -/

section

variable {e : Setting} [he : e.Scoped] {r u : Reg} {b : Binding} {δ δ' : Store} {others : List UInt64}
  {ws : List UInt64} {a : UInt64}

theorem Setting.exists_binds (hr : r ∈ e.program.globals ∨ r ∈ e.scope.func.locals e.program.globals)
    (hiter : r.ty.isIter = false) :
    ∃ b, e.Binds r b := by
  have hfound : (e.scope.binding? r).isSome := by
    rw [he.scope]
    rcases hr with hr | hr
    · obtain ⟨i, hi⟩ := List.mem_iff_getElem?.1 hr
      have hlookup : (Scope.ofFunc e.program e.scope.func e.scope.isMain).binding? r
          = some { var := i + 1, isGlobal := true } :=
        lookup_of_mem (Scope.nodup_keys he.globals) (Scope.global_mem_bindings hi)
      rw [hlookup]
      rfl
    · exact Scope.binding_isSome hr hiter
  obtain ⟨b, hb⟩ := Option.isSome_iff_exists.1 hfound
  exact ⟨b, Setting.binds hb⟩

omit he in
theorem Setting.Binds.value (hb : e.Binds r b) : Direct.value r e δ = (.ok (δ.reads e r), δ) := by
  rw [value_apply hb.null hb.iter hb.found, hb.reads]

omit he in
theorem Setting.Binds.reads_put (hb : e.Binds r b) (δ : Store) (ws : List UInt64) (u : Reg) :
    (δ.put r b ws).reads e u = if u = r then ws else δ.reads e u := by
  unfold Store.reads Store.put
  rcases hb.kind with ⟨hg, -, hr⟩ | ⟨hg, -, hr⟩
  · by_cases hu : u = r
    · simp [hg, hu, hr]
    · simp [hg, hu]
  · have hnot := (Scope.mem_locals.1 hr).2.2
    by_cases hu : u = r
    · simp [hg, hu, hnot]
    · simp [hg, hu]

omit he in
theorem mem_ownedByLocals (hr : r ∈ e.scope.func.locals e.program.globals) (hheap : r.ty.isHeap)
    (hl : e.scope.func.holdsLiterals r = false)
    (δ : Store) : r.ty.handle (δ.locals r) ∈ δ.ownedByLocals e :=
  have howning : r ∈ e.owning := List.mem_filter.2 ⟨hr, by rw [hheap, hl]; rfl⟩
  List.mem_append_left _ (List.mem_map_of_mem (f := fun u => u.ty.handle (δ.locals u)) howning)

omit he in
theorem Setting.Binds.mem_owned (hb : e.Binds r b) (hheap : r.ty.isHeap) (hl : b.isLiteral = false) (δ : Store) :
    r.ty.handle (δ.reads e r) ∈ δ.owned e := by
  unfold Store.reads
  rcases hb.kind with ⟨-, -, hr⟩ | ⟨-, hlit, hr⟩
  · rw [if_pos hr]
    exact List.mem_append_left _ (List.mem_map_of_mem (f := fun g => g.ty.handle (δ.globals g))
      (List.mem_filter.2 ⟨hr, hheap⟩))
  · rw [if_neg (Scope.mem_locals.1 hr).2.2]
    exact List.mem_append_right _ (mem_ownedByLocals hr hheap (hlit ▸ hl) δ)

omit he in
theorem Store.Solvent.reads_fits (h : δ.Solvent e others) (hb : e.Binds r b) : r.ty.Fits (δ.reads e r) := by
  unfold Store.reads
  rcases hb.kind with ⟨-, -, hr⟩ | ⟨-, -, hr⟩
  · rw [if_pos hr]
    exact h.globals r hr
  · rw [if_neg (Scope.mem_locals.1 hr).2.2]
    exact h.locals r hr

omit he in
theorem Store.Solvent.exists_bind (h : δ.Solvent e others) (hsize : δ.context.heap.slots.size < UInt64.size)
    (hb : e.Binds r b)
    (hl : b.isLiteral = false) (hfits : r.ty.Fits ws)
    (hlive : r.ty.handle ws ≠ 0 → r.ty.handle ws ∈ others ++ δ.owned e) :
    ∃ δ', Direct.bind r ws e δ = (.ok (), δ') ∧ (∀ u, δ'.reads e u = if u = r then ws else δ.reads e u)
      ∧ δ'.context.heap.slots.size = δ.context.heap.slots.size
      ∧ ∀ a, δ'.context.heap.count a ≠ 0 → δ.context.heap.Outlives δ'.context.heap a := by
  cases hheap : r.ty.isHeap with
  | false =>
    rw [bind_apply' hb.null hb.iter hb.found, hheap, if_neg (by simp)]
    refine ⟨δ.put r b ws, rfl, hb.reads_put δ ws, by rw [Store.put_context], fun a ha => ?_⟩
    rw [Store.put_context] at ha ⊢
    exact Heap.outlives_refl ha
  | true =>
    obtain ⟨h₁, hup⟩ := h.affords.exists_ref hsize hlive
    have hsize₁ := Heap.size_ref hup
    have hafter := h.affords.ref hup
    have hold : r.ty.handle (δ.reads e r) ∈ r.ty.handle ws :: (others ++ δ.owned e) :=
      .tail _ (List.mem_append_right _ (hb.mem_owned hheap hl δ))
    obtain ⟨h₂, hdown⟩ := hafter.exists_drop (show h₁.slots.size < UInt64.size by omega) fun _ => hold
    refine ⟨_, bind_counted hb (by simp [hheap, hl]) hfits (h.reads_fits hb) hup hdown, hb.reads_put δ ws,
      (Heap.size_drop hdown).trans hsize₁, fun a ha => ?_⟩
    have hdropped : h₁.Outlives h₂ a := Heap.outlives_drop hdown ha
    exact (Heap.outlives_ref hup hdropped.count_ne_zero).trans hdropped

end

/-! ## All parameters -/

/-- The values `wss` are lent to the parameters: whatever of these are bound, somebody else still owns a value. -/
structure Lending (e : Setting) (others : List UInt64) (δ : Store) (wss : List (List UInt64)) : Prop where
  length : wss.length = e.scope.func.params.length
  fits : ∀ {i : Nat} {r : Reg} {ws : List UInt64}, e.scope.func.params[i]? = some r → wss[i]? = some ws → r.ty.Fits ws
  kept : ∀ {k i : Nat} {r : Reg} {ws : List UInt64}, k ≤ e.scope.func.params.length → e.scope.func.params[i]? = some r →
    wss[i]? = some ws → r.ty.handle ws ≠ 0 →
    r.ty.handle ws ∈ others
      ∨ (∃ g ∈ e.program.globals, g.ty = r.ty ∧ g ∉ e.scope.func.params.take k ∧ δ.reads e g = ws)
      ∨ ∃ (j : Nat) (u : Reg), j < k ∧ e.scope.func.params[j]? = some u ∧ wss[j]? = some ws ∧ u.ty = r.ty
        ∧ u ∉ (e.scope.func.params.take k).drop (j + 1)

/-- After the first `k` parameters were bound, starting from `δ`. -/
structure Bound (e : Setting) (others : List UInt64) (δ : Store) (wss : List (List UInt64)) (k : Nat) (δ' : Store) :
    Prop where
  solvent : δ'.Solvent e others
  size : δ'.context.heap.slots.size = δ.context.heap.slots.size
  last : ∀ {i : Nat} {r : Reg} {ws : List UInt64}, i < k → e.scope.func.params[i]? = some r → wss[i]? = some ws →
    r ∉ (e.scope.func.params.take k).drop (i + 1) → δ'.reads e r = ws
  rest : ∀ u ∉ e.scope.func.params.take k, δ'.reads e u = δ.reads e u

section

variable {e : Setting} [he : e.Scoped] {r : Reg} {δ δ' : Store} {others : List UInt64} {wss : List (List UInt64)}
  {ws : List UInt64}
  {k i : Nat}

omit he in
theorem bindParams_succ {rs : List Reg} (hr : rs[k]? = some r) (hws : wss[k]? = some ws) :
    (bindParams (rs.take (k + 1)) wss : Direct Unit) = (bindParams (rs.take k) wss >>= fun _ => Direct.bind r ws) := by
  induction k generalizing rs wss with
  | zero =>
    obtain ⟨rs', rfl⟩ : ∃ rs', rs = r :: rs' := by cases rs <;> simp_all
    obtain ⟨wss', rfl⟩ : ∃ wss', wss = ws :: wss' := by cases wss <;> simp_all
    show (Direct.bind r ws >>= fun _ => pure () : Direct Unit) = (pure () >>= fun _ => Direct.bind r ws)
    rw [bind_pure_unit, pure_bind]
  | succ k ih =>
    obtain ⟨u, rs', rfl⟩ : ∃ u rs', rs = u :: rs' := by cases rs <;> simp_all
    obtain ⟨us, wss', rfl⟩ : ∃ us wss', wss = us :: wss' := by cases wss <;> simp_all
    have hih : (bindParams (rs'.take (k + 1)) wss' : Direct Unit) = (bindParams (rs'.take k) wss' >>= fun _ =>
        Direct.bind r ws) :=
      ih hr hws
    show (Direct.bind u us >>= fun _ => bindParams (rs'.take (k + 1)) wss' : Direct Unit)
      = ((Direct.bind u us >>= fun _ => bindParams (rs'.take k) wss') >>= fun _ => Direct.bind r ws)
    rw [hih, bind_assoc]

theorem Setting.exists_binds_param (hr : r ∈ e.scope.func.params) : ∃ b, e.Binds r b ∧ b.isLiteral = false := by
  have hs : r.ty.Storable := (Check.func_eq_nil.1 he.passes).1 r hr
  have hplace : r ∈ e.program.globals ∨ r ∈ e.scope.func.locals e.program.globals := by
    by_cases hg : r ∈ e.program.globals
    · exact .inl hg
    · exact .inr (Scope.mem_locals.2 ⟨List.mem_append_left _ hr, hs.2.1, hg⟩)
  obtain ⟨b, hb⟩ := Setting.exists_binds hplace (Ty.isIter_eq_false.2 hs.2.2)
  exact ⟨b, hb, (counted_param hr).ne hb⟩

theorem Bound.live (hL : Lending e others δ wss) (hB : Bound e others δ wss k δ') (hk : k ≤ e.scope.func.params.length)
    (hr : e.scope.func.params[i]? = some r) (hws : wss[i]? = some ws) (hne : r.ty.handle ws ≠ 0) :
    r.ty.handle ws ∈ others ++ δ'.owned e := by
  have hheap : r.ty.isHeap = true := by
    by_contra hno
    exact hne (Ty.handle_of_not_heap (by simpa using hno) ws)
  rcases hL.kept hk hr hws hne with hother | ⟨g, hg, hty, hnot, hreads⟩ | ⟨j, u, hj, hu, hws', hty, hnot⟩
  · exact List.mem_append_left _ hother
  · obtain ⟨b, hb⟩ :=
      Setting.exists_binds (e := e) (.inl hg) (Ty.isIter_eq_false.2 (Setting.Scoped.storable_global (e := e) hg).2.2)
    have hl : b.isLiteral = false := by
      rcases hb.kind with ⟨-, h, -⟩ | ⟨-, -, h⟩
      · exact h
      · exact absurd hg (Scope.mem_locals.1 h).2.2
    have hmem := hb.mem_owned (by rw [hty]; exact hheap) hl δ'
    rw [hB.rest g hnot, hreads, hty] at hmem
    exact List.mem_append_right _ hmem
  · obtain ⟨b, hb, hl⟩ := Setting.exists_binds_param (e := e) (List.mem_of_getElem? hu)
    have hmem := hb.mem_owned (by rw [hty]; exact hheap) hl δ'
    rw [hB.last hj hu hws' hnot, hty] at hmem
    exact List.mem_append_right _ hmem

theorem Bound.succ (hL : Lending e others δ wss) (hB : Bound e others δ wss k δ')
    (hsize : δ.context.heap.slots.size < UInt64.size) (hr : e.scope.func.params[k]? = some r)
    (hws : wss[k]? = some ws) : ∃ δ'', Direct.bind r ws e δ' = (.ok (), δ'')
      ∧ Bound e others δ wss (k + 1) δ'' ∧ ∀ a, δ''.context.heap.count a ≠ 0 →
        δ'.context.heap.Outlives δ''.context.heap a := by
  have hmem := List.mem_of_getElem? hr
  obtain ⟨hk, -⟩ := List.getElem?_eq_some_iff.1 hr
  obtain ⟨b, hb, hl⟩ := Setting.exists_binds_param (e := e) hmem
  obtain ⟨δ'', hrun, hreads, hsize', hlive⟩ :=
    hB.solvent.exists_bind (by rw [hB.size]; exact hsize) hb hl (hL.fits hr hws)
    (hB.live hL (Nat.le_of_lt hk) hr hws)
  have hcounted : Counted e r := counted_param hmem
  have htake : e.scope.func.params.take (k + 1) = e.scope.func.params.take k ++ [r] := by
    rw [List.take_add_one, hr]
    rfl
  refine ⟨δ'', hrun, ⟨hB.solvent.bind hrun, hsize'.trans hB.size, fun {i u us} hi hu hus hnot => ?_,
    fun u hu => ?_⟩, hlive⟩
  · rw [hreads]
    rcases Nat.lt_or_eq_of_le (Nat.le_of_lt_succ hi) with hlt | rfl
    · have hlen : i + 1 ≤ (e.scope.func.params.take k).length := by
        rw [List.length_take]
        omega
      rw [htake, List.drop_append_of_le_length hlen, List.mem_append, List.mem_singleton, not_or] at hnot
      rw [if_neg hnot.2]
      exact hB.last hlt hu hus hnot.1
    · obtain rfl : u = r := Option.some.inj (hu.symm.trans hr)
      rw [if_pos rfl]
      exact Option.some.inj (hws.symm.trans hus)
  · rw [htake, List.mem_append, List.mem_singleton, not_or] at hu
    rw [hreads, if_neg hu.2, hB.rest u hu.1]

theorem Lending.bindParams (hL : Lending e others δ wss) (hδ : δ.Solvent e others)
    (hsize : δ.context.heap.slots.size < UInt64.size) (hk : k ≤ e.scope.func.params.length) :
    ∃ δ', Direct.bindParams (e.scope.func.params.take k) wss e δ = (.ok (), δ')
      ∧ Bound e others δ wss k δ' ∧ ∀ (i : Nat) (r : Reg) (ws : List UInt64), e.scope.func.params[i]? = some r →
        wss[i]? = some ws → r.ty.handle ws ≠ 0 → δ.context.heap.Outlives δ'.context.heap (r.ty.handle ws) := by
  have hcount : ∀ {k : Nat} {δ' : Store}, k ≤ e.scope.func.params.length → Bound e others δ wss k δ' →
      ∀ (i : Nat) (r : Reg) (ws : List UInt64), e.scope.func.params[i]? = some r →
      wss[i]? = some ws → r.ty.handle ws ≠ 0 → δ'.context.heap.count (r.ty.handle ws) ≠ 0 :=
          fun hk hB i r ws hr hws hne =>
    hB.solvent.affords.count_ne_zero (by rw [hB.size]; exact hsize) hne (hB.live hL hk hr hws hne)
  induction k with
  | zero =>
    have hB : Bound e others δ wss 0 δ := ⟨hδ, rfl, fun hi => absurd hi (Nat.not_lt_zero _), fun _ _ => rfl⟩
    exact ⟨δ, rfl, hB, fun i r ws hr hws hne => Heap.outlives_refl (hcount hk hB i r ws hr hws hne)⟩
  | succ k ih =>
    obtain ⟨δ₁, hrun, hB, hlives⟩ := ih (Nat.le_of_succ_le hk)
    obtain ⟨r, hr⟩ : ∃ r, e.scope.func.params[k]? = some r := ⟨_, List.getElem?_eq_getElem hk⟩
    obtain ⟨ws, hws⟩ : ∃ ws, wss[k]? = some ws := ⟨_, List.getElem?_eq_getElem (hL.length ▸ hk)⟩
    obtain ⟨δ₂, hbind, hB₂, hlive⟩ := hB.succ hL hsize hr hws
    refine ⟨δ₂, ?_, hB₂, fun j u us hu hus hne => ?_⟩
    · rw [bindParams_succ hr hws]
      exact (bind_ok hrun).trans hbind
    · exact (hlives j u us hu hus hne).trans (hlive _ (hcount hk hB₂ j u us hu hus hne))

/-! ## New maps -/

omit he in
theorem exists_zero (hmap : r.ty.isMap) (ho : δ.context.heap.Orderly) : ∃ ws heap,
    zero r.ty e δ = (.ok ws, { δ with context := { δ.context with heap } }) ∧ heap.Orderly
      ∧ ∀ a, δ.context.heap.count a ≠ 0 → δ.context.heap.Outlives heap a := by
  obtain ⟨key, v, hty⟩ : ∃ key v, r.ty = .map key v := by
    cases hty : r.ty <;> first | exact ⟨_, _, rfl⟩ | simp [hty, Ty.isMap] at hmap
  rcases hmade : δ.context.heap.alloc (.map key v ∅) with ⟨a, heap⟩
  have hnew : Service.onMap key v 0 [] .alloc δ.context = (.ok [a], { δ.context with heap }) := by
    have heq : Service.onMap key v 0 [] .alloc δ.context
        = (.ok [(δ.context.heap.alloc (.map key v ∅)).1],
          { δ.context with heap := (δ.context.heap.alloc (.map key v ∅)).2 }) := rfl
    rw [heq, hmade]
  refine ⟨[a], heap, ?_, Heap.Change.orderly ho (.made hmade), fun b hb => Heap.outlives_alloc ho hmade hb⟩
  rw [hty]
  have hservice : service (.map key v .alloc) [contextWord] e δ = (.ok [a],
      { δ with context := { δ.context with heap } }) :=
    service_of_act rfl hnew
  exact hservice

theorem exists_makeMaps {l : List (Reg × Binding)} (hl : ∀ x ∈ l, x ∈ e.scope.locals) (ho : δ.context.heap.Orderly) :
    ∃ δ', (l.forM fun (r, b) => do
        if r.ty.isMap && !e.scope.func.params.contains r then write r b (← zero r.ty) : Direct Unit) e δ = (.ok (), δ')
      ∧ (∀ u ∈ e.scope.func.params, δ'.reads e u = δ.reads e u)
      ∧ ∀ a, δ.context.heap.count a ≠ 0 → δ.context.heap.Outlives δ'.context.heap a := by
  induction l generalizing δ with
  | nil => exact ⟨δ, rfl, fun _ _ => rfl, fun _ => Heap.outlives_refl⟩
  | cons x l ih =>
    obtain ⟨r, b⟩ := x
    have hrest := fun δ ho => ih (δ := δ) (fun y hy => hl y (.tail _ hy)) ho
    obtain ⟨hb, -⟩ := Setting.binds_local (hl (r, b) (.head _))
    by_cases hmake : r.ty.isMap && !e.scope.func.params.contains r
    · obtain ⟨hmap, hparam⟩ := Bool.and_eq_true_iff.1 hmake
      obtain ⟨ws, heap, hzero, ho₁, hlives₁⟩ := exists_zero (e := e) hmap ho
      obtain ⟨δ₁, hδ₁⟩ : ∃ δ₁, δ₁ = ({ δ with context := { δ.context with heap } } : Store).put r b ws := ⟨_, rfl⟩
      have hheap : δ₁.context.heap = heap := by rw [hδ₁, Store.put_context]
      obtain ⟨δ', hrun, hreads, hlives⟩ := hrest δ₁ (hheap ▸ ho₁)
      refine ⟨δ', ?_, fun u hu => ?_, fun a ha => ?_⟩
      · have hone : (do if r.ty.isMap && !e.scope.func.params.contains r then write r b (← zero r.ty) : Direct Unit) e δ
          = (.ok (), δ₁) := by
          rw [if_pos hmake, hδ₁]
          exact (bind_ok hzero).trans write_apply
        exact (bind_ok hone).trans hrun
      · have hne : u ≠ r := fun heq => by simp [← heq, hu] at hparam
        rw [hreads u hu, hδ₁, hb.reads_put, if_neg hne]
        rfl
      · have hfirst := hlives₁ a ha
        rw [← hheap] at hfirst
        exact hfirst.trans (hlives a hfirst.count_after_ne_zero)
    · obtain ⟨δ', hrun, hreads, hlives⟩ := hrest δ ho
      have hone : (do if r.ty.isMap && !e.scope.func.params.contains r then write r b (← zero r.ty) : Direct Unit) e δ
          = (.ok (), δ) := by
        rw [if_neg hmake]
        rfl
      exact ⟨δ', (bind_ok hone).trans hrun, hreads, hlives⟩

/-- A function other than the main one is entered, and every parameter has what it was bound to last. -/
theorem Lending.enter (hL : Lending e others δ wss) (hδ : δ.Solvent e others)
    (hsize : δ.context.heap.slots.size < UInt64.size) (hmain : e.scope.isMain = false) :
    ∃ δ', Direct.enter wss e δ = (.ok (), δ')
      ∧ ∀ (i : Nat) (r : Reg) (ws : List UInt64), e.scope.func.params[i]? = some r → wss[i]? = some ws →
        (r.ty.handle ws ≠ 0 → δ.context.heap.Outlives δ'.context.heap (r.ty.handle ws))
          ∧ (r ∉ e.scope.func.params.drop (i + 1) → δ'.reads e r = ws) := by
  obtain ⟨δ₁, hbind, hB, hlives₁⟩ := hL.bindParams hδ hsize (Nat.le_refl _)
  rw [List.take_length] at hbind
  obtain ⟨δ₂, hmake, hreads, hlives₂⟩ := exists_makeMaps (e := e) (fun _ hx => hx) hB.solvent.affords.orderly
  refine ⟨δ₂, ?_, fun i r ws hr hws => ⟨fun hne => ?_, fun hnot => ?_⟩⟩
  · refine (enter_eq ((bind_ok hbind).trans hmake)).trans ?_
    rw [hmain]
    rfl
  · have hfirst := hlives₁ i r ws hr hws hne
    exact hfirst.trans (hlives₂ _ hfirst.count_after_ne_zero)
  · obtain ⟨hi, -⟩ := List.getElem?_eq_some_iff.1 hr
    rw [hreads r (List.mem_of_getElem? hr)]
    exact hB.last hi hr hws (by rwa [List.take_length])

end

/-! ## Calls -/

/-- After the first `k` parameters were bound, the global `g` that is among the arguments still has its value, or else a
parameter took it and nothing since. -/
def Sheltered (params args : List Reg) (k : Nat) (g : Reg) : Prop :=
  g ∉ params.take k ∨ ∃ i < k, args[i]? = some g ∧ ∃ r ∈ params[i]?, r ∉ (params.take k).drop (i + 1)

instance (params args : List Reg) (k : Nat) (g : Reg) :
    Decidable (Sheltered params args k g) := inferInstanceAs (Decidable (_ ∨ _))

namespace State

variable (p : Program) (literals : List Bytes) (st : State)

/-- What a register of the innermost activation holds. -/
def reads (r : Reg) : List UInt64 := if r ∈ p.globals then st.globals r else st.frame.locals r

/-- A function was called and has not taken its parameters yet. -/
def called (fn : Int) (dst : Reg) : State := ⟨st.context, st.globals, fresh fn.toNat dst, st.frame :: st.below⟩

def Outlive (args : List Reg) (c : Context) : Prop :=
  ∀ a ∈ args, a.ty.handle (st.reads p a) ≠ 0 → st.context.heap.Outlives c.heap (a.ty.handle (st.reads p a))

/-- How the call of `fn`, which is the function `f`, takes its parameters. -/
structure TakesParameters (dst : Reg) (fn : Int) (args : List Reg) (f : Func) : Prop where
  /-- Nothing that is an argument is lost on the way. -/
  kept : ∀ k ≤ f.params.length, ∃ δ,
    bindParams (f.params.take k) (args.map (st.reads p)) (setting p literals fn.toNat f)
    (st.called fn dst).store = (.ok (), δ) ∧ st.Outlive p args δ.context
  /-- In the end a parameter has the value of its argument, or of the last one if it is listed more than once. -/
  entered : ∃ st', st.step p literals = .next st' ∧ st.Outlive p args st'.context
    ∧ ∀ i a r, args[i]? = some a → f.params[i]? = some r → r ∉ f.params.drop (i + 1) → st'.reads p r = st.reads p a

end State

section

variable {p : Program} {literals : List Bytes} {st : State} {caller f : Func} {dst : Reg} {fn : Int} {args : List Reg}

theorem Setting.exists_binds_arg {e : Setting} [he : e.Scoped] (hi : .call dst fn args ∈ e.scope.func.body)
    (hf : e.program.func? fn = some f) {a : Reg} (ha : a ∈ args) : ∃ b, e.Binds a b := by
  obtain ⟨callee, hcallee, htypes, -⟩ : (Instr.call dst fn args).Typed e.program e.scope.func.ret := he.typed hi
  obtain rfl : callee = f := Option.some.inj (hcallee.symm.trans hf)
  obtain ⟨r, hr, hty⟩ := List.mem_map.1 (htypes ▸ List.mem_map_of_mem (f := fun r : Reg => r.ty) ha)
  have hty : r.ty = a.ty := hty
  have hpasses := (Check.check_eq_nil.1 he.checked).2.2 callee (Program.mem_of_func? hf)
  have hs : a.ty.Storable := hty ▸ (Check.func_eq_nil.1 hpasses).1 r hr
  refine Setting.exists_binds ?_ (Ty.isIter_eq_false.2 hs.2.2)
  by_cases hg : a ∈ e.program.globals
  · exact .inl hg
  · have huse : a ∈ Instr.uses (.call dst fn args) := List.mem_filter.2 ⟨ha, by simp [Reg.isNull, hs.2.1]⟩
    exact .inr (Scope.mem_locals.2 ⟨List.mem_append_right _ (List.mem_flatMap.2 ⟨_, hi, List.mem_append_right _ huse⟩),
      hs.2.1, hg⟩)

theorem mapM_value {e : Setting} {δ : Store} {rs : List Reg} {reads : Reg → List UInt64}
    (h : ∀ r ∈ rs, value r e δ = (.ok (reads r), δ)) :
    rs.mapM value e δ = (.ok (rs.map reads), δ) := by
  induction rs with
  | nil => rfl
  | cons r rs ih =>
    rw [List.mapM_cons]
    exact (bind_ok (h r (.head _))).trans ((bind_ok (ih fun u hu => h u (.tail _ hu))).trans rfl)

variable (literals) in
theorem State.Solvent.lending (h : st.Solvent p) (hp : p.check = []) (hg : p.globals.Nodup)
    (hcaller : p.funcs[st.frame.func]? = some caller) (hi : .call dst fn args ∈ caller.body) (hf : p.func? fn = some f)
    (hshelter : ∀ k ≤ f.params.length, ∀ g ∈ args, g ∈ p.globals → g.ty.isHeap → Sheltered f.params args k g) :
    Lending (setting p literals fn.toNat f) ((st.frame :: st.below).flatMap (Frame.owned p)) (st.called fn dst).store
      (args.map (st.reads p)) := by
  have he : (setting p literals st.frame.func caller).Scoped := setting_scoped hp hg hcaller
  have hs : st.store.Solvent (setting p literals st.frame.func caller) (st.below.flatMap (Frame.owned p)) :=
    h.store hcaller
  obtain ⟨callee, hcallee, htypes, -⟩ : (Instr.call dst fn args).Typed p caller.ret := he.typed hi
  obtain rfl : callee = f := Option.some.inj (hcallee.symm.trans hf)
  have hty : ∀ {i : Nat} {a r : Reg}, args[i]? = some a → callee.params[i]? = some r → a.ty = r.ty :=
      fun {i a r} ha hr => by
    have hsame := congrArg (·[i]?) htypes
    simpa [ha, hr] using hsame
  have harg : ∀ {i : Nat} {ws : List UInt64}, (args.map (st.reads p))[i]? = some ws → ∃ a, args[i]? = some a
      ∧ st.reads p a = ws :=
    fun {i ws} hws => by simpa using hws
  have hlength : args.length = callee.params.length := by simpa using congrArg List.length htypes
  refine ⟨(List.length_map _).trans hlength, fun {i r ws} hr hws => ?_, fun {k i r ws} hk hr hws hne => ?_⟩
  · obtain ⟨a, ha, rfl⟩ := harg hws
    obtain ⟨b, hb⟩ := Setting.exists_binds_arg (e := setting p literals st.frame.func caller) hi hf
      (List.mem_of_getElem? ha)
    rw [← hty ha hr]
    exact hs.reads_fits hb
  · obtain ⟨a, ha, rfl⟩ := harg hws
    have hmem := List.mem_of_getElem? ha
    rw [← hty ha hr] at hne ⊢
    have hheap : a.ty.isHeap = true := by
      by_contra hno
      exact hne (Ty.handle_of_not_heap (by simpa using hno) _)
    by_cases hglobal : a ∈ p.globals
    · rcases hshelter k hk a hmem hglobal hheap with hnot | ⟨j, hj, haj, u, hu, hnot⟩
      · have hreads : (st.called fn dst).store.reads (setting p literals fn.toNat callee) a = st.globals a :=
          if_pos hglobal
        exact .inr (.inl ⟨a, hglobal, rfl, hnot, hreads.trans (if_pos hglobal).symm⟩)
      · have hu : callee.params[j]? = some u := hu
        exact .inr (.inr ⟨j, u, hj, hu, by simp [haj], (hty haj hu).symm, hnot⟩)
    · obtain ⟨b, hb⟩ := Setting.exists_binds_arg (e := setting p literals st.frame.func caller) hi hf hmem
      obtain ⟨-, -, hin⟩ | ⟨-, -, hlocal⟩ := hb.kind
      · exact absurd hin hglobal
      · have hreads : st.reads p a = st.store.locals a := if_neg hglobal
        rw [hreads] at hne ⊢
        have hl : caller.holdsLiterals a = false := by
          by_contra hlit
          have hlit : caller.holdsLiterals a = true := by simpa using hlit
          exact hne (hs.literals a hlocal hlit)
        have howned := mem_ownedByLocals (e := setting p literals st.frame.func caller) hlocal hheap hl st.store
        exact .inl (List.mem_append_left _ (Frame.owned_eq literals hcaller st.context st.globals ▸ howned))

theorem State.Solvent.takesParameters (h : st.Solvent p) (hp : p.check = []) (hg : p.globals.Nodup)
    (hsize : st.context.heap.slots.size < UInt64.size) (hi : st.frame.instr? p = some (.call dst fn args))
    (hfn : fn ≠ p.main) (hf : p.func? fn = some f)
    (hshelter : ∀ k ≤ f.params.length, ∀ g ∈ args, g ∈ p.globals → g.ty.isHeap → Sheltered f.params args k g) :
    st.TakesParameters p literals dst fn args f := by
  obtain ⟨caller, hcaller, hinstr⟩ := Option.bind_eq_some_iff.1 hi
  have hmem := List.mem_of_getElem? hinstr
  obtain ⟨hfn0, hcallee⟩ := Program.place_of_func? hf
  have he : (setting p literals st.frame.func caller).Scoped := setting_scoped hp hg hcaller
  have he' : (setting p literals fn.toNat f).Scoped := setting_scoped hp hg hcallee
  have hL := h.lending literals hp hg hcaller hmem hf hshelter
  have hcalled : (st.called fn dst).store.Solvent (setting p literals fn.toNat f)
      ((st.frame :: st.below).flatMap (Frame.owned p)) :=
    have hentered : (st.called fn dst).Solvent p := h.call hcallee dst
    hentered.store hcallee
  have hmain : fn.toNat ≠ p.main.toNat := by
    obtain ⟨main, hmain, -⟩ := (Check.check_eq_nil.1 hp).1
    have hmain0 := (Program.place_of_func? hmain).1
    omega
  have hvalues : args.mapM value (setting p literals st.frame.func caller) st.store
      = (.ok (args.map (st.reads p)), st.store) :=
    mapM_value fun a ha => by
      obtain ⟨b, hb⟩ := Setting.exists_binds_arg (e := setting p literals st.frame.func caller) hmem hf ha
      exact hb.value
  obtain ⟨callee, hcallee', htypes, -⟩ : (Instr.call dst fn args).Typed p caller.ret := he.typed hmem
  obtain rfl : callee = f := Option.some.inj (hcallee'.symm.trans hf)
  -- Each argument goes to a parameter of its type.
  have hparam : ∀ a ∈ args, ∃ (i : Nat) (r : Reg), args[i]? = some a ∧ callee.params[i]? = some r ∧ a.ty = r.ty :=
      fun a ha => by
    obtain ⟨i, hia⟩ := List.mem_iff_getElem?.1 ha
    have htype : callee.params[i]?.map (·.ty) = some a.ty := by
      rw [← List.getElem?_map, ← htypes, List.getElem?_map, hia]
      rfl
    obtain ⟨r, hr, hty⟩ := Option.map_eq_some_iff.1 htype
    exact ⟨i, r, hia, hr, hty.symm⟩
  refine ⟨fun k hk => ?_, ?_⟩
  · obtain ⟨δ, hrun, -, hlives⟩ := hL.bindParams hcalled hsize hk
    refine ⟨δ, hrun, fun a ha hne => ?_⟩
    obtain ⟨i, r, hia, hr, hty⟩ := hparam a ha
    rw [hty] at hne ⊢
    exact hlives i r _ hr (by simp [hia]) hne
  · obtain ⟨δ, henter, hall⟩ := hL.enter hcalled hsize (isMain_eq_false literals hmain)
    have hstep : st.step p literals = .next ((st.called fn dst).load δ 0) := by
      have hlower : (Lowering.lower (.call dst fn args) : Direct Unit)
        (setting p literals st.frame.func caller) st.store
          = (.ok (), { st.store with flow := .call dst fn (args.map (st.reads p)) }) := bind_ok hvalues
      rw [State.step_apply literals hcaller hinstr, hlower]
      exact State.perform_apply (s := st.called fn dst) hcallee henter
    refine ⟨_, hstep, fun a ha hne => ?_, fun i a r hia hr hnot => ?_⟩
    · obtain ⟨i, r, hia, hr, hty⟩ := hparam a ha
      rw [hty] at hne ⊢
      exact (hall i r _ hr (by simp [hia])).1 hne
    · exact (hall i r (st.reads p a) hr (by simp [hia])).2 hnot

end

end Direct

/-- The machine has the objects of a state, the globals in its memory and the locals in the variables of its last
frame. -/
structure Plan.HasRegisters (P : Plan) (st : Direct.State) (mst : Machine.State Context) : Prop where
  host : mst.outside.host = st.context
  globals : P.Carries mst.outside.memory st.globals
  locals : ∃ out fr below, StateOf P.code.module mst ⟨out, fr :: below⟩ ∧ ∀ r b,
    (P.given st.frame.func).scope.binding? r = some b →
    b.isGlobal = false → fr.cells.var b.var = st.frame.locals r

theorem Plan.Made.hasRegisters {P : Plan} {all : Bool} (hP : P.Made all) {st : Direct.State}
    {mst : Machine.State Context} (h : P.Stands st mst) :
    P.HasRegisters st mst := by
  obtain ⟨_, hst, area, out, fr, below, rfl, hgo⟩ := h
  obtain ⟨f, hf⟩ := hgo.runs.func
  refine ⟨?_, ?_, out, fr, below, hst, fun r b hb hlocal => ?_⟩
  · cases hst
    exact hgo.sound.host
  · cases hst
    exact hP.carries hf hgo.sound
  · have hvar : (P.given st.frame.func).scope.var? (.reg r) = some b.var := by rw [Scope.var?, hb]; rfl
    have hnot : ¬ (P.given st.frame.func).scope.isGlobal r = true := by simp [Scope.isGlobal, hb, hlocal]
    have hcontent : (P.site mst.outside.memory.length st.frame.func area).content st.store (.reg r)
      = st.frame.locals r := if_neg hnot
    exact (hgo.sound.vars hvar).trans hcontent

theorem Context.affords_ofSettings (o : Settings) (world : World) : (Context.ofSettings o world).Affords [] := by
  obtain ⟨held, hbooks⟩ := (Ownership.Reachable.start o world).books
  exact .of_books hbooks fun a _ => Nat.zero_le _

/-- Wherever a run of an accepted program calls a function other than the main one and each argument that is a global is
sheltered, no argument is lost and every parameter has its value in the end, in the machine as well. -/
theorem Program.parameters_take_arguments {p : Program} (hp : p.check = []) {x : Executable} (hx : p.compile = .ok x)
    {o : Settings} {world : World} {stackWords : Int64} {inst : Instance Service Context}
    (hinst : Instance.ofModule x.module (Context.ofSettings o world) stackWords = .ok inst) :
    (∀ n st dst fn args f, Direct.Passes p x.literals inst.outside.host n st →
      st.context.heap.slots.size < UInt64.size →
      st.frame.instr? p = some (.call dst fn args) → fn ≠ p.main → p.func? fn = some f →
      (∀ k ≤ f.params.length, ∀ g ∈ args, g ∈ p.globals → g.ty.isHeap → Direct.Sheltered f.params args k g) →
      st.TakesParameters p x.literals dst fn args f)
    ∧ (p.Sized → ∃ P : Plan, P.Sound ∧ P.program = p ∧ P.code = x ∧ P.Mirrors inst.outside
      ∧ ∀ st mst, P.Stands st mst → P.HasRegisters st mst) := by
  refine ⟨fun n st dst fn args f h hsize hi hfn hf hshelter => ?_, fun hs => ?_⟩
  · have hg : p.globals.Nodup := (distinct_of_compile hp hx).globals
    obtain ⟨_, -, rfl⟩ := Instance.of_ofModule hinst
    exact (h.solvent hp hg (Context.affords_ofSettings o world)).takesParameters hp hg hsize hi hfn hf hshelter
  · obtain ⟨P, hP, hprogram, rfl⟩ := Plan.exists_of_compile hp hs hx
    exact ⟨P, hP, hprogram, rfl, hP.mirrors hinst, fun st mst h => hP.hasRegisters h⟩

/-- A program that puts texts into a global and a local register and calls a function that has the global for a
parameter. -/
def Program.handing (args params : List Reg) : Program where
  funcs := [
    { name := "main", ret := .null
      body := [.constStr ⟨2, .str⟩ "0123456789", .concat ⟨1, .str⟩ ⟨2, .str⟩ ⟨2, .str⟩,
        .constStr ⟨3, .str⟩ "abcdefghij",
        .concat ⟨4, .str⟩ ⟨3, .str⟩ ⟨3, .str⟩, .call ⟨0, .null⟩ 1 args, .ret ⟨0, .null⟩] },
    { name := "show", params, ret := .null
      body := [.print none [⟨5, .str⟩] ⟨0, .null⟩, .ret ⟨0, .null⟩] }]
  globals := [⟨1, .str⟩]

/-- The global goes to the first parameter before it becomes the second. -/
theorem Program.parameters_take_arguments_first :
    let p := handing [⟨1, .str⟩, ⟨4, .str⟩] [⟨5, .str⟩, ⟨1, .str⟩]
    p.check = [] ∧ ∃ x inst f, p.compile = .ok x ∧ Instance.ofModule x.module (Context.ofSettings {} {}) 0 = .ok inst
      ∧ (1 : Int) ≠ p.main ∧ p.func? 1 = some f
      ∧ (∀ k ≤ f.params.length, ∀ g ∈ [⟨1, .str⟩, ⟨4, .str⟩], g ∈ p.globals → g.ty.isHeap →
        Direct.Sheltered f.params [⟨1, .str⟩, ⟨4, .str⟩] k g)
      ∧ ∃ n st, Direct.Passes p x.literals inst.outside.host n st ∧ st.context.heap.slots.size < UInt64.size
        ∧ st.frame.instr? p = some (.call ⟨0, .null⟩ 1 [⟨1, .str⟩, ⟨4, .str⟩])
        ∧ st.TakesParameters p x.literals ⟨0, .null⟩ 1 [⟨1, .str⟩, ⟨4, .str⟩] f := by
  intro p
  have hp : p.check = [] := by decide +kernel
  obtain ⟨x, inst, hx, hinst, hhost⟩ := exists_running hp (by decide +kernel) (by decide +kernel) (by decide +kernel)
    (sized_of_slots (by decide +kernel) (by decide +kernel)) (by decide +kernel) (Context.ofSettings {} {})
  have hliterals : x.literals = [] := (literals_table (compile_eq_counting _ ▸ hx)).trans (by decide +kernel)
  obtain ⟨f, hf⟩ : ∃ f, f = p.funcs[1] := ⟨_, rfl⟩
  have hfunc : p.func? 1 = some f := by rw [hf]; rfl
  have hshelter : ∀ k ≤ f.params.length, ∀ g ∈ [⟨1, .str⟩, ⟨4, .str⟩], g ∈ p.globals → g.ty.isHeap →
      Direct.Sheltered f.params [⟨1, .str⟩, ⟨4, .str⟩] k g := by
    rw [hf]
    decide +kernel
  have hstate : (Direct.stateAt? p [] (Context.ofSettings {} {}) 4).map
    (fun st => (st.frame.func, st.frame.next, st.context.heap.slots.size))
      = some (0, 4, 3) := by
    decide +kernel
  obtain ⟨st, hst, hat⟩ := Option.map_eq_some_iff.1 hstate
  simp only [Prod.mk.injEq] at hat
  rw [Direct.stateAt?_eq_some, ← hhost, ← hliterals] at hst
  have hsize : st.context.heap.slots.size < UInt64.size := by rw [hat.2.2]; decide
  have hcall : st.frame.instr? p = some (.call ⟨0, .null⟩ 1 [⟨1, .str⟩, ⟨4, .str⟩]) := by
    rw [Direct.Frame.instr?, hat.1, hat.2.1]
    rfl
  have hmain : (1 : Int) ≠ p.main := by decide
  exact ⟨hp, x, inst, f, hx, hinst, hmain, hfunc, hshelter, 4, st, hst, hsize, hcall,
    (parameters_take_arguments hp hx hinst).1 4 st _ _ _ f hst hsize hcall hmain hfunc hshelter⟩

def Direct.traps : Turn Direct.State Direct.Result → Bool
  | .ended (.trapped ..) => true
  | _ => false

theorem Direct.exists_of_traps {turn : Turn State Result} (h : traps turn = true) :
    ∃ t c, turn = .ended (.trapped t c) := by
  rcases turn with _ | (_ | ⟨t, c⟩ | _)
  case ended.trapped => exact ⟨t, c, rfl⟩
  all_goals cases h

theorem Direct.eq_ok_of_toOption {α : Type} {y : Except Halt α} {a : α} (h : y.toOption = some a) : y = .ok a := by
  cases y with
  | error e => cases h
  | ok b => exact congrArg _ (Option.some.inj h)

/-- The global becomes the first parameter before it goes to the second: its text is lost, and the function is not
entered. -/
theorem Program.argument_lost_to_parameter :
    let p := handing [⟨4, .str⟩, ⟨1, .str⟩] [⟨1, .str⟩, ⟨5, .str⟩]
    p.check = [] ∧ ∃ x inst f, p.compile = .ok x ∧ Instance.ofModule x.module (Context.ofSettings {} {}) 0 = .ok inst
      ∧ (1 : Int) ≠ p.main ∧ p.func? 1 = some f
      ∧ ∃ n st, Direct.Passes p x.literals inst.outside.host n st ∧ st.context.heap.slots.size < UInt64.size
        ∧ st.frame.instr? p = some (.call ⟨0, .null⟩ 1 [⟨4, .str⟩, ⟨1, .str⟩])
        ∧ (∃ δ, Direct.bindParams (f.params.take 1) ([⟨4, .str⟩, ⟨1, .str⟩].map (st.reads p))
          (Direct.setting p x.literals 1 f) (st.called 1 ⟨0, .null⟩).store = (.ok (), δ)
            ∧ ¬ st.Outlive p [⟨4, .str⟩, ⟨1, .str⟩] δ.context)
        ∧ ∃ t c, st.step p x.literals = .ended (.trapped t c) := by
  intro p
  have hp : p.check = [] := by decide +kernel
  obtain ⟨x, inst, hx, hinst, hhost⟩ := exists_running hp (by decide +kernel) (by decide +kernel) (by decide +kernel)
    (sized_of_slots (by decide +kernel) (by decide +kernel)) (by decide +kernel) (Context.ofSettings {} {})
  have hliterals : x.literals = [] := (literals_table (compile_eq_counting _ ▸ hx)).trans (by decide +kernel)
  have hstate : (Direct.stateAt? p [] (Context.ofSettings {} {}) 4).map (fun st =>
      let bound := Direct.bindParams (p.funcs[1].params.take 1) ([⟨4, .str⟩, ⟨1, .str⟩].map (st.reads p))
        (Direct.setting p [] 1 p.funcs[1]) (st.called 1 ⟨0, .null⟩).store
      ((st.frame.func, st.frame.next, st.context.heap.slots.size, Ty.str.handle (st.reads p ⟨1, .str⟩)),
        (bound.1.toOption, bound.2.context.heap.count 2), Direct.traps (st.step p [])))
      = some ((0, 4, 3, 2), (some (), 0), true) := by
    decide +kernel
  obtain ⟨st, hst, hat⟩ := Option.map_eq_some_iff.1 hstate
  simp only [Prod.mk.injEq] at hat
  obtain ⟨⟨hfunc, hnext, hslots, hhandle⟩, ⟨hbound, hgone⟩, hstep⟩ := hat
  rw [Direct.stateAt?_eq_some, ← hhost, ← hliterals] at hst
  refine ⟨hp, x, inst, p.funcs[1], hx, hinst, by decide, rfl, 4, st, hst, by rw [hslots]; decide, ?_, ?_, ?_⟩
  · rw [Direct.Frame.instr?, hfunc, hnext]
    rfl
  · rw [hliterals]
    refine ⟨_, Prod.ext (Direct.eq_ok_of_toOption hbound) rfl, fun hlives => ?_⟩
    have hlost := hlives ⟨1, .str⟩ (by simp) (by rw [hhandle]; decide)
    rw [hhandle] at hlost
    exact hlost.count_after_ne_zero hgone
  · rw [hliterals]
    exact Direct.exists_of_traps hstep

end RecordMill

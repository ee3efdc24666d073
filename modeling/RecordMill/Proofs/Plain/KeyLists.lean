import Mathlib.Data.List.Nodup
import RecordMill.Proofs.Heap.Keeping
import RecordMill.Proofs.Lowering.Iterators
import RecordMill.Proofs.Plain.Runs

/-!
# Lists of keys

Main statements: `Direct.State.Lone.step`, `Direct.State.Shows.released`. The list of keys of an iterator has one owner,
whatever happens to the map that it was taken from. So it is released when the iterator is begun anew.
-/

namespace RecordMill

/-! ## Counts -/

namespace Heap

variable {h h' : Heap} {a : UInt64}

theorem Orderly.count_new (o : h.Orderly) (hsize : h.slots.size ≤ maxOwners) {x : Object}
    (halloc : h.alloc x = (a, h')) :
    h.count a = 0 ∧ h'.count a = 1 ∧ ∀ b, b ≠ a → h'.count b = h.count b := by
  obtain ⟨i, h'', halloc', -, hold, hslots, hlt, hgrown, -⟩ := o.alloc x
  cases halloc'.symm.trans halloc
  have hi : i + 1 < 2 ^ 64 := handle_lt (show i ≤ maxOwners by omega)
  have hne := handle_ne_zero hi
  refine ⟨?_, count_handle hi ((hslots i).trans (if_pos rfl)), fun b hb => ?_⟩
  · rw [count_of_ne hne, toNat_handle hi, Nat.add_sub_cancel]
    cases hs : h.slots[i]? with
    | none => rfl
    | some s => exact hold s hs
  · by_cases hb0 : b = 0
    · rw [hb0]
      rfl
    · have hplace : b.toNat - 1 ≠ i :=
        fun e => hb (toNat_pred_inj hb0 hne (by rw [e, toNat_handle hi, Nat.add_sub_cancel]))
      rw [count_of_ne hb0, count_of_ne hb0, hslots, if_neg hplace]

end Heap

/-! ## Items -/

namespace Item

def isList : Item → Bool
  | .iter .. => true
  | .reg .. => false

def lists (items : List Item) : List UInt64 := (items.filter isList).map handle

@[simp] theorem lists_append (xs ys : List Item) : lists (xs ++ ys) = lists xs ++ lists ys := by simp [lists]

@[simp] theorem lists_reg (ty : Ty) (x : Plain.Val) (ws : List UInt64) (items : List Item) :
    lists (.reg ty x ws :: items) = lists items := rfl

@[simp] theorem lists_iter (k : Key) (c : Option Plain.Cursor) (a w : UInt64) (items : List Item) :
    lists (.iter k c a w :: items) = a :: lists items := rfl

theorem lists_globals (globals : Reg → List UInt64) (vals : Reg → Plain.Val) (gs : List Reg) :
    lists (gs.map (.ofGlobal globals vals)) = [] := by
  induction gs with
  | nil => rfl
  | cons g gs ih => exact ih

theorem lists_locals (locals : Reg → List UInt64) (keys position : Reg → UInt64) (regs : Reg → Plain.Val)
    (cursors : Reg → Option Plain.Cursor) (rs : List Reg) :
    lists (rs.map (.ofLocal locals keys position regs cursors)) = (rs.filter (·.ty.isIter)).map keys := by
  induction rs with
  | nil => rfl
  | cons r rs ih =>
    cases hiter : r.ty.isIter with
    | false =>
      rw [List.map_cons, ofLocal_of_not_iter hiter, lists_reg, ih, List.filter_cons_of_neg (by simp [hiter])]
    | true =>
      obtain ⟨k, hk⟩ : ∃ k, r.ty = .iter k := by
        cases hty : r.ty with
        | iter k => exact ⟨k, rfl⟩
        | _ => simp [hty, Ty.isIter] at hiter
      have hitem : ofLocal locals keys position regs cursors r = .iter k (cursors r) (keys r) (position r) := by
        simp only [ofLocal, hk]
      rw [List.map_cons, hitem, lists_iter, ih, List.filter_cons_of_pos (by simpa using hiter), List.map_cons]

theorem Stands.isList_of_keys {L : Array Bytes} {Γ : Meaning} {x : Item} (h : x.Stands L Γ)
    (hne : x.handle ≠ 0) {k : Key} {keys : List k.Carrier} (hΓ : Γ x.handle = some (.keys k keys)) : x.isList := by
  cases h with
  | idle | keys => rfl
  | null | int | float => exact absurd rfl hne
  | map _ hmap => cases hmap.symm.trans hΓ
  | @str s lo hi hstr =>
    -- A string with a handle is counted.
    have hshared : (⟨lo, hi⟩ : Packed).storage? = some .shared := by
      have htag : (⟨lo, hi⟩ : Packed).tag = Packed.sharedTag := by
        by_contra hnot
        exact hne (if_neg hnot)
      unfold Packed.storage?
      rw [htag]
      rfl
    unfold Packed.Stands at hstr
    rw [hshared] at hstr
    have hlo : Γ (⟨lo, hi⟩ : Packed).handle = some (.keys k keys) := hΓ
    rw [Packed.handle_of_storage hshared] at hlo
    cases hstr.2.symm.trans hlo

end Item

theorem Context.lists_items (c : Context) (s : Plain.Store) (items : List Item) :
    Item.lists (c.items s ++ items) = Item.lists items := rfl

namespace Heap.Backs

variable {h : Heap} {L : Array Bytes} {T : Array Plain.Table} {items : List Item} {a : UInt64}

theorem orderly (b : h.Backs L T items) : h.Orderly ∧ h.slots.size ≤ maxOwners := by
  obtain ⟨-, Γ, l, -⟩ := b
  exact ⟨l.orderly, l.size⟩

theorem lists_le (b : h.Backs L T items) (ha : a ≠ 0) : (Item.lists items).count a ≤ h.count a := by
  obtain ⟨-, Γ, l, -⟩ := b
  rw [l.count a ha]
  exact (List.filter_sublist.map _).count_le a

theorem count_list {k : Key} {c : Plain.Cursor} {w : UInt64} (b : h.Backs L T items)
    (hx : .iter k (some c) a w ∈ items) :
    a ≠ 0 ∧ h.count a = (Item.lists items).count a := by
  obtain ⟨-, Γ, l, hs⟩ := b
  cases hs _ hx with
  | keys ha hΓ =>
    refine ⟨ha, (l.count a ha).trans ?_⟩
    unfold Item.lists List.count
    rw [List.countP_map, List.countP_map, List.countP_filter]
    refine List.countP_congr fun y hy => ?_
    simp only [Function.comp, Bool.and_eq_true, beq_iff_eq, iff_self_and]
    intro hya
    exact (hs y hy).isList_of_keys (hya ▸ ha) (hya ▸ hΓ)

end Heap.Backs

/-! ## Activations -/

namespace Direct

def Frame.lists (p : Program) (fr : Frame) : List UInt64 :=
  match p.funcs[fr.func]? with
  | some f => ((f.locals p.globals).filter (·.ty.isIter)).map fr.keys
  | none => []

def State.lists (p : Program) (st : State) : List UInt64 := (st.frame :: st.below).flatMap (Frame.lists p)

/-- Every list of keys belongs to one iterator of one activation. -/
def State.Lone (p : Program) (st : State) : Prop := ∀ a, a ≠ 0 → (st.lists p).count a ≤ 1

section

variable {p : Program} {literals : List Bytes} {st st' : State} {σ : Plain.State} {it : Reg}

theorem Frame.lists_eq {fr : Frame} {f : Func} (hf : p.funcs[fr.func]? = some f) :
    fr.lists p = ((f.locals p.globals).filter (·.ty.isIter)).map fr.keys := by
  unfold lists
  rw [hf]

theorem Frame.lists_congr {fr fr' : Frame} (hfunc : fr'.func = fr.func) (hkeys : fr'.keys = fr.keys) :
    fr'.lists p = fr.lists p := by
  unfold lists
  rw [hfunc, hkeys]

theorem Frame.count_lists {fr fr' : Frame} (hfunc : fr'.func = fr.func) (hkeys : ∀ r, r ≠ it → fr'.keys r = fr.keys r)
    {a : UInt64} :
    (a ≠ fr'.keys it → (fr'.lists p).count a ≤ (fr.lists p).count a)
      ∧ ((fr.lists p).count a = 0 → (fr'.lists p).count a ≤ 1) := by
  cases hf : p.funcs[fr.func]? with
  | none =>
    have hnone : fr'.lists p = [] := by rw [lists, hfunc, hf]
    simp [hnone]
  | some f =>
    rw [lists_eq hf, lists_eq (hfunc ▸ hf)]
    have hnodup : ((f.locals p.globals).filter (·.ty.isIter)).Nodup := (nodup_eraseDups _).filter _
    generalize (f.locals p.globals).filter (·.ty.isIter) = rs at hnodup
    unfold List.count
    rw [List.countP_map, List.countP_map]
    constructor
    · refine fun hne => List.countP_mono_left fun r _ hr => ?_
      have hr : fr'.keys r = a := by simpa using hr
      have hother : r ≠ it := fun e => hne (by rw [← hr, e])
      simpa [hkeys r hother] using hr
    · intro hzero
      refine Nat.le_trans (List.countP_mono_left (q := (· == it)) fun r hr hra => ?_)
        (List.nodup_iff_count_le_one.1 hnodup it)
      have hra : fr'.keys r = a := by simpa using hra
      by_contra hother
      refine List.countP_eq_zero.1 hzero r hr ?_
      simpa [hkeys r (by simpa using hother)] using hra

theorem Waiting.lists {frs : List Frame} {pfs : List Plain.Frame} {items : List Item} (h : Waiting p frs pfs items) :
    Item.lists items = frs.flatMap (Frame.lists p) := by
  induction h with
  | nil => rfl
  | cons hf _ _ _ _ _ ih =>
    rw [Item.lists_append, Frame.items, Item.lists_locals, ih, List.flatMap_cons, Frame.lists_eq hf]

/-! ## Beginning -/

theorem iterKey_store {e : Setting} {δ δ' : Store} {r : Reg} {k : Key} (h : iterKey r e δ = (.ok k, δ')) : δ' = δ := by
  have hread : (MonadReader.read : Direct Setting) e δ = (.ok e, δ) := rfl
  unfold iterKey at h
  rw [bind_ok hread] at h
  cases hc : e.scope.cursor? r <;> cases hty : r.ty <;> rw [hc, hty] at h <;> cases h
  rfl

theorem value_store {e : Setting} {δ δ' : Store} {r : Reg} {ws : List UInt64} (h : value r e δ = (.ok ws, δ')) :
    δ' = δ := by
  have hread : (MonadReader.read : Direct Setting) e δ = (.ok e, δ) := rfl
  unfold value at h
  split at h
  · cases h
    rfl
  · split at h
    · cases h
    · rw [bind_ok hread] at h
      cases hb : e.scope.binding? r <;> rw [hb] at h <;> cases h
      rfl

theorem dropKeys_heap {e : Setting} {δ δ' : Store} {r : Reg} (h : dropKeys r e δ = (.ok (), δ')) :
    δ.context.heap.drop (δ.keys r) = .ok δ'.context.heap ∧ δ'.keys = δ.keys := by
  have h : tell .drop [contextWord, [δ.keys r]] e δ = (.ok (), δ') := h
  cases hdrop : δ.context.heap.drop (δ.keys r) with
  | ok heap =>
    rw [tell_of_act (w := [contextWord, [δ.keys r]]) rfl (Act.change_ok (g := (·.drop (δ.keys r))) hdrop)] at h
    cases h
    exact ⟨rfl, rfl⟩
  | error f =>
    have hfault : Act.change (·.drop (δ.keys r)) δ.context = (.error (.heap f), δ.context) := by
      rw [Act.change, Act.bind_error (Act.look_error hdrop)]
    have hservice : service .drop [contextWord, [δ.keys r]] e δ = (.error (.trap (Service.trapOf (.heap f))), δ) :=
      service_of_fault (x := do Act.change (·.drop (δ.keys r)); return []) rfl (Act.bind_error hfault)
    rw [show tell .drop [contextWord, [δ.keys r]] e δ = _ from bind_trap hservice] at h
    cases h

theorem iterBegin_heap {e : Setting} {dst map : Reg} {δ δ' : Store} (h : iterBegin dst map e δ = (.ok (), δ')) :
    ∃ k items heap, δ.context.heap.newKeys k items = (δ'.keys dst, heap)
      ∧ heap.drop (δ.keys dst) = .ok δ'.context.heap := by
  unfold iterBegin at h
  obtain ⟨_, δ₁, hkey, h⟩ := bind_eq_ok h
  obtain ⟨m, δ₂, hvalue, h⟩ := bind_eq_ok h
  obtain ⟨sv, δ₃, hsv, h⟩ := bind_eq_ok h
  obtain ⟨ws, δ₄, hservice, h⟩ := bind_eq_ok h
  obtain ⟨_, δ₅, hdrop, h⟩ := bind_eq_ok h
  cases h
  obtain rfl := iterKey_store hkey
  obtain rfl := value_store hvalue
  obtain ⟨k, v, rfl, rfl⟩ := mapService_eq_ok hsv
  obtain ⟨items, rfl, hheap, hkeys⟩ : ∃ items, ws = [(δ₃.context.heap.newKeys k items).1]
      ∧ δ₄.context.heap = (δ₃.context.heap.newKeys k items).2 ∧ δ₄.keys = δ₃.keys := by
    have hperform := (Realizes.service_apply (.map k v .iterBegin) [contextWord, m] e δ₃).symm.trans hservice
    rcases hrun : Service.perform (.map k v .iterBegin) [contextWord, m].flatten
      ⟨⟨#[], 0, 0, 0⟩, δ₃.context⟩ with ⟨t | rs, out⟩ <;>
      rw [hrun] at hperform <;> cases hperform
    obtain ⟨items, hrs, hout⟩ := Service.perform_iterBegin_heap hrun
    exact ⟨items, hrs, hout, rfl⟩
  obtain ⟨hdrop, -⟩ := dropKeys_heap hdrop
  refine ⟨k, items, δ₄.context.heap, ?_, ?_⟩
  · show _ = ((if dst = dst then _ else δ₅.keys dst), _)
    rw [if_pos rfl, hheap]
    rfl
  · rw [← hkeys]
    exact hdrop

theorem State.step_iterBegin {m : Reg} (hstep : st.step p literals = .next st')
    (hi : st.frame.instr? p = some (.iterBegin it m)) :
    st'.below = st.below ∧ st'.frame.func = st.frame.func ∧ (∀ r, r ≠ it → st'.frame.keys r = st.frame.keys r)
      ∧ ∃ k items heap, st.context.heap.newKeys k items = (st'.frame.keys it, heap)
        ∧ heap.drop (st.frame.keys it) = .ok st'.context.heap := by
  obtain ⟨f, i, δ, hdoes, hmoves⟩ := State.step_eq_next hstep
  obtain rfl := Option.some.inj (hdoes.instr?.symm.trans hi)
  have hkeys : ∀ r, r ≠ it → δ.keys r = st.frame.keys r := fun r hr => hdoes.spares.keys r fun hmem => by
    obtain ⟨m', hm'⟩ : ∃ m', Instr.iterBegin it m = .iterBegin r m' := Check.mem_begins.1 hmem
    cases hm'
    exact hr rfl
  have hflow : δ.flow = .on := hdoes.leads.resolve_right id
  cases hmoves with
  | on => exact ⟨rfl, rfl, hkeys, iterBegin_heap hdoes.done⟩
  | goto h | call h | back h =>
    rw [hflow] at h
    cases h

theorem State.count_lists_step (hstep : st.step p literals = .next st')
    (hi : ∀ r m, st.frame.instr? p ≠ some (.iterBegin r m)) {a : UInt64} (ha : a ≠ 0) :
    (st'.lists p).count a ≤ (st.lists p).count a := by
  obtain ⟨f, i, δ, hdoes, hmoves⟩ := State.step_eq_next hstep
  have hkeys : δ.keys = st.frame.keys := (hdoes.quiet (t := st) fun r m e => hi r m (e ▸ hdoes.instr?)).1
  -- Here nothing but the keys and the function of an activation matters.
  have hsame : ∀ next, (st.load δ next).lists p = st.lists p := fun next => by
    have hframe : (st.load δ next).frame.lists p = st.frame.lists p := Frame.lists_congr rfl hkeys
    rw [lists, lists, List.flatMap_cons, List.flatMap_cons, hframe]
    rfl
  cases hmoves with
  | on | goto => exact Nat.le_of_eq (congrArg _ (hsame _))
  | @call dst fn wss _ g δ' _ hst hg henter =>
    subst hst
    have hzero : δ'.keys = fun _ => 0 := funext fun r => (enter_spares henter).keys r List.not_mem_nil
    have hnew : ∀ fr : Frame, fr.keys = (fun _ => 0) → (fr.lists p).count a = 0 := fun fr hfr => by
      refine List.count_eq_zero.2 fun hmem => ?_
      unfold Frame.lists at hmem
      split at hmem
      · obtain ⟨r, -, hr⟩ := List.mem_map.1 hmem
        rw [hfr] at hr
        exact ha hr.symm
      · cases hmem
    rw [lists, List.flatMap_cons, List.count_append, hnew _ hzero, Nat.zero_add]
    exact Nat.le_of_eq (congrArg _ (hsame st.frame.next))
  | @back results fr frs _ g δ' _ hbelow hst hg hresume =>
    subst hst
    have hcaller : δ'.keys = fr.keys := funext fun r => (resume_spares hresume).keys r List.not_mem_nil
    have hframe : ((⟨δ.context, δ.globals, fr, frs⟩ : State).load δ' (fr.next + 1)).frame.lists p = fr.lists p :=
      Frame.lists_congr rfl hcaller
    rw [lists, lists, hbelow, List.flatMap_cons, List.flatMap_cons, List.flatMap_cons, hframe]
    exact (List.sublist_append_right ..).count_le a

/-! ## States -/

theorem State.Shows.backs (h : st.Shows p literals σ) :
    ∃ items, st.context.heap.Backs literals.toArray σ.store.tables items
    ∧ Item.lists items = st.lists p
    ∧ ∀ f, p.funcs[st.frame.func]? = some f → ∀ r ∈ f.locals p.globals, localItem st.store σ r ∈ items := by
  obtain ⟨f, others, hf, -, hwait, hr⟩ := h.stands
  refine ⟨_, hr.context.backs, ?_, fun g hg r hr => ?_⟩
  · rw [Context.lists_items, List.nil_append, Holdings.items, Item.null, Item.lists_reg, Item.lists_append,
      Item.lists_append]
    show Item.lists ((f.locals p.globals).map (localItem st.store σ))
      ++ (Item.lists (p.globals.map (.ofGlobal st.globals σ.store.globals)) ++ Item.lists others) = _
    rw [Item.lists_globals, hwait.lists, List.nil_append, localItem, Item.lists_locals, State.lists, List.flatMap_cons,
      Frame.lists_eq hf]
    rfl
  · obtain rfl := Option.some.inj (hf.symm.trans hg)
    exact Context.Reflects.mem (List.mem_cons_of_mem _ (List.mem_append_left _ (List.mem_map_of_mem hr)))

theorem State.Lone.step (hlone : st.Lone p) (h : st.Shows p literals σ) (hstep : st.step p literals = .next st') :
    st'.Lone p := by
  intro a ha
  by_cases hbegin : ∃ r m, st.frame.instr? p = some (.iterBegin r m)
  · obtain ⟨r, m, hi⟩ := hbegin
    obtain ⟨hbelow, hfunc, hkeys, k, items, heap, hnew, -⟩ := State.step_iterBegin hstep hi
    obtain ⟨all, hbacks, hlists, -⟩ := h.backs
    obtain ⟨hmany, hone⟩ := Frame.count_lists (p := p) hfunc hkeys (a := a)
    have hbefore := hlone a ha
    rw [State.lists, List.flatMap_cons, List.count_append] at hbefore ⊢
    rw [hbelow]
    by_cases hfresh : a = st'.frame.keys r
    · -- Nobody had the handle of the new list before.
      have hcount := (hbacks.orderly.1.count_new hbacks.orderly.2 hnew).1
      have hnone := hbacks.lists_le ha
      rw [hlists, hfresh, hcount, State.lists, List.flatMap_cons, List.count_append] at hnone
      rw [hfresh] at hone ⊢
      omega
    · have := hmany hfresh
      omega
  · exact Nat.le_trans (State.count_lists_step hstep (fun r m hi => hbegin ⟨r, m, hi⟩) ha) (hlone a ha)

theorem State.Shows.released {m : Reg} {c : Plain.Cursor} {f : Func} (h : st.Shows p literals σ) (hlone : st.Lone p)
    (hf : p.funcs[st.frame.func]? = some f) (hlocal : it ∈ f.locals p.globals) {k : Key} (hty : it.ty = .iter k)
    (hc : σ.frame.cursors it = some c) (hi : st.frame.instr? p = some (.iterBegin it m))
    (hstep : st.step p literals = .next st') :
    st.context.heap.count (st.frame.keys it) = 1 ∧ st'.context.heap.count (st.frame.keys it) = 0 := by
  obtain ⟨-, -, -, k, items, heap, hnew, hdrop⟩ := State.step_iterBegin hstep hi
  obtain ⟨all, hbacks, hlists, hmem⟩ := h.backs
  have hitem := hmem f hf it hlocal
  rw [localItem_iter hty, hc] at hitem
  obtain ⟨hne, hcount⟩ : st.frame.keys it ≠ 0 ∧ st.context.heap.count (st.frame.keys it)
      = (Item.lists all).count (st.frame.keys it) :=
    hbacks.count_list hitem
  have hpos : 0 < (Item.lists all).count (st.frame.keys it) :=
    List.count_pos_iff.2 (List.mem_map.2 ⟨_, List.mem_filter.2 ⟨hitem, rfl⟩, rfl⟩)
  have hle := hlone _ hne
  rw [← hlists] at hle
  have hone : st.context.heap.count (st.frame.keys it) = 1 := by omega
  refine ⟨hone, ?_⟩
  obtain ⟨hfresh, -, hsame⟩ := hbacks.orderly.1.count_new hbacks.orderly.2 hnew
  have hother : st.frame.keys it ≠ st'.frame.keys it := fun e => by
    rw [← e, hone] at hfresh
    cases hfresh
  have hafter := Heap.count_drop hdrop hne
  rw [hsame _ hother, hone, Heap.one, if_pos rfl] at hafter
  exact Nat.succ.inj hafter

end

end Direct

end RecordMill

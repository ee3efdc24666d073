import RecordMill.Proofs.Lowering.Solvency

/-!
# Every owner has its reference

Main statement: `Direct.Passes.solvent`. In any run of an accepted program, one that calls its main function or has
globals for parameters included, each handle has at least as many references as there are places that own it. That is
less than `Program.reference_counts_exact` says, since a call of the main function loses the maps of the globals, but it
holds of more programs. -/

namespace RecordMill

open Heap (one)

namespace Direct

/-! ## Leaving -/

/-- There is a reference for every global, with nobody left in the activation. -/
structure Store.Holds (e : Setting) (others : List UInt64) (δ : Store) : Prop where
  affords : δ.context.Affords (others ++ δ.ownedByGlobals e)
  globals : ∀ g ∈ e.program.globals, g.ty.Fits (δ.globals g)

/-- From the store with any context, the step gives back the references in `paid` and changes nothing but the
context. -/
structure Pays (e : Setting) (δ : Store) (paid : List UInt64) (x : Direct Unit) : Prop where
  affords : ∀ {c : Context} {δ' : Store} {others : List UInt64}, x e { δ with context := c } = (.ok (), δ') →
    c.Affords (paid ++ others) →
    ∃ c', δ' = { δ with context := c' } ∧ c'.Affords others

section

variable {e : Setting} {δ δ' : Store} {others : List UInt64} {r : Reg} {b : Binding} {ws : List UInt64}

theorem Pays.forM {α : Type} {f : α → Direct PUnit} {paid : α → List UInt64} {xs : List α}
    (h : ∀ a ∈ xs, Pays e δ (paid a) (f a)) :
    Pays e δ (xs.flatMap paid) (xs.forM f) := by
  constructor
  induction xs with
  | nil =>
    rintro c δ' others ⟨⟩ hc
    exact ⟨c, rfl, hc⟩
  | cons y ys ih =>
    intro c δ' others hrun hc
    obtain ⟨⟨⟩, δ₁, hfirst, hrest⟩ := bind_eq_ok hrun
    rw [List.flatMap_cons, List.append_assoc] at hc
    obtain ⟨c₁, rfl, hc₁⟩ := (h y (.head _)).affords hfirst hc
    exact ih (fun a ha => h a (.tail _ ha)) hrest hc₁

theorem pays_local (hb : b.isGlobal = false) :
    Pays e δ (if r.ty.isHeap && !b.isLiteral then [r.ty.handle (δ.locals r)] else [])
    (do if r.ty.isHeap && !b.isLiteral then Direct.drop r.ty (← read r b)) := by
  constructor
  intro c δ' others hrun hc
  by_cases hcounted : r.ty.isHeap && !b.isLiteral
  · rw [if_pos hcounted] at hrun hc
    rw [bind_ok read_apply, if_neg (by simp [hb])] at hrun
    obtain ⟨-, heap, hdown, rfl⟩ := drop_eq_ok hrun
    exact ⟨_, rfl, hc.drop hdown⟩
  · rw [if_neg hcounted] at hrun hc
    cases hrun
    exact ⟨c, rfl, hc⟩

theorem pays_cursor (r : Reg) : Pays e δ [δ.keys r] (dropKeys r) := by
  constructor
  intro c δ' others hrun hc
  obtain ⟨heap, hdown, rfl⟩ := tell_change_eq_ok (g := (·.drop (δ.keys r))) rfl hrun
  exact ⟨_, rfl, hc.drop hdown⟩

theorem flatMap_ite {α : Type} {test : α → Bool} {f : α → UInt64} (xs : List α) :
    xs.flatMap (fun a => if test a then [f a] else []) = (xs.filter test).map f := by
  induction xs with
  | nil => rfl
  | cons x xs ih => cases hx : test x <;> simp [hx, ih]

variable [he : e.Scoped]

theorem Setting.Scoped.locals_eq :
    e.scope.locals.map (·.1) = (e.scope.func.locals e.program.globals).filter (!·.ty.isIter)
    ∧ e.scope.cursors.map (·.1) = e.iterators := by
  have hlocals : e.scope.locals = _ := he.scope ▸ Scope.locals_ofFunc
  have hcursors : e.scope.cursors
      = (Scope.bindLocals e.scope.func (e.program.globals.length + 1) (e.scope.func.locals e.program.globals)).2 := by
    rw [he.scope]
    rfl
  rw [hlocals, hcursors]
  exact ⟨Scope.keys_bindings_bindLocals, Scope.keys_cursors_bindLocals⟩

theorem Setting.binds_local {x : Reg × Binding} (hx : x ∈ e.scope.locals) :
    e.Binds x.1 x.2 ∧ x.2.isGlobal = false ∧ x.2.isLiteral = e.scope.func.holdsLiterals x.1 := by
  obtain ⟨hmem, hlocal⟩ := List.mem_filter.1 hx
  have hnodup : (e.scope.bindings.map (·.1)).Nodup := he.scope ▸ Scope.nodup_keys he.globals
  have hb := Setting.binds (lookup_of_mem hnodup hmem)
  obtain ⟨hglobal, -⟩ | ⟨hglobal, hl, -⟩ := hb.kind
  · simp [hglobal] at hlocal
  · exact ⟨hb, hglobal, hl⟩

theorem pays_locals : Pays e δ (δ.ownedByLocals e) (do
    e.scope.locals.forM fun (r, b) => do if r.ty.isHeap && !b.isLiteral then Direct.drop r.ty (← read r b)
    e.scope.cursors.forM fun (r, _) => dropKeys r) := by
  obtain ⟨hkeys, hcursors⟩ := Setting.Scoped.locals_eq (e := e)
  have hregs : e.scope.locals.flatMap
    (fun x => if x.1.ty.isHeap && !x.2.isLiteral then [x.1.ty.handle (δ.locals x.1)] else [])
      = e.owning.map fun r => r.ty.handle (δ.locals r) := by
    have hfilter : (e.scope.locals.filter fun x => x.1.ty.isHeap && !x.2.isLiteral)
        = e.scope.locals.filter ((fun r => r.ty.isHeap && !e.scope.func.holdsLiterals r) ∘ (·.1)) :=
      List.filter_congr fun x hx => by rw [(Setting.binds_local hx).2.2]; rfl
    have howning : (e.scope.locals.map (·.1)).filter (fun r => r.ty.isHeap && !e.scope.func.holdsLiterals r)
        = e.owning := by
      rw [hkeys, List.filter_filter]
      refine List.filter_congr fun r _ => ?_
      cases r.ty <;> simp [Ty.isHeap, Ty.isIter]
    rw [flatMap_ite, hfilter, ← howning, List.filter_map, List.map_map]
    rfl
  have hlists : e.scope.cursors.flatMap (fun x => [δ.keys x.1]) = e.iterators.map δ.keys := by
    rw [← hcursors, List.map_map]
    exact List.map_eq_flatMap.symm
  constructor
  intro c δ' others hrun hc
  obtain ⟨⟨⟩, δ₁, hfirst, hrest⟩ := bind_eq_ok hrun
  have hpays : Pays e δ (e.owning.map fun r => r.ty.handle (δ.locals r)) (e.scope.locals.forM fun (r, b) => do
      if r.ty.isHeap && !b.isLiteral then Direct.drop r.ty (← read r b)) :=
    hregs ▸ .forM fun x hx => pays_local (Setting.binds_local hx).2.1
  have hpays' : Pays e δ (e.iterators.map δ.keys) (e.scope.cursors.forM fun (r, _) => dropKeys r) :=
    hlists ▸ .forM fun x _ => pays_cursor x.1
  obtain ⟨c₁, rfl, hc₁⟩ := hpays.affords hfirst (by rwa [Store.ownedByLocals, List.append_assoc] at hc)
  exact hpays'.affords hrest hc₁

theorem Store.Solvent.leave (h : δ.Solvent e others) (hrun : (do
    e.scope.locals.forM fun (r, b) => do if r.ty.isHeap && !b.isLiteral then Direct.drop r.ty (← read r b)
    e.scope.cursors.forM fun (r, _) => dropKeys r : Direct Unit) e δ = (.ok (), δ')) : δ'.Holds e others := by
  have hperm : (δ.ownedByLocals e ++ (others ++ δ.ownedByGlobals e)).Perm (others ++ δ.owned e) := by
    rw [Store.owned, ← List.append_assoc others]
    exact List.perm_append_comm
  obtain ⟨c, rfl, hc⟩ := pays_locals.affords (δ := δ) (c := δ.context) hrun (h.affords.perm hperm)
  exact ⟨hc, h.globals⟩

omit he in
theorem blank_owns_nothing {g : Reg} (hheap : g.ty.isHeap) : g.ty.Fits (if g.ty = .str then ofPacked .empty else [0])
    ∧ g.ty.handle (if g.ty = .str then ofPacked .empty else [0]) = 0 := by
  cases hty : g.ty <;> simp only [hty, Ty.isHeap, Bool.false_eq_true] at hheap
  · exact ⟨fun _ => rfl, rfl⟩
  · exact ⟨fun _ => rfl, rfl⟩

theorem Store.Holds.releaseGlobal (h : δ.Holds e others) {g : Reg} (hg : g ∈ e.program.globals)
    (hrun : Direct.releaseGlobal g e δ = (.ok (), δ')) : δ'.Holds e others := by
  unfold Direct.releaseGlobal at hrun
  cases hheap : g.ty.isHeap with
  | false =>
    rw [if_neg (by simp [hheap])] at hrun
    cases hrun
    exact h
  | true =>
    have hread : (MonadReader.read : Direct Setting) e δ = (.ok e, δ) := rfl
    rw [if_pos hheap, bind_ok hread] at hrun
    cases hfound : e.scope.binding? g with
    | none =>
      rw [hfound] at hrun
      cases hrun
    | some b =>
      have hb := Setting.binds hfound
      obtain ⟨hglobal, -⟩ | ⟨-, -, hlocal⟩ := hb.kind
      · rw [hfound] at hrun
        dsimp only at hrun
        rw [bind_ok read_apply, hglobal] at hrun
        obtain ⟨⟨⟩, δ₁, hdrop, hwrite⟩ := bind_eq_ok hrun
        obtain ⟨-, heap, hdown, rfl⟩ := drop_eq_ok hdrop
        obtain ⟨hfits, hzero⟩ := blank_owns_nothing hheap
        rw [write_apply, Store.put, if_pos hglobal] at hwrite
        cases hwrite
        refine ⟨Context.Affords.drop (a := g.ty.handle (δ.globals g)) (h.affords.mono fun a ha =>
          Nat.le_of_eq ?_) hdown, fun u hu => ?_⟩
        · have hcount := count_map_update (r := g) (he.globals.filter (·.ty.isHeap)) (List.mem_filter.2 ⟨hg, hheap⟩)
            (f := fun u => u.ty.handle (δ.globals u))
            (g := fun u => u.ty.handle (if u = g then if g.ty = .str then ofPacked .empty else [0] else δ.globals u))
            (fun u hu => by rw [if_neg hu]) a
          rw [if_pos rfl, hzero] at hcount
          have hnone : one 0 a = 0 := if_neg ha.symm
          simp only [Store.ownedByGlobals, Context.Affords.count_cons, List.count_append]
          omega
        · dsimp only
          split
          · next heq => exact heq ▸ hfits
          · exact h.globals u hu
      · exact absurd hg (Scope.mem_locals.1 hlocal).2.2

theorem Store.Holds.releaseGlobals (h : δ.Holds e others) {gs : List Reg} (hgs : ∀ g ∈ gs, g ∈ e.program.globals)
    (hrun : (gs.forM Direct.releaseGlobal : Direct Unit) e δ = (.ok (), δ')) : δ'.Holds e others := by
  induction gs generalizing δ with
  | nil =>
    cases hrun
    exact h
  | cons g gs ih =>
    obtain ⟨⟨⟩, δ₁, hfirst, hrest⟩ := bind_eq_ok hrun
    exact ih (h.releaseGlobal (hgs g (.head _)) hfirst) (fun u hu => hgs u (.tail _ hu)) hrest

theorem Store.Solvent.release (h : δ.Solvent e others) (hrun : Direct.release e δ = (.ok (), δ')) :
    δ'.Holds e others := by
  have hread : (MonadReader.read : Direct Setting) e δ = (.ok e, δ) := rfl
  unfold Direct.release at hrun
  rw [bind_ok hread] at hrun
  dsimp only at hrun
  rw [← bind_assoc] at hrun
  obtain ⟨⟨⟩, δ₁, hlocals, hglobals⟩ := bind_eq_ok hrun
  have hleft := h.leave hlocals
  split at hglobals
  · refine hleft.releaseGlobals (fun g hg => ?_) hglobals
    rwa [he.scope] at hg
  · cases hglobals
    exact hleft

omit he in
theorem yields_zero (ty : Ty) : Yields e ty.handle (zero ty) := by
  have hfree : ∀ {ws : List UInt64}, ty.handle ws = 0 → Yields e ty.handle (pure ws : Direct (List UInt64)) :=
      fun hzero => by
    constructor
    rintro others δ δ' _ ⟨⟩ hs
    rw [hzero]
    exact hs.mono fun a ha => Nat.le_of_eq (count_cons_zero rfl ha _)
  cases ty with
  | map k v => exact yields_service (s := .map k v .alloc) rfl rfl [contextWord]
  | _ => exact hfree rfl

omit he in
theorem yields_returned (src : Reg) : Yields e e.scope.func.ret.handle (returned e.scope.func.ret src) := by
  unfold returned
  constructor
  intro others δ δ' ws hrun hs
  split at hrun
  · next hret =>
    cases hrun
    exact hs.mono fun a ha => Nat.le_of_eq (count_cons_zero (by rw [hret]; rfl) ha _)
  · split at hrun
    · exact (yields_zero _).solvent hrun hs
    · obtain ⟨ws', δ₁, hvalue, hrun⟩ := bind_eq_ok hrun
      obtain ⟨⟨⟩, δ₂, href, hrun⟩ := bind_eq_ok hrun
      cases hrun
      have hread : Fair e (value src) := inferInstance
      exact (hread.solvent hvalue hs).ref href

/-- A function that has returned leaves references for what it returns and for the globals. -/
theorem Store.Solvent.results (h : δ.Solvent e others) {src : Reg} (hrun : Direct.results src e δ = (.ok ws, δ')) :
    δ'.Holds e (e.scope.func.ret.handle ws :: others) := by
  have hsplit : Direct.results src e δ = (returned e.scope.func.ret src >>= fun ws => Direct.release >>= fun _ =>
    pure ws) e δ := results_eq src
  rw [hsplit] at hrun
  obtain ⟨ws', δ₁, hreturned, hrun⟩ := bind_eq_ok hrun
  obtain ⟨⟨⟩, δ₂, hrelease, hrun⟩ := bind_eq_ok hrun
  cases hrun
  exact ((yields_returned src).solvent hreturned h).release hrelease

theorem spends_resume {dst : Reg} [Counted e dst] {ret : Ty} (hdst : dst.ty = .null ∨ dst.ty = ret) :
    Spends e (ret.handle ws) (resume dst ret ws) := by
  unfold resume
  split
  · exact .of_fair inferInstance
  · split
    · exact .drop
    · next hnull =>
      have hty : dst.ty = ret := hdst.resolve_left (isNull_eq_false.1 (by simpa using hnull))
      exact .bindOwned fun _ => hty

/-! ## Entering -/

omit he in
theorem Fair.forM {α : Type} {f : α → Direct PUnit} {xs : List α} (h : ∀ a ∈ xs, Fair e (f a)) :
  Fair e (xs.forM f) := by
  induction xs with
  | nil => exact inferInstanceAs (Fair e (pure _))
  | cons y ys ih =>
    have hone := h y (.head _)
    have hrest := ih fun a ha => h a (.tail _ ha)
    exact inferInstanceAs (Fair e (f y >>= fun _ => ys.forM f))

omit he in
theorem counted_param (hr : r ∈ e.scope.func.params) : Counted e r where
  ne {b} hb := by
    rcases hb.kind with ⟨-, h, -⟩ | ⟨-, h, -⟩
    · exact h
    · rw [h]
      simp [Func.holdsLiterals, hr]

theorem fair_bindParams {rs : List Reg} (hrs : ∀ r ∈ rs, r ∈ e.scope.func.params) (wss : List (List UInt64)) :
    Fair e (bindParams rs wss) := by
  induction rs generalizing wss with
  | nil => exact inferInstanceAs (Fair e (pure ()))
  | cons r rs ih =>
    cases wss with
    | nil => exact inferInstanceAs (Fair e (pure ()))
    | cons ws wss =>
      have hone : Counted e r := counted_param (hrs r (.head _))
      have hrest := ih (fun r hr => hrs r (.tail _ hr)) wss
      unfold bindParams
      infer_instance

theorem fair_makeMap (hb : e.Binds r b) (hmap : r.ty.isMap) : Fair e (zero r.ty >>= fun ws => write r b ws) := by
  obtain ⟨k, v, hty⟩ : ∃ k v, r.ty = .map k v := by
    cases hty : r.ty <;> first | exact ⟨_, _, rfl⟩ | simp [hty, Ty.isMap] at hmap
  have hl : b.isLiteral = false := by
    rcases hb.kind with ⟨-, h, -⟩ | ⟨-, h, -⟩
    · exact h
    · rw [h]
      simp [Func.holdsLiterals, hty]
  constructor
  intro others δ δ' a hrun hs
  obtain ⟨ws, δ₁, hzero, hwrite⟩ := bind_eq_ok hrun
  have h₁ := (yields_zero r.ty).solvent hzero hs
  have hfits : r.ty.Fits ws := fun _ => by
    rw [hty] at hzero ⊢
    have hmade : service (.map k v .alloc) [contextWord] e δ = (.ok ws, δ₁) := hzero
    exact service_length hmade
  rw [write_apply] at hwrite
  cases hwrite
  refine (h₁.mono fun _ _ => List.count_le_count_cons).put hb hfits (fun h => by simp [hl] at h)
    (c := (δ₁.put r b ws).context) ?_
  rw [Store.put_context]
  refine h₁.affords.mono fun a _ => ?_
  have hcount := count_owned_put hb (by rw [hty]; rfl) hl δ₁ ws a
  simp only [Context.Affords.count_cons, List.count_append, List.cons_append]
  omega

/-- Entering a function leaves every owner its reference; what the main function overwrites is lost. -/
theorem fair_enter (wss : List (List UInt64)) : Fair e (enter wss) := by
  have hparams : Fair e (bindParams e.scope.func.params wss) := fair_bindParams (fun _ hr => hr) wss
  have hlocals : Fair e (e.scope.locals.forM fun (r, b) => do
      if r.ty.isMap && !e.scope.func.params.contains r then write r b (← zero r.ty)) := Fair.forM fun x hx => by
    obtain ⟨r, b⟩ := x
    dsimp only
    split
    · next hmake => exact fair_makeMap (Setting.binds_local hx).1 (Bool.and_eq_true_iff.1 hmake).1
    · infer_instance
  unfold enter
  refine Fair.of_read (h := ?_)
  refine @Fair.of_bind _ _ _ _ _ hparams fun _ => @Fair.of_bind _ _ _ _ _ hlocals fun _ => ?_
  split
  · refine Fair.forM fun g hg => ?_
    split
    · next b hmap hb => exact fair_makeMap (Setting.binds hb) hmap
    · infer_instance
  · infer_instance

end

/-! ## Whole runs -/

/-- The words of each register fit its type, and those of a literal have no handle. -/
def Frame.Regular (p : Program) (fr : Frame) : Prop :=
  ∃ f, p.funcs[fr.func]? = some f ∧ ∀ r ∈ f.locals p.globals, r.ty.Fits (fr.locals r)
    ∧ (f.holdsLiterals r → r.ty.handle (fr.locals r) = 0)

/-- There is a reference for every owner. -/
structure State.Solvent (p : Program) (st : State) : Prop where
  affords : st.context.Affords ((st.frame :: st.below).flatMap (Frame.owned p) ++ st.ownedByGlobals p)
  globals : ∀ g ∈ p.globals, g.ty.Fits (st.globals g)
  frames : ∀ fr ∈ st.frame :: st.below, fr.Regular p

section

variable {p : Program} {literals : List Bytes} {context : Context} {st st' : State} {f : Func} {δ : Store} {n : Nat}

theorem Frame.owned_eq (literals : List Bytes) {fr : Frame} (hf : p.funcs[fr.func]? = some f) (context : Context)
    (globals : Reg → List UInt64) :
    fr.owned p = (fr.store context globals).ownedByLocals (setting p literals fr.func f) := by
  rw [owned, hf]
  dsimp only
  rw [lists_eq hf]
  rfl

theorem State.owned_perm (literals : List Bytes) (st : State) (hf : p.funcs[st.frame.func]? = some f) :
    ((st.frame :: st.below).flatMap (Frame.owned p) ++ st.ownedByGlobals p).Perm
      (st.below.flatMap (Frame.owned p) ++ st.store.owned (setting p literals st.frame.func f)) := by
  rw [List.flatMap_cons, Frame.owned_eq literals hf st.context st.globals, Store.owned]
  refine List.perm_iff_count.2 fun a => ?_
  simp only [List.count_append]
  have hglobals : (st.ownedByGlobals p).count a
    = (st.store.ownedByGlobals (setting p literals st.frame.func f)).count a := rfl
  have hlocals : ((st.frame.store st.context st.globals).ownedByLocals (setting p literals st.frame.func f)).count a
    = (st.store.ownedByLocals (setting p literals st.frame.func f)).count a := rfl
  omega

theorem State.Solvent.store (h : st.Solvent p) (hf : p.funcs[st.frame.func]? = some f) :
    st.store.Solvent (setting p literals st.frame.func f) (st.below.flatMap (Frame.owned p)) := by
  obtain ⟨g, hg, hregular⟩ := h.frames _ (.head _)
  obtain rfl : g = f := Option.some.inj (hg.symm.trans hf)
  exact ⟨h.affords.perm (st.owned_perm literals hf).symm, h.globals, fun r hr => (hregular r hr).1, fun r hr =>
    (hregular r hr).2⟩

theorem State.Solvent.load (hf : p.funcs[st.frame.func]? = some f)
    (hδ : δ.Solvent (setting p literals st.frame.func f) (st.below.flatMap (Frame.owned p)))
    (hbelow : ∀ fr ∈ st.below, fr.Regular p) (n : Nat) : (st.load δ n).Solvent p := by
  have hregular : (st.load δ n).frame.Regular p := ⟨f, hf, fun r hr => ⟨hδ.locals r hr, hδ.literals r hr⟩⟩
  exact ⟨hδ.affords.perm ((st.load δ n).owned_perm literals hf), hδ.globals, List.forall_mem_cons.2 ⟨hregular, hbelow⟩⟩

theorem blank_handle (r : Reg) : r.ty.handle (blank r) = 0 := by
  unfold blank
  cases r.ty <;> rfl

theorem blank_fits (r : Reg) : r.ty.Fits (blank r) := fun _ => by
  unfold blank
  cases r.ty <;> rfl

theorem fresh_regular {i : Nat} (hf : p.funcs[i]? = some f) (dst : Reg) :
    (fresh i dst).Regular p ∧ ∀ a, a ≠ 0 → ((fresh i dst).owned p).count a = 0 := by
  refine ⟨⟨f, hf, fun r _ => ⟨blank_fits r, fun _ => blank_handle r⟩⟩, fun a ha => List.count_eq_zero.2 fun hmem => ?_⟩
  have hfresh : p.funcs[(fresh i dst).func]? = some f := hf
  rw [Frame.owned, hfresh] at hmem
  dsimp only at hmem
  rw [Frame.lists_eq hfresh] at hmem
  rcases List.mem_append.1 hmem with hmem | hmem <;> obtain ⟨r, -, rfl⟩ := List.mem_map.1 hmem
  · exact ha (blank_handle r)
  · exact ha rfl

theorem State.Solvent.call (h : st.Solvent p) {i : Nat} (hf : p.funcs[i]? = some f) (dst : Reg) :
    (⟨st.context, st.globals, fresh i dst, st.frame :: st.below⟩ : State).Solvent p := by
  obtain ⟨hregular, hnone⟩ := fresh_regular hf dst
  refine ⟨h.affords.mono fun a ha => Nat.le_of_eq ?_, h.globals, List.forall_mem_cons.2 ⟨hregular, h.frames⟩⟩
  have hzero := hnone a ha
  simp only [List.flatMap_cons, List.count_append, State.ownedByGlobals]
  omega

theorem setting_scoped (hp : p.check = []) (hg : p.globals.Nodup) {i : Nat} (hf : p.funcs[i]? = some f) :
    (setting p literals i f).Scoped :=
  ⟨hp, List.mem_of_getElem? hf, rfl, hg⟩

section

variable (hp : p.check = []) (hg : p.globals.Nodup)

include hp hg

/-- Where a function has returned, there is a reference for its result besides those of the callers. -/
theorem State.Solvent.given (h : st.Solvent p) (hchain : Chain p st.frame st.below) {src : Reg}
    (hdoes : st.Does p literals f (.ret src) δ) {ws : List UInt64} (hflow : δ.flow = .back ws) {fr : Frame}
    {frs : List Frame} (hbelow : st.below = fr :: frs) {g : Func} (hcaller : p.funcs[fr.func]? = some g) :
    (∃ fn args, .call st.frame.dst fn args ∈ g.body)
      ∧ (st.frame.dst.ty = .null ∨ st.frame.dst.ty = f.ret)
      ∧ (State.store ⟨δ.context, δ.globals, fr, frs⟩).Solvent (setting p literals fr.func g)
        (f.ret.handle ws :: frs.flatMap (Frame.owned p)) := by
  have he : (setting p literals st.frame.func f).Scoped := setting_scoped hp hg hdoes.func
  have hrun : (Direct.results src >>= fun ws => Direct.follow (.back ws)) (setting p literals st.frame.func f) st.store
      = (.ok (), δ) :=
    Direct.ret_eq src ▸ hdoes.done
  obtain ⟨ws, δ₁, hresults, hfollow⟩ := bind_eq_ok hrun
  cases hfollow
  cases hflow
  have hleft := (h.store hdoes.func).results hresults
  rw [hbelow] at hchain hleft
  cases hchain with
  | @call _ _ _ fn args hinstr hcallee =>
    have hinstr' : g.body[fr.next]? = some (.call st.frame.dst fn args) := by rwa [Frame.instr?, hcaller] at hinstr
    have hi := List.mem_of_getElem? hinstr'
    have he' : (setting p literals fr.func g).Scoped := setting_scoped hp hg hcaller
    obtain ⟨callee, hfunc, -, hdst⟩ : (Instr.call st.frame.dst fn args).Typed p g.ret := he'.typed hi
    obtain rfl : callee = f := by
      have hsame := (Program.place_of_func? hfunc).2
      rw [← hcallee, hdoes.func] at hsame
      exact (Option.some.inj hsame).symm
    refine ⟨⟨fn, args, hi⟩, hdst, ?_⟩
    obtain ⟨g', hg', hregular⟩ := h.frames fr (.tail _ (hbelow ▸ .head _))
    obtain rfl : g' = g := Option.some.inj (hg'.symm.trans hcaller)
    have hperm := State.owned_perm literals ⟨δ₁.context, δ₁.globals, fr, frs⟩ hcaller
    exact ⟨hleft.affords.perm (hperm.symm.cons _), hleft.globals, fun r hr => (hregular r hr).1, fun r hr =>
      (hregular r hr).2⟩

theorem State.Solvent.back (h : st.Solvent p) (hchain : Chain p st.frame st.below) {src : Reg}
    (hdoes : st.Does p literals f (.ret src) δ) (hmoves : st.Moves p literals f δ st') : st'.Solvent p := by
  obtain ⟨ws, hback⟩ := hdoes.back
  cases hmoves with
  | on hflow | goto hflow | call hflow => simp [hback] at hflow
  | @back _ fr frs _ g δ' hflow hbelow hst hcaller hresume =>
    subst hst
    obtain ⟨⟨fn, args, hi⟩, hdst, hgiven⟩ := h.given hp hg hchain hdoes hflow hbelow hcaller
    have he : (setting p literals fr.func g).Scoped := setting_scoped hp hg hcaller
    have hcounted : Counted (setting p literals fr.func g) st.frame.dst :=
      Lowering.counted hi [st.frame.dst] rfl (.head _) rfl
    exact .load hcaller ((spends_resume hdst).solvent hresume hgiven) (fun u hu =>
      h.frames u (.tail _ (hbelow ▸ .tail _ hu))) _

theorem State.Solvent.step (h : st.Solvent p) (hchain : Chain p st.frame st.below)
    (hstep : st.step p literals = .next st') :
    st'.Solvent p := by
  obtain ⟨f, i, δ, hdoes, hmoves⟩ := State.step_eq_next hstep
  have he : (setting p literals st.frame.func f).Scoped := setting_scoped hp hg hdoes.func
  have hbelow : ∀ fr ∈ st.below, fr.Regular p := fun fr hfr => h.frames fr (.tail _ hfr)
  by_cases hret : ∃ src, i = .ret src
  · obtain ⟨src, rfl⟩ := hret
    exact h.back hp hg hchain hdoes hmoves
  · have hfair : Fair (setting p literals st.frame.func f) (Lowering.lower i) :=
      Lowering.fair_lower (List.mem_of_getElem? hdoes.instr) fun src heq => hret ⟨src, heq⟩
    have hδ := hfair.solvent hdoes.done (h.store hdoes.func)
    cases hmoves with
    | on | goto => exact .load hdoes.func hδ hbelow _
    | @call dst fn args called g δ' hflow hst hcallee henter =>
      have hcalled : called.Solvent p := hst ▸ (State.Solvent.load hdoes.func hδ hbelow st.frame.next).call hcallee dst
      have hfunc : called.frame.func = fn.toNat := hst ▸ rfl
      rw [← hfunc] at hcallee henter
      have he' : (setting p literals called.frame.func g).Scoped := setting_scoped hp hg hcallee
      exact .load hcallee ((fair_enter args).solvent henter (hcalled.store hcallee))
        (fun fr hfr => hcalled.frames fr (.tail _ hfr)) 0
    | back hflow => exact absurd (hflow ▸ hdoes.leads.resolve_left (by simp [hflow])).back hret

theorem start_solvent (hcontext : context.Affords []) (hstart : start p literals context = .next st) :
    st.Solvent p := by
  obtain ⟨first, hfirst⟩ : ∃ first : State, first = ⟨context, blank, fresh p.main.toNat ⟨0, .null⟩, []⟩ := ⟨_, rfl⟩
  have hstart : first.perform p literals 0 (enter []) = .next st := hfirst ▸ hstart
  obtain ⟨f, δ, hf, henter, rfl⟩ := State.perform_eq_next hstart
  have he : (setting p literals first.frame.func f).Scoped := setting_scoped hp hg hf
  have hblank : first.Solvent p := by
    obtain ⟨hregular, hnone⟩ := fresh_regular hf ⟨0, .null⟩
    subst hfirst
    refine ⟨hcontext.mono fun a ha => Nat.le_of_eq ?_, fun g _ => blank_fits g, List.forall_mem_singleton.2 hregular⟩
    have hzero : ((fresh p.main.toNat ⟨0, .null⟩).owned p).count a = 0 := hnone a ha
    have hglobals : ((p.globals.filter (·.ty.isHeap)).map fun g => g.ty.handle (blank g)).count a = 0 :=
      List.count_eq_zero.2 fun hmem => by
        obtain ⟨g, -, rfl⟩ := List.mem_map.1 hmem
        exact ha (blank_handle g)
    simp only [List.flatMap_cons, List.flatMap_nil, List.append_nil, List.count_append, State.ownedByGlobals,
      List.count_nil]
    omega
  have hbelow : ∀ fr ∈ first.below, fr.Regular p := hfirst ▸ nofun
  exact .load hf ((fair_enter []).solvent henter (hblank.store hf)) hbelow 0

theorem Passes.solvent (hcontext : context.Affords []) (h : Passes p literals context n st) : st.Solvent p := by
  induction n generalizing st with
  | zero => exact start_solvent hp hg hcontext (passes_zero.1 h)
  | succ n ih =>
    obtain ⟨before, hbefore, hstep⟩ := passes_succ.1 h
    exact (ih hbefore).step hp hg hbefore.chain hstep

end

end

end Direct

end RecordMill

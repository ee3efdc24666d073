import RecordMill.Proofs.Lowering.Leaving
import RecordMill.Proofs.Plain.Entering

/-!
# Leaving a function on plain values

What is returned is owned by the caller. Everything else that the activation owns is given back before,
and the globals with it when the main function returns.
-/

namespace RecordMill

open Plain (Val Table)

/-- What a return of type `ty` hands over. -/
def Item.result (ty : Ty) (x : Val) (ws : List UInt64) : List Item := if ty = .null then [] else [.reg ty x ws]

namespace Direct

variable {e : Setting} {others items : List Item} {δ : Store} {σ : Plain.State} {L : Array Bytes} {s : Plain.Store}

/-! ## Giving back -/

theorem release_locals {bs : List (Reg × Binding)} (hiter : ∀ x ∈ bs, x.1.ty.isIter = false)
    (hlocal : ∀ x ∈ bs, x.2.isGlobal = false) (hliteral : ∀ x ∈ bs, x.2.isLiteral → (localItem δ σ x.1).handle = 0)
    (h : δ.context.Reflects L s (bs.map (fun x => localItem δ σ x.1) ++ items)) :
    ∃ c, (bs.forM fun (r, b) => do if r.ty.isHeap && !b.isLiteral then drop r.ty (← read r b) : Direct Unit) e δ
      = (.ok (), { δ with context := c }) ∧ c.Reflects L s items := by
  obtain ⟨c₀, hc₀⟩ : ∃ c, c = δ.context := ⟨_, rfl⟩
  rw [← hc₀] at h
  have hδ : δ = { δ with context := c₀ } := by rw [hc₀]
  rw [hδ]
  clear hδ hc₀
  induction bs generalizing c₀ with
  | nil => exact ⟨c₀, rfl, h⟩
  | cons x bs ih =>
    obtain ⟨r, b⟩ := x
    have hr : r.ty.isIter = false := hiter _ (.head _)
    have hb : b.isGlobal = false := hlocal _ (.head _)
    have hl : b.isLiteral → (localItem δ σ r).handle = 0 := hliteral _ (.head _)
    have hrest := fun c hc => ih (fun y hy => hiter y (.tail _ hy)) (fun y hy => hlocal y (.tail _ hy))
      (fun y hy => hliteral y (.tail _ hy)) c hc
    have hread : read r b e { δ with context := c₀ } = (.ok (δ.locals r), { δ with context := c₀ }) := by
      rw [read_apply, hb]
      rfl
    rw [List.map_cons, List.cons_append] at h
    have hitem : localItem δ σ r = .reg r.ty (σ.frame.regs r) (δ.locals r) := Item.ofLocal_of_not_iter hr
    by_cases hcounted : r.ty.isHeap && !b.isLiteral
    · rw [hitem] at h
      obtain ⟨c₁, hdrop, h₁⟩ := drop_ok (e := e) (δ := { δ with context := c₀ }) h
      have hone : (do if r.ty.isHeap && !b.isLiteral then drop r.ty (← read r b) : Direct Unit) e
        { δ with context := c₀ }
          = (.ok (), { δ with context := c₁ }) := by
        rw [if_pos hcounted]
        exact (bind_ok hread).trans hdrop
      obtain ⟨c₂, hrun, h₂⟩ := hrest c₁ h₁
      exact ⟨c₂, (bind_ok hone).trans hrun, h₂⟩
    · have hfree : (localItem δ σ r).handle = 0 := by
        cases hheap : r.ty.isHeap with
        | false => exact hitem ▸ Item.handle_reg hheap ..
        | true => exact hl (by simpa [hheap] using hcounted)
      have hone : (do if r.ty.isHeap && !b.isLiteral then drop r.ty (← read r b) : Direct Unit) e
        { δ with context := c₀ }
          = (.ok (), { δ with context := c₀ }) := by
        rw [if_neg hcounted]
        rfl
      obtain ⟨c₂, hrun, h₂⟩ := hrest c₀ (h.uncons hfree)
      exact ⟨c₂, (bind_ok hone).trans hrun, h₂⟩

theorem release_cursors {cs : List (Reg × Cursor)} (hiter : ∀ x ∈ cs, x.1.ty.isIter)
    (h : δ.context.Reflects L s (cs.map (fun x => localItem δ σ x.1) ++ items)) :
    ∃ c, (cs.forM fun (r, _) => dropKeys r : Direct Unit) e δ = (.ok (), { δ with context := c })
      ∧ c.Reflects L s items := by
  obtain ⟨c₀, hc₀⟩ : ∃ c, c = δ.context := ⟨_, rfl⟩
  rw [← hc₀] at h
  have hδ : δ = { δ with context := c₀ } := by rw [hc₀]
  rw [hδ]
  clear hδ hc₀
  induction cs generalizing c₀ with
  | nil => exact ⟨c₀, rfl, h⟩
  | cons x cs ih =>
    obtain ⟨r, cu⟩ := x
    obtain ⟨k, hr⟩ : ∃ k, r.ty = .iter k := by
      have := hiter _ (.head _)
      cases hty : r.ty with
      | iter k => exact ⟨k, rfl⟩
      | _ => simp [hty, Ty.isIter] at this
    rw [List.map_cons, List.cons_append, localItem_iter hr] at h
    obtain ⟨c₁, hdrop, h₁⟩ := h.drop
    have hone : dropKeys r e { δ with context := c₀ } = (.ok (), { δ with context := c₁ }) :=
      tell_of_act (w := [contextWord, [δ.keys r]]) (δ := { δ with context := c₀ }) rfl hdrop
    obtain ⟨c₂, hrun, h₂⟩ := ih (fun y hy => hiter y (.tail _ hy)) c₁ h₁
    exact ⟨c₂, (bind_ok hone).trans hrun, h₂⟩

theorem release_globals (hf : e.Fit) {vals : Reg → Val} {gs : List Reg} (hgs : ∀ g ∈ gs, g ∈ e.program.globals)
    (hnodup : gs.Nodup) (h : δ.context.Reflects L s (gs.map (.ofGlobal δ.globals vals) ++ items)) :
    ∃ δ', (gs.forM releaseGlobal : Direct Unit) e δ = (.ok (), δ') ∧ δ'.context.Reflects L s items := by
  induction gs generalizing δ with
  | nil => exact ⟨δ, rfl, h⟩
  | cons g gs ih =>
    obtain ⟨hfirst, hrest⟩ := List.nodup_cons.1 hnodup
    have hih := fun δ' hδ' => ih (δ := δ') (fun y hy => hgs y (.tail _ hy)) hrest hδ'
    obtain ⟨b, hb, hglobal, -⟩ := hf.binding_global (hgs g (.head _))
    rw [List.map_cons, List.cons_append] at h
    cases hheap : g.ty.isHeap with
    | false =>
      obtain ⟨δ', hrun, h'⟩ := hih δ (h.uncons (Item.handle_reg hheap ..))
      have hone : releaseGlobal g e δ = (.ok (), δ) := by
        unfold releaseGlobal
        rw [if_neg (by simp [hheap])]
        rfl
      exact ⟨δ', (bind_ok hone).trans hrun, h'⟩
    | true =>
      obtain ⟨c, hdrop, hc⟩ := drop_ok (e := e) h
      obtain ⟨δ₁, hδ₁⟩ : ∃ δ₁, δ₁ = ({ δ with context := c } : Store).put g b
        (if g.ty = .str then ofPacked .empty else [0]) := ⟨_, rfl⟩
      have hone : releaseGlobal g e δ = (.ok (), δ₁) := by
        unfold releaseGlobal
        have hread : (MonadReader.read : Direct Setting) e δ = (.ok e, δ) := rfl
        rw [if_pos hheap, bind_ok hread, hb, hδ₁]
        refine (bind_ok read_apply).trans ?_
        rw [hglobal]
        exact (bind_ok hdrop).trans write_apply
      have hsame : gs.map (Item.ofGlobal δ₁.globals vals) = gs.map (.ofGlobal δ.globals vals) :=
          List.map_congr_left fun u hu => by
        have hne : u ≠ g := fun heq => hfirst (heq ▸ hu)
        rw [hδ₁]
        simp only [Store.put, hglobal, if_true, Item.ofGlobal, if_neg hne]
      obtain ⟨δ', hrun, h'⟩ := hih δ₁ (by rw [hsame, hδ₁]; simpa using hc)
      exact ⟨δ', (bind_ok hone).trans hrun, h'⟩

/-! ## All of it -/

theorem Reflects.release {held : List Item} (hf : e.Fit) (h : Reflects e (e.holdings others) held δ σ) :
    ∃ δ', Direct.release e δ = (.ok (), δ')
    ∧ δ'.context.Reflects e.literals.toArray σ.store (held ++ .null :: ((if e.scope.isMain then [] else
      e.program.globals.map (.ofGlobal δ'.globals σ.store.globals)) ++ others)) := by
  obtain ⟨hkeys, hbindings⟩ := hf.locals_eq
  obtain ⟨globals, hglobals⟩ : ∃ globals,
    globals = e.program.globals.map (Item.ofGlobal δ.globals σ.store.globals) := ⟨_, rfl⟩
  have hlocals : e.scope.locals.map (fun x => localItem δ σ x.1)
      = ((e.scope.func.locals e.program.globals).filter (!·.ty.isIter)).map (localItem δ σ) := by
    rw [← hkeys, List.map_map]
    rfl
  have hcursorKeys : e.scope.cursors.map (·.1) = (e.scope.func.locals e.program.globals).filter (·.ty.isIter) := by
    rw [hf.scope]
    exact Scope.keys_cursors_bindLocals
  have hcursors : e.scope.cursors.map (fun x => localItem δ σ x.1)
      = ((e.scope.func.locals e.program.globals).filter (·.ty.isIter)).map (localItem δ σ) := by
    rw [← hcursorKeys, List.map_map]
    rfl
  -- What is given back first stands first: the registers, the iterators, and then the globals.
  have hsplit : (e.scope.locals.map (fun x => localItem δ σ x.1) ++ (e.scope.cursors.map (fun x => localItem δ σ x.1)
      ++ (globals ++ (held ++ .null :: others)))).Perm (held ++ (e.holdings others).items δ σ) := by
    have hregs : (e.scope.locals.map (fun x => localItem δ σ x.1) ++ e.scope.cursors.map
      (fun x => localItem δ σ x.1)).Perm
        ((e.scope.func.locals e.program.globals).map (localItem δ σ)) := by
      rw [hlocals, hcursors, ← List.map_append]
      refine List.Perm.map _ (List.perm_append_comm.trans ?_)
      simpa using List.filter_append_perm (fun r : Reg => r.ty.isIter) (e.scope.func.locals e.program.globals)
    classical
    refine List.perm_iff_count.2 fun x => ?_
    have hcount := hregs.count_eq x
    simp only [List.count_append, List.count_cons, Holdings.items, Setting.holdings, hglobals] at hcount ⊢
    omega
  have hlocal : ∀ x ∈ e.scope.locals, x.1 ∈ e.scope.func.locals e.program.globals ∧ x.1.ty.isIter = false :=
      fun x hx => by
    have hmem : x.1 ∈ e.scope.locals.map (·.1) := List.mem_map_of_mem hx
    rw [hkeys] at hmem
    simpa using List.mem_filter.1 hmem
  have hcursor : ∀ x ∈ e.scope.cursors, x.1.ty.isIter = true := fun x hx => by
    have hmem : x.1 ∈ e.scope.cursors.map (·.1) := List.mem_map_of_mem hx
    rw [hcursorKeys] at hmem
    exact (List.mem_filter.1 hmem).2
  obtain ⟨c₁, hdrop₁, h₁⟩ := release_locals (e := e) (fun x hx => (hlocal x hx).2) (fun x hx => (hbindings x hx).1)
    (fun x hx hl => h.literal x.1 (hlocal x hx).1 ((hbindings x hx).2 ▸ hl)) (h.context.perm hsplit)
  obtain ⟨c₂, hdrop₂, h₂⟩ := release_cursors (e := e) (δ := { δ with context := c₁ }) (σ := σ) hcursor h₁
  have hread : (MonadReader.read : Direct Setting) e δ = (.ok e, δ) := rfl
  cases hmain : e.scope.isMain with
  | false =>
    refine ⟨{ δ with context := c₂ },
      (bind_ok hread).trans ((bind_ok hdrop₁).trans ((bind_ok hdrop₂).trans ?_)), h₂.perm ?_⟩
    · rw [hmain]
      rfl
    · rw [if_neg (by simp), ← hglobals]
      classical
      refine List.perm_iff_count.2 fun x => ?_
      simp only [List.count_append, List.count_cons]
      omega
  | true =>
    have hscope : e.scope.globals = e.program.globals := by rw [hf.scope]; rfl
    obtain ⟨δ', hdrop₃, h₃⟩ := release_globals (δ := { δ with context := c₂ }) hf (fun _ hg => hg) hf.globals
      (hglobals ▸ h₂)
    refine ⟨δ', (bind_ok hread).trans ((bind_ok hdrop₁).trans ((bind_ok hdrop₂).trans ?_)), h₃⟩
    rw [if_pos hmain, hscope]
    exact hdrop₃

/-! ## What is returned -/

/-- What a function of type `ty` returns, with an owner of its own. -/
def returned (ty : Ty) (src : Reg) : Direct (List UInt64) :=
  if ty = .null then pure []
  else if src.isNull then zero ty
  else do
    let ws ← value src
    ref ty ws
    return ws

theorem results_eq (src : Reg) :
    results src e δ = (returned e.scope.func.ret src >>= fun ws => Direct.release >>= fun _ => pure ws : Direct
      (List UInt64)) e δ := by
  have hread : (MonadReader.read : Direct Setting) e δ = (.ok e, δ) := rfl
  unfold results returned
  rw [bind_ok hread]
  by_cases hret : e.scope.func.ret = .null
  · simp only [if_pos hret]
  · by_cases hnull : src.isNull <;> simp only [if_neg hret, hnull, Bool.false_eq_true, if_true, if_false, bind_assoc]

theorem Reflects.of_returned (hf : e.Fit) (hfew : (e.holdings others).Few)
    (h : Reflects e (e.holdings others) [] δ σ) {src : Reg} (hsrc : src.ty = .null ∨ src.ty = e.scope.func.ret)
    (hhas : (e.holdings others).Has src) : ∃ ws,
      Gives (Direct.returned e.scope.func.ret src) e δ ws (e.holdings others)
        (Item.result e.scope.func.ret (Plain.State.result e.program e.scope.func σ src).1 ws)
        (σ.withStore (Plain.State.result e.program e.scope.func σ src).2) := by
  obtain ⟨hvalid, hiter⟩ := (Check.func_eq_nil.1 hf.passes).2.1
  unfold Direct.returned
  by_cases hret : e.scope.func.ret = .null
  · have hnull : src.isNull = true := isNull_eq_true.2 (hsrc.elim id fun h => h.trans hret)
    refine ⟨[], ?_⟩
    rw [if_pos hret, Item.result, if_pos hret, Plain.State.result, if_pos hnull, hret]
    exact ⟨δ, rfl, h⟩
  · cases hnull : src.isNull with
    | true =>
      obtain ⟨ws, c, hzero, hc⟩ := zero_ok (e := e) hvalid hret hiter (hfew.items δ σ [] (by simp)) h.context
      refine ⟨ws, ?_⟩
      rw [if_neg hret, if_pos rfl, Item.result, if_neg hret, Plain.State.result, if_pos hnull]
      have hglobals : (σ.store.zero e.scope.func.ret).2.globals = σ.store.globals := by cases e.scope.func.ret <;> rfl
      refine ⟨_, hzero, ?_, h.literal, h.flow⟩
      have hitems : (e.holdings others).items δ (σ.withStore (σ.store.zero e.scope.func.ret).2)
          = (e.holdings others).items δ σ := by
        simp only [Holdings.items, Plain.State.withStore, hglobals]
        rfl
      rw [Holdings.items_context, hitems]
      exact hc
    | false =>
      have hty : src.ty = e.scope.func.ret := hsrc.resolve_left (isNull_eq_false.1 hnull)
      obtain ⟨ws, hvalue, hmem⟩ := Reflects.value hf (hf.within others) hhas (δ := δ) (σ := σ)
      obtain ⟨c, href, hc⟩ := ref_ok (e := e) h.context hmem
      refine ⟨ws, ?_⟩
      rw [if_neg hret, if_neg (by simp), Item.result, if_neg hret, Plain.State.result, if_neg (by simp [hnull]), ← hty]
      exact ⟨_, (bind_ok hvalue).trans ((bind_ok href).trans rfl), hc, h.literal, h.flow⟩

/-- What is left of an activation when it returns: what it hands over, and the globals if they live on. -/
theorem results_follows (hf : e.Fit) (hfew : (e.holdings others).Few)
    (h : Reflects e (e.holdings others) [] δ σ) {src : Reg} (hsrc : src.ty = .null ∨ src.ty = e.scope.func.ret)
    (hhas : (e.holdings others).Has src) {x : Val} {s : Plain.Store}
    (hresult : Plain.State.result e.program e.scope.func σ src = (x, s)) :
    ∃ ws δ', Direct.results src e δ = (.ok ws, δ')
      ∧ δ'.context.Reflects e.literals.toArray s
        (Item.result e.scope.func.ret x ws ++ .null :: ((if e.scope.isMain then [] else
        e.program.globals.map (.ofGlobal δ'.globals s.globals)) ++ others)) := by
  obtain ⟨ws, δ₁, hfirst, h₁⟩ := h.of_returned hf hfew hsrc hhas
  rw [hresult] at h₁
  obtain ⟨δ₂, hrelease, h₂⟩ := h₁.release hf
  exact ⟨ws, δ₂, (results_eq src).trans ((bind_ok hfirst).trans ((bind_ok hrelease).trans rfl)), h₂⟩

theorem Reflects.resume {H : Holdings} (hf : e.Fit) (hH : H.Within e) {ret : Ty} {dst : Reg} {x : Val}
    {ws : List UInt64} (h : Reflects e H (Item.result ret x ws) δ σ) (hty : dst.ty = .null ∨ dst.ty = ret)
    (hhas : H.Has dst) (hliteral : e.scope.func.holdsLiterals dst = false) :
    Gives (Direct.resume dst ret ws) e δ () H [] (σ.set e.program dst x) := by
  unfold Direct.resume
  by_cases hret : ret = .null
  · have hnull : dst.isNull = true := isNull_eq_true.2 (hty.elim id fun h => h.trans hret)
    rw [Item.result, if_pos hret] at h
    rw [if_pos hret, Plain.State.set, if_pos hnull]
    exact ⟨δ, rfl, h⟩
  · rw [Item.result, if_neg hret] at h
    rw [if_neg hret]
    cases hnull : dst.isNull with
    | true =>
      rw [if_pos rfl, Plain.State.set, if_pos hnull]
      exact h.drop
    | false =>
      have hdst : dst.ty = ret := hty.resolve_left (isNull_eq_false.1 hnull)
      rw [if_neg (by simp)]
      exact bindOwned hf hH hhas (hdst ▸ h) hliteral

end Direct

end RecordMill

import Mathlib.Data.List.Perm.Subperm
import RecordMill.Proofs.Lowering.Footprint
import RecordMill.Proofs.Plain.Collections

/-!
# Entering a function on plain values

A new activation has zero words for all its registers but the maps, which have no zero. They come one after
another: those that are parameters from the caller, the others as new maps.
-/

namespace RecordMill

open Plain (Val Table)

namespace Context.Reflects

variable {c : Context} {L : Array Bytes} {s : Plain.Store} {items : List Item}

theorem append (h : c.Reflects L s items) {xs : List Item} (hxs : ∀ x ∈ xs, x.handle = 0 ∧ ∀ Γ, x.Stands L Γ) :
    c.Reflects L s (xs ++ items) := by
  induction xs with
  | nil => exact h
  | cons x xs ih =>
    obtain ⟨h0, hs⟩ := hxs x (.head _)
    exact (ih fun y hy => hxs y (.tail _ hy)).cons h0 hs

end Context.Reflects

namespace Direct

/-- Among the registers of an activation that is being entered only maps are missing. -/
structure Entering (e : Setting) (H : Holdings) (δ : Store) (σ : Plain.State) : Prop where
  within : H.Within e
  reflects : Reflects e H [] δ σ
  locals : ∀ r ∈ e.scope.func.locals e.program.globals, r ∉ H.locals → r.ty.isMap ∧ δ.locals r = [0]
  globals : ∀ g ∈ e.program.globals, g ∉ H.globals → g.ty.isMap

variable {e : Setting} {H : Holdings} {δ : Store} {σ : Plain.State} {r : Reg} (hf : e.Fit)

include hf in
theorem Setting.Fit.isValid_local (hr : r ∈ e.scope.func.locals e.program.globals) : r.ty.isValid := by
  rcases List.mem_append.1 (Scope.mem_locals.1 hr).1 with hparam | hbody
  · exact (hf.storable_param hparam).1
  · obtain ⟨i, hi, hmem⟩ := List.mem_flatMap.1 hbody
    exact hf.valid i hi r (Instr.mem_regs hmem)

theorem blank_stands {L : Array Bytes} {r : Reg} (hvalid : r.ty.isValid) (hn : r.ty ≠ .null)
    (hmap : r.ty.isMap = false) :
    (Item.ofLocal blank (fun _ => 0) (fun _ => 0) Plain.State.initial (fun _ => none) r).handle = 0
      ∧ ∀ Γ, (Item.ofLocal blank (fun _ => 0) (fun _ => 0) Plain.State.initial (fun _ => none) r).Stands L Γ := by
  unfold Item.ofLocal blank Plain.State.initial
  cases hty : r.ty with
  | null => exact absurd hty hn
  | int => exact ⟨rfl, fun _ => .int 0⟩
  | float => exact ⟨rfl, fun _ => .float 0⟩
  | str => exact ⟨rfl, fun _ => .str Packed.stands_empty⟩
  | map k v => simp [hty, Ty.isMap] at hmap
  | iter k => exact ⟨rfl, fun _ => .idle k 0⟩
  | other n => simp [hty, Ty.isValid] at hvalid

theorem Setting.Fit.isGlobal_local (hr : r ∈ e.scope.func.locals e.program.globals) :
    r.isNull = false ∧ e.program.globals.contains r = false := by
  obtain ⟨-, hn, hg⟩ := Scope.mem_locals.1 hr
  exact ⟨isNull_eq_false.2 hn, by simpa using hg⟩

theorem set_local (hr : r ∈ e.scope.func.locals e.program.globals) (v : Val) :
    σ.set e.program r v
      = { σ with frame := { σ.frame with regs := fun u => if u = r then v else σ.frame.regs u } } := by
  obtain ⟨hn, hg⟩ := Setting.Fit.isGlobal_local hr
  simp only [Plain.State.set, hn, hg, Bool.false_eq_true, if_false]

theorem zero_ok {L : Array Bytes} {s : Plain.Store} {items : List Item} {ty : Ty} (hvalid : ty.isValid)
    (hnull : ty ≠ .null) (hiter : ∀ k, ty ≠ .iter k) (hfew : Item.Few items) (h : δ.context.Reflects L s items) :
    ∃ ws c, Direct.zero ty e δ = (.ok ws, { δ with context := c })
      ∧ c.Reflects L (s.zero ty).2 (.reg ty (s.zero ty).1 ws :: items) := by
  cases ty with
  | null => exact absurd rfl hnull
  | int => exact ⟨[0], δ.context, rfl, h.cons rfl fun _ => .int 0⟩
  | float => exact ⟨_, δ.context, rfl, h.cons rfl fun _ => .float 0⟩
  | str => exact ⟨_, δ.context, rfl, h.cons rfl fun _ => .str Packed.stands_empty⟩
  | map k v =>
    obtain ⟨a, c, hnew, hc⟩ := h.newMap (k := k) (v := v) hfew
    exact ⟨[a], c, (service_of_act (w := [contextWord]) rfl hnew : Direct.service
      (.map k v .alloc) [contextWord] e δ = _), hc⟩
  | iter k => exact absurd rfl (hiter k)
  | other n => cases hvalid

theorem Ty.isIter_of_isMap {t : Ty} (h : t.isMap = true) : t.isIter = false := by cases t <;> first | rfl | cases h

namespace Entering

theorem grow (E : Entering e H δ σ) (hr : r ∈ e.scope.func.locals e.program.globals) (hnew : r ∉ H.locals) {v : Val}
    {ws : List UInt64} {c : Context} {s : Plain.Store} (hs : s.globals = σ.store.globals)
    (hc : c.Reflects e.literals.toArray s (.reg r.ty v ws :: H.items δ σ)) :
    Entering e { H with locals := r :: H.locals }
      { δ with context := c, locals := fun u => if u = r then ws else δ.locals u }
      ⟨s, { σ.frame with regs := fun u => if u = r then v else σ.frame.regs u }, σ.below⟩ := by
  have hmap := (E.locals r hr hnew).1
  have hiter := Ty.isIter_of_isMap hmap
  obtain ⟨δ', hδ⟩ : ∃ δ' : Store,
    δ' = { δ with context := c, locals := fun u => if u = r then ws else δ.locals u } := ⟨_, rfl⟩
  obtain ⟨σ', hσ⟩ : ∃ σ' : Plain.State,
    σ' = ⟨s, { σ.frame with regs := fun u => if u = r then v else σ.frame.regs u }, σ.below⟩ := ⟨_, rfl⟩
  rw [← hδ, ← hσ]
  have hitem : localItem δ' σ' r = .reg r.ty v ws := by
    rw [localItem, Item.ofLocal_of_not_iter hiter, hδ, hσ]
    simp
  have hsame : ∀ u, u ≠ r → localItem δ' σ' u = localItem δ σ u := fun u hu => by
    rw [hδ, hσ]
    simp only [localItem, Item.ofLocal, if_neg hu]
  have hlocals : H.locals.map (localItem δ' σ') = H.locals.map (localItem δ σ) :=
    List.map_congr_left fun u hu => hsame u fun e => hnew (e ▸ hu)
  have hglobals : H.globals.map (Item.ofGlobal δ'.globals σ'.store.globals)
      = H.globals.map (.ofGlobal δ.globals σ.store.globals) := by
    rw [hδ, hσ]
    simp only [hs]
  refine ⟨⟨?_, E.within.globals, ?_, E.within.nodup.2⟩, ⟨?_, ?_, ?_⟩, fun u hu hnot => ?_, E.globals⟩
  · exact List.forall_mem_cons.2 ⟨hr, E.within.locals⟩
  · exact List.nodup_cons.2 ⟨hnew, E.within.nodup.1⟩
  · have hitems : ({ H with locals := r :: H.locals } : Holdings).items δ' σ'
        = .null :: .reg r.ty v ws :: (H.locals.map
            (localItem δ σ) ++ (H.globals.map (.ofGlobal δ.globals σ.store.globals) ++ H.others)) := by
      simp only [Holdings.items, List.map_cons, hitem, hlocals, hglobals, List.cons_append]
    rw [List.nil_append, hitems, hδ, hσ]
    exact hc.perm (.swap ..)
  · refine List.forall_mem_cons.2 ⟨fun hl => ?_, fun u hu hl => ?_⟩
    · cases hty : r.ty <;> simp [hty, Ty.isMap, Func.holdsLiterals] at hmap hl
    · rw [hsame u fun e => hnew (e ▸ hu)]
      exact E.reflects.literal u hu hl
  · rw [hδ]
    exact E.reflects.flow
  · obtain ⟨hne, hnot⟩ := not_or.1 (mt List.mem_cons.2 hnot)
    obtain ⟨hm, hw⟩ := E.locals u hu hnot
    exact ⟨hm, by rw [hδ]; exact (if_neg hne).trans hw⟩

theorem drop_zero {k : Key} {v : Scalar} : Direct.drop (.map k v) [0] e δ = (.ok (), δ) :=
  tell_of_act (w := [contextWord, [0]]) rfl (Act.change_ok rfl)

include hf

theorem bindParam_globals {ws : List UInt64} {δ' : Store} (hr : r ∈ e.scope.func.params)
    (hbind : Direct.bind r ws e δ = (.ok (), δ')) :
    δ'.globals = δ.globals := by
  have hopen : Open e ⟨[], fun _ => True, [], fun _ => False, fun _ => False⟩ r :=
    ⟨fun _ hglobal => absurd (Scope.mem_of_isGlobal (hf.scope ▸ hglobal)) (hf.params r hr), fun _ _ => trivial⟩
  have hspares : Spares e ⟨[], fun _ => True, [], fun _ => False, fun _ => False⟩ (Direct.bind r ws) := inferInstance
  exact funext fun g => (hspares.of_run hbind).globals g (by simp)

theorem bindParam (E : Entering e H δ σ) (hr : r ∈ e.scope.func.params) {v : Val} {ws : List UInt64}
    (hx : .reg r.ty v ws ∈ H.globals.map (.ofGlobal δ.globals σ.store.globals) ++ H.others) :
    ∃ H' δ', Direct.bind r ws e δ = (.ok (), δ')
      ∧ Entering e H' δ' { σ with frame := { σ.frame with regs := fun u => if u = r then v else σ.frame.regs u } }
      ∧ H'.others = H.others ∧ H'.globals = H.globals ∧ ∀ u, u ∈ H'.locals ↔ u = r ∨ u ∈ H.locals := by
  have hstorable := hf.storable_param hr
  have hlocal : r ∈ e.scope.func.locals e.program.globals :=
    Scope.mem_locals.2 ⟨List.mem_append_left _ hr, hstorable.2.1, hf.params r hr⟩
  have hiter : r.ty.isIter = false := by
    cases hty : r.ty with
    | iter k => exact absurd hty (hstorable.2.2 k)
    | _ => rfl
  have hitem : .reg r.ty v ws ∈ H.items δ σ := .tail _ (List.mem_append_right _ hx)
  have hliteral : e.scope.func.holdsLiterals r = false := by simp [Func.holdsLiterals, hr]
  by_cases hmem : r ∈ H.locals
  · obtain ⟨δ', hbind, h', -, hsame⟩ :=
      Reflects.bind_value hf E.within E.reflects (.local hmem hiter) hitem fun hl => by simp [hliteral] at hl
    rw [set_local hlocal] at h'
    refine ⟨H, δ', hbind, ⟨E.within, h', fun u hu hnot => ?_, E.globals⟩, rfl, rfl,
      fun u => ⟨.inr, fun h => h.elim (fun heq => heq ▸ hmem) id⟩⟩
    obtain ⟨hm, hw⟩ := E.locals u hu hnot
    exact ⟨hm, (hsame u fun e => hnot (e ▸ hmem)).trans hw⟩
  · obtain ⟨hmap, hzero⟩ := E.locals r hlocal hmem
    obtain ⟨c, href, hc⟩ := ref_ok (e := e) E.reflects.context (List.mem_append_right [] hitem)
    refine ⟨{ H with locals := r :: H.locals }, _, ?_, E.grow hlocal hmem rfl hc, rfl, rfl, fun _ => List.mem_cons⟩
    obtain ⟨b, hb, hglobal, hlit⟩ := hf.binding_local hlocal hiter
    rw [bind_apply' (Setting.Fit.isGlobal_local hlocal).1 hiter hb]
    have hheap : r.ty.isHeap = true := by cases hty : r.ty <;> simp [hty, Ty.isMap, Ty.isHeap] at hmap ⊢
    have hdrop : Direct.drop r.ty [0] e { δ with context := c } = (.ok (), { δ with context := c }) := by
      cases hty : r.ty with
      | map k w => exact drop_zero
      | _ => simp [hty, Ty.isMap] at hmap
    rw [if_pos (by simp [hheap, hlit, hliteral])]
    refine (bind_ok href).trans ((bind_ok read_apply).trans ?_)
    rw [hglobal]
    simp only [Bool.false_eq_true, if_false, hzero]
    refine (bind_ok hdrop).trans (write_apply.trans ?_)
    simp only [Store.put, hglobal, Bool.false_eq_true, if_false]

theorem bindParams {rs : List Reg} {xs : List (Val × List UInt64)} {rest : List Item} (E : Entering e H δ σ)
    (hrest : H.globals.map (.ofGlobal δ.globals σ.store.globals) ++ H.others = rest)
    (hrs : ∀ r ∈ rs, r ∈ e.scope.func.params) (hxs : List.Forall₂ (fun r x => .reg r.ty x.1 x.2 ∈ rest) rs xs) :
    ∃ H' δ', Direct.bindParams rs (xs.map (·.2)) e δ = (.ok (), δ')
      ∧ Entering e H' δ'
        { σ with frame := { σ.frame with regs := Plain.State.assignParams rs (xs.map (·.1)) σ.frame.regs } }
      ∧ H'.others = H.others ∧ H'.globals = H.globals ∧ ∀ u, u ∈ H'.locals ↔ u ∈ rs ∨ u ∈ H.locals := by
  induction hxs generalizing H δ σ with
  | nil => exact ⟨H, δ, rfl, E, rfl, rfl, by simp⟩
  | @cons r x rs xs hx hxs ih =>
    obtain ⟨H₁, δ₁, hbind, E₁, hothers, hglobals, hmem⟩ := E.bindParam hf (hrs r (.head _)) (hrest ▸ hx)
    have hsame := bindParam_globals hf (hrs r (.head _)) hbind
    obtain ⟨H₂, δ₂, hbinds, E₂, hothers₂, hglobals₂, hmem₂⟩ := ih E₁ (by rw [hsame, hothers, hglobals]; exact hrest)
      (fun u hu => hrs u (.tail _ hu))
    refine ⟨H₂, δ₂, (bind_ok hbind).trans hbinds, E₂, hothers₂.trans hothers, hglobals₂.trans hglobals, fun u => ?_⟩
    rw [hmem₂, hmem, List.mem_cons]
    tauto

omit hf in
theorem few (E : Entering e H δ σ) (hfew : (e.holdings H.others).Few) : H.Few := by
  have hlocals := (List.subperm_of_subset E.within.nodup.1 E.within.locals).length_le
  have hglobals := (List.subperm_of_subset E.within.nodup.2 E.within.globals).length_le
  unfold Holdings.Few at hfew ⊢
  have h₁ : (e.holdings H.others).locals.length = (e.scope.func.locals e.program.globals).length := rfl
  have h₂ : (e.holdings H.others).globals.length = e.program.globals.length := rfl
  have h₃ : (e.holdings H.others).others = H.others := rfl
  rw [h₁, h₂, h₃] at hfew
  omega

omit hf in
theorem zero_map (E : Entering e H δ σ) (hfew : (e.holdings H.others).Few) (hmap : r.ty.isMap) : ∃ ws c,
    Direct.zero r.ty e δ = (.ok ws, { δ with context := c })
      ∧ c.Reflects e.literals.toArray (σ.store.zero r.ty).2 (.reg r.ty (σ.store.zero r.ty).1 ws :: H.items δ σ) := by
  have hfew := (E.few hfew).items δ σ [] (by simp)
  cases hty : r.ty with
  | map k v => exact zero_ok rfl nofun nofun hfew E.reflects.context
  | _ => simp [hty, Ty.isMap] at hmap

omit hf in
theorem makeMaps {F : Reg → Bool} {l : List (Reg × Binding)} {others : List Item} (E : Entering e H δ σ)
    (hH : H.others = others)
    (hfew : (e.holdings others).Few) (hF : ∀ r, F r → r.ty.isMap)
    (hbs : ∀ x ∈ l, x.1 ∈ e.scope.func.locals e.program.globals ∧ x.2.isGlobal = false)
    (hnodup : (l.map (·.1)).Nodup) (hnew : ∀ x ∈ l, F x.1 → x.1 ∉ H.locals) :
    ∃ H' δ', (l.forM fun (r, b) => do if F r then write r b (← Direct.zero r.ty) : Direct Unit) e δ = (.ok (), δ')
      ∧ Entering e H' δ' ⟨(Plain.State.freshMaps ((l.map (·.1)).filter F) σ.store σ.frame.regs).1,
        { σ.frame with regs := (Plain.State.freshMaps ((l.map (·.1)).filter F) σ.store σ.frame.regs).2 }, σ.below⟩
      ∧ H'.others = others ∧ H'.globals = H.globals ∧ H.locals ⊆ H'.locals ∧ ∀ x ∈ l, F x.1 → x.1 ∈ H'.locals := by
  induction l generalizing H δ σ with
  | nil => exact ⟨H, δ, rfl, E, hH, rfl, fun _ hu => hu, nofun⟩
  | cons x l ih =>
    obtain ⟨r, b⟩ := x
    obtain ⟨hr, hb⟩ : r ∈ _ ∧ b.isGlobal = false := hbs _ (.head _)
    obtain ⟨hfirst, hrest⟩ := List.nodup_cons.1 hnodup
    by_cases hmake : F r
    · obtain ⟨ws, c, hzero, hc⟩ := E.zero_map (hH ▸ hfew) (hF r hmake)
      have hgrow := E.grow hr (hnew (r, b) (.head _) hmake) (by cases r.ty <;> rfl) hc
      obtain ⟨H', δ', hrun, E', hothers, hglobals, hsub, hmade⟩ := ih hgrow hH (fun y hy => hbs y (.tail _ hy)) hrest
        fun y hy hymake hmem => by
          rcases List.mem_cons.1 hmem with heq | hmem
          · exact hfirst (List.mem_map.2 ⟨y, hy, heq⟩)
          · exact hnew y (.tail _ hy) hymake hmem
      refine ⟨H', δ', ?_, ?_, hothers, hglobals, List.Subset.trans (List.subset_cons_self ..) hsub,
        List.forall_mem_cons.2 ⟨fun _ => hsub (.head _), hmade⟩⟩
      · have hone : (do if F r then write r b (← Direct.zero r.ty) : Direct Unit) e δ
            = (.ok (), { δ with context := c, locals := fun u => if u = r then ws else δ.locals u }) := by
          rw [if_pos hmake]
          refine (bind_ok hzero).trans (write_apply.trans ?_)
          simp only [Store.put, hb, Bool.false_eq_true, if_false]
        exact (bind_ok hone).trans hrun
      · rw [List.map_cons, List.filter_cons_of_pos hmake]
        exact E'
    · obtain ⟨H', δ', hrun, E', hothers, hglobals, hsub, hmade⟩ := ih E hH (fun y hy => hbs y (.tail _ hy)) hrest
        fun y hy => hnew y (.tail _ hy)
      refine ⟨H', δ', ?_, ?_, hothers, hglobals, hsub, List.forall_mem_cons.2 ⟨fun h => absurd h hmake, hmade⟩⟩
      · have hone : (do if F r then write r b (← Direct.zero r.ty) : Direct Unit) e δ = (.ok (), δ) := by
          rw [if_neg hmake]
          rfl
        exact (bind_ok hone).trans hrun
      · rw [List.map_cons, List.filter_cons_of_neg hmake]
        exact E'

theorem complete (E : Entering e H δ σ) (hmaps : ∀ r ∈ e.scope.func.locals e.program.globals, r.ty.isMap → r ∈ H.locals)
    (hglobals : ∀ g ∈ e.program.globals, g.ty.isMap → g ∈ H.globals) : Reflects e (e.holdings H.others) [] δ σ := by
  have hlocal : ∀ r ∈ e.scope.func.locals e.program.globals, r ∈ H.locals := fun r hr => by
    by_contra hnot
    exact hnot (hmaps r hr (E.locals r hr hnot).1)
  have hglobal : ∀ g ∈ e.program.globals, g ∈ H.globals := fun g hg => by
    by_contra hnot
    exact hnot (hglobals g hg (E.globals g hg hnot))
  have hpl : (e.scope.func.locals e.program.globals).Perm H.locals :=
    (List.perm_ext_iff_of_nodup (nodup_eraseDups _) E.within.nodup.1).2 fun r => ⟨hlocal r, E.within.locals r⟩
  have hpg : e.program.globals.Perm H.globals := (List.perm_ext_iff_of_nodup hf.globals E.within.nodup.2).2
    fun g => ⟨hglobal g, E.within.globals g⟩
  refine ⟨E.reflects.context.perm ?_, fun r hr hl => E.reflects.literal r (hlocal r hr) hl, E.reflects.flow⟩
  exact .cons _ ((hpl.map _).append ((hpg.map _).append_right _))

end Entering

/-! ## All of it -/

include hf in
theorem Setting.Fit.locals_eq : e.scope.locals.map (·.1) = (e.scope.func.locals e.program.globals).filter (!·.ty.isIter)
    ∧ ∀ x ∈ e.scope.locals, x.2.isGlobal = false ∧ x.2.isLiteral = e.scope.func.holdsLiterals x.1 := by
  have heq : e.scope.locals = (Scope.bindLocals e.scope.func (e.program.globals.length + 1)
      (e.scope.func.locals e.program.globals)).1 := by
    rw [hf.scope]
    exact Scope.locals_ofFunc
  rw [heq]
  exact ⟨Scope.keys_bindings_bindLocals, fun x hx =>
    ⟨(Scope.binding_place (r := x.1) (b := x.2) hx).1, Scope.isLiteral_bindLocals hx⟩⟩

omit hf in
theorem entering_fresh (hf : e.Fit) {c : Context} {globals : Reg → List UInt64} {s : Plain.Store} {gs : List Reg}
    {others : List Item}
    (i : Nat) (dst : Reg) (below : List Plain.Frame) (hgs : ∀ g ∈ gs, g ∈ e.program.globals) (hnodup : gs.Nodup)
    (hmissing : ∀ g ∈ e.program.globals, g ∉ gs → g.ty.isMap)
    (hc : c.Reflects e.literals.toArray s (gs.map (.ofGlobal globals s.globals) ++ others)) :
    Entering e ⟨(e.scope.func.locals e.program.globals).filter (!·.ty.isMap), gs, others⟩
      { context := c, globals, locals := blank, keys := fun _ => 0, position := fun _ => 0 }
      ⟨s, { func := i, regs := Plain.State.initial, dst }, below⟩ := by
  have hfree : ∀ r ∈ (e.scope.func.locals e.program.globals).filter (!·.ty.isMap),
      (Item.ofLocal blank (fun _ => 0) (fun _ => 0) Plain.State.initial (fun _ => none) r).handle = 0
        ∧ ∀ Γ, (Item.ofLocal blank (fun _ => 0) (fun _ => 0) Plain.State.initial
            (fun _ => none) r).Stands e.literals.toArray Γ := by
    intro r hr
    obtain ⟨hr, hmap⟩ := List.mem_filter.1 hr
    exact blank_stands (hf.isValid_local hr) (Scope.mem_locals.1 hr).2.1 (by simpa using hmap)
  refine ⟨⟨fun r hr => (List.mem_filter.1 hr).1, hgs, (nodup_eraseDups _).filter _, hnodup⟩,
    ⟨?_, fun r hr _ => (hfree r hr).1, rfl⟩,
    fun r hr hnot => ?_, hmissing⟩
  · have hall := (hc.append (List.forall_mem_map.2 hfree)).cons (x := .null) rfl fun _ => .null
    exact hall
  · have hmap : r.ty.isMap = true := by
      by_contra hmap
      exact hnot (List.mem_filter.2 ⟨hr, by simpa using hmap⟩)
    have hne : r.ty ≠ .str := fun hty => by simp [hty, Ty.isMap] at hmap
    exact ⟨hmap, if_neg hne⟩

include hf

theorem enter_locals {c : Context} {globals : Reg → List UInt64} {s : Plain.Store} {gs : List Reg} {others : List Item}
    (i : Nat) (dst : Reg) (below : List Plain.Frame) {l : List (Val × List UInt64)} (hfew : (e.holdings others).Few)
    (hgs : ∀ g ∈ gs, g ∈ e.program.globals) (hnodup : gs.Nodup)
    (hmissing : ∀ g ∈ e.program.globals, g ∉ gs → g.ty.isMap) (hargs : List.Forall₂
      (fun r x => .reg r.ty x.1 x.2 ∈ gs.map (.ofGlobal globals s.globals) ++ others) e.scope.func.params l)
    (hc : c.Reflects e.literals.toArray s (gs.map (.ofGlobal globals s.globals) ++ others)) :
    ∃ H δ, (do
        Direct.bindParams e.scope.func.params (l.map (·.2))
        e.scope.locals.forM fun (r, b) => do
          if r.ty.isMap && !e.scope.func.params.contains r then write r b (← Direct.zero r.ty) : Direct Unit) e
          { context := c, globals, locals := blank, keys := fun _ => 0, position := fun _ => 0 } = (.ok (), δ)
      ∧ Entering e H δ ⟨(Plain.State.enter e.program e.scope.func i (l.map (·.1)) dst s).1,
        (Plain.State.enter e.program e.scope.func i (l.map (·.1)) dst s).2, below⟩
      ∧ H.others = others ∧ H.globals = gs ∧ ∀ r ∈ e.scope.func.locals e.program.globals, r.ty.isMap →
          r ∈ H.locals := by
  have hnew := entering_fresh hf i dst below hgs hnodup hmissing hc
  obtain ⟨H₁, δ₁, hbind, E₁, hothers₁, hglobals₁, hmem⟩ := hnew.bindParams hf rfl (fun _ hr => hr) hargs
  obtain ⟨hkeys, hbindings⟩ := hf.locals_eq
  have hF : ∀ r : Reg, r.ty.isMap && !e.scope.func.params.contains r → r.ty.isMap :=
    fun r h => (Bool.and_eq_true_iff.1 h).1
  have hnew : ∀ r : Reg, r.ty.isMap && !e.scope.func.params.contains r → r ∉ H₁.locals := fun r h hr => by
    obtain ⟨hmap, hparam⟩ := Bool.and_eq_true_iff.1 h
    rcases (hmem r).1 hr with hr | hr
    · simp [hr] at hparam
    · simp [hmap] at hr
  obtain ⟨H₂, δ₂, hmake, E₂, hothers₂, hglobals₂, hsub, hmade⟩ := E₁.makeMaps (l := e.scope.locals)
    (F := fun r => r.ty.isMap && !e.scope.func.params.contains r) hothers₁ hfew hF
    (fun x hx => ⟨(List.mem_filter.1 (hkeys ▸ List.mem_map_of_mem hx)).1, (hbindings x hx).1⟩)
    (hkeys ▸ (nodup_eraseDups _).filter _) fun x _ => hnew x.1
  have hlocalMaps : (e.scope.locals.map (·.1)).filter (fun r => r.ty.isMap && !e.scope.func.params.contains r)
      = Plain.State.localMaps e.program e.scope.func := by
    rw [hkeys, List.filter_filter]
    refine List.filter_congr fun r _ => ?_
    cases r.ty <;> simp [Ty.isMap, Ty.isIter]
  rw [hlocalMaps] at E₂
  refine ⟨H₂, δ₂, (bind_ok hbind).trans hmake, E₂, hothers₂, hglobals₂.trans hglobals₁, fun r hr hmap => ?_⟩
  by_cases hparam : r ∈ e.scope.func.params
  · exact hsub ((hmem r).2 (.inl hparam))
  · have hkey : r ∈ e.scope.locals.map (·.1) := by
      rw [hkeys]
      exact List.mem_filter.2 ⟨hr, by simp [Ty.isIter_of_isMap hmap]⟩
    obtain ⟨x, hx, rfl⟩ := List.mem_map.1 hkey
    exact hmade x hx (by simp [hmap, hparam])

omit hf in
theorem enter_eq {args : List (List UInt64)} {δ₀ δ : Store} (h : (do
        Direct.bindParams e.scope.func.params args
        e.scope.locals.forM fun (r, b) => do
          if r.ty.isMap && !e.scope.func.params.contains r then write r b (← Direct.zero r.ty) : Direct Unit) e δ₀
            = (.ok (), δ)) :
    Direct.enter args e δ₀ = (do
      if e.scope.isMain then
        e.scope.globals.forM fun g => do
          match g.ty.isMap, e.scope.binding? g with
          | true, some b => write g b (← Direct.zero g.ty)
          | _, _ => return : Direct Unit) e δ := by
  have hread : (MonadReader.read : Direct Setting) e δ₀ = (.ok e, δ₀) := rfl
  refine (bind_ok hread).trans ?_
  rw [← bind_assoc]
  exact bind_ok h

theorem enter_follows {c : Context} {globals : Reg → List UInt64} {s : Plain.Store} {others : List Item}
    (i : Nat) (dst : Reg) (below : List Plain.Frame) {xs : List (Val × List UInt64)} (hmain : e.scope.isMain = false)
    (hfew : (e.holdings others).Few)
    (hargs : List.Forall₂ (fun r x => .reg r.ty x.1 x.2 ∈ e.program.globals.map (.ofGlobal globals s.globals) ++ others)
      e.scope.func.params xs)
    (hc : c.Reflects e.literals.toArray s (e.program.globals.map (.ofGlobal globals s.globals) ++ others)) :
    ∃ δ, Direct.enter (xs.map (·.2)) e
        { context := c, globals, locals := blank, keys := fun _ => 0, position := fun _ => 0 } = (.ok (), δ)
      ∧ Reflects e (e.holdings others) [] δ ⟨(Plain.State.enter e.program e.scope.func i (xs.map (·.1)) dst s).1,
        (Plain.State.enter e.program e.scope.func i (xs.map (·.1)) dst s).2, below⟩ := by
  obtain ⟨H, δ, hrun, E, rfl, hglobals, hmaps⟩ := enter_locals hf i dst below hfew (fun _ hg => hg) hf.globals
    (fun g hg hnot => absurd hg hnot) hargs hc
  refine ⟨δ, (enter_eq hrun).trans ?_, E.complete hf hmaps fun g hg _ => hglobals ▸ hg⟩
  rw [hmain]
  rfl

/-! ## The main function -/

namespace Entering

omit hf

theorem grow_global (E : Entering e H δ σ) (hr : r ∈ e.program.globals) (hnew : r ∉ H.globals) {v : Val}
    {ws : List UInt64} {c : Context} {s : Plain.Store} (hs : s.globals = σ.store.globals)
    (hc : c.Reflects e.literals.toArray s (.reg r.ty v ws :: H.items δ σ)) :
    Entering e { H with globals := r :: H.globals }
      { δ with context := c, globals := fun u => if u = r then ws else δ.globals u }
      ⟨{ s with globals := fun u => if u = r then v else s.globals u }, σ.frame, σ.below⟩ := by
  obtain ⟨δ', hδ⟩ : ∃ δ' : Store,
    δ' = { δ with context := c, globals := fun u => if u = r then ws else δ.globals u } := ⟨_, rfl⟩
  obtain ⟨σ', hσ⟩ : ∃ σ' : Plain.State,
    σ' = ⟨{ s with globals := fun u => if u = r then v else s.globals u }, σ.frame, σ.below⟩ := ⟨_, rfl⟩
  rw [← hδ, ← hσ]
  have hitem : Item.ofGlobal δ'.globals σ'.store.globals r = .reg r.ty v ws := by
    rw [Item.ofGlobal, hδ, hσ]
    simp
  have hglobals : H.globals.map (Item.ofGlobal δ'.globals σ'.store.globals)
      = H.globals.map (.ofGlobal δ.globals σ.store.globals) :=
    List.map_congr_left fun u hu => by
      have hne : u ≠ r := fun e => hnew (e ▸ hu)
      rw [hδ, hσ]
      simp only [Item.ofGlobal, if_neg hne, hs]
  have hlocals : H.locals.map (localItem δ' σ') = H.locals.map (localItem δ σ) := by
    rw [hδ, hσ]
    rfl
  refine ⟨⟨E.within.locals, List.forall_mem_cons.2 ⟨hr, E.within.globals⟩, E.within.nodup.1,
    List.nodup_cons.2 ⟨hnew, E.within.nodup.2⟩⟩,
    ⟨?_, fun u hu hl => ?_, ?_⟩, fun u hu hnot => ?_, fun g hg hnot => E.globals g hg fun h => hnot (.tail _ h)⟩
  · have hitems : ({ H with globals := r :: H.globals } : Holdings).items δ' σ'
        = .null :: (H.locals.map (localItem δ σ) ++ .reg r.ty v ws :: (H.globals.map
            (.ofGlobal δ.globals σ.store.globals) ++ H.others)) := by
      simp only [Holdings.items, List.map_cons, hitem, hlocals, hglobals, List.cons_append]
    rw [List.nil_append, hitems, hδ, hσ]
    have hperm := hc.perm ((List.perm_middle.cons .null).trans (.swap ..))
    exact ⟨hperm.records, hperm.backs⟩
  · have hsame : localItem δ' σ' u = localItem δ σ u := by
      rw [hδ, hσ]
      rfl
    rw [hsame]
    exact E.reflects.literal u hu hl
  · rw [hδ]
    exact E.reflects.flow
  · rw [hδ]
    exact E.locals u hu hnot

include hf

omit hf in
theorem freshMaps_globals (rs : List Reg) (s : Plain.Store) (g regs : Reg → Val) :
  Plain.State.freshMaps rs { s with globals := g } regs
    = ({ (Plain.State.freshMaps rs s regs).1 with globals := g }, (Plain.State.freshMaps rs s regs).2) := by
  induction rs generalizing s regs with
  | nil => rfl
  | cons r rs ih =>
    have hzero : ({ s with globals := g } : Plain.Store).zero r.ty = ((s.zero r.ty).1,
        { (s.zero r.ty).2 with globals := g }) := by
      cases r.ty <;> rfl
    have hcons : ∀ s : Plain.Store, Plain.State.freshMaps (r :: rs) s regs
        = Plain.State.freshMaps rs (s.zero r.ty).2 fun u => if u = r then (s.zero r.ty).1 else regs u := fun _ => rfl
    rw [hcons, hcons, hzero]
    exact ih ..

theorem makeGlobals {gs : List Reg} {others : List Item} (E : Entering e H δ σ) (hH : H.others = others)
    (hfew : (e.holdings others).Few) (hgs : ∀ g ∈ gs, g ∈ e.program.globals) (hnodup : gs.Nodup)
    (hnew : ∀ g ∈ gs, g.ty.isMap → g ∉ H.globals) :
    ∃ H' δ', (gs.forM fun g => do
        match g.ty.isMap, e.scope.binding? g with
        | true, some b => write g b (← Direct.zero g.ty)
        | _, _ => return : Direct Unit) e δ = (.ok (), δ')
      ∧ Entering e H' δ' ⟨{ (Plain.State.freshMaps (gs.filter (·.ty.isMap)) σ.store σ.store.globals).1 with
          globals := (Plain.State.freshMaps (gs.filter (·.ty.isMap)) σ.store σ.store.globals).2 }, σ.frame, σ.below⟩
      ∧ H'.others = others ∧ H'.locals = H.locals ∧ H.globals ⊆ H'.globals ∧ ∀ g ∈ gs, g.ty.isMap → g ∈ H'.globals := by
  induction gs generalizing H δ σ with
  | nil => exact ⟨H, δ, rfl, E, hH, rfl, fun _ hu => hu, nofun⟩
  | cons r gs ih =>
    have hr := hgs r (.head _)
    obtain ⟨b, hb, hglobal, -⟩ := hf.binding_global hr
    obtain ⟨hfirst, hrest⟩ := List.nodup_cons.1 hnodup
    by_cases hmap : r.ty.isMap
    · obtain ⟨ws, c, hzero, hc⟩ := E.zero_map (hH ▸ hfew) hmap
      have hgrow := E.grow_global hr (hnew r (.head _) hmap) (by cases r.ty <;> rfl) hc
      obtain ⟨H', δ', hrun, E', hothers, hlocals, hsub, hmade⟩ := ih hgrow hH (fun y hy => hgs y (.tail _ hy)) hrest
        fun y hy hymap hmem => by
          rcases List.mem_cons.1 hmem with heq | hmem
          · exact hfirst (heq ▸ hy)
          · exact hnew y (.tail _ hy) hymap hmem
      refine ⟨H', δ', ?_, ?_, hothers, hlocals, List.Subset.trans (List.subset_cons_self ..) hsub,
        List.forall_mem_cons.2 ⟨fun _ => hsub (.head _), hmade⟩⟩
      · refine (bind_ok (a := ⟨⟩) ?_).trans hrun
        simp only [hmap, hb]
        refine (bind_ok hzero).trans (write_apply.trans ?_)
        simp only [Store.put, hglobal, if_true]
      · have hmaps := freshMaps_globals (gs.filter (·.ty.isMap)) (σ.store.zero r.ty).2
          (fun u => if u = r then (σ.store.zero r.ty).1 else (σ.store.zero r.ty).2.globals u)
          (fun u => if u = r then (σ.store.zero r.ty).1 else (σ.store.zero r.ty).2.globals u)
        have hkept : (σ.store.zero r.ty).2.globals = σ.store.globals := by cases r.ty <;> rfl
        rw [hmaps, hkept] at E'
        rw [List.filter_cons_of_pos (p := fun g : Reg => g.ty.isMap) hmap]
        exact E'
    · obtain ⟨H', δ', hrun, E', hothers, hlocals, hsub, hmade⟩ := ih E hH (fun y hy => hgs y (.tail _ hy)) hrest
        fun y hy => hnew y (.tail _ hy)
      refine ⟨H', δ', ?_, ?_, hothers, hlocals, hsub, List.forall_mem_cons.2 ⟨fun h => absurd h hmap, hmade⟩⟩
      · refine (bind_ok (a := ⟨⟩) ?_).trans hrun
        simp only [Bool.eq_false_iff.2 hmap]
        rfl
      · rw [List.filter_cons_of_neg (p := fun g : Reg => g.ty.isMap) hmap]
        exact E'

end Entering

theorem blank_stands_global {L : Array Bytes} {g : Reg} (hg : g ∈ e.program.globals) (hmap : g.ty.isMap = false) :
    (Item.ofGlobal blank Plain.State.initial g).handle = 0 ∧ ∀ Γ,
    (Item.ofGlobal blank Plain.State.initial g).Stands L Γ := by
  obtain ⟨hvalid, hn, hiter⟩ := hf.storable_global hg
  have hlocal := blank_stands (L := L) hvalid hn hmap
  rwa [Item.ofLocal_of_not_iter (by cases hty : g.ty <;> first | rfl | exact absurd hty (hiter _))] at hlocal

theorem enter_main {c : Context} {s : Plain.Store} (dst : Reg) (i : Nat) (hmain : e.scope.isMain = true)
    (hparams : e.scope.func.params = []) (hfew : (e.holdings []).Few) (hs : s.globals = Plain.State.initial)
    (hc : c.Reflects e.literals.toArray s []) :
    ∃ δ, Direct.enter [] e
        { context := c, globals := blank, locals := blank, keys := fun _ => 0, position := fun _ => 0 } = (.ok (), δ)
      ∧ ∀ store frame, Plain.State.enter e.program e.scope.func i [] dst s = (store, frame) →
        Reflects e (e.holdings []) [] δ
          ⟨{ (Plain.State.freshMaps (e.program.globals.filter (·.ty.isMap)) store store.globals).1 with
          globals := (Plain.State.freshMaps (e.program.globals.filter (·.ty.isMap)) store store.globals).2 },
              frame, []⟩ := by
  have hblank : ∀ g ∈ e.program.globals.filter (!·.ty.isMap), (Item.ofGlobal blank s.globals g).handle = 0
      ∧ ∀ Γ, (Item.ofGlobal blank s.globals g).Stands e.literals.toArray Γ := fun g hg => by
    obtain ⟨hg, hmap⟩ := List.mem_filter.1 hg
    exact hs ▸ blank_stands_global hf hg (by simpa using hmap)
  have hmissing : ∀ g ∈ e.program.globals, g ∉ e.program.globals.filter (!·.ty.isMap) → g.ty.isMap :=
      fun g hg hnot => by
    by_contra hmap
    exact hnot (List.mem_filter.2 ⟨hg, by simpa using hmap⟩)
  obtain ⟨H, δ, hrun, E, hothers, hglobals, hmaps⟩ := enter_locals (l := []) hf i dst [] hfew
    (fun _ hg => (List.mem_filter.1 hg).1) (hf.globals.filter _) hmissing (hparams ▸ .nil)
    (hc.append (List.forall_mem_map.2 hblank))
  obtain ⟨H', δ', hmake, E', hothers', hlocals', hsub, hmade⟩ :=
    E.makeGlobals hf hothers hfew (fun _ hg => hg) hf.globals
    fun g hg hmap hmem => by simp [hglobals, hmap] at hmem
  refine ⟨δ', (enter_eq hrun).trans ?_, ?_⟩
  · rw [hmain, if_pos rfl, hf.scope]
    rw [hf.scope] at hmake
    exact hmake
  · intro store frame henter
    have h := E'.complete hf (fun r hr hmap => hlocals' ▸ hmaps r hr hmap) hmade
    rw [hothers'] at h
    have hboth : Plain.State.enter e.program e.scope.func i (List.map (·.1) ([] : List (Val × List UInt64))) dst s
      = (store, frame) := henter
    rw [hboth] at h
    exact h

end Direct

end RecordMill

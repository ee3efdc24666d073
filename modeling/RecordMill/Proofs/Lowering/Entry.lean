import Mathlib.Data.List.Basic
import RecordMill.Proofs.Lowering.Blocks

/-!
# Functions are lowered

The entry of a function declares its variables one after another and makes the blocks of its labels; with
it a whole function is lowered to a body that compiles.
-/

namespace RecordMill

open Machine (Kind Value VarId BlockId Block Body FuncDraft Build Action Callee Signature)

namespace Machine.Build

variable {d : FuncDraft}

theorem declareVar_eq {v : VarId} {k : Kind} (hv : d.body.vars.size = v) :
    declareVar v k d = (.ok (), { d with body := { d.body with vars := d.body.vars.push k } }) := by
  subst hv
  have hgrown : d.body.vars ++ Array.replicate (d.body.vars.size + 1 - d.body.vars.size) Kind.invalid
      = d.body.vars.push .invalid := by
    rw [Nat.add_sub_cancel_left]
    rfl
  have hset : (d.body.vars.push Kind.invalid).setIfInBounds d.body.vars.size k = d.body.vars.push k := by
    refine Array.ext (by simp) fun i h₁ h₂ => ?_
    grind
  have hgrow : modifyBody (fun f =>
    { f with vars := f.vars ++ Array.replicate (d.body.vars.size + 1 - f.vars.size) .invalid }) d
      = (.ok (), { d with body := { d.body with vars := d.body.vars.push .invalid } }) := by
    rw [← hgrown]
    rfl
  rw [declareVar, bind_of_ok hgrow, get_bind, if_neg (by simp [Array.getD_eq_getD_getElem?]), ← hset]
  rfl

theorem createBlock_eq :
    createBlock d = (.ok d.body.blocks.size, { d with body := { d.body with blocks := d.body.blocks.push {} } }) :=
  rfl

theorem blockParams_eq {b : BlockId} {x : Block} (hb : d.body.blocks[b]? = some x) :
    blockParams b d = (.ok x.params, d) := by
  rw [blockParams, get_bind, hb]
  rfl

theorem blockParam_forIn {ks : List Kind} {vs : List Value} (hb : d.body.blocks = #[{ params := vs }]) :
    (forIn ks PUnit.unit fun k _ => do
      let _ ← blockParam 0 k
      pure (ForInStep.yield PUnit.unit) : Build PUnit) d = (.ok ⟨⟩, { d with body := { d.body with
        values := d.body.values ++ ks.toArray
        blocks := #[{ params := vs ++ List.range' d.body.values.size ks.length }] } }) := by
  induction ks generalizing d vs with
  | nil =>
    simp [← hb]
    rfl
  | cons k ks ih =>
    have hone : blockParam 0 k d = (.ok d.body.values.size, { d with body := { d.body with
        values := d.body.values.push k
        blocks := #[{ params := vs ++ [d.body.values.size] }] } }) := by
      have hnew : newValue k d = (.ok d.body.values.size,
        { d with body := { d.body with values := d.body.values.push k } }) := rfl
      rw [blockParam, bind_of_ok hnew, get_bind, if_pos (by simp [hb])]
      simp only [hb]
      rfl
    rw [List.forIn_cons, bind_of_ok]
    rotate_left
    · rw [bind_of_ok hone]
      rfl
    refine (ih rfl).trans ?_
    simp [List.range'_succ]

theorem functionParams_eq (hb : d.body.blocks = #[{}]) (hv : d.body.values = #[]) :
    functionParams 0 d = (.ok (), { d with body := { d.body with
      values := d.body.sig.params.toArray
      blocks := #[{ params := List.range' 0 d.body.sig.params.length }] } }) := by
  rw [functionParams, get_bind, bind_of_ok (blockParam_forIn (show d.body.blocks = #[{ params := [] }] from hb)), hv]
  simp
  rfl

end Machine.Build

theorem Surroundings.Fit.valid_local {s : Surroundings} (h : s.Fit) {r : Reg}
    (hr : r ∈ s.scope.func.locals s.program.globals) : r.ty.isValid := by
  obtain ⟨hmem, -⟩ := Scope.mem_locals.1 hr
  rcases List.mem_append.1 hmem with hp | hb
  · exact (h.storable_param hp).1
  · obtain ⟨i, hi, hri⟩ := List.mem_flatMap.1 hb
    exact h.valid i hi r (Instr.mem_regs hri)

namespace Native

open Native.Fact (Gives)

variable {s : Surroundings} {V : List Kind} {K L : Fact} {os : List BlockId} {b : BlockId} {p : Progress} {α β : Type}

theorem Passes.read {P : Progress → Prop} {f : Surroundings → Native β} {T : β → Progress → Prop}
    (h : Passes s P (f s) T) :
    Passes s P ((MonadReaderOf.read : Native Surroundings) >>= f) T :=
  ⟨fun hp => h.run hp⟩

theorem Passes.of_eq {o : Build α} {d d' : FuncDraft} {a : α} (h : o d = (.ok a, d')) :
    Passes s (fun p => p.draft = d) (build o) fun r p => r = a ∧ p.draft = d' :=
  of_build fun hp => ⟨a, d', hp ▸ h, rfl, rfl⟩

theorem Passes.of_pure {P : Progress → Prop} {q : Prop} {x : Native α} {Q : α → Progress → Prop}
    (h : q → Passes s P x Q) :
    Passes s (fun p => q ∧ P p) x Q :=
  ⟨fun hp => (h hp.1).run hp.2⟩

/-! ## Variables -/

/-- Lowering is at the entry, and there is no other block yet. -/
structure Early (s : Surroundings) (V : List Kind) (K : Fact) (p : Progress) : Prop extends At s V K [] 0 p where
  single : p.draft.body.blocks.size = 1

theorem Early.weaken (h : Early s V K p) (hL : K.Gives L) : Early s V L p := { h with known := hL.of h.known }

theorem Emits.early {x : Native α} {R : α → Fact} (h : Emits s K x R) :
    Passes s (Early s V K) x fun a => Early s V (K.and (R a)) := by
  refine ⟨fun {p} hp => ?_⟩
  obtain ⟨a, p', hrun, hsteps, hR⟩ := h.run hp.opened hp.known
  have hat : At s V (K.and (R a)) [] 0 p' := hp.steps hsteps ⟨K.mono hsteps.grows hp.known, hR⟩
  refine ⟨a, p', hrun, { hat with single := ?_ }, hsteps.literals⟩
  have hnone : p'.draft.body.blocks[1]? = none := by
    rw [hsteps.others Nat.one_ne_zero, Array.getElem?_eq_none (Nat.le_of_eq hp.single)]
  exact Nat.le_antisymm (Array.getElem?_eq_none_iff.1 hnone) (hp.single ▸ hsteps.grows.blocks_size)

theorem Passes.declareVar {v : VarId} {k : Kind} (hv : V.length = v) (hk : k ≠ .invalid) :
    Passes s (Early s V K) (build (Build.declareVar v k)) fun _ => Early s (V ++ [k]) (K.and (.var v k)) := by
  refine of_build fun {p} hp => ?_
  have hsize : p.draft.body.vars.size = v := by
    rw [← hv, ← hp.vars, Array.length_toList]
  have hgrows : p.draft.body.Grows { p.draft.body with vars := p.draft.body.vars.push k } :=
    { Machine.Body.Grows.refl p.draft.body with
      vars := fun {u j} _ hu => by
        obtain ⟨hlt, -⟩ := Array.getElem?_eq_some_iff.1 hu
        rw [Array.getElem?_push_lt hlt, ← hu, Array.getElem?_eq_getElem hlt] }
  have hleads := hp.sound.leads hgrows rfl fun {c y} hy => .inr ⟨y, hy, rfl⟩
  refine ⟨(), _, Build.declareVar_eq hsize, { hp with
    sound := hleads.sound
    tidy := hp.tidy.of_same hgrows rfl fun {c y} hy => .inr ⟨y, hy, rfl, rfl⟩
    entered := hp.entered.grow hgrows hp.nonempty fun {c y} hy => .inr ⟨y, hy, rfl⟩
    vars := by simp [hp.vars]
    known := ⟨K.mono hgrows hp.known, ?_, hk⟩ }⟩
  rw [← hsize]
  exact Array.getElem?_push_size

theorem Passes.declareWord {v : VarId} (hv : V.length = v) :
    Passes s (Early s V K) (build (Build.declareVar v .i64)) fun _ => Early s (V ++ [.i64]) (K.and (.var v .i64)) :=
  declareVar hv (by simp)

theorem Passes.declareGlobals {gs : List Reg} {n : Nat} (hV : V.length = n + 1)
    (hgs : ∀ (i : Nat) (g : Reg), gs[i]? = some g → s.scope.binding? g = some { var := n + i + 1, isGlobal := true }) :
    Passes s (Early s V K) (gs.forM Native.declareGlobal) fun _ => Early s (V ++ gs.map fun _ => .i64) K := by
  induction gs generalizing n V with
  | nil => exact .pure fun hp => by simpa using hp
  | cons g gs ih =>
    have hone : Passes s (Early s V K) (Native.declareGlobal g) fun _ => Early s (V ++ [.i64]) K := by
      refine read ?_
      rw [hgs 0 g rfl]
      refine (declareWord hV).bind fun _ => (Emits.constWord _).early.bind fun _ => ?_
      exact (Emits.defVar (Gives.left .last) .last).early.weaken fun hp => hp.weaken (.left (.left (.left .refl)))
    refine (hone.bind fun _ => ih (n := n + 1) (by simp [hV]) fun i x hx => ?_).weaken fun hp => by simpa using hp
    rw [hgs (i + 1) x hx, Nat.add_right_comm n 1, Nat.add_assoc n i 1]

theorem Passes.declareLocals {f : Func} {rs : List Reg} {n : Nat} (hV : V.length = n)
    (hb : ∀ r b, (r, b) ∈ (Scope.bindLocals f n rs).1 → ∃ b', s.scope.binding? r = some b' ∧ b'.counted = b.counted)
    (hc : ∀ r c, (r, c) ∈ (Scope.bindLocals f n rs).2 → s.scope.cursor? r = some c)
    (hnone : ∀ r ∈ rs, r.ty.isIter = false → s.scope.cursor? r = none) (hvalid : ∀ r ∈ rs, r.ty.isValid) :
    Passes s (Early s V K) (rs.forM Native.declareLocal) fun _ => Early s (V ++ Scope.localKinds rs) K := by
  induction rs generalizing n V with
  | nil => exact .pure fun hp => by simpa [Scope.localKinds] using hp
  | cons r rs ih =>
    have hnone' := fun x hx => hnone x (.tail _ hx)
    have hvalid' := fun x hx => hvalid x (.tail _ hx)
    rw [Scope.localKinds, ← List.append_assoc]
    cases hi : r.ty.isIter with
    | false =>
      rw [Scope.bindLocals, hi] at hb hc
      have hone : Passes s (Early s V K) (Native.declareLocal r) fun _ => Early s (V ++ [r.ty.words]) K := by
        refine scope ?_
        obtain ⟨⟨v, isGlobal, isLiteral⟩, hbinding, heq⟩ := hb r _ (.head _)
        cases heq
        rw [hnone r (.head _) hi, hbinding]
        have hkind : Native.kindOf r.ty = (Pure.pure r.ty.words : Native Kind) := by
          unfold Native.kindOf
          rw [Ty.kind_words (hvalid r (.head _)) hi]
        dsimp only
        rw [hkind, pure_bind]
        exact (declareVar hV (Scope.words_ne_invalid _)).weaken fun hp => hp.weaken (.left .refl)
      exact hone.bind fun _ => ih (by simp [hV]) (fun x b hx => hb x b (.tail _ hx)) hc hnone' hvalid'
    | true =>
      rw [Scope.bindLocals, hi] at hb hc
      have hone : Passes s (Early s V K) (Native.declareLocal r) fun _ => Early s (V ++ [.i64, .i64]) K := by
        refine scope ?_
        rw [hc r _ (.head _)]
        refine (declareWord hV).bind fun _ => (declareWord (by simp [hV])).weaken fun hp => ?_
        simpa using hp.weaken (.left (.left .refl))
      exact hone.bind fun _ => ih (by simp [hV]) hb (fun x c hx => hc x c (.tail _ hx)) hnone' hvalid'

/-! ## Blocks of labels -/

theorem At.congr {os' : List BlockId} (h : At s V K os b p) (hos : ∀ c, c ∈ os' ↔ c ∈ os) : At s V K os' b p :=
  { h.toStands.congr fun c => by simp only [List.mem_cons, hos] with
    current := h.current
    apart := fun hb => h.apart ((hos b).1 hb)
    hollow := fun c hc => h.hollow c ((hos c).1 hc) }

theorem Passes.createBlocks {xs : List β} {m : Nat} :
    Passes s (fun p => At s V K os b p ∧ p.draft.body.blocks.size = m)
      (xs.forM fun _ => do let _ ← build Build.createBlock)
      fun _ p => At s V K (os ++ List.range' m xs.length) b p ∧ p.draft.body.blocks.size = m + xs.length := by
  induction xs generalizing m os with
  | nil => exact .pure fun hp => by simpa using hp
  | cons x xs ih =>
    refine bind (Q := fun _ p => At s V K (os ++ [m]) b p ∧ p.draft.body.blocks.size = m + 1) ?_ fun _ => ih.weaken ?_
    · refine bind (Q := fun _ p => At s V K (os ++ [m]) b p ∧ p.draft.body.blocks.size = m + 1) ?_ fun _ => .pure id
      refine of_build fun {p} hp => ⟨_, _, rfl, (hp.1.created.weaken (.left .refl)).congr fun c => ?_, ?_⟩
      · simp [hp.2, or_comm]
      · simp [hp.2]
    · rintro _ p ⟨hp, hsize⟩
      refine ⟨?_, by rw [hsize, List.length_cons, Nat.add_assoc, Nat.add_comm 1]⟩
      simpa [List.range'_succ] using hp

/-! ## The entry -/

theorem Emits.bindParams (hs : s.Apt) (hK : K.Gives (.vars s)) {rs : List Reg} {vs : List Value}
    (hrs : ∀ r ∈ rs, s.Usable r) (hvs : K.Gives (.kinds vs (rs.map (·.ty.words)))) :
    Emits s K (Native.bindParams rs vs) fun _ => .nothing := by
  induction rs generalizing K vs with
  | nil => exact .pure .nothing
  | cons r rs ih =>
    cases vs with
    | nil => exact .pure .nothing
    | cons v vs =>
      refine .bind (bindReg hs hK (hrs r (.head _)) hvs.kinds_head) fun _ => ?_
      exact ih hK.left (fun x hx => hrs x (.tail _ hx)) hvs.kinds_tail.left

section

variable (h : s.Fit)

include h

theorem Emits.makeMaps (hK : K.Gives (.vars s)) : Emits s K (do
    s.scope.locals.forM fun (r, b) => do
      if r.ty.isMap && !s.scope.func.params.contains r then build (Build.defVar b.var (← Native.zero r.ty))
    if s.scope.isMain then
      s.program.globals.forM fun g => do
        match g.ty.isMap, s.scope.binding? g with
        | true, some b =>
          let m ← Native.zero g.ty
          build (Build.store m (← build (Build.useVar b.var)) 0)
        | _, _ => return) fun _ => .nothing := by
  refine .bind (.forM fun x hx => ?_) fun _ => ?_
  · obtain ⟨r, b⟩ := x
    show Emits s K (if r.ty.isMap && !s.scope.func.params.contains r then _ else _) _
    split
    · exact .bind (.zero h.apt hK _) fun _ => .defVar (var_of_local h hK hx).left .last
    · exact .pure .nothing
  · split
    · refine .forM fun g hg => ?_
      obtain ⟨b, hb, hvar⟩ := pointer_of_global h hK.left hg
      rw [hb]
      split
      · next e =>
        cases e
        exact .bind (.zero h.apt hK.left _) fun _ => .bind (.useVar hvar.left) fun _ =>
          .store 0 (Gives.left .last) .last
      · exact .pure .nothing
    · exact .pure .nothing

theorem pending_body : pending s s.scope.func.body = List.range' 1 s.scope.func.labels.length := by
  show s.scope.func.labels.map s.scope.block = _
  refine List.ext_getElem (by simp) fun i h₁ h₂ => ?_
  obtain ⟨l, hl⟩ : ∃ l, s.scope.func.labels[i]? = some l := ⟨_, List.getElem?_eq_getElem (by simpa using h₁)⟩
  have hblock : s.scope.block l = i + 1 := by
    rw [h.scope.block]
    exact Scope.block_eq h.labels hl
  simp [(List.getElem?_eq_some_iff.1 hl).2, hblock, Nat.add_comm]

omit h in
theorem early_of_entry {name : Bytes} (hp : p.draft =
    { body :=
        { name, sig := s.scope.func.sig, values := s.scope.func.sig.params.toArray
          blocks := #[{ params := List.range' 0 s.scope.func.sig.params.length }] }
      current := some 0 }) :
    Early s [] (.kinds (List.range' 0 s.scope.func.sig.params.length) s.scope.func.sig.params) p := by
  obtain ⟨d, ls⟩ := p
  obtain rfl : d = _ := hp
  have hkinds : (List.range' 0 s.scope.func.sig.params.length).map (s.scope.func.sig.params.toArray[·]?)
      = s.scope.func.sig.params.map some := by
    refine List.ext_getElem (by simp) fun i h₁ h₂ => ?_
    simp only [List.length_map] at h₂
    simp [h₂]
  have hone : ∀ {c : Nat} {x : Block},
    (#[{ params := List.range' 0 s.scope.func.sig.params.length }] : Array Block)[c]? = some x →
      c = 0 ∧ x = { params := List.range' 0 s.scope.func.sig.params.length } := by
    intro c x hx
    have hc : c < 1 := (Array.getElem?_eq_some_iff.1 hx).1
    obtain rfl : c = 0 := Nat.lt_one_iff.1 hc
    exact ⟨rfl, (Option.some.inj hx).symm⟩
  exact {
    sound := ⟨⟨by simp, fun hx i hi => by simp [(hone hx).2] at hi⟩, fun e => by cases e; simp⟩
    tidy := ⟨by simp, fun hx i hi => by simp [Body.instsOf] at hi, fun hx => by simp [(hone hx).2, Body.instsOf]⟩
    callees := by simp
    entered := ⟨hkinds, fun hc hx => absurd (hone hx).1 (Nat.ne_of_gt hc)⟩
    nonempty := Nat.one_pos
    opens := fun hx => by simp [hone hx]
    listed := by simp
    sig := rfl
    vars := rfl
    known := hkinds
    current := rfl
    apart := by simp
    hollow := by simp [Hollow]
    single := rfl }

/-- The entry of a function declares all its variables and makes the blocks of its labels. -/
theorem Passes.enter {name : Bytes} :
    Passes s (fun p => p.draft = { body := { name, sig := s.scope.func.sig } }) Native.enter
    fun _ p => At s (Scope.varKinds s.program.globals (s.scope.func.locals s.program.globals))
      ((Fact.vars s).and (.labels s)) (pending s s.scope.func.body) 0 p := by
  refine scope ((of_eq Build.createBlock_eq).bind fun entry => of_pure ?_)
  rintro rfl
  refine (of_eq (Build.functionParams_eq rfl rfl)).bind fun _ => of_pure fun _ => ?_
  refine (of_eq (Build.switchTo_eq Nat.one_pos)).bind fun _ => of_pure fun _ => ?_
  refine (of_eq (Build.blockParams_eq rfl)).bind fun params => of_pure ?_
  rintro rfl
  refine ((declareWord rfl).of_imp early_of_entry).bind fun _ => ?_
  have hparams : List.range' 0 s.scope.func.sig.params.length = 0 :: List.range' 1 s.scope.func.params.length := by
    simp [Func.sig, List.range'_succ]
  rw [hparams]
  have hkinds : (Fact.kinds (0 :: List.range' 1 s.scope.func.params.length) s.scope.func.sig.params).Gives
      (.kinds (0 :: List.range' 1 s.scope.func.params.length) (.i64 :: s.scope.func.params.map (·.ty.words))) := .refl
  refine (Emits.defVar .last hkinds.kinds_head.left).early.bind fun _ => ?_
  rw [h.globals_eq]
  refine (declareGlobals (n := 0) rfl fun i g hg => by simpa using h.global_binding hg).bind fun _ => ?_
  refine (declareLocals (f := s.scope.func) (n := s.program.globals.length + 1) (by simp) ?_ ?_ ?_ fun r hr =>
    h.valid_local hr).bind fun _ => ?_
  · exact fun r b hb => h.binding_of_ofFunc (List.mem_append_right _ hb)
  · intro r c hc
    refine h.cursor_of_mem ?_
    rw [h.scope.cursors]
    exact hc
  · exact fun r _ hi => h.cursor_eq_none hi
  refine ((createBlocks (m := 1)).of_imp fun hp => ⟨hp.toAt, hp.single⟩).bind fun _ => ?_
  have hstart : ∀ {K : Fact} {p : Progress}, At s (([] ++ [Kind.i64] ++ s.program.globals.map fun _ => .i64)
      ++ Scope.localKinds (s.scope.func.locals s.program.globals)) K ([] ++ List.range' 1 s.scope.labels.length) 0 p
      ∧ p.draft.body.blocks.size = 1 + s.scope.labels.length →
      At s (Scope.varKinds s.program.globals (s.scope.func.locals s.program.globals))
        (((Fact.vars s).and (.labels s)).and K) (pending s s.scope.func.body) 0 p := by
    rintro K p ⟨hat, hsize⟩
    have hlabels : s.scope.labels.length = s.scope.func.labels.length := by
      rw [h.scope.labels]
      simp [Scope.ofFunc]
    rw [pending_body h, ← hlabels]
    refine { hat with known := ⟨⟨fun {pl v} hv => ?_, fun l hl => ?_⟩, hat.known⟩ }
    · have hvar := h.vars hv
      rw [← Array.getElem?_toList, hat.vars]
      exact hvar
    · have hbounds : 0 < s.scope.block l ∧ s.scope.block l ≤ s.scope.func.labels.length := by
        rw [h.scope.block]
        exact Scope.block_bounds h.labels hl
      refine ⟨hbounds.1, ?_⟩
      rw [hsize, hlabels, Nat.add_comm]
      exact Nat.lt_succ_of_le hbounds.2
  refine ((Emits.bindParams h.apt (Gives.fst (.fst .refl)) (fun r hr =>
    h.usable_param hr) ?_).passes.of_imp hstart).bind fun _ => ?_
  · exact (Gives.last.fst.fst.trans hkinds).kinds_tail
  · exact (Emits.makeMaps h (Gives.fst (.fst (.fst .refl)))).passes.weaken fun hp =>
      hp.weaken (.fst (.fst (.fst .refl)))

end

theorem Stands.whole (h : Stands s V K [] p) : p.draft.body.Whole where
  wellFormed := h.sound.body
  tidy := h.tidy
  entered := h.entered
  nonempty := h.nonempty
  terminated hx := by simpa using h.opens hx

end Native

namespace Declared

variable {s : Surroundings} {P : Progress → Prop} {x : Native Unit} {Q : Unit → Progress → Prop} {p : Progress}

theorem advance_of_passes (h : Native.Passes s P x Q) (hp : P p) (index : Int) :
    ∃ p', advance s index x p = .ok p' ∧ Q () p' := by
  obtain ⟨_, p', hrun, hQ, -⟩ := h.run hp
  refine ⟨p', ?_, hQ⟩
  rw [advance, hrun]

theorem lowerFunc_cases {d : Declared} {n : Nat} {f : Func} (h : (d.surroundings n f).Fit) (literals : List Bytes) :
    (∀ i ∈ f.body, i.unknown? = none)
        ∧ (∃ p, d.lowerFunc n f literals = .ok p ∧ p.draft.body.Whole ∧ p.draft.body.sig = f.sig)
      ∨ ∃ (j : Nat) (i : Instr) (op : ValueOp), f.body[j]? = some i ∧ i.unknown? = some op
        ∧ d.lowerFunc n f literals = .error (.lowering f.name j (.unsupported op)) := by
  have hstart : start f literals = .ok { draft := { body := { name := f.name, sig := f.sig } }, literals } := by
    have hsig : f.signature = .ok f.sig := Func.signature_of_check h.passes
    rw [start, hsig]
    rfl
  obtain ⟨p, henter, hat⟩ :=
    advance_of_passes (.enter h) (p := { draft := { body := { name := f.name, sig := f.sig } }, literals })
    rfl (-1)
  have hnew : (Native.pending (d.surroundings n f) f.body).Nodup := by
    rw [show f.body = (d.surroundings n f).scope.func.body from rfl, Native.pending_body h]
    exact List.nodup_range'
  have hlower : d.lowerFunc n f literals = (do
      let p ← lowerAll (d.surroundings n f) 0 f.body p
      advance (d.surroundings n f) (-1) Native.finish p) := by
    rw [lowerFunc, enter]
    show (kindOf (start f literals) >>= _) >>= _ = _
    rw [hstart]
    show (advance (d.surroundings n f) (-1) Native.enter _ >>= _) = _
    rw [henter]
    rfl
  rw [hlower]
  rcases Native.lowerAll_cases h (.fst .refl) .last hat (fun i hi => hi) hnew
    (n := 0) with ⟨hall, p', c, hbody, hat'⟩ | ⟨j, i, op, hi, hop, herr⟩
  · obtain ⟨q, hfinish, hstands⟩ := advance_of_passes (.finish h (.fst .refl)) hat' (-1)
    refine .inl ⟨hall, q, ?_, hstands.whole, hstands.sig⟩
    refine (congrArg (· >>= _) hbody).trans ?_
    exact hfinish
  · refine .inr ⟨j, i, op, hi, hop, ?_⟩
    rw [Nat.zero_add] at herr
    exact congrArg (· >>= _) herr

end Declared

end RecordMill

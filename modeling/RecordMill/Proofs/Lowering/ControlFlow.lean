import RecordMill.Proofs.Lowering.Plan
import RecordMill.Proofs.Lowering.Totality
import RecordMill.Proofs.Machine.BlockFlow

/-!
# Control flow of compiled functions

Every label has a block of its own, and there is a new one behind every jump, branch and return. What comes after
a jump or a return and before the next label is lowered into blocks to which only such code leads.
-/

namespace RecordMill

open Machine (BlockId Block Body FuncDraft Action Inst Compiled Instance)

/-! ## Instructions that are skipped -/

namespace Func

/-- There is a jump or a return before the instruction, and no label between the two. -/
def Skips (f : Func) (k : Nat) : Prop :=
  ∃ j i, j < k ∧ f.body[j]? = some i ∧ i.isEnd = true ∧ ∀ n l, j < n → n < k → f.body[n]? ≠ some (.label l)

variable {f : Func} {k : Nat} {i : Instr}

theorem not_skips_zero : ¬f.Skips 0 := by
  rintro ⟨j, i, hlt, -⟩
  exact Nat.not_lt_zero j hlt

theorem skips_succ (hi : f.body[k]? = some i) : f.Skips (k + 1) ↔ i.isEnd = true ∨ (f.Skips k ∧ ∀ l, i ≠ .label l) := by
  constructor
  · rintro ⟨j, x, hlt, hx, hend, hno⟩
    rcases Nat.eq_or_lt_of_le (Nat.le_of_lt_succ hlt) with rfl | hjk
    · obtain rfl : i = x := Option.some.inj (hi.symm.trans hx)
      exact .inl hend
    · exact .inr ⟨⟨j, x, hjk, hx, hend, fun n l hn hk => hno n l hn (Nat.lt_succ_of_lt hk)⟩,
        fun l e => hno k l hjk (Nat.lt_succ_self k) (e ▸ hi)⟩
  · rintro (hend | ⟨⟨j, x, hlt, hx, hend, hno⟩, hlabel⟩)
    · exact ⟨k, i, Nat.lt_succ_self k, hi, hend, fun n l hn hk => absurd hk (by omega)⟩
    · refine ⟨j, x, Nat.lt_succ_of_lt hlt, hx, hend, fun n l hn hk => ?_⟩
      rcases Nat.eq_or_lt_of_le (Nat.le_of_lt_succ hk) with rfl | hlt
      · rw [hi]
        exact fun e => hlabel l (Option.some.inj e)
      · exact hno n l hn hlt

theorem skips_length (h : ∃ last, f.body.getLast? = some last ∧ last.isEnd) : f.Skips f.body.length := by
  obtain ⟨last, hlast, hend⟩ := h
  rw [List.getLast?_eq_getElem?] at hlast
  have hlt := (List.getElem?_eq_some_iff.1 hlast).1
  exact ⟨_, last, by omega, hlast, hend, fun n l hn hk => by omega⟩

end Func

/-! ## Where blocks lead -/

namespace Native

open Native.Fact (Gives)

variable {s : Surroundings} {V : List Machine.Kind} {K : Fact} {os : List BlockId} {b c t : BlockId} {p p' : Progress}

theorem Stands.exits_of_open (h : Stands s V K os p) (hc : c ∈ os) : p.draft.body.exits c = [] := by
  have hx := Array.getElem?_eq_getElem (h.listed c hc)
  rw [Body.exits, Body.code_of_block hx, List.flatMap_eq_nil_iff]
  exact fun i hi => Action.targets_of_not_terminator (h.tidy.open_straight hx ((h.opens hx).2 hc) i hi)

theorem exits_congr {f g : Body} (hg : f.Grows g) (hf : f.WellFormed) (h : g.blocks[c]? = f.blocks[c]?) :
    g.exits c = f.exits c := by
  simp only [Body.exits, Body.code, Array.getD_eq_getD_getElem?, h]
  cases hx : f.blocks[c]? with
  | none => rfl
  | some x => rw [Option.getD_some, hg.instsOf hf hx]

/-- Of the blocks only `b` leads to more than before: to the blocks `ts`. -/
structure Turns (b : BlockId) (ts : List BlockId) (p p' : Progress) : Prop where
  grows : p.draft.body.Grows p'.draft.body
  here : p'.draft.body.exits b = p.draft.body.exits b ++ ts
  others : ∀ {c : BlockId}, c ≠ b → p'.draft.body.exits c = p.draft.body.exits c

theorem Turns.of_steps (h : At s V K os b p) (hs : Steps s b p p') : Turns b [] p p' where
  grows := hs.grows
  here := by
    rw [(h.steps hs (L := .nothing) trivial).exits_of_open (.head _), h.exits_of_open (.head _), List.append_nil]
  others hc := exits_congr hs.grows h.sound.body (hs.others hc)

/-- The end of a block leads to its targets, and the block where lowering goes on leads nowhere yet. -/
theorem Turns.of_ends {a : Action} (hp : p.draft.Sound) (h : p.draft.Ends b a t p'.draft) : Turns b a.targets p p' where
  grows := h.grows
  here := by rw [Body.exits, h.code, List.flatMap_append, List.flatMap_singleton, Body.exits]
  others {c} hc := by
    by_cases ht : c = t
    · subst ht
      have hcode := h.grows.code hp.body c
      rw [h.empty, List.prefix_nil] at hcode
      rw [Body.exits, Body.exits, h.empty, hcode]
    · exact exits_congr h.grows hp.body (h.others hc ht)

theorem Turns.after {q : Progress} {ts : List BlockId} (h : Turns b [] p q) (h' : Turns b ts q p') :
    Turns b ts p p' where
  grows := h.grows.trans h'.grows
  here := by rw [h'.here, h.here, List.append_nil]
  others hc := (h'.others hc).trans (h.others hc)

theorem Emits.results (h : s.Fit) (hK : K.Gives (.vars s)) {src : Reg} (hsrc : s.Usable src)
    (hty : src.ty = .null ∨ src.ty = s.scope.func.ret) :
    Emits s K (Native.results src) fun vs => .kinds vs s.scope.func.sig.returns := by
  have hrest : ∀ {L : Fact} {vs : List Machine.Value}, L.Gives K → L.Gives (.kinds vs s.scope.func.sig.returns) →
      Emits s L (Native.release >>= fun _ => Pure.pure vs) fun vs => .kinds vs s.scope.func.sig.returns :=
    fun hL hvs => bind (Emits.release h (hL.trans hK)) fun _ => pure hvs.left
  refine Emits.scope ?_
  by_cases hnull : s.scope.func.ret = .null
  · simp only [hnull, if_true, pure_bind]
    refine hrest .refl ?_
    rw [Func.sig, if_pos hnull]
    exact .kinds_nil
  · have hreturns : s.scope.func.sig.returns = [s.scope.func.ret.words] := if_neg hnull
    simp only [hnull, if_false, pure_bind]
    split
    · refine bind (Emits.zero h.apt hK _) fun _ => hrest (.left .refl) ?_
      rw [hreturns]
      exact Gives.last.kinds_one
    · next hsome =>
      have hret : src.ty = s.scope.func.ret := hty.resolve_left fun e => hsome (by simp [Reg.isNull, e])
      rw [← hret]
      refine bind (Emits.value hK hsrc) fun _ => bind (Emits.ref h.apt hK.left .last) fun _ =>
        hrest (.left (.left .refl)) ?_
      rw [hreturns, ← hret]
      exact Gives.last.left.kinds_one

end Native

/-! ## From stage to stage -/

namespace Surroundings

open Native (At Turns)

variable {s : Surroundings} {p : Progress} {k : Nat} {b t : BlockId} {i : Instr}

/-- Where lowering goes on after an instruction in block `b`, when there were `n` blocks, and where `b` leads then. -/
inductive Flow (s : Surroundings) (b : BlockId) (n : Nat) : Instr → BlockId → List BlockId → Prop
  | stays {i : Instr} : i.isControl = false → Flow s b n i b []
  | label (l : Label) : Flow s b n (.label l) (s.scope.block l) [s.scope.block l]
  | jmp {t : BlockId} (l : Label) : n ≤ t → Flow s b n (.jmp l) t [s.scope.block l]
  | jmpIf {t : BlockId} (c : Reg) (l : Label) : n ≤ t → Flow s b n (.jmpIf c l) t [s.scope.block l, t]
  | ret {t : BlockId} (src : Reg) : n ≤ t → Flow s b n (.ret src) t []

theorem Before.fresh {p' : Progress} (hb : s.Before k b p) (ht : s.Before (k + 1) t p')
    (hgrows : p.draft.body.Grows p'.draft.body) (hi : s.scope.func.body[k]? = some i) (hno : ∀ l, i ≠ .label l)
    (hne : t ≠ b) : p.draft.body.blocks.size ≤ t := by
  by_contra hlt
  obtain ⟨V, hat⟩ := hb
  obtain ⟨W, hat'⟩ := ht
  have hpending : Native.pending s (s.scope.func.body.drop k) = Native.pending s (s.scope.func.body.drop (k + 1)) := by
    obtain ⟨hk, rfl⟩ := List.getElem?_eq_some_iff.1 hi
    rw [List.drop_eq_getElem_cons hk]
    exact Native.pending_cons hno
  obtain ⟨x, hx⟩ : ∃ x, p.draft.body.blocks[t]? = some x := ⟨_, Array.getElem?_eq_getElem (Nat.lt_of_not_le hlt)⟩
  obtain ⟨y, hy, -, -, hended⟩ := hgrows.blocks hx
  have hopen := (hat'.opens hy).2 (.head _)
  cases hterm : x.terminated with
  | true => simp [(hended hterm).2] at hopen
  | false =>
    rcases List.mem_cons.1 ((hat.opens hx).1 hterm) with rfl | hmem
    · exact hne rfl
    · exact hat'.apart (hpending ▸ hmem)

/-- Lowering stands at some block before an instruction that is skipped, up to the one with index `k`. -/
def Dead (s : Surroundings) (p : Progress) (k : Nat) (c : BlockId) : Prop :=
  ∃ j ≤ k, s.scope.func.Skips j ∧ (s.stage p j).draft.current = some c

theorem dead_succ {c : BlockId} : s.Dead p (k + 1) c
    ↔ s.Dead p k c ∨ (s.scope.func.Skips (k + 1) ∧ (s.stage p (k + 1)).draft.current = some c) := by
  constructor
  · rintro ⟨j, hj, hskips, hcur⟩
    rcases Nat.eq_or_lt_of_le hj with rfl | hlt
    · exact .inr ⟨hskips, hcur⟩
    · exact .inl ⟨j, Nat.le_of_lt_succ hlt, hskips, hcur⟩
  · rintro (⟨j, hj, hskips, hcur⟩ | ⟨hskips, hcur⟩)
    · exact ⟨j, Nat.le_succ_of_le hj, hskips, hcur⟩
    · exact ⟨k + 1, Nat.le_refl _, hskips, hcur⟩

/-- Dead blocks were made for it, live ones do not lead to them, and lowering is at one only before what is skipped. -/
structure Sealed (s : Surroundings) (p : Progress) (k : Nat) : Prop where
  apart : ∀ {c : BlockId}, s.Dead p k c → 0 < c ∧ c < (s.stage p k).draft.body.blocks.size
    ∧ ∀ l ∈ s.scope.func.labels, c ≠ s.scope.block l
  closed : ∀ {c t : BlockId}, ¬s.Dead p k c → t ∈ (s.stage p k).draft.body.exits c → ¬s.Dead p k t
  here : ∀ {b : BlockId}, ¬s.scope.func.Skips k → (s.stage p k).draft.current = some b → ¬s.Dead p k b

section

variable {ts : List BlockId} (h : s.Sealed p k) (hturns : Turns b ts (s.stage p k) (s.stage p (k + 1)))

include h hturns

theorem Sealed.same (hdead : ∀ {c}, s.Dead p (k + 1) c → s.Dead p k c) (hts : ¬s.Dead p k b → ∀ u ∈ ts, ¬s.Dead p k u)
    (hhere : ¬s.scope.func.Skips (k + 1) → ∀ {c}, (s.stage p (k + 1)).draft.current = some c → ¬s.Dead p k c) :
    s.Sealed p (k + 1) where
  apart hc := by
    obtain ⟨hpos, hlt, hlabels⟩ := h.apart (hdead hc)
    exact ⟨hpos, Nat.lt_of_lt_of_le hlt hturns.grows.blocks_size, hlabels⟩
  closed {c u} hc hu hdeadu := by
    have hlive : ¬s.Dead p k c := fun e => hc (dead_succ.2 (.inl e))
    by_cases hcb : c = b
    · subst hcb
      rw [hturns.here] at hu
      rcases List.mem_append.1 hu with hu | hu
      · exact h.closed hlive hu (hdead hdeadu)
      · exact hts hlive u hu (hdead hdeadu)
    · rw [hturns.others hcb] at hu
      exact h.closed hlive hu (hdead hdeadu)
  here hskips hcur e := hhere hskips hcur (hdead e)

theorem Sealed.more (hb : s.Before k b (s.stage p k)) (ht : s.Before (k + 1) t (s.stage p (k + 1)))
    (hskips : s.scope.func.Skips (k + 1)) (hnew : (s.stage p k).draft.body.blocks.size ≤ t)
    (hts : ¬s.Dead p k b → ∀ u ∈ ts, ¬s.Dead p k u ∧ u ≠ t) : s.Sealed p (k + 1) := by
  obtain ⟨V, hat⟩ := hb
  obtain ⟨W, hat'⟩ := ht
  have hlabels := hat.known.2
  have hdead : ∀ {c}, s.Dead p (k + 1) c → s.Dead p k c ∨ c = t := by
    intro c hc
    rcases dead_succ.1 hc with hc | ⟨-, hcur⟩
    · exact .inl hc
    · exact .inr (Option.some.inj (hcur.symm.trans hat'.current))
  refine ⟨fun {c} hc => ?_, fun {c u} hc hu hdeadu => ?_, fun hno => absurd hskips hno⟩
  · rcases hdead hc with hc | rfl
    · obtain ⟨hpos, hlt, hne⟩ := h.apart hc
      exact ⟨hpos, Nat.lt_of_lt_of_le hlt hturns.grows.blocks_size, hne⟩
    · refine ⟨Nat.lt_of_lt_of_le hat.nonempty hnew, hat'.listed c (.head _), fun l hl => ?_⟩
      exact Nat.ne_of_gt (Nat.lt_of_lt_of_le (hlabels l hl).2 hnew)
  · have hlive : ¬s.Dead p k c := fun e => hc (dead_succ.2 (.inl e))
    have hold : u ∈ (s.stage p k).draft.body.exits c → False := fun hu => by
      rcases hdead hdeadu with e | rfl
      · exact h.closed hlive hu e
      · exact absurd hnew (Nat.not_le.2 (hat.sound.body.exits_lt hu))
    by_cases hcb : c = b
    · subst hcb
      rw [hturns.here] at hu
      rcases List.mem_append.1 hu with hu | hu
      · exact hold hu
      · exact (hdead hdeadu).elim (hts hlive u hu).1 (hts hlive u hu).2
    · rw [hturns.others hcb] at hu
      exact hold hu

end

end Surroundings

namespace Site.Lowered

open Native (Turns)
open Surroundings (Flow Sealed)

variable {S : Site} {p : Progress} {k : Nat} {b : BlockId} {i : Instr} (L : S.Lowered p)

include L

theorem flow (hi : S.scope.func.body[k]? = some i) (hb : S.given.Before k b (S.given.stage p k)) : ∃ t ts,
    Flow S.given b (S.given.stage p k).draft.body.blocks.size i t ts
    ∧ S.given.Before (k + 1) t (S.given.stage p (k + 1))
      ∧ Turns b ts (S.given.stage p k) (S.given.stage p (k + 1)) := by
  have hmem := List.mem_of_getElem? hi
  obtain ⟨t, ht⟩ := L.before (show k + 1 ≤ _ from (List.getElem?_eq_some_iff.1 hi).1)
  have hcur : (S.given.stage p (k + 1)).draft.current = some t := by
    obtain ⟨_, hat⟩ := ht
    exact hat.current
  have hsound : (S.given.stage p k).draft.Sound := by
    obtain ⟨_, hat⟩ := hb
    exact hat.sound
  have hgrows := L.stage_le (Nat.le_succ k) (show k + 1 ≤ _ from (List.getElem?_eq_some_iff.1 hi).1)
  -- Where the end of the block was put no code begins, so lowering goes on at another one.
  have hnew : ∀ {d : FuncDraft} {a : Action} {u : BlockId}, (∀ l, i ≠ .label l) →
    d.Ends b a u (S.given.stage p (k + 1)).draft →
      u = t ∧ (S.given.stage p k).draft.body.blocks.size ≤ t := by
    intro d a u hno hends
    obtain rfl : u = t := Option.some.inj (hends.current.symm.trans hcur)
    refine ⟨rfl, hb.fresh ht hgrows hi hno ?_⟩
    rintro rfl
    have := hends.code.symm.trans hends.empty
    simp at this
  cases hcontrol : i.isControl
  · obtain ⟨V, hat⟩ := hb
    obtain ⟨_, q, hrun, hsteps, -⟩ :=
      (Native.Emits.lower L.fit.apt (.fst .refl) L.fit.checked (L.fit.typed hmem) (L.fit.covers hmem)
        (L.known i hmem) hcontrol).run hat.opened hat.known
    obtain rfl : S.given.stage p (k + 1) = q := congrArg Prod.snd ((L.lower hi).symm.trans hrun)
    obtain rfl : b = t := Option.some.inj (hsteps.opened.ready.current.symm.trans hcur)
    exact ⟨b, [], .stays hcontrol, ht, .of_steps hat hsteps⟩
  · cases i with
    | label l =>
      have hends := L.ends_of_label hi hb
      obtain rfl : S.scope.block l = t := Option.some.inj (hends.current.symm.trans hcur)
      exact ⟨_, _, .label l, ht, .of_ends hsound hends⟩
    | jmp l =>
      obtain ⟨u, hends⟩ := L.ends_of_jmp hi hb
      obtain ⟨rfl, hle⟩ := hnew (fun _ e => by cases e) hends
      exact ⟨u, _, .jmp l hle, ht, .of_ends hsound hends⟩
    | jmpIf c l =>
      obtain ⟨v, q, u, hrun, -, hends⟩ := L.ends_of_jumpIf hi hb
      obtain ⟨rfl, hle⟩ := hnew (fun _ e => by cases e) hends
      obtain ⟨V, hat⟩ := hb
      have hcond : c.ty = .int := L.fit.typed hmem
      obtain ⟨_, q', hrun', hsteps, -⟩ := (Native.Emits.value (K := .ground S.given) (.fst .refl)
        ((L.fit.covers hmem).usable (.head _) (by simp [hcond, Ty.isIter]))).run hat.opened hat.known
      obtain rfl : q = q' := congrArg Prod.snd (hrun.symm.trans hrun')
      exact ⟨u, _, .jmpIf c l hle, ht, (Turns.of_steps hat hsteps).after (.of_ends hsteps.opened.ready.sound hends)⟩
    | ret src =>
      have htyped := L.fit.typed hmem
      have husable : S.given.Usable src := by
        refine (L.fit.covers hmem).usable (.head _) ?_
        rcases htyped with hnull | hret
        · simp [hnull, Ty.isIter]
        · exact hret ▸ Ty.isIter_eq_false.2 L.fit.ret.2
      obtain ⟨V, hat⟩ := hb
      obtain ⟨vs, q, hrun, hsteps, -⟩ :=
        (Native.Emits.results (K := .ground S.given) L.fit (.fst .refl) husable htyped).run hat.opened hat.known
      have hlower := L.lower hi
      rw [show (Lowering.lower (.ret src) : Native Unit) = Native.ret src from rfl, Native.ret_eq, Native.bind_apply,
        hrun] at hlower
      obtain ⟨-, u, hends⟩ := Native.ret_ends hsteps.opened.ready hlower
      have hat' : S.given.Before k b (S.given.stage p k) := ⟨V, hat⟩
      obtain ⟨rfl, hle⟩ := hnew (fun _ e => by cases e) hends
      exact ⟨u, _, .ret src hle, ht, (Turns.of_steps hat hsteps).after (.of_ends hsteps.opened.ready.sound hends)⟩
    | _ => cases hcontrol

theorem sealed (hk : k ≤ S.scope.func.body.length) : S.given.Sealed p k := by
  induction k with
  | zero =>
    have hno : ∀ {c}, ¬S.given.Dead p 0 c := by
      rintro c ⟨j, hj, hskips, -⟩
      obtain rfl : j = 0 := Nat.le_zero.1 hj
      exact Func.not_skips_zero hskips
    exact ⟨fun hc => absurd hc hno, fun _ _ => hno, fun _ _ => hno⟩
  | succ k ih =>
    have ih := ih (Nat.le_of_succ_le hk)
    have hi := List.getElem?_eq_getElem (show k < S.scope.func.body.length from hk)
    generalize S.scope.func.body[k] = i at hi
    have hmem := List.mem_of_getElem? hi
    obtain ⟨b, hb⟩ := L.before (Nat.le_of_succ_le hk)
    obtain ⟨t, ts, hflow, ht, hturns⟩ := L.flow hi hb
    have hskips := Func.skips_succ hi
    have hcur : (S.given.stage p k).draft.current = some b := by
      obtain ⟨_, hat⟩ := hb
      exact hat.current
    have hcur' : (S.given.stage p (k + 1)).draft.current = some t := by
      obtain ⟨_, hat⟩ := ht
      exact hat.current
    have hlabel : ∀ l ∈ S.scope.func.labels, S.scope.block l < (S.given.stage p k).draft.body.blocks.size
        ∧ ¬S.given.Dead p k (S.scope.block l) := fun l hl => by
      obtain ⟨_, hat⟩ := hb
      exact ⟨(hat.known.2 l hl).2, fun e => (ih.apart e).2.2 l hl rfl⟩
    cases hflow with
    | stays hcontrol =>
      have hstill : S.scope.func.Skips (k + 1) → S.scope.func.Skips k := fun h => by
        rcases hskips.1 h with hend | ⟨h, -⟩
        · exact absurd hend (by simp [Instr.isEnd_eq_false hcontrol])
        · exact h
      refine ih.same hturns (fun {c} hc => ?_) (fun _ u hu => absurd hu List.not_mem_nil) fun hno c hc => ?_
      · rcases Surroundings.dead_succ.1 hc with hc | ⟨hs, hc⟩
        · exact hc
        · exact ⟨k, Nat.le_refl k, hstill hs, by rw [hcur, ← hc, hcur']⟩
      · obtain rfl : b = c := Option.some.inj (hcur'.symm.trans hc)
        refine ih.here (fun hs => hno (hskips.2 (.inr ⟨hs, fun l e => ?_⟩))) hcur
        simp [e, Instr.isControl] at hcontrol
    | label l =>
      have hl : l ∈ S.scope.func.labels := List.mem_filterMap.2 ⟨_, hmem, rfl⟩
      have hno : ¬S.scope.func.Skips (k + 1) := fun h => by
        rcases hskips.1 h with hend | ⟨-, hne⟩
        · cases hend
        · exact hne l rfl
      refine ih.same hturns (fun {c} hc => ?_) (fun _ u hu => ?_) fun _ c hc => ?_
      · rcases Surroundings.dead_succ.1 hc with hc | ⟨hs, -⟩
        · exact hc
        · exact absurd hs hno
      · obtain rfl := List.mem_singleton.1 hu
        exact (hlabel l hl).2
      · obtain rfl : S.scope.block l = c := Option.some.inj (hcur'.symm.trans hc)
        exact (hlabel l hl).2
    | jmp l hnew =>
      refine ih.more hturns hb ht (hskips.2 (.inl rfl)) hnew fun _ u hu => ?_
      obtain rfl := List.mem_singleton.1 hu
      have hl := hlabel l (L.fit.target hmem rfl)
      exact ⟨hl.2, Nat.ne_of_lt (Nat.lt_of_lt_of_le hl.1 hnew)⟩
    | ret src hnew => exact ih.more hturns hb ht (hskips.2 (.inl rfl)) hnew fun _ u hu => absurd hu List.not_mem_nil
    | jmpIf c l hnew =>
      have hl := hlabel l (L.fit.target hmem rfl)
      by_cases hs : S.scope.func.Skips k
      · -- A branch in dead code: the block it goes on in is reached from there alone.
        refine ih.more hturns hb ht (hskips.2 (.inr ⟨hs, fun l e => by cases e⟩)) hnew fun hlive => ?_
        exact absurd ⟨k, Nat.le_refl k, hs, hcur⟩ hlive
      · have hnext : ¬S.given.Dead p k t := fun e => absurd (ih.apart e).2.1 (Nat.not_lt.2 hnew)
        have hno : ¬S.scope.func.Skips (k + 1) := fun h => by
          rcases hskips.1 h with hend | ⟨h, -⟩
          · cases hend
          · exact hs h
        refine ih.same hturns (fun {c} hc => ?_) (fun _ u hu => ?_) fun _ c hc => ?_
        · rcases Surroundings.dead_succ.1 hc with hc | ⟨hs, -⟩
          · exact hc
          · exact absurd hs hno
        · rcases List.mem_cons.1 hu with rfl | hu
          · exact hl.2
          · obtain rfl := List.mem_singleton.1 hu
            exact hnext
        · obtain rfl : t = c := Option.some.inj (hcur'.symm.trans hc)
          exact hnext

theorem closed {c : Compiled} {t : Machine.Target} (hc : S.body.compile t = .ok c) : c.Closed fun b =>
    b < (S.given.stage p S.scope.func.body.length).draft.body.blocks.size
    ∧ ¬S.given.Dead p S.scope.func.body.length b := by
  have hsealed := L.sealed (Nat.le_refl _)
  obtain ⟨b, V, hat⟩ := L.before (Nat.le_refl _)
  have hends : S.scope.func.Skips S.scope.func.body.length :=
    Func.skips_length (Check.func_eq_nil.1 L.fit.passes).2.2.2.2
  rw [show S.given.scope.func.body = S.scope.func.body from rfl, List.drop_length] at hat
  refine ⟨⟨hat.nonempty, fun h => Nat.lt_irrefl 0 (hsealed.apart h).1⟩, ?_⟩
  rintro a u ⟨hlt, hlive⟩ hu
  have hx := Array.getElem?_eq_getElem hlt
  -- The last block is the one without an end, and it is dead.
  have hterm : ((S.given.stage p S.scope.func.body.length).draft.body.blocks[a]).terminated = true := by
    by_contra hopen
    have hmem := (hat.opens hx).1 (by simpa using hopen)
    obtain rfl := List.mem_singleton.1 hmem
    exact hlive ⟨_, Nat.le_refl _, hends, hat.current⟩
  obtain ⟨y, hy, -, -, hended⟩ := L.grows.blocks hx
  have hcode := L.grows.instsOf hat.sound.body hx
  have hexits : S.body.exits a = (S.given.stage p S.scope.func.body.length).draft.body.exits a := by
    rw [Body.exits, Body.exits, Body.code_of_block hy, Body.code_of_block hx, ← hcode, Body.instsOf, Body.instsOf,
      (hended hterm).1]
  have hu := Body.exits_of_compile hc (Nat.lt_of_lt_of_le hlt L.grows.blocks_size) hu
  rw [hexits] at hu
  exact ⟨hat.sound.body.exits_lt hu, hsealed.closed hlive hu⟩

end Site.Lowered

/-! ## Compiled functions -/

/-- The blocks of a function that was lowered from `p` on to the body `g`. -/
structure Surroundings.FlowsIn (s : Surroundings) (p : Progress) (g : Body) : Prop where
  ends : ∀ b ∈ g.blocks, ∃ before last, g.instsOf b = before ++ [last] ∧ last.action.isTerminator = true
    ∧ ∀ i ∈ before, i.action.isTerminator = false
  leads : ∀ i ∈ g.insts, ∀ t ∈ i.action.targets, t < g.blocks.size
  apart : ∀ {l l' : Label}, l ∈ s.scope.func.labels → l' ∈ s.scope.func.labels →
    s.scope.block l = s.scope.block l' → l = l'
  /-- Right behind a label lowering is at its block, where there is no code yet; so what the next instruction adds there
  stands first. -/
  begins : ∀ {k : Nat} {l : Label}, s.scope.func.body[k]? = some (.label l) → k + 1 < s.scope.func.body.length
    ∧ s.scope.block l < g.blocks.size ∧ (s.stage p (k + 1)).draft.current = some (s.scope.block l)
    ∧ (s.stage p (k + 1)).draft.body.code (s.scope.block l) = []
    ∧ (s.stage p (k + 2)).draft.body.code (s.scope.block l) <+: g.code (s.scope.block l)
  /-- The block that is closed at the end comes after a jump or a return as well. -/
  closing : s.scope.func.Skips s.scope.func.body.length

theorem Site.Lowered.flowsIn {S : Site} {p : Progress} (L : S.Lowered p) (hwhole : S.body.Whole) :
    S.given.FlowsIn p S.body where
  ends b hb := by
    obtain ⟨n, hn⟩ := Array.mem_iff_getElem?.1 hb
    obtain ⟨last, hlast, hterm⟩ := hwhole.last hb
    exact ⟨_, last, Machine.eq_dropLast_append hlast, hterm, hwhole.tidy.straight hn⟩
  leads i hi t ht := hwhole.wellFormed.targets_lt hi ht
  apart {l l'} hl hl' heq := by
    have hnodup : (Native.pending S.given S.given.scope.func.body).Nodup := by
      rw [Native.pending_body L.fit]
      exact List.nodup_range'
    exact List.inj_on_of_nodup_map hnodup hl hl' heq
  begins {k l} hi := by
    have hlt := L.next_lt hi rfl
    obtain ⟨b, hb⟩ := L.before (Nat.le_of_lt (Nat.lt_of_succ_lt hlt))
    obtain ⟨c, W, hat⟩ := L.before (show k + 2 ≤ _ from hlt)
    have hends := L.ends_of_label hi hb
    have hl : l ∈ S.scope.func.labels := List.mem_filterMap.2 ⟨_, List.mem_of_getElem? hi, rfl⟩
    have hgrows := L.stage_grows (show k + 2 ≤ _ from hlt)
    exact ⟨hlt, Nat.lt_of_lt_of_le (hat.known.2 l hl).2 hgrows.blocks_size, hends.current, hends.empty,
      hgrows.code hat.sound.body _⟩
  closing := Func.skips_length (Check.func_eq_nil.1 L.fit.passes).2.2.2.2

/-- Every function of a compiled program has the form that its labels and jumps give it, and no frame of it is ever in a
block at which lowering stood before an instruction that is skipped. -/
theorem Program.control_flow {p : Program} (hp : p.check = []) {x : Executable} (hx : p.compile = .ok x)
    {i : Nat} {f : Func} (hf : p.funcs[i]? = some f) : ∃ d :
    Declared, ∃ id e m ls a q, Declared.ofProgram p = .ok d ∧ d.funcs[i]? = some id
      ∧ x.module.funcs[id]? = some e ∧ e.source = some q.draft.body
      ∧ Declared.enter (Declared.surroundings { d with module := m } i f) ls = .ok a
      ∧ Declared.lowerFunc { d with module := m } i f ls = .ok q
      ∧ (Declared.surroundings { d with module := m } i f).FlowsIn a q.draft.body
      ∧ ∀ {σ : Type} {perform : Service → List UInt64 → Machine.HostM σ (List UInt64)} {inst : Instance Service σ},
        inst.module = x.module → ∀ {called : Machine.FuncId} {args : List UInt64} {n : Nat} {st : Machine.State σ},
        inst.Goes perform called args n st → ∀ fr ∈ st.frames, fr.func = id → ∀ k ≤ f.body.length, f.Skips k →
        ((Declared.surroundings { d with module := m } i f).stage a k).draft.current ≠ some fr.block := by
  obtain ⟨d, h⟩ := p.compiles_of_compile hx
  obtain ⟨s, a, q, hP⟩ := h.placed hf
  obtain ⟨ls, hmade⟩ := hP.made
  obtain ⟨id, e, c, hid, he, -, -, hsource, hcompiled, hcode⟩ := hP.decl
  have hgiven : s = Declared.surroundings { d with module := s.module } i f := hP.given
  have hfit := hP.fit
  have hsig : f.signature = .ok f.sig :=
    Func.signature_of_check ((Check.check_eq_nil.1 hp).2.2 f (List.mem_of_getElem? hf))
  generalize s.module = m at hgiven
  subst hgiven
  have hsame := Declared.surroundingsCounting_false { d with module := m } i f
  have henter := Declared.enter_of_made (d := { d with module := m }) hsig (hsame ▸ hmade)
  rw [hsame] at henter
  have hlower := Declared.lowerFunc_of_made (d := { d with module := m }) hsig (hsame ▸ hfit) (hsame ▸ hmade)
  rw [Declared.lowerFuncCounting_false] at hlower
  let S : Site := ⟨Declared.surroundings { d with module := m } i f, x.module, q.draft.body, q.literals, 0, 0, 0, 0⟩
  have L : S.Lowered a := ⟨hfit, hmade.known, hmade.start, hmade.grows, hmade.literals⟩
  refine ⟨d, id, e, m, ls, a, q, h.declared, hid, he, hsource, henter, hlower, L.flowsIn hmade.whole, ?_⟩
  intro σ perform inst hinst called args n st hgoes fr hfr hfunc k hk hskips hcur
  have hwithin := hgoes.within (hinst ▸ he) hcompiled (L.closed (S := S) hcode) fr hfr hfunc
  exact hwithin.live.2 ⟨k, hk, hskips, hcur⟩

def Func.overBranch : Func where
  name := "main"
  ret := .null
  body := [.jmp 1, .jmpIf ⟨1, .int⟩ 1, .label 1, .ret ⟨0, .null⟩]

/-- The branch that is jumped over has a block of its own, in which no frame ever is. -/
theorem Program.control_flow_over_branch : ∃ x : Executable, Program.compile { funcs := [.overBranch] } = .ok x
    ∧ ∃ s : Surroundings, ∃ a g id, s.FlowsIn a g ∧ s.scope.func = .overBranch
    ∧ (x.module.funcs[id]?).bind (·.source) = some g
      ∧ ∀ {σ : Type} {perform : Service → List UInt64 → Machine.HostM σ (List UInt64)} {inst : Instance Service σ},
        inst.module = x.module → ∀ {called : Machine.FuncId} {args : List UInt64} {n : Nat} {st : Machine.State σ},
        inst.Goes perform called args n st → ∀ fr ∈ st.frames, fr.func = id →
            (s.stage a 1).draft.current ≠ some fr.block := by
  have hp : Program.check { funcs := [.overBranch] } = [] := by decide +kernel
  obtain ⟨x, hx⟩ := exists_compile hp (by decide +kernel) (by decide +kernel) (by decide +kernel)
  obtain ⟨d, id, e, m, ls, a, q, -, -, he, hsource, -, -, hflow, hruns⟩ :=
    control_flow hp hx (i := 0) (f := .overBranch) rfl
  have hskips : Func.Skips .overBranch 1 := (Func.skips_succ (i := .jmp 1) rfl).2 (.inl rfl)
  refine ⟨x, hx, _, a, q.draft.body, id, hflow, rfl, by rw [he]; exact hsource, ?_⟩
  intro σ perform inst hinst called args n st hgoes fr hfr hfunc
  exact hruns hinst hgoes fr hfr hfunc 1 (by decide) hskips

end RecordMill

import RecordMill.Proofs.Lowering.Printing
import RecordMill.Proofs.Lowering.Stages
import RecordMill.Proofs.Lowering.Straight
import RecordMill.Proofs.Machine.Reference

/-!
# From instruction to instruction

The finished body of a function holds the code of every stage of its lowering. A frame that stands where the
code of an instruction starts goes on to where another starts, and its cells match what the direct emitter
makes of the store.
-/

namespace RecordMill

open Machine (Kind Value VarId BlockId Block Cells CellFrame CellState Outside Memory Body FuncDraft Build Inst Action
  Trap Callee End execAll)

/-!
## Straight-line code

Every instruction that neither leaves its block nor calls a function of the program is lowered to code
that does, on cells, what the direct emitter does at once.
-/

namespace Instr

/-- The offsets in its block of arguments can be told in an instruction. -/
def Spills : Instr → Prop
  | .print _ args _ => 16 * args.length < 2 ^ 31
  | .printf _ _ args _ | .sprintf _ _ args => 24 * args.length < 2 ^ 31
  | _ => True

def isCall : Instr → Bool
  | .call .. => true
  | _ => false

end Instr

namespace Realizes

variable {S : Site} {α β γ ε : Type} {K : Known S} {n m : Nat} {x : Native α} {D : Direct β} {R : α → β → Known S}

theorem lowerArith (hS : S.Sound) {d : Reg} (op : Arith) {args : List Reg} (hty : d.ty = .int ∨ d.ty = .float)
    (hn : args.length = op.arity) (ha : ∀ a ∈ args, a.ty = d.ty) :
    Realizes S K 1 (Lowering.lower (.arith d op args) : Native Unit) (Lowering.lower (.arith d op args) : Direct Unit)
      fun _ _ => Known.nothing S := by
  have hkinds := Native.kinds_replicate hn ha
  refine bindOp hS (k := d.ty.words) ?_ (by rw [hn]; cases op <;> simp [Arith.arity]) rfl
  rw [hkinds]
  rcases hty with h | h <;> rw [h]
  · cases op with
    | neg => exact .negInt
    | _ => exact .arithInt (by simp)
  · cases op with
    | neg => exact .negFloat
    | _ => exact .arithFloat (by simp)

theorem lower (hS : S.Sound) {p : Program} {ret : Ty} {i : Instr} (ht : i.Typed p ret) (hspill : i.Spills)
    (hstay : i.isControl = false) (hcall : i.isCall = false) :
    Realizes S (Known.nothing S) 1 (Lowering.lower i : Native Unit) (Lowering.lower i : Direct Unit)
      fun _ _ => Known.nothing S := by
  cases i
  all_goals simp only [Instr.Typed] at ht
  case constInt d n => exact bind (constInt n) fun _ _ => bindReg hS d .last (by rw [ht]; rfl)
  case constFloat d x => exact bind (constFloat x) fun _ _ => bindReg hS d .last (by rw [ht]; rfl)
  case constStr d t => exact bind (constStr t) fun _ _ => bindReg hS d .last (by rw [ht]; rfl)
  case mov d src => exact mov hS d.ty d.id src.id
  case compare d c l r =>
    obtain ⟨hd, t, hl, hr⟩ := ht
    refine compare hS c ?_ (hr.trans hl.symm) hd
    cases t <;> simp [hl, Scalar.ty]
  case arith d op args => exact lowerArith hS op ht.1 ht.2.1 ht.2.2
  case bit d op args =>
    obtain ⟨hd, hn, ha⟩ := ht
    refine bindOp hS (k := .i64) ?_ (by rw [hn]; cases op <;> simp [Bitwise.arity]) (by rw [hd]; rfl)
    rw [Native.kinds_replicate hn ha]
    cases op with
    | complement => exact .complement
    | _ => exact .bit (by simp)
  case math d fn args =>
    obtain ⟨hd, hn, ha⟩ := ht
    refine bindOp hS (k := .f64) ?_ (by rw [hn]; cases fn <;> simp [MathFn.arity]) (by rw [hd]; rfl)
    rw [Native.kinds_replicate hn ha]
    cases fn with
    | atan2 => exact .atan2
    | _ => exact .math (by simp)
  case div d l r =>
    obtain ⟨hd, h⟩ := ht
    refine bindFloatOp hS .div ?_ ?_ hd
    · rcases h with h | h <;> simp [h.1]
    · rcases h with h | h <;> simp [h.1, h.2]
  case pow d l r =>
    obtain ⟨hd, h⟩ := ht
    refine bindFloatOp hS .pow ?_ ?_ hd
    · rcases h with h | h <;> simp [h.1]
    · rcases h with h | h <;> simp [h.1, h.2]
  case convert d src => exact convert hS d src
  case concat d l r => exact bindService hS (s := .concat) rfl (by rw [ht.1]; rfl) _
  case strLen d src => exact bindService hS (s := .strLen) rfl (by rw [ht.1]; rfl) _
  case matchPattern d src pat => exact bindService hS (s := .matchPattern) rfl (by rw [ht.1]; rfl) _
  case split d src m pat => exact bindService hS (s := .split _) rfl (by rw [ht.1]; rfl) _
  case lookup d m key =>
    obtain ⟨k, v, hm, hk, hd⟩ := ht
    refine mapService fun k' v' h => bindService hS (s := .map k' v' .lookup) rfl ?_ _
    obtain ⟨rfl, rfl⟩ : k = k' ∧ v = v' := by simpa [hm] using h
    rw [hd]
    cases v <;> rfl
  case store m key val =>
    refine next (valuesOf hS [m, key, val]) fun _ _ => ?_
    exact mapService fun k v h => performService hS (s := .map k v .insert) rfl .last
  case contains d m key =>
    exact mapService fun k v h => bindService hS (s := .map k v .contains) rfl (by rw [ht.1]; rfl) _
  case delete m key =>
    refine next (valuesOf hS [m, key]) fun _ _ => ?_
    exact mapService fun k v h => performService hS (s := .map k v .delete) rfl .last
  case len d m => exact mapService fun k v h => bindService hS (s := .map k v .len) rfl (by rw [ht.1]; rfl) _
  case iterBegin d m => exact iterBegin hS d m
  case iterHasNext d it => exact iterHasNext hS it ht.1
  case iterGetNext d it =>
    obtain ⟨k, hit, hd⟩ := ht
    refine iterGetNext hS ?_
    rw [hit, hd]
    cases k <;> rfl
  case nextLine d => exact bindResult hS (s := .nextLine) rfl (by rw [ht]; rfl) .nil
  case getColumn d index => exact bindService hS (s := .getColumn) rfl (by rw [ht.1]; rfl) _
  case setColumn index src => exact performOn hS (s := .setColumn) rfl _
  case readFileLine d status path =>
    refine next (bindService hS (s := .readFileLine) rfl (by rw [ht.1]; rfl) _) fun _ _ => ?_
    exact bindResult hS (s := .lineStatus) rfl (by rw [ht.2.1]; rfl) .nil
  case loadVar d v => exact loadVar hS d v
  case storeVar v src => exact storeVar hS v src
  case print out args status =>
    obtain ⟨hstatus, hout, hargs⟩ := ht
    refine printAll hS ?_ hout hargs hspill
    rcases hstatus with h | h <;> rw [h] <;> rfl
  case printf out format args status =>
    obtain ⟨hstatus, hout, hformat, -⟩ := ht
    refine printf hS ?_ hout hformat hspill
    rcases hstatus with h | h <;> rw [h] <;> rfl
  case sprintf d format args => exact sprintf hS ht.1 ht.2.1 hspill
  case call => cases hcall
  all_goals cases hstay

end Realizes

/-! ## The code of a function -/

theorem Func.target_eq {f : Func} {l : Label} (hl : l ∈ f.labels) :
    ∃ j, f.target l = j + 1 ∧ f.body[j]? = some (.label l) := by
  obtain ⟨x, hx, hxl⟩ := List.mem_filterMap.1 hl
  have hfound : f.body.findIdx (Instr.isLabel l) < f.body.length :=
    List.findIdx_lt_length_of_exists ⟨x, hx, by cases x <;> simp_all [Instr.isLabel]⟩
  refine ⟨_, rfl, ?_⟩
  have hlabel := List.findIdx_getElem (w := hfound)
  rw [List.getElem?_eq_getElem hfound]
  generalize f.body[f.body.findIdx (Instr.isLabel l)] = y at hlabel
  cases y <;> simp_all [Instr.isLabel]

/-- The body of a site is what lowering made of its function after the entry `p`. -/
structure Site.Lowered (S : Site) (p : Progress) : Prop where
  fit : S.given.Fit
  known : ∀ i ∈ S.scope.func.body, i.unknown? = none
  start : S.given.Before 0 0 p
  grows : (S.given.stage p S.scope.func.body.length).draft.body.Grows S.body
  literals : (S.given.stage p S.scope.func.body.length).literals <+: S.literals

/-- The code of the instruction with index `k` starts at place `n` of block `b`. -/
structure Site.Starts (S : Site) (p : Progress) (k : Nat) (b : BlockId) (n : Nat) : Prop where
  lt : k < S.scope.func.body.length
  before : S.given.Before k b (S.given.stage p k)
  next : n = ((S.given.stage p k).draft.body.code b).length

def Site.Boundary (S : Site) (p : Progress) (b : BlockId) (n : Nat) : Prop := ∃ k, S.Starts p k b n

variable {S : Site} {p : Progress} {k n : Nat} {b : BlockId} {i : Instr}

theorem Surroundings.Before.ongoing (h : S.given.Before k b p) : S.Ongoing p b := by
  obtain ⟨V, hat⟩ := h
  exact ⟨hat.opened.ready, hat.callees⟩

theorem Machine.Body.Grows.drop_code {f g : Body} {old seg : List Inst} (h : f.Grows g) (hwf : f.WellFormed)
    (hcode : f.code b = old ++ seg) : seg <+: (g.code b).drop old.length := by
  obtain ⟨rest, hrest⟩ := h.code hwf b
  exact ⟨rest, by rw [← hrest, hcode, List.append_assoc, List.drop_left]⟩

namespace Site.Lowered

variable (L : S.Lowered p)

include L

theorem before (hk : k ≤ S.scope.func.body.length) : ∃ b, S.given.Before k b (S.given.stage p k) :=
  Surroundings.before_stage L.fit L.start L.known hk

theorem lower (hi : S.scope.func.body[k]? = some i) :
    (Lowering.lower i : Native Unit) S.given (S.given.stage p k) = (.ok (), S.given.stage p (k + 1)) :=
  Surroundings.lower_stage L.fit L.start L.known hi

theorem stage_le {j : Nat} (hkj : k ≤ j) (hj : j ≤ S.scope.func.body.length) :
    (S.given.stage p k).draft.body.Grows (S.given.stage p j).draft.body :=
  (Surroundings.stage_grows L.fit L.start L.known hkj hj).1

theorem stage_grows (hk : k ≤ S.scope.func.body.length) : (S.given.stage p k).draft.body.Grows S.body :=
  (L.stage_le hk (Nat.le_refl _)).trans L.grows

theorem stage_literals (hk : k ≤ S.scope.func.body.length) : (S.given.stage p k).literals <+: S.literals :=
  (Surroundings.stage_grows L.fit L.start L.known hk (Nat.le_refl _)).2.trans L.literals

theorem next_lt (hi : S.scope.func.body[k]? = some i) (hend : i.isEnd = false) : k + 1 < S.scope.func.body.length := by
  obtain ⟨-, -, -, -, last, hlast, hlastEnd⟩ := Check.func_eq_nil.1 L.fit.passes
  refine Nat.lt_of_le_of_ne (List.getElem?_eq_some_iff.1 hi).1 fun heq => ?_
  rw [List.getLast?_eq_getElem?, show S.given.scope.func.body.length = k + 1 from heq.symm, Nat.add_sub_cancel] at hlast
  cases hi.symm.trans hlast
  simp [hend] at hlastEnd

theorem starts_of_current (hk : k < S.scope.func.body.length) (hb : (S.given.stage p k).draft.current = some b) :
    S.Starts p k b ((S.given.stage p k).draft.body.code b).length := by
  obtain ⟨c, hc⟩ := L.before (Nat.le_of_lt hk)
  have hcur := hc.ongoing.ready.current
  rw [hb] at hcur
  cases hcur
  exact ⟨hk, hc, rfl⟩

theorem not_boundary {j : Nat} (hk : k < S.scope.func.body.length)
    (hj : ((S.given.stage p k).draft.body.code b).length < j)
    (hj' : j < ((S.given.stage p (k + 1)).draft.body.code b).length) : ¬ S.Boundary p b j := by
  rintro ⟨k', hk', hbefore, rfl⟩
  rcases Nat.lt_or_ge k k' with hlt | hge
  · obtain ⟨c, hc⟩ := L.before (show k + 1 ≤ _ from hk)
    have := ((L.stage_le (show k + 1 ≤ k' from hlt) (Nat.le_of_lt hk')).code hc.ongoing.ready.sound.body b).length_le
    omega
  · have := ((L.stage_le hge (Nat.le_of_lt hk)).code hbefore.ongoing.ready.sound.body b).length_le
    omega

theorem code_of_ends {d : FuncDraft} (hk : k < S.scope.func.body.length) {a : Action} {t : BlockId}
    (h : d.Ends b a t (S.given.stage p (k + 1)).draft) : (S.body.code b)[(d.body.code b).length]? = some ⟨a, []⟩ := by
  obtain ⟨c, hc⟩ := L.before (show k + 1 ≤ _ from hk)
  obtain ⟨rest, hrest⟩ := (L.stage_grows hk).drop_code hc.ongoing.ready.sound.body h.code
  rw [← Nat.add_zero (List.length _), ← List.getElem?_drop, ← hrest]
  rfl

theorem starts_of_ends {d : FuncDraft} (hk : k + 1 < S.scope.func.body.length) {a : Action} {t : BlockId}
    (h : d.Ends b a t (S.given.stage p (k + 1)).draft) : S.Starts p (k + 1) t 0 := by
  have hstarts := L.starts_of_current hk h.current
  rwa [h.empty] at hstarts

theorem ends_of_label {l : Label} (hi : S.scope.func.body[k]? = some (.label l))
    (hb : S.given.Before k b (S.given.stage p k)) :
    (S.given.stage p k).draft.Ends b (.jump (S.scope.block l) []) (S.scope.block l)
    (S.given.stage p (k + 1)).draft := by
  obtain ⟨V, hat⟩ := hb
  have hdrop : S.scope.func.body.drop k = .label l :: S.scope.func.body.drop (k + 1) := by
    obtain ⟨hlt, heq⟩ := List.getElem?_eq_some_iff.1 hi
    rw [List.drop_eq_getElem_cons hlt, heq]
  have hpending : Native.pending S.given (S.scope.func.body.drop k)
      = S.scope.block l :: Native.pending S.given (S.scope.func.body.drop (k + 1)) := by
    rw [hdrop]
    rfl
  rw [show S.given.scope.func.body = S.scope.func.body from rfl, hpending] at hat
  obtain ⟨d, hrun, hends⟩ := Native.label_ends .last (List.mem_filterMap.2 ⟨_, List.mem_of_getElem? hi, rfl⟩) hat
  have hstage : S.given.stage p (k + 1) = _ := congrArg Prod.snd ((L.lower hi).symm.trans hrun)
  rw [hstage]
  exact hends

theorem ends_of_jmp {l : Label} (hi : S.scope.func.body[k]? = some (.jmp l))
    (hb : S.given.Before k b (S.given.stage p k)) :
    ∃ t, (S.given.stage p k).draft.Ends b (.jump (S.scope.block l) []) t (S.given.stage p (k + 1)).draft := by
  obtain ⟨V, hat⟩ := hb
  obtain ⟨d, t, hrun, hends⟩ := Native.jump_ends .last (L.fit.target (List.mem_of_getElem? hi) rfl) hat
  have hstage : S.given.stage p (k + 1) = _ := congrArg Prod.snd ((L.lower hi).symm.trans hrun)
  rw [hstage]
  exact ⟨t, hends⟩

theorem ends_of_jumpIf {cond : Reg} {l : Label} (hi : S.scope.func.body[k]? = some (.jmpIf cond l))
    (hb : S.given.Before k b (S.given.stage p k)) : ∃ v q t, Native.value cond S.given (S.given.stage p k) = (.ok v, q)
      ∧ q.literals = (S.given.stage p (k + 1)).literals
      ∧ q.draft.Ends b (.brif v (S.scope.block l) t) t (S.given.stage p (k + 1)).draft := by
  have hmem := List.mem_of_getElem? hi
  have hcond : cond.ty = .int := L.fit.typed hmem
  have husable := (L.fit.covers hmem).usable (.head _) (by simp [hcond, Ty.isIter])
  obtain ⟨V, hat⟩ := hb
  obtain ⟨v, q, hrun, hat', -⟩ := (Native.Emits.value (.fst .refl) husable).passes.run hat
  obtain ⟨d, t, hrun', hends⟩ := Native.branch_ends (.left .last) (L.fit.target hmem rfl) hat' v
  have hlower : (Lowering.lower (.jmpIf cond l) : Native Unit) S.given (S.given.stage p k)
      = (.ok (), ⟨d, q.literals⟩) := by
    rw [show (Lowering.lower (.jmpIf cond l) : Native Unit) = Native.jumpIf cond l from rfl, Native.jumpIf,
      Native.bind_apply, hrun]
    exact hrun'
  have hstage : S.given.stage p (k + 1) = ⟨d, q.literals⟩ := congrArg Prod.snd ((L.lower hi).symm.trans hlower)
  exact ⟨v, q, t, hrun, by rw [hstage], by rw [hstage]; exact hends⟩

theorem starts_target {l : Label} (hl : l ∈ S.scope.func.labels) :
    S.Starts p (S.scope.func.target l) (S.scope.block l) 0 := by
  obtain ⟨j, htarget, hi⟩ := Func.target_eq hl
  have hlt := (List.getElem?_eq_some_iff.1 hi).1
  obtain ⟨b, hb⟩ := L.before (Nat.le_of_lt hlt)
  rw [htarget]
  exact L.starts_of_ends (L.next_lt hi rfl) (L.ends_of_label hi hb)

end Site.Lowered

/-! ## An activation -/

namespace Instr

def isTransfer : Instr → Bool
  | .call .. | .ret _ => true
  | _ => false

theorem isEnd_eq_false {i : Instr} (h : i.isControl = false) : i.isEnd = false := by
  cases i <;> first | rfl | cases h

end Instr

def Machine.CellFrame.to (fr : CellFrame) (b : BlockId) (n : Nat) (c : Cells) : CellFrame :=
  { fr with block := b, next := n, cells := c }

theorem Direct.Store.on {δ : Direct.Store} (h : δ.flow = .on) : δ = { δ with flow := .on } := by rw [← h]

/-- A frame of the function with index `fn` runs the body of the site. -/
structure Site.Active (S : Site) (p : Progress) (fn : Nat) (fr : CellFrame) : Prop where
  sound : S.Sound
  lowered : S.Lowered p
  func : S.given.program.funcs[fn]? = some S.scope.func
  spills : ∀ i ∈ S.scope.func.body, i.Spills
  body : S.module.body? fr.func = some S.body
  stack : fr.stack = S.stack

/-- The next instruction does the same in the setting of the site as in that of the direct run. -/
def Site.Concurs (S : Site) (fn : Nat) (st : Direct.State) : Prop :=
  ∀ i, S.scope.func.body[st.frame.next]? = some i →
    (Lowering.lower i : Direct Unit) (Direct.setting S.given.program S.literals fn S.scope.func) st.store
      = (Lowering.lower i : Direct Unit) S.setting st.store

/-- The state is in an activation of a function whose result goes to `dst`, above others. -/
structure Direct.State.In (st : Direct.State) (fn : Nat) (dst : Reg) (rest : List Direct.Frame) : Prop where
  func : st.frame.func = fn
  dst : st.frame.dst = dst
  below : st.below = rest

/-- The frame is where the code of the next instruction starts, and its cells match the store. -/
def Site.Shows (S : Site) (p : Progress) (fn : Nat) (dst : Reg) (rest : List Direct.Frame) (fr : CellFrame)
    (below : List CellFrame) (st : Direct.State) (cst : CellState Context) : Prop :=
  st.In fn dst rest ∧ ∃ b n c out, cst = ⟨out, fr.to b n c :: below⟩ ∧ S.Starts p st.frame.next b n
    ∧ S.Matches st.store c out

def Site.Within (S : Site) (p : Progress) (fr : CellFrame) (below : List CellFrame) (cst : CellState Context) : Prop :=
  ∃ b n c out, cst = ⟨out, fr.to b n c :: below⟩ ∧ ¬ S.Boundary p b n

/-- Both runs end the same way. -/
inductive Direct.Result.Same : Direct.Result → End Context → Prop
  | done {rs : List UInt64} {mem : Memory} {context : Context} : Same (.done rs context) (.done rs ⟨mem, context⟩)
  | trapped {t : Trap} {mem : Memory} {context : Context} : Same (.trapped t context) (.trapped t ⟨mem, context⟩)

/-- What the direct run does next, the frame does in one step or more. -/
def Site.Follows (S : Site) (p : Progress) (fn : Nat) (dst : Reg) (rest : List Direct.Frame) (fr : CellFrame)
    (below : List CellFrame) (cst : CellState Context) (turn : Turn Direct.State Direct.Result) : Prop :=
  Proceeds (CellState.step S.module Service.perform) (S.Within p fr below)
    (fun cst => ∃ st, turn = .next st ∧ S.Shows p fn dst rest fr below st cst)
    (fun e => ∃ r, turn = .ended r ∧ r.Same e) cst

namespace Site.Active

variable {fn : Nat} {dst : Reg} {rest : List Direct.Frame} {fr : CellFrame} {below : List CellFrame} {st : Direct.State}
  {δ : Direct.Store} {c : Cells}
  {out : Outside Context}

theorem step_eq (A : S.Active p fn fr) (hsame : S.Concurs fn st) (hfn : st.frame.func = fn)
    (hi : S.scope.func.body[st.frame.next]? = some i) :
    st.step S.given.program S.literals = match (Lowering.lower i : Direct Unit) S.setting st.store with
      | (.ok (), δ) => (st.load δ st.frame.next).follow S.given.program S.literals S.scope.func δ.flow
      | (.error (.trap t), δ) => .ended (.trapped t δ.context)
      | (.error (.stop _), _) => .ended .stuck := by
  subst hfn
  rw [← hsame i hi]
  exact Direct.State.step_of_instr A.func hi

theorem within (A : S.Active p fn fr) (hk : k < S.scope.func.body.length) {j : Nat}
    (hj : ((S.given.stage p k).draft.body.code b).length < j)
    (hj' : j < ((S.given.stage p (k + 1)).draft.body.code b).length) (c : Cells) (out : Outside Context) :
    S.Within p fr below ⟨out, fr.to b j c :: below⟩ :=
  ⟨b, j, c, out, rfl, A.lowered.not_boundary hk hj hj'⟩

theorem step_jump (A : S.Active p fn fr) {t : BlockId} (h : (S.body.code b)[n]? = some ⟨.jump t [], []⟩) :
    CellState.step S.module Service.perform ⟨out, fr.to b n c :: below⟩ = .next ⟨out, fr.to t 0 c :: below⟩ := by
  have hbody : S.module.body? (fr.to b n c).func = some S.body := A.body
  have hstep : CellState.step S.module Service.perform ⟨out, fr.to b n c :: below⟩
      = .next ⟨out, fr.to t 0 (c.deal _ []) :: below⟩ :=
    CellState.step_of_code hbody h out below
  rwa [Cells.deal_nil] at hstep

theorem step_branch (A : S.Active p fn fr) {v : Value} {t t' : BlockId}
    (h : (S.body.code b)[n]? = some ⟨.brif v t t', []⟩) :
    CellState.step S.module Service.perform ⟨out, fr.to b n c :: below⟩
      = .next ⟨out, fr.to (if c.word v ≠ 0 then t else t') 0 c :: below⟩ := by
  have hbody : S.module.body? (fr.to b n c).func = some S.body := A.body
  exact CellState.step_of_code hbody h out below

theorem segment (A : S.Active p fn fr) {seg : List Inst} (hne : seg ≠ []) (hcode : seg <+: (S.body.code b).drop n)
    {Q : CellState Context → Prop} {E : End Context → Prop}
    (hin : ∀ j, n < j → j < n + seg.length → ∀ c out, S.Within p fr below ⟨out, fr.to b j c :: below⟩)
    (hexec : match S.exec seg c out with
      | some (.ok c', out') => Q ⟨out', fr.to b (n + seg.length) c' :: below⟩
      | some (.error t, out') => E (.trapped t out')
      | none => False) :
    Proceeds (CellState.step S.module Service.perform) (S.Within p fr below) Q E ⟨out, fr.to b n c :: below⟩ := by
  have hbody : S.module.body? (fr.to b 0 c).func = some S.body := A.body
  have hstack : (fr.to b 0 c).stack = S.stack := A.stack
  refine Machine.Proceeds.segment hbody hne hcode hin ?_
  rw [hstack, show execAll S.module Service.perform S.body S.stack seg c out = S.exec seg c out from rfl]
  generalize S.exec seg c out = e at hexec
  rcases e with _ | ⟨_ | _, _⟩ <;> exact hexec

theorem ending (A : S.Active p fn fr) {α β : Type} {x : Native α} {D : Direct β} {R : α → β → Known S} {m : Nat}
    (hreal : Realizes S (Known.nothing S) m x D R) (hb : S.Starts p k b n) (hm : S.Matches δ c out) {v : α}
    {q : Progress} {a : Action} {t : BlockId} (hrun : x S.given (S.given.stage p k) = (.ok v, q))
    (hlits : q.literals = (S.given.stage p (k + 1)).literals)
    (hends : q.draft.Ends b a t (S.given.stage p (k + 1)).draft) {Q : CellState Context → Prop} {E : End Context → Prop}
    (hdone : ∀ {w : β} {δ' : Direct.Store} {c' : Cells} {out' : Outside Context}, D S.setting δ = (.ok w, δ') →
      S.Matches δ' c' out' →
      (R v w).Holds q.draft c' out'.memory →
      (CellState.step S.module Service.perform ⟨out', fr.to b (q.draft.body.code b).length c' :: below⟩).Comes Q E)
    (htrap : ∀ {t : Trap} {δ' : Direct.Store} {out' : Outside Context}, D S.setting δ = (.error (.trap t), δ') →
      out'.host = δ'.context → E (.trapped t out')) :
    Proceeds (CellState.step S.module Service.perform) (S.Within p fr below) Q E ⟨out, fr.to b n c :: below⟩ := by
  obtain ⟨hlt, hbefore, rfl⟩ := hb
  have hgrows := hends.grows.trans (A.lowered.stage_grows hlt)
  obtain ⟨hq, ⟨seg, hseg, -⟩, -⟩ := hreal.adds hbefore.ongoing hrun
  have hdoes := hreal.does hbefore.ongoing hrun hseg hgrows (hlits ▸ A.lowered.stage_literals hlt) hm trivial
  have hcode := hgrows.drop_code hq.ready.sound.body hseg.code
  have hlength : ((S.given.stage p (k + 1)).draft.body.code b).length
      = ((S.given.stage p k).draft.body.code b).length + seg.length + 1 := by
    rw [hends.code, hseg.code, List.length_append, List.length_append, List.length_singleton]
  have hbody : S.module.body? (fr.to b 0 c).func = some S.body := A.body
  have hstack : (fr.to b 0 c).stack = S.stack := A.stack
  have hin : ∀ j, _ < j → j ≤ _ + seg.length → ∀ c out, S.Within p fr below ⟨out, fr.to b j c :: below⟩ :=
    fun j h₁ h₂ => A.within hlt h₁ (by rw [hlength]; exact Nat.lt_succ_of_le h₂)
  refine Machine.Proceeds.through hbody hcode hin ?_
  rw [hstack, show execAll S.module Service.perform S.body S.stack seg c out = S.exec seg c out from rfl]
  generalize S.exec seg c out = e at hdoes
  generalize hD : D S.setting δ = r at hdoes
  cases hdoes with
  | trapped hhost => exact htrap hD hhost
  | done hm' _ hknown =>
    have hlast := hdone hD hm' hknown
    rw [hseg.code, List.length_append] at hlast
    exact Proceeds.of_step hlast

theorem ends_of_ret (A : S.Active p fn fr) {src : Reg} (hi : S.scope.func.body[k]? = some (.ret src))
    (hb : S.given.Before k b (S.given.stage p k)) :
    ∃ vs q t, Native.results src S.given (S.given.stage p k) = (.ok vs, q)
      ∧ q.literals = (S.given.stage p (k + 1)).literals
      ∧ q.draft.Ends b (.ret vs) t (S.given.stage p (k + 1)).draft := by
  have hlower := A.lowered.lower hi
  rw [show (Lowering.lower (.ret src) : Native Unit) = Native.ret src from rfl, Native.ret_eq] at hlower
  obtain ⟨vs, q, hrun, hret⟩ := Native.bind_eq_ok hlower
  have hreal := Realizes.results (K := Known.nothing S) A.sound A.lowered.fit
    (A.lowered.fit.typed (List.mem_of_getElem? hi))
  obtain ⟨hq, -⟩ := hreal.adds hb.ongoing hrun
  obtain ⟨hlits, t, hends⟩ := Native.ret_ends hq.ready hret
  exact ⟨vs, q, t, hrun, hlits.symm, hends⟩

section

variable (A : S.Active p fn fr) (hsame : S.Concurs fn st) (hst : st.In fn dst rest) (hb : S.Starts p st.frame.next b n)
  (hm : S.Matches st.store c out)

include A hsame hst hb hm

theorem straight (hi : S.scope.func.body[st.frame.next]? = some i) (hcontrol : i.isControl = false)
    (hcall : i.isCall = false) :
    S.Follows p fn dst rest fr below ⟨out, fr.to b n c :: below⟩ (st.step S.given.program S.literals) := by
  obtain ⟨hlt, hbefore, rfl⟩ := hb
  have hmem := List.mem_of_getElem? hi
  have hreal := Realizes.lower A.sound (A.lowered.fit.typed hmem) (A.spills i hmem) hcontrol hcall
  obtain ⟨hnext, ⟨seg, hseg, hlen⟩, -⟩ := hreal.adds hbefore.ongoing (A.lowered.lower hi)
  have hdoes := hreal.does hbefore.ongoing (A.lowered.lower hi) hseg (A.lowered.stage_grows hlt)
    (A.lowered.stage_literals hlt)
    hm trivial
  have hcode := (A.lowered.stage_grows hlt).drop_code hnext.ready.sound.body hseg.code
  have hlength : ((S.given.stage p (st.frame.next + 1)).draft.body.code b).length
      = ((S.given.stage p st.frame.next).draft.body.code b).length + seg.length := by rw [hseg.code, List.length_append]
  have hne := List.ne_nil_of_length_pos hlen
  have hin : ∀ j, _ < j → j < _ + seg.length → ∀ c out, S.Within p fr below ⟨out, fr.to b j c :: below⟩ :=
    fun j h₁ h₂ => A.within hlt h₁ (hlength ▸ h₂)
  rw [A.step_eq hsame hst.func hi]
  refine A.segment hne hcode hin ?_
  generalize S.exec seg c out = e at hdoes
  generalize (Lowering.lower i : Direct Unit) S.setting st.store = r at hdoes
  cases hdoes with
  | trapped hhost => exact ⟨_, rfl, hhost ▸ .trapped⟩
  | @done c' out' _ δ' hm' _ _ =>
    dsimp only
    rw [hm'.flow]
    refine ⟨_, rfl, ⟨hst.func, hst.dst, hst.below⟩, b, _, c', out', rfl, ?_, Direct.Store.on hm'.flow ▸ hm'⟩
    rw [← hlength]
    exact A.lowered.starts_of_current (A.lowered.next_lt hi (Instr.isEnd_eq_false hcontrol)) hnext.ready.current

omit hsame hst in
theorem jump {t t' : BlockId} {st' : Direct.State} (hst' : st'.In fn dst rest)
    (hstore : st'.store = st.store)
    (hends : (S.given.stage p st.frame.next).draft.Ends b (.jump t []) t' (S.given.stage p (st.frame.next + 1)).draft)
    (hnext : S.Starts p st'.frame.next t 0) :
    S.Follows p fn dst rest fr below ⟨out, fr.to b n c :: below⟩ (.next st') := by
  have hcode := A.lowered.code_of_ends hb.lt hends
  rw [← hb.next] at hcode
  exact .of_next (A.step_jump hcode) ⟨_, rfl, hst', t, 0, c, out, rfl, hnext, hstore ▸ hm⟩

theorem jumpIf {cond : Reg} {l : Label} (hi : S.scope.func.body[st.frame.next]? = some (.jmpIf cond l)) :
    S.Follows p fn dst rest fr below ⟨out, fr.to b n c :: below⟩ (st.step S.given.program S.literals) := by
  obtain ⟨v, q, t, hrun, hlits, hends⟩ := A.lowered.ends_of_jumpIf hi hb.before
  have hend := A.lowered.code_of_ends hb.lt hends
  rw [A.step_eq hsame hst.func hi, show (Lowering.lower (.jmpIf cond l) : Direct Unit) = Direct.jumpIf cond l from rfl,
    Direct.jumpIf,
    Direct.bind_apply]
  refine A.ending (Realizes.value A.sound cond) hb hm hrun hlits hends (fun {ws δ c' out'} hvalue hm' hknown => ?_)
    fun hvalue hhost => ?_
  · rw [A.step_branch hend, Known.value_word hknown, hvalue]
    have hstore := Direct.Store.on hm'.flow ▸ hm'
    by_cases hzero : Direct.word ws ≠ 0
    · simp only [if_pos hzero]
      refine ⟨_, rfl, ⟨hst.func, hst.dst, hst.below⟩, _, 0, c', out', rfl, ?_, hstore⟩
      exact A.lowered.starts_target (A.lowered.fit.target (List.mem_of_getElem? hi) rfl)
    · simp only [if_neg hzero]
      show ∃ st', (st.load δ st.frame.next).follow _ _ _ δ.flow = .next st' ∧ S.Shows p fn dst rest fr below st' _
      rw [hm'.flow]
      exact ⟨_, rfl, ⟨hst.func, hst.dst, hst.below⟩, t, 0, c', out', rfl,
        A.lowered.starts_of_ends (A.lowered.next_lt hi rfl) hends, hstore⟩
  · rw [hvalue]
    exact ⟨_, rfl, hhost ▸ .trapped⟩

omit hsame hst in
theorem returns {src : Reg} (hi : S.scope.func.body[st.frame.next]? = some (.ret src)) {Q : CellState Context → Prop}
    {E : End Context → Prop}
    (hdone : ∀ {ws : List UInt64} {δ : Direct.Store} {c' : Cells} {out' : Outside Context},
      Direct.results src S.setting st.store = (.ok ws, δ) → ws.length = Kind.total S.scope.func.sig.returns →
      S.Matches δ c' out' →
        (CellState.deliver ws fr.results { out' with memory := out'.memory.pop fr.stack } below).Comes Q E)
    (htrap : ∀ {t : Trap} {δ : Direct.Store} {out' : Outside Context},
      Direct.results src S.setting st.store = (.error (.trap t), δ) →
      out'.host = δ.context → E (.trapped t out')) :
    Proceeds (CellState.step S.module Service.perform) (S.Within p fr below) Q E ⟨out, fr.to b n c :: below⟩ := by
  obtain ⟨vs, q, t, hrun, hlits, hends⟩ := A.ends_of_ret hi hb.before
  have hend := A.lowered.code_of_ends hb.lt hends
  have hreal := Realizes.results (K := Known.nothing S) A.sound A.lowered.fit
    (A.lowered.fit.typed (List.mem_of_getElem? hi))
  refine A.ending hreal hb hm hrun hlits hends (fun {ws δ c' out'} hresults hm' hknown => ?_) htrap
  have hbody : S.module.body? (fr.to b (q.draft.body.code b).length c').func = some S.body := A.body
  have hstep : CellState.step S.module Service.perform ⟨out', fr.to b (q.draft.body.code b).length c' :: below⟩
      = CellState.deliver (c'.words vs) fr.results { out' with memory := out'.memory.pop fr.stack } below :=
    CellState.step_of_code hbody hend out' below
  obtain ⟨wss, ⟨-, hwss, hlen⟩, rfl⟩ := hknown
  rw [hstep, Cells.words, List.flatMap_def, hwss]
  refine hdone hresults ?_ hm'
  rw [List.length_flatten, hlen, List.sum, List.foldr_map]
  rfl

end

section

variable (A : S.Active p fn fr) (hsame : S.Concurs fn st) {cst : CellState Context}
  (hshows : S.Shows p fn dst rest fr below st cst)

include A hsame hshows

theorem follows (hstay : ∀ i, S.scope.func.body[st.frame.next]? = some i → i.isTransfer = false) :
    S.Follows p fn dst rest fr below cst (st.step S.given.program S.literals) := by
  obtain ⟨hst, b, n, c, out, rfl, hb, hm⟩ := hshows
  obtain ⟨i, hi⟩ : ∃ i, S.scope.func.body[st.frame.next]? = some i := ⟨_, List.getElem?_eq_getElem hb.lt⟩
  have hstay := hstay i hi
  cases hcontrol : i.isControl with
  | false => exact A.straight hsame hst hb hm hi hcontrol (by cases i <;> first | rfl | cases hstay)
  | true =>
    cases i with
    | label l =>
      have hends := A.lowered.ends_of_label hi hb.before
      rw [A.step_eq hsame hst.func hi]
      exact A.jump hb hm ⟨hst.func, hst.dst, hst.below⟩ rfl hends
        (A.lowered.starts_of_ends (A.lowered.next_lt hi rfl) hends)
    | jmp l =>
      obtain ⟨t, hends⟩ := A.lowered.ends_of_jmp hi hb.before
      rw [A.step_eq hsame hst.func hi]
      exact A.jump hb hm ⟨hst.func, hst.dst, hst.below⟩ rfl hends
        (A.lowered.starts_target (A.lowered.fit.target (List.mem_of_getElem? hi) rfl))
    | jmpIf cond l => exact A.jumpIf hsame hst hb hm hi
    | ret => cases hstay
    | _ => cases hcontrol

end

end Site.Active

end RecordMill

import RecordMill.Proofs.Lowering.Entry
import RecordMill.Proofs.Lowering.Leaving

/-!
# Stages of lowering

The body of a function is lowered instruction by instruction. Where lowering stands before an instruction
is where its code starts, and all stages lead to the finished body.
-/

namespace RecordMill

open Machine (Kind Value VarId BlockId Block Body FuncDraft Build Inst Action)

theorem Machine.FuncDraft.blocks_add {b c : BlockId} (d : FuncDraft) (hc : c ≠ b) (a : Action) (ks : List Kind) :
    (d.add b a ks).body.blocks[c]? = d.body.blocks[c]? := by
  simp [add, Array.getElem?_modify, Ne.symm hc]

/-- The draft `d'` is `d` with `a` at the end of block `b`, and is then in block `t`, which has no code. -/
structure Machine.FuncDraft.Ends (b : BlockId) (a : Action) (t : BlockId) (d d' : FuncDraft) : Prop where
  grows : d.body.Grows d'.body
  code : d'.body.code b = d.body.code b ++ [⟨a, []⟩]
  current : d'.current = some t
  empty : d'.body.code t = []
  others : ∀ {c : BlockId}, c ≠ b → c ≠ t → d'.body.blocks[c]? = d.body.blocks[c]?

namespace Native

open Native.Fact (Gives)

def Fact.from (g : Body) : Fact := ⟨fun f => g.Grows f, fun h hf => hf.trans h⟩

variable {s : Surroundings} {V : List Kind} {K : Fact} {os : List BlockId} {b : BlockId} {p : Progress} {α β : Type}

theorem At.grown (hp : At s V K os b p) :
    At s V (K.and (.from p.draft.body)) os b p := { hp with known := ⟨hp.known, .refl _⟩ }

/-! ## Where control goes -/

theorem code_of_hollow {f : Body} {t : BlockId} (h : ∀ {x : Block}, f.blocks[t]? = some x → x.insts = #[]) :
    f.code t = [] := by
  cases ht : f.blocks[t]? with
  | none => simp [Body.code, Array.getD_eq_getD_getElem?, ht, Body.instsOf]
  | some x => simp [Body.code, Array.getD_eq_getD_getElem?, ht, Body.instsOf, h ht]

theorem At.code_add (hp : At s V K os b p) (a : Action) :
    (p.draft.add b a []).body.code b = p.draft.body.code b ++ [⟨a, []⟩] :=
  FuncDraft.code_add hp.opened.ready a []

theorem At.ends (hp : At s V K os b p) (a : Action) {t : BlockId} (ht : t ∈ os) :
    p.draft.Ends b a t { p.draft.add b a [] with current := some t } := by
  refine ⟨FuncDraft.grows_add hp.opened.ready.unfinished a [], hp.code_add a, rfl, code_of_hollow fun {x} hx => ?_,
    fun hc _ => p.draft.blocks_add hc a []⟩
  have hne : b ≠ t := fun e => hp.apart (e ▸ ht)
  refine hp.hollow t ht (x := x) ?_
  simpa [FuncDraft.add, Array.getElem?_modify, hne] using hx

theorem code_push {f : Body} {c : BlockId} (h : c < f.blocks.size) :
    ({ f with blocks := f.blocks.push {} } : Body).code c = f.code c := by
  simp only [Body.code, Array.getD_eq_getD_getElem?, Array.getElem?_push_lt h, Body.instsOf,
    Array.getElem?_eq_getElem h]

theorem unreachable_ends {d : FuncDraft} {a : Action} (hgrows : d.body.Grows p.draft.body)
    (hcode : p.draft.body.code b = d.body.code b ++ [⟨a, []⟩]) (hb : b < p.draft.body.blocks.size)
    (hothers : ∀ {c : BlockId}, c ≠ b → p.draft.body.blocks[c]? = d.body.blocks[c]?) :
    ∃ d' t, unreachable s p = (.ok (), ⟨d', p.literals⟩) ∧ d.Ends b a t d' := by
  refine ⟨⟨{ p.draft.body with blocks := p.draft.body.blocks.push {} }, some p.draft.body.blocks.size⟩,
    p.draft.body.blocks.size, ?_, hgrows.trans (.push _), ?_, rfl, code_of_hollow fun {x} hx => ?_, fun hc ht => ?_⟩
  · show (build Build.createBlock >>= fun c => build (Build.switchTo c)) s p = _
    rw [bind_apply, build_of_ok Build.createBlock_eq]
    exact build_of_ok (Build.switchTo_eq (by simp))
  · rw [← hcode]
    exact code_push hb
  · rw [Array.getElem?_push_size] at hx
    cases hx
    rfl
  · rw [← hothers hc, Array.getElem?_push, if_neg ht]

section

variable (hK : K.Gives (.labels s)) {l : Label} (hl : l ∈ s.scope.func.labels)

include hK hl

theorem label_ends (hp : At s V K (s.scope.block l :: os) b p) : ∃ d, label l s p = (.ok (), ⟨d, p.literals⟩)
    ∧ p.draft.Ends b (.jump (s.scope.block l) []) (s.scope.block l) d := by
  obtain ⟨x, hx, hparams⟩ := hp.enterable ((gives_block hK hl).of hp.known)
  refine ⟨{ p.draft.add b (.jump (s.scope.block l) []) [] with current := some (s.scope.block l) }, ?_,
    hp.ends _ (.head _)⟩
  show (do
    if !(← build Build.isTerminated) then build (Build.jump (s.scope.block l) [])
    build (Build.switchTo (s.scope.block l)) : Native Unit) s p = _
  rw [bind_apply, build_of_ok (Build.isTerminated_eq hp.opened.ready)]
  show (build (Build.jump (s.scope.block l) []) >>= fun _ => build (Build.switchTo (s.scope.block l))) s p = _
  rw [bind_apply, build_of_ok (Build.jump_eq hp.opened.ready hx hparams)]
  refine build_of_ok (Build.switchTo_eq ?_)
  simpa [FuncDraft.add] using hp.listed _ (.tail _ (.head _))

theorem jump_ends (hp : At s V K os b p) : ∃ d t, jump l s p = (.ok (), ⟨d, p.literals⟩)
    ∧ p.draft.Ends b (.jump (s.scope.block l) []) t d := by
  obtain ⟨x, hx, hparams⟩ := hp.enterable ((gives_block hK hl).of hp.known)
  obtain ⟨d, t, hrun, hends⟩ :=
    unreachable_ends (s := s) (p := ⟨p.draft.add b (.jump (s.scope.block l) []) [], p.literals⟩)
    (FuncDraft.grows_add hp.opened.ready.unfinished _ []) (hp.code_add _)
      (by simpa [FuncDraft.add] using hp.listed b (.head _))
    fun hc => p.draft.blocks_add hc _ []
  refine ⟨d, t, ?_, hends⟩
  show (build (Build.jump (s.scope.block l) []) >>= fun _ => unreachable) s p = _
  rw [bind_apply, build_of_ok (Build.jump_eq hp.opened.ready hx hparams)]
  exact hrun

theorem branch_ends (hp : At s V K os b p) (v : Value) : ∃ d t, (do
      let next ← build Build.createBlock
      build (Build.brif v ((← scope).block l) next)
      build (Build.switchTo next) : Native Unit) s p = (.ok (), ⟨d, p.literals⟩)
    ∧ p.draft.Ends b (.brif v (s.scope.block l) t) t d := by
  have hc := hp.created
  obtain ⟨x, hx, hparams⟩ := hc.enterable ((gives_block hK hl).of hc.known.1)
  obtain ⟨y, hy, hparams'⟩ := hc.enterable hc.known.2
  have hends := hc.ends (.brif v (s.scope.block l) p.draft.body.blocks.size) (.head _)
  refine ⟨_, _, ?_, (Machine.Body.Grows.push _).trans hends.grows, ?_, hends.current, hends.empty, fun hc ht => ?_⟩
  · rw [bind_apply, build_of_ok Build.createBlock_eq]
    show (build (Build.brif v (s.scope.block l) _) >>= fun _ => _) s _ = _
    rw [bind_apply, build_of_ok (Build.brif_eq hc.opened.ready v hx hparams hy hparams')]
    exact build_of_ok (Build.switchTo_eq (by simp [FuncDraft.add]))
  · rw [hends.code]
    exact congrArg (· ++ _) (code_push (hp.listed b (.head _)))
  · rw [hends.others hc ht, Array.getElem?_push, if_neg ht]

end

theorem ret_ends {vs : List Value} {p' : Progress} (hp : p.draft.Ready b)
    (h : (build (Build.ret vs) >>= fun _ => unreachable) s p = (.ok (), p')) :
    p'.literals = p.literals ∧ ∃ t, p.draft.Ends b (.ret vs) t p'.draft := by
  obtain ⟨_, q, hret, hrest⟩ := bind_eq_ok h
  obtain ⟨d, hd, rfl⟩ := build_eq_ok hret
  obtain ⟨c, hc, -, rfl⟩ := (Build.wp_ok (Build.ret_wp vs) hd).added
  obtain rfl : b = c := by simpa [hp.current] using hc
  obtain ⟨d, t, hrun, hends⟩ := unreachable_ends (s := s) (p := ⟨p.draft.add b (.ret vs) [], p.literals⟩)
    (FuncDraft.grows_add hp.unfinished _ []) (FuncDraft.code_add hp (.ret vs) []) (by simpa [FuncDraft.add] using hp.lt)
    fun hc => p.draft.blocks_add hc _ []
  rw [hrun] at hrest
  cases hrest
  exact ⟨rfl, t, hends⟩

/-! ## One instruction after another -/

/-- What is known of the body of a function that is being lowered. -/
def Fact.ground (s : Surroundings) : Fact := (Fact.vars s).and (.labels s)

end Native

namespace Surroundings

open Native (At Fact Passes pending)

/-- How far lowering is before the instruction with an index, when it starts at `p`. -/
def stage (s : Surroundings) (p : Progress) : Nat → Progress
  | 0 => p
  | k + 1 => match s.scope.func.body[k]? with
    | some i => ((Lowering.lower i : Native Unit) s (stage s p k)).2
    | none => stage s p k

structure Before (s : Surroundings) (k : Nat) (b : BlockId) (p : Progress) : Prop where
  at_ : ∃ V, At s V (.ground s) (pending s (s.scope.func.body.drop k)) b p

variable {s : Surroundings} {p : Progress} {b : BlockId} {k : Nat} {i : Instr}

theorem Before.step (h : s.Fit) (hb : s.Before k b (s.stage p k)) (hi : s.scope.func.body[k]? = some i)
    (hop : i.unknown? = none) :
    (Lowering.lower i : Native Unit) s (s.stage p k) = (.ok (), s.stage p (k + 1))
      ∧ (∃ c, s.Before (k + 1) c (s.stage p (k + 1)))
      ∧ (s.stage p k).draft.body.Grows (s.stage p (k + 1)).draft.body
      ∧ (s.stage p k).literals <+: (s.stage p (k + 1)).literals := by
  obtain ⟨V, hat⟩ := hb
  have hdrop : s.scope.func.body.drop k = i :: s.scope.func.body.drop (k + 1) := by
    obtain ⟨hlt, rfl⟩ := List.getElem?_eq_some_iff.1 hi
    exact List.drop_eq_getElem_cons hlt
  have hnew : (pending s (i :: s.scope.func.body.drop (k + 1))).Nodup := by
    rw [← hdrop]
    have hall : (pending s s.scope.func.body).Nodup := by
      rw [Native.pending_body h]
      exact List.nodup_range'
    exact hall.sublist (((List.drop_sublist k s.scope.func.body).filterMap _).map _)
  rw [hdrop] at hat
  obtain ⟨_, p', hrun, ⟨c, hat'⟩, hl⟩ :=
    (Passes.instr h (.left (.fst .refl)) (.left .last) (List.mem_of_getElem? hi) hop hnew).run hat.grown
  have hstage : s.stage p (k + 1) = p' := by
    rw [stage, hi]
    dsimp only
    rw [hrun]
  rw [hstage]
  exact ⟨hrun, ⟨c, V, hat'.weaken (.left .refl)⟩, hat'.known.2, hl⟩

section

variable (h : s.Fit) {c : BlockId} (h₀ : s.Before 0 c p) (hall : ∀ i ∈ s.scope.func.body, i.unknown? = none)

include h h₀ hall

theorem before_stage (hk : k ≤ s.scope.func.body.length) : ∃ b, s.Before k b (s.stage p k) := by
  induction k with
  | zero => exact ⟨c, h₀⟩
  | succ k ih =>
    obtain ⟨b, hb⟩ := ih (Nat.le_of_succ_le hk)
    have hi := List.getElem?_eq_getElem (show k < s.scope.func.body.length from hk)
    exact (hb.step h hi (hall _ (List.mem_of_getElem? hi))).2.1

theorem lower_stage (hi : s.scope.func.body[k]? = some i) :
    (Lowering.lower i : Native Unit) s (s.stage p k) = (.ok (), s.stage p (k + 1)) := by
  obtain ⟨b, hb⟩ := before_stage h h₀ hall (Nat.le_of_lt (List.getElem?_eq_some_iff.1 hi).1)
  exact (hb.step h hi (hall _ (List.mem_of_getElem? hi))).1

theorem stage_grows {j : Nat} (hkj : k ≤ j) (hj : j ≤ s.scope.func.body.length) :
    (s.stage p k).draft.body.Grows (s.stage p j).draft.body ∧ (s.stage p k).literals <+: (s.stage p j).literals := by
  obtain ⟨d, rfl⟩ := Nat.exists_eq_add_of_le hkj
  induction d with
  | zero => exact ⟨.refl _, List.prefix_rfl⟩
  | succ d ih =>
    obtain ⟨hgrows, hlits⟩ := ih (Nat.le_add_right ..) (Nat.le_of_succ_le hj)
    obtain ⟨b, hb⟩ := before_stage h h₀ hall (Nat.le_of_succ_le hj)
    have hi := List.getElem?_eq_getElem (show k + d < s.scope.func.body.length from hj)
    obtain ⟨-, -, hgrows', hlits'⟩ := hb.step h hi (hall _ (List.mem_of_getElem? hi))
    exact ⟨hgrows.trans hgrows', hlits.trans hlits'⟩

theorem lowerAll_stage (hk : k ≤ s.scope.func.body.length) (n : Nat) :
    Declared.lowerAll s n (s.scope.func.body.drop k) (s.stage p k) = .ok (s.stage p s.scope.func.body.length) := by
  induction hm : s.scope.func.body.length - k generalizing k n with
  | zero =>
    obtain rfl : k = s.scope.func.body.length := by omega
    rw [List.drop_length]
    rfl
  | succ m ih =>
    have hlt : k < s.scope.func.body.length := by omega
    rw [List.drop_eq_getElem_cons hlt, Declared.lowerAll, Declared.advance,
      lower_stage h h₀ hall (List.getElem?_eq_getElem hlt)]
    exact ih hlt (n + 1) (by omega)

end

end Surroundings

end RecordMill

import RecordMill.Proofs.Lowering.Constants
import RecordMill.Proofs.Lowering.Straight
import RecordMill.Proofs.Machine.Agreement

/-!
# What lowering takes

Only arguments that are printed take stack slots, one for each instruction. Apart from empty ones only text literals
become text constants, and only long ones take a place in the table. All values have kinds, and no jump passes
arguments. -/

namespace RecordMill

open Machine (Kind Value VarId BlockId Block Body FuncDraft Build Inst Action Callee FuncDecl RefId FuncId)

namespace Machine

def Module.Returns {ι : Type} (m : Module ι) : Prop :=
  ∀ {id : FuncId} {e : FuncDecl ι}, m.funcs[id]? = some e → ∀ k ∈ e.sig.returns, k ≠ .invalid

structure Body.Proper (f : Body) : Prop where
  values : ∀ k ∈ f.values, k ≠ .invalid
  returns : ∀ c ∈ f.callees, ∀ k ∈ c.sig.returns, k ≠ .invalid
  jumps : ∀ i ∈ f.insts, ∀ {b : BlockId} {args : List Value}, i.action = .jump b args →
    args = [] ∧ ∃ x, f.blocks[b]? = some x ∧ x.params = []

theorem Body.Proper.jumpsMatch {f : Body} (h : f.Proper) : f.JumpsMatch := by
  intro i hi
  unfold Action.matchesEntry
  split
  · next b args ha =>
    obtain ⟨rfl, x, hx, hparams⟩ := h.jumps i hi ha
    simp [Array.getD_eq_getD_getElem?, hx, hparams]
  · rfl

namespace FuncDraft

variable {d : FuncDraft} {b : BlockId} {a : Action} {ks : List Kind}

theorem params_add {c : BlockId} {x : Block} (hc : d.body.blocks[c]? = some x) :
    ∃ y, (d.add b a ks).body.blocks[c]? = some y ∧ y.params = x.params := by
  simp only [add, Array.getElem?_modify, hc]
  split
  · exact ⟨_, rfl, rfl⟩
  · exact ⟨_, rfl, rfl⟩

theorem toList_add :
    (d.add b a ks).body.insts.toList = d.body.insts.toList ++ [⟨a, List.range' d.body.values.size ks.length⟩] :=
  Array.toList_push

theorem proper_add (h : d.body.Proper) (hk : ∀ k ∈ ks, k ≠ .invalid)
    (ha : ∀ {t : BlockId} {args : List Value}, a = .jump t args → args = [] ∧ ∃ x, d.body.blocks[t]? = some x
      ∧ x.params = []) :
    (d.add b a ks).body.Proper where
  values k hmem := by
    simp only [add, Array.mem_append, List.mem_toArray] at hmem
    exact hmem.elim (h.values k) (hk k)
  returns := h.returns
  jumps i hi t args hjump := by
    have hold : args = [] ∧ ∃ x, d.body.blocks[t]? = some x ∧ x.params = [] := by
      simp only [add, Array.mem_push] at hi
      rcases hi with hi | rfl
      · exact h.jumps i hi hjump
      · exact ha hjump
    obtain ⟨hargs, x, hx, hparams⟩ := hold
    obtain ⟨y, hy, heq⟩ := params_add hx
    exact ⟨hargs, y, hy, heq.trans hparams⟩

end FuncDraft

namespace Build

variable {α β : Type}

/-- The operation adds no pair. -/
class Pairless (o : Build α) : Prop where
  pairless : ∀ {d d' : FuncDraft} {a : α}, o d = (.ok a, d') →
    ∃ is, d'.body.insts.toList = d.body.insts.toList ++ is ∧ ∀ i ∈ is, ∀ v w, i.action ≠ .concat v w

theorem Pairless.of_same {o : Build α}
    (h : ∀ {d d' : FuncDraft} {a : α}, o d = (.ok a, d') → d'.body.insts = d.body.insts) : Pairless o where
  pairless hrun := ⟨[], by rw [h hrun, List.append_nil], by simp⟩

/-- The operation takes no slot and adds no pair, and what it adds is proper. -/
class Plain (o : Build α) : Prop extends Pairless o where
  keeps : ∀ {d d' : FuncDraft} {a : α}, o d = (.ok a, d') → d.body.Proper → d'.body.Proper
    ∧ d'.body.slots = d.body.slots

namespace Plain

/-- An instruction that is neither a jump nor a pair and has results of some kind. -/
theorem of_some {o : Build α} {a : β → Action} {ks : β → List Kind} {r : α → List Value}
    {E : FuncDraft → FuncDraft → Prop} (h : ∀ d, o.wp d (fun v d' => ∃ x, d.Appends (a x) (ks x) (r v) d') (E d))
    (hk : ∀ {f x}, Body.Proper f → (a x).Fits f (ks x) → ∀ k ∈ ks x, k ≠ .invalid)
    (hjump : ∀ x t args, a x ≠ .jump t args) (hpair : ∀ x v w, a x ≠ .concat v w) : Plain o where
  pairless hrun := by
    obtain ⟨x, happ⟩ := wp_ok (h _) hrun
    obtain ⟨b, -, -, rfl⟩ := happ.added
    exact ⟨_, FuncDraft.toList_add, List.forall_mem_singleton.2 (hpair x)⟩
  keeps hrun hd := by
    obtain ⟨x, happ⟩ := wp_ok (h _) hrun
    obtain ⟨b, -, -, rfl⟩ := happ.added
    exact ⟨FuncDraft.proper_add hd (hk hd happ.fits) fun e => absurd e (hjump _ _ _), rfl⟩

theorem of_appends {o : Build α} {a : Action} {ks : List Kind} {r : α → List Value} {E : FuncDraft → FuncDraft → Prop}
    (h : ∀ d, o.wp d (fun v d' => d.Appends a ks (r v) d') (E d))
    (hk : ∀ {f}, Body.Proper f → a.Fits f ks → ∀ k ∈ ks, k ≠ .invalid) (hjump : ∀ t args, a ≠ .jump t args)
    (hpair : ∀ v w, a ≠ .concat v w) : Plain o := by
  have hone : ∀ d, o.wp d (fun v d' => ∃ _ : Unit, d.Appends a ks (r v) d') (E d) :=
    fun d => wp_mono (h d) (fun _ _ happ => ⟨(), happ⟩) fun _ h => h
  exact of_some hone hk (fun _ => hjump) fun _ => hpair

theorem valid_word {k : Kind} (h : k.IsWord) : ∀ j ∈ [k], j ≠ .invalid := by
  rcases h with rfl | rfl <;> simp

/-- What changes neither values nor instructions, and no block that is there. -/
theorem of_same {o : Build α} (h : ∀ {d d' : FuncDraft} {a : α}, o d = (.ok a, d') → d'.body.values = d.body.values
    ∧ d'.body.insts = d.body.insts ∧ d'.body.callees = d.body.callees ∧ d'.body.slots = d.body.slots
    ∧ ∀ {b : Nat} {x : Block}, d.body.blocks[b]? = some x → d'.body.blocks[b]? = some x) : Plain o where
  toPairless := .of_same fun hrun => (h hrun).2.1
  keeps hrun hd := by
    obtain ⟨hvalues, hinsts, hcallees, hslots, hblocks⟩ := h hrun
    refine ⟨⟨hvalues ▸ hd.values, hcallees ▸ hd.returns, fun i hi t args hjump => ?_⟩, hslots⟩
    obtain ⟨hargs, x, hx, hparams⟩ := hd.jumps i (hinsts ▸ hi) hjump
    exact ⟨hargs, x, hblocks hx, hparams⟩

instance (k : Kind) (n : Int64) :
    Plain (iconst k n) := of_appends (fun _ => iconst_wp k n) (fun _ h => valid_word h.2) nofun nofun

instance (w : UInt64) : Plain (fconst w) := of_appends (fun _ => fconst_wp w) (by simp) nofun nofun

instance (op : IntOp) (x y : Value) :
    Plain (int op x y) := of_some (fun _ => int_wp op x y) (fun _ h => valid_word h.2.1) nofun nofun

instance (op : ShiftOp) (x y : Value) :
    Plain (shift op x y) := of_appends (fun _ => shift_wp op x y) (by simp) nofun nofun

instance (op : IntUnary) (x : Value) : Plain (intUnary op x) :=
  of_some (fun _ => intUnary_wp op x) (fun _ h => valid_word h.2.1) nofun nofun

instance (op : FloatOp) (x y : Value) :
    Plain (float op x y) := of_appends (fun _ => float_wp op x y) (by simp) nofun nofun

instance (op : FloatUnary) (x : Value) :
    Plain (floatUnary op x) := of_appends (fun _ => floatUnary_wp op x) (by simp) nofun nofun

instance (c : IntCond) (x y : Value) : Plain (icmp c x y) := of_some (fun _ => icmp_wp c x y) (by simp) nofun nofun

instance (c : FloatCond) (x y : Value) : Plain (fcmp c x y) := of_appends (fun _ => fcmp_wp c x y) (by simp) nofun nofun

instance (x : Value) : Plain (bint .i64 x) := of_appends (fun _ => bint_wp .i64 x) (by simp) nofun nofun

instance (x : Value) : Plain (toInt .i64 x) := of_appends (fun _ => toInt_wp .i64 x) (by simp) nofun nofun

instance (x : Value) : Plain (ofInt .f64 x) := of_some (fun _ => ofInt_wp .f64 x) (by simp) nofun nofun

theorem load {k : Kind} (hk : k ≠ .invalid) (p : Value) (off : Int32) : Plain (load k p off) :=
  of_appends (fun _ => load_wp k p off) (fun _ _ => by simpa using hk) nofun nofun

instance (x p : Value) (off : Int32) :
    Plain (store x p off) := of_some (fun _ => store_wp x p off) (by simp) nofun nofun

instance (s : Machine.SlotId) (off : Int32) :
    Plain (stackAddr .i64 s off) := of_appends (fun _ => stackAddr_wp .i64 s off) (by simp) nofun nofun

instance (v : VarId) : Plain (useVar v) := of_some (fun _ => useVar_wp v) (fun _ h => by simpa using h.2.1) nofun nofun

instance (v : VarId) (x : Value) : Plain (defVar v x) := of_some (fun _ => defVar_wp v x) (by simp) nofun nofun

instance (r : RefId) (args : List Value) : Plain (call r args) :=
  of_some (fun _ => wp_mono (call_wp r args) (fun _ _ ⟨c, hc, h⟩ => ⟨c, h⟩) fun _ h => h) (fun {f c} hf h => by
    obtain ⟨c', hc', hks, -⟩ := h
    rw [hks]
    exact hf.returns c' (Array.mem_of_getElem? hc')) nofun nofun

instance (c : Value) (b e : BlockId) : Plain (brif c b e) := of_appends (fun _ => brif_wp c b e) (by simp) nofun nofun

instance (vs : List Value) : Plain (ret vs) := of_appends (fun _ => ret_wp vs) (by simp) nofun nofun

instance : Plain createBlock := of_same fun h => by
  cases h
  refine ⟨rfl, rfl, rfl, rfl, fun {b x} hx => ?_⟩
  obtain ⟨hlt, rfl⟩ := Array.getElem?_eq_some_iff.1 hx
  exact Array.getElem?_push_lt hlt

instance (b : BlockId) : Plain (switchTo b) := of_same fun {d d' a} h => by
  have hwp : (switchTo b).wp d (fun _ e => e.body = d.body) fun _ => True := by
    simp only [switchTo, wp_bind, wp_get]
    split <;> simp
  rw [wp_ok hwp h]
  exact ⟨rfl, rfl, rfl, rfl, id⟩

instance : Plain isTerminated := of_same fun h => by
  cases h
  exact ⟨rfl, rfl, rfl, rfl, id⟩

instance (b : BlockId) : Plain (blockParams b) := of_same fun {d d' a} h => by
  have hwp : (blockParams b).wp d (fun _ e => e = d) fun _ => True := by
    simp only [blockParams, wp_bind, wp_get]
    split <;> simp
  rw [wp_ok hwp h]
  exact ⟨rfl, rfl, rfl, rfl, id⟩

instance (v : VarId) (k : Kind) : Plain (declareVar v k) := of_same fun {d d' a} h => by
  have hwp : (declareVar v k).wp d (fun _ e => e.body.values = d.body.values ∧ e.body.insts = d.body.insts
      ∧ e.body.callees = d.body.callees ∧ e.body.slots = d.body.slots ∧ e.body.blocks
          = d.body.blocks) fun _ => True := by
    simp only [declareVar, wp_bind, wp_get, wp_modifyBody]
    split <;> simp
  obtain ⟨hvalues, hinsts, hcallees, hslots, hblocks⟩ := wp_ok hwp h
  exact ⟨hvalues, hinsts, hcallees, hslots, fun hx => hblocks ▸ hx⟩

theorem added_of_jump {b : BlockId} {d d' : FuncDraft} {u : Unit} (h : jump b [] d = (.ok u, d')) :
    ∃ c x, d' = d.add c (.jump b []) [] ∧ d.body.blocks[b]? = some x ∧ x.params = [] := by
  have hentry : (checkEntry b []).wp d (fun _ d' => d' = d ∧ ∃ x, d.body.blocks[b]? = some x
      ∧ x.params = []) fun _ => True := by
    simp only [checkEntry, wp_bind, wp_get]
    split
    · trivial
    · next x hx =>
      split
      · trivial
      · next hn =>
        exact ⟨rfl, x, hx, List.length_eq_zero_iff.1 (by simpa using hn)⟩
  suffices hwp : (jump b []).wp d (fun _ d' => ∃ c x, d' = d.add c (.jump b []) [] ∧ d.body.blocks[b]? = some x
    ∧ x.params = [])
      fun _ => True from wp_ok hwp h
  rw [jump, wp_bind]
  refine wp_mono hentry ?_ fun _ _ => trivial
  rintro _ d' ⟨rfl, x, hx, hparams⟩
  refine wp_mono (emit_wp (a := .jump b []) ⟨rfl, (Array.getElem?_eq_some_iff.1 hx).1⟩)
    (fun _ d₂ happ => ?_) fun _ _ => trivial
  obtain ⟨c, -, -, rfl⟩ := happ.added
  exact ⟨c, x, rfl, hx, hparams⟩

instance (b : BlockId) : Plain (jump b []) where
  pairless h := by
    obtain ⟨c, x, rfl, -⟩ := added_of_jump h
    exact ⟨_, FuncDraft.toList_add, List.forall_mem_singleton.2 nofun⟩
  keeps h hd := by
    obtain ⟨c, x, rfl, hx, hparams⟩ := added_of_jump h
    refine ⟨FuncDraft.proper_add hd (by simp) fun e => ?_, rfl⟩
    cases e
    exact ⟨rfl, x, hx, hparams⟩

end Plain

end Build

end Machine

/-! ## Lowering -/

namespace Native

variable {s : Surroundings} {α β : Type} {x : Native α} {ws ws' : List Int64} {ts ts' : List Bytes}

/-- Lowering that writes these texts. -/
class Adds (s : Surroundings) (ts : List Bytes) (x : Native α) : Prop where
  adds : ∀ {p p' : Progress} {a : α}, x s p = (.ok a, p') → Writes ts p p'

namespace Adds

theorem append {f : α → Native β} (hx : Adds s ts x) (hf : ∀ a, Adds s ts' (f a)) : Adds s (ts ++ ts') (x >>= f) where
  adds hrun := by
    obtain ⟨a, q, hxp, hfp⟩ := bind_eq_ok hrun
    exact (hx.adds hxp).trans ((hf a).adds hfp)

theorem after {f : α → Native β} (hx : Adds s [] x) (hf : ∀ a, Adds s ts (f a)) : Adds s ts (x >>= f) := append hx hf

theorem build {o : Build α} [h : Build.Pairless o] : Adds s [] (Native.build o) where
  adds hrun := by
    obtain ⟨d, ho, rfl⟩ := build_eq_ok hrun
    obtain ⟨is, hinsts, hpairs⟩ := h.pairless ho
    exact .of_none rfl hinsts hpairs

end Adds

/-- Lowering that takes stack slots of these sizes and writes these texts. -/
class Takes (s : Surroundings) (ws : List Int64) (ts : List Bytes) (x : Native α) : Prop extends Adds s ts x where
  keeps : ∀ {p p' : Progress} {a : α}, s.module.Returns → x s p = (.ok a, p') → p.draft.body.Proper →
    p'.draft.body.Proper ∧ p'.draft.body.slots = p.draft.body.slots ++ ws.toArray

/-- Lowering that takes no slot and writes no text, or only empty ones. -/
abbrev Plain (s : Surroundings) (x : Native α) : Prop := Takes s [] [] x

namespace Takes

theorem append {f : α → Native β} (hx : Takes s ws ts x) (hf : ∀ a, Takes s ws' ts' (f a)) :
    Takes s (ws ++ ws') (ts ++ ts') (x >>= f) where
  toAdds := hx.toAdds.append fun a => (hf a).toAdds
  keeps hs hrun hp := by
    obtain ⟨a, q, hxp, hfp⟩ := bind_eq_ok hrun
    obtain ⟨hq, hslots⟩ := hx.keeps hs hxp hp
    obtain ⟨hp', hslots'⟩ := (hf a).keeps hs hfp hq
    exact ⟨hp', by simp [hslots', hslots]⟩

theorem before {f : α → Native β} (hx : Takes s ws ts x) (hf : ∀ a, Plain s (f a)) : Takes s ws ts (x >>= f) := by
  simpa using append hx hf

theorem after {f : α → Native β} (hx : Plain s x) (hf : ∀ a, Takes s ws ts (f a)) :
    Takes s ws ts (x >>= f) := append hx hf

instance (a : α) : Plain s (pure a : Native α) where
  adds h := by cases h; exact .refl _
  keeps _ h hp := by cases h; exact ⟨hp, by simp⟩

instance (priority := low) {f : α → Native β} [hx : Plain s x] [hf : ∀ a, Plain s (f a)] :
    Plain s (x >>= f) := append hx hf

instance (e : Stop) : Takes s ws ts (throw e : Native α) where
  adds h := by cases h
  keeps _ h := by cases h

instance of_read {f : Surroundings → Native β} [h : Takes s ws ts (f s)] :
    Takes s ws ts ((MonadReaderOf.read : Native Surroundings) >>= f) where
  adds hrun := h.adds hrun
  keeps hs hrun := h.keeps hs hrun

instance of_scope {f : Scope → Native β} [h : Takes s ws ts (f s.scope)] : Takes s ws ts (scope >>= f) where
  adds hrun := h.adds hrun
  keeps hs hrun := h.keeps hs hrun

instance {c : Prop} [Decidable c] {y : Native α} [hx : Takes s ws ts x] [hy : Takes s ws ts y] :
    Takes s ws ts (if c then x else y) := by
  split
  · exact hx
  · exact hy

instance {o : Build α} [h : Build.Plain o] : Plain s (build o) where
  toAdds := .build
  keeps _ hrun hp := by
    obtain ⟨d, ho, rfl⟩ := build_eq_ok hrun
    simpa using h.keeps ho hp

instance {f : α → Native β} [∀ a, Plain s (f a)] (xs : List α) : Plain s (xs.mapM f) := by
  induction xs with
  | nil => exact inferInstanceAs (Plain s (pure []))
  | cons y ys ih =>
    rw [List.mapM_cons]
    infer_instance

instance {f : α → Native PUnit} [∀ a, Plain s (f a)] (xs : List α) : Plain s (xs.forM f) := by
  induction xs with
  | nil => exact inferInstanceAs (Plain s (pure _))
  | cons y ys ih =>
    have hone : Plain s (f y) := inferInstance
    exact append hone fun _ => ih

end Takes

/-! ### Services and constants -/

instance (r : Reg) (b : BindingProblem) :
    Takes s ws ts (fail r b : Native α) := inferInstanceAs (Takes s ws ts (throw _))

instance (m : Machine.Module Service) (id : FuncId) : Build.Pairless (m.importInto id) := .of_same fun {d d' a} h => by
  have hwp : (m.importInto id).wp d (fun _ d' => d'.body.insts = d.body.insts) fun _ => True := by
    unfold Machine.Module.importInto
    split
    · trivial
    · simp only [Build.wp_bind, Build.wp_get]
      split
      · rfl
      · simp only [Build.wp_bind, Build.wp_modifyBody, Build.wp_pure]
  exact Build.wp_ok hwp h

instance (id : FuncId) : Plain s (build (s.module.importInto id)) where
  toAdds := .build
  keeps {p p' r} hs hrun hp := by
    obtain ⟨d, ho, rfl⟩ := build_eq_ok hrun
    have hwp : (s.module.importInto id).wp p.draft (fun _ d' => d'.body.Proper
        ∧ d'.body.slots = p.draft.body.slots) fun _ => True := by
      unfold Machine.Module.importInto
      split
      · trivial
      · next e he =>
        simp only [Build.wp_bind, Build.wp_get]
        split
        · exact ⟨hp, rfl⟩
        · simp only [Build.wp_bind, Build.wp_modifyBody, Build.wp_pure]
          refine ⟨⟨hp.values, fun c hc k hk => ?_, hp.jumps⟩, trivial⟩
          rcases Array.mem_push.1 hc with hc | rfl
          · exact hp.returns c hc k hk
          · exact hs he k hk
    simpa using Build.wp_ok hwp ho

instance (sv : Service) (args : List Value) : Plain s (service sv args) := by
  unfold service
  refine Takes.of_read (h := ?_)
  dsimp only
  split <;> infer_instance

instance (sv : Service) (args : List Value) : Plain s (ask sv args) := by
  refine Takes.after (inferInstanceAs (Plain s (service sv args))) fun vs => ?_
  split <;> infer_instance

instance (sv : Service) (args : List Value) : Plain s (tell sv args) := by
  unfold tell
  infer_instance

instance : Plain s context := by
  unfold context
  infer_instance

instance (n : Int64) : Plain s (constInt n) := by
  unfold constInt
  infer_instance

instance (w : UInt64) : Plain s (constWord w) := by
  unfold constWord
  infer_instance

instance (x : Float) : Plain s (constFloat x) := by
  unfold constFloat
  infer_instance

theorem packed_eq_ok {q : Packed} {p p' : Progress} {v : Value} (h : packed q s p = (.ok v, p')) : ∃ b c e n,
    p'.draft = ((p.draft.add b (.iconst .i64 q.lo) [.i64]).add c (.iconst .i64 q.hi) [.i64]).add e
      (.concat n (n + 1)) [.i128]
      ∧ n = p.draft.body.values.size ∧ p'.literals = p.literals := by
  obtain ⟨lo, p₁, h₁, h⟩ := bind_eq_ok h
  obtain ⟨hi, p₂, h₂, h⟩ := bind_eq_ok h
  obtain ⟨d₃, ho₃, rfl⟩ := build_eq_ok h
  obtain ⟨d₂, ho₂, rfl⟩ := build_eq_ok (s := s) (o := Build.iconst .i64 q.hi.toInt64) h₂
  obtain ⟨d₁, ho₁, rfl⟩ := build_eq_ok (s := s) (o := Build.iconst .i64 q.lo.toInt64) h₁
  have happ₁ := Build.wp_ok (Build.iconst_wp _ _) ho₁
  have happ₂ := Build.wp_ok (Build.iconst_wp _ _) ho₂
  have happ₃ := Build.wp_ok (Build.iconcat_wp _ _) ho₃
  obtain ⟨b, -, -, rfl⟩ := happ₁.added
  obtain ⟨c, -, -, rfl⟩ := happ₂.added
  obtain ⟨e, -, -, rfl⟩ := happ₃.added
  obtain rfl : lo = p.draft.body.values.size := (List.cons.inj happ₁.results).1
  obtain rfl : hi = p.draft.body.values.size + 1 := by simpa [FuncDraft.add] using (List.cons.inj happ₂.results).1
  exact ⟨b, c, e, _, rfl, rfl, rfl⟩

theorem writes_packed {q : Packed} {p p' : Progress} {v : Value} {t : Bytes} (h : packed q s p = (.ok v, p'))
    (hq : q.Means p.literals t) : Writes [t] p p' := by
  obtain ⟨b, c, e, n, hdraft, rfl, hl⟩ := packed_eq_ok h
  refine ⟨?_, _, [t], [q], ?_, .cons t .nil, Machine.Pairs.one q p.draft.body.values.size (p.draft.body.values.size + 1)
    [p.draft.body.values.size + 2], ?_⟩
  · obtain ⟨n, -, hn⟩ := hq
    by_cases ht : Packed.maxInline < t.length
    · have hlong : long [t] = [t] := by simp [long, ht]
      rw [hl, hlong, extended_of_mem (List.mem_of_getElem? (hn ht))]
    · have hshort : long [t] = [] := by simp [long, ht]
      rw [hl, hshort, extended_nil]
  · rw [hdraft]
    simp [FuncDraft.add]
  · exact .cons (hl ▸ hq) .nil

theorem keeps_packed {q : Packed} {p p' : Progress} {v : Value} (h : packed q s p = (.ok v, p'))
    (hp : p.draft.body.Proper) :
    p'.draft.body.Proper ∧ p'.draft.body.slots = p.draft.body.slots := by
  obtain ⟨b, c, e, n, hdraft, -⟩ := packed_eq_ok h
  rw [hdraft]
  have hone : (p.draft.add b (.iconst .i64 q.lo) [.i64]).body.Proper := FuncDraft.proper_add hp (by simp) nofun
  have htwo : ((p.draft.add b (.iconst .i64 q.lo) [.i64]).add c (.iconst .i64 q.hi) [.i64]).body.Proper :=
    FuncDraft.proper_add hone (by simp) nofun
  exact ⟨FuncDraft.proper_add htwo (by simp) nofun, rfl⟩

instance : Plain s (packed .empty) where
  adds h := (writes_packed h Packed.means_empty).of_empty
  keeps _ h hp := by simpa using keeps_packed h hp

theorem literalIndex_eq_ok {t : Bytes} {p p' : Progress} {n : Nat} (h : literalIndex t s p = (.ok n, p')) :
    p'.draft = p.draft ∧ p'.literals = extended p.literals [t] ∧ p'.literals[n]? = some t := by
  rw [Emits.literalIndex_apply] at h
  cases hi : p.literals.idxOf? t with
  | some j =>
    rw [hi] at h
    cases h
    obtain ⟨hlt, hj, -⟩ := List.idxOf?_eq_some_iff.1 hi
    have hmem : p.literals[n]? = some t := List.getElem?_eq_some_iff.2 ⟨hlt, hj⟩
    exact ⟨rfl, (extended_of_mem (List.mem_of_getElem? hmem)).symm, hmem⟩
  | none =>
    rw [hi] at h
    cases h
    exact ⟨rfl, (if_neg (List.idxOf?_eq_none_iff.1 hi)).symm, by simp⟩

theorem takes_constStr (t : Bytes) : Takes s [] [t] (constStr t) := by
  unfold constStr Packed.inline?
  by_cases hle : t.length ≤ Packed.maxInline
  · rw [if_pos hle]
    exact {
      adds := fun h => writes_packed h (Packed.means_inline hle)
      keeps := fun _ h hp => by simpa using keeps_packed h hp }
  · rw [if_neg hle]
    have hlong : long [t] = [t] := by simpa [long] using hle
    refine { adds := fun {p p' v} h => ?_, keeps := fun _ h hp => ?_ }
    · obtain ⟨n, p₁, hindex, hpacked⟩ := bind_eq_ok h
      obtain ⟨hdraft, hl, hn⟩ := literalIndex_eq_ok hindex
      obtain ⟨hliterals, hinsts⟩ := writes_packed hpacked ⟨n, rfl, fun _ => hn⟩
      rw [hdraft] at hinsts
      rw [hlong, extended_of_mem (List.mem_of_getElem? hn), hl] at hliterals
      exact ⟨hlong.symm ▸ hliterals, hinsts⟩
    · obtain ⟨n, p₁, hindex, hpacked⟩ := bind_eq_ok h
      obtain ⟨hdraft, -⟩ := literalIndex_eq_ok hindex
      rw [← hdraft] at hp ⊢
      simpa using keeps_packed hpacked hp

instance : Plain s (constStr []) where
  adds h := ((takes_constStr []).adds h).of_empty
  keeps := (takes_constStr []).keeps

instance (t : Ty) (v : Value) : Plain s (ref t v) := by
  unfold ref
  split <;> infer_instance

instance (t : Ty) (v : Value) : Plain s (drop t v) := by
  unfold drop
  split <;> infer_instance

instance (t : Ty) : Plain s (zero t) := by
  unfold zero
  split <;> infer_instance

/-! ### Registers -/

instance (t : Ty) (v : Value) : Plain s (loadFrom t v) := by
  unfold loadFrom kindOf
  cases hk : t.kind with
  | error e => exact inferInstanceAs (Plain s (throw e))
  | ok k =>
    have := Build.Plain.load (Ty.kind_eq hk ▸ t.words_ne_invalid) v 0
    exact inferInstanceAs (Plain s (build (Build.load k v 0)))

instance (t : Ty) (b : Binding) (v : Value) : Plain s (bindCounted t b v) := by
  unfold bindCounted
  infer_instance

instance (b : Binding) (v : Value) : Plain s (bindPlain b v) := by
  unfold bindPlain
  infer_instance

instance (r : Reg) (v : Value) : Plain s (bind r v) := by
  unfold bind
  split
  · infer_instance
  split
  · infer_instance
  refine Takes.of_scope (h := ?_)
  split <;> infer_instance

instance (r : Reg) : Plain s (value r) := by
  unfold value
  split
  · infer_instance
  split
  · infer_instance
  refine Takes.of_scope (h := ?_)
  split <;> infer_instance

instance (r : Reg) (v : Value) : Plain s (bindOwned r v) := by
  unfold bindOwned
  infer_instance

instance (t : Ty) (dst src : Nat) : Plain s (mov t dst src) := by
  unfold mov
  infer_instance

instance (dst : Reg) : Plain s (loaded dst) := by
  unfold loaded
  infer_instance

/-! ### Operations -/

instance (fn : MathFn) (args : List Value) : Plain s (applyMath fn args) := by
  unfold applyMath
  split
  · infer_instance
  · split <;> infer_instance

instance (float : Bool) (op : Arith) (args : List Value) : Plain s (applyArith float op args) := by
  unfold applyArith
  split
  all_goals first | infer_instance | (split <;> infer_instance)

instance (op : Bitwise) (args : List Value) : Plain s (applyBit op args) := by
  unfold applyBit
  split
  · infer_instance
  · cases op <;> simp only [bitOp?] <;> infer_instance
  · infer_instance

instance (op : ValueOp) (args : List Value) : Plain s (applyFitting op args) := by
  unfold applyFitting
  cases op with
  | compare float c => rcases float with _ | _ <;> rcases args with _ | ⟨x, _ | ⟨y, _ | _⟩⟩ <;> infer_instance
  | arith | bit | math | service | unknown => infer_instance
  | div | pow | floatToInt | intToFloat => rcases args with _ | ⟨x, _ | ⟨y, _ | _⟩⟩ <;> infer_instance

instance (op : ValueOp) (args : List Value) : Plain s (apply op args) := by
  unfold apply
  split <;> infer_instance

/-! ### Iterators -/

instance (r : Reg) : Plain s (cursor r) := by
  unfold cursor
  refine Takes.of_scope (h := ?_)
  split <;> infer_instance

instance (c : Cursor) : Plain s (dropKeys c) := by
  unfold dropKeys
  infer_instance

instance (r : Reg) (what : MapService) : Plain s (Lowering.mapService r what : Native Service) := by
  unfold Lowering.mapService
  split
  · infer_instance
  · exact inferInstanceAs (Plain s (throw _))

instance (dst map : Reg) : Plain s (iterBegin dst map) := by
  unfold iterBegin
  refine Takes.after inferInstance fun ⟨c, k⟩ => ?_
  infer_instance

instance (dst iter : Reg) : Plain s (iterHasNext dst iter) := by
  unfold iterHasNext
  refine Takes.after inferInstance fun ⟨c, k⟩ => ?_
  infer_instance

instance (dst iter : Reg) : Plain s (iterGetNext dst iter) := by
  unfold iterGetNext
  refine Takes.after inferInstance fun ⟨c, k⟩ => ?_
  infer_instance

/-! ### Printing -/

instance (out : Option Output) : Plain s (output out) := by
  unfold output
  split <;> infer_instance

theorem takes_argumentBlock (words : Nat) : Takes s [(max 1 words).toInt64] [] (argumentBlock words) := by
  have hslot : Takes s [(max 1 words).toInt64] [] (build (Build.createSlot (max 1 words).toInt64)) :=
    { adds := fun hrun => by
        cases hrun
        exact .of_none rfl (List.append_nil _).symm (by simp)
      keeps := fun _ hrun hp => by
        cases hrun
        exact ⟨⟨hp.values, hp.returns, hp.jumps⟩, by simp⟩ }
  exact hslot.before fun _ => inferInstance

instance (base : Value) (off : Nat) (args : List Reg) : Plain s (spillStrings base off args) := by
  induction args generalizing off with
  | nil => exact inferInstanceAs (Plain s (pure ()))
  | cons a rest ih =>
    unfold spillStrings
    have := ih (off + 16)
    infer_instance

instance (base : Value) (off : Nat) (args : List Reg) : Plain s (spillArgs base off args) := by
  induction args generalizing off with
  | nil => exact inferInstanceAs (Plain s (pure ()))
  | cons a rest ih =>
    unfold spillArgs
    have := ih (off + 24)
    infer_instance

theorem takes_formatBlock (args : List Reg) : Takes s [(max 1 (3 * args.length)).toInt64] [] (formatBlock args) :=
  (takes_argumentBlock _).before fun _ => inferInstance

instance (xs : List α) : Plain s (count xs) := by
  unfold count
  infer_instance

theorem takes_printAll (status : Reg) (out : Option Output) (args : List Reg) :
    Takes s [(max 1 (2 * args.length)).toInt64] [] (printAll status out args) :=
  .after inferInstance fun ⟨_, _⟩ => (takes_argumentBlock _).before fun _ => inferInstance

theorem takes_printf (status : Reg) (out : Option Output) (format : Reg) (args : List Reg) :
    Takes s [(max 1 (3 * args.length)).toInt64] [] (printf status out format args) :=
  .after inferInstance fun ⟨_, _⟩ => .after inferInstance fun _ => (takes_formatBlock args).before fun _ =>
    inferInstance

theorem takes_sprintf (dst format : Reg) (args : List Reg) :
    Takes s [(max 1 (3 * args.length)).toInt64] [] (sprintf dst format args) :=
  .after inferInstance fun _ => (takes_formatBlock args).before fun _ => inferInstance

/-! ### Control -/

instance : Plain s unreachable := by
  unfold unreachable
  infer_instance

instance (l : Label) : Plain s (label l) := by
  unfold label
  infer_instance

instance (l : Label) : Plain s (jump l) := by
  unfold jump
  infer_instance

instance (c : Reg) (l : Label) : Plain s (jumpIf c l) := by
  unfold jumpIf
  infer_instance

instance (dst : Reg) (fn : Int) (args : List Reg) : Plain s (call dst fn args) := by
  unfold call
  refine Takes.of_read (h := ?_)
  split
  · refine Takes.after inferInstance fun ctx => Takes.after inferInstance fun vs => Takes.after inferInstance fun r =>
      Takes.after inferInstance fun rs => ?_
    split <;> infer_instance
  · infer_instance

instance (g : Reg) : Plain s (releaseGlobal g) := by
  unfold releaseGlobal
  split
  · refine Takes.of_scope (h := ?_)
    split
    · infer_instance
    · refine Takes.after inferInstance fun q => Takes.after inferInstance fun v => Takes.after inferInstance fun _ => ?_
      split <;> infer_instance
  · infer_instance

instance : Plain s release := by
  unfold release
  infer_instance

instance (src : Reg) : Plain s (ret src) := by
  unfold ret
  infer_instance

end Native

/-! ### Instructions -/

namespace Instr

def slotWords : Instr → List Nat
  | .print _ args _ => [max 1 (2 * args.length)]
  | .printf _ _ args _ | .sprintf _ _ args => [max 1 (3 * args.length)]
  | _ => []

def slots (i : Instr) : List Int64 := i.slotWords.map Nat.toInt64

def texts : Instr → List Bytes
  | .constStr _ t => [t]
  | _ => []

end Instr

namespace Lowering

open Native (Plain Takes)

variable {s : Surroundings} {α : Type}

instance (r : Reg) (v : Value) : Plain s (Emitter.bind r v : Native Unit) := inferInstanceAs (Plain s (Native.bind r v))
instance (r : Reg) : Plain s (Emitter.value r : Native Value) := inferInstanceAs (Plain s (Native.value r))
instance : Plain s (Emitter.context : Native Value) := inferInstanceAs (Plain s Native.context)
instance (n : Int64) : Plain s (Emitter.constInt n : Native Value) := inferInstanceAs (Plain s (Native.constInt n))
instance (x : Float) : Plain s (Emitter.constFloat x : Native Value) := inferInstanceAs (Plain s (Native.constFloat x))
instance (op : ValueOp) (vs : List Value) : Plain s (Emitter.apply op vs : Native Value) :=
  inferInstanceAs (Plain s (Native.apply op vs))
instance (sv : Service) (vs : List Value) :
    Plain s (Emitter.perform sv vs : Native Unit) := inferInstanceAs (Plain s (Native.tell sv vs))
instance (r : Reg) : Plain s (Emitter.loaded r : Native Unit) := inferInstanceAs (Plain s (Native.loaded r))
instance (t : Ty) (v : Value) : Plain s (Emitter.drop t v : Native Unit) := inferInstanceAs (Plain s (Native.drop t v))

instance (e : LowerError) : Plain s (Lowering.fail e : Native α) := inferInstanceAs (Plain s (throw _))

instance (sv : Service) (vs : List Value) : Plain s (callService sv vs : Native Value) := by
  unfold callService
  infer_instance

instance (sv : Service) (vs : List Value) : Plain s (performService sv vs : Native Unit) := by
  unfold performService
  infer_instance

instance (r : Reg) (v : Value) : Plain s (bindOwned r v : Native Unit) := by
  unfold bindOwned
  infer_instance

instance (r : Reg) (sv : Service) (vs : List Value) : Plain s (bindResult r sv vs : Native Unit) := by
  unfold bindResult
  infer_instance

instance (r : Reg) (sv : Service) (rs : List Reg) : Plain s (bindService r sv rs : Native Unit) := by
  unfold bindService
  infer_instance

instance (sv : Service) (rs : List Reg) : Plain s (performOn sv rs : Native Unit) := by
  unfold performOn
  infer_instance

instance (d m : Reg) (what : MapService) (rs : List Reg) : Plain s (bindMapService d m what rs : Native Unit) := by
  unfold bindMapService
  infer_instance

instance (d : Reg) (op : ValueOp) (rs : List Reg) : Plain s (bindOp d op rs : Native Unit) := by
  unfold bindOp
  infer_instance

instance (rs : List Reg) (vs : List Value) : Plain s (toFloats rs vs : Native (List Value)) := by
  induction rs generalizing vs with
  | nil => exact inferInstanceAs (Plain s (pure vs))
  | cons r rs ih =>
    cases vs with
    | nil => exact inferInstanceAs (Plain s (pure []))
    | cons v vs =>
      unfold toFloats
      infer_instance

instance (d : Reg) (op : ValueOp) (rs : List Reg) : Plain s (bindFloatOp d op rs : Native Unit) := by
  unfold bindFloatOp
  infer_instance

instance (d : Reg) (op : Cmp) (l r : Reg) : Plain s (compare d op l r : Native Unit) := by
  unfold compare
  infer_instance

instance (d r : Reg) : Plain s (convert d r : Native Unit) := by
  unfold convert
  refine Takes.after inferInstance fun v => ?_
  split
  · infer_instance
  · split <;> infer_instance

instance (d : Reg) (v : Variable) : Plain s (loadVar d v : Native Unit) := by
  unfold loadVar
  infer_instance

instance (v : Variable) (r : Reg) : Plain s (storeVar v r : Native Unit) := by
  unfold storeVar
  infer_instance

theorem takes_lower (i : Instr) : Takes s i.slots i.texts (lower i : Native Unit) := by
  cases i with
  | constStr d t => exact (Native.takes_constStr t).before fun v => inferInstanceAs (Plain s (Native.bind d v))
  | print out args status => exact Native.takes_printAll status out args
  | printf out format args status => exact Native.takes_printf status out format args
  | sprintf d format args => exact Native.takes_sprintf d format args
  | mov d r => exact inferInstanceAs (Plain s (Native.mov d.ty d.id r.id))
  | iterBegin d m => exact inferInstanceAs (Plain s (Native.iterBegin d m))
  | iterHasNext d it => exact inferInstanceAs (Plain s (Native.iterHasNext d it))
  | iterGetNext d it => exact inferInstanceAs (Plain s (Native.iterGetNext d it))
  | label l => exact inferInstanceAs (Plain s (Native.label l))
  | jmp l => exact inferInstanceAs (Plain s (Native.jump l))
  | jmpIf c l => exact inferInstanceAs (Plain s (Native.jumpIf c l))
  | call d fn args => exact inferInstanceAs (Plain s (Native.call d fn args))
  | ret r => exact inferInstanceAs (Plain s (Native.ret r))
  | _ =>
    unfold lower
    exact inferInstanceAs (Plain s _)

end Lowering

/-! ### Entry and end -/

namespace Native

variable {s : Surroundings}

instance (t : Ty) : Plain s (kindOf t) := by
  unfold kindOf
  split <;> infer_instance

instance (r : Reg) : Plain s (declareLocal r) := by
  unfold declareLocal
  refine Takes.of_scope (h := ?_)
  split <;> infer_instance

instance (g : Reg) : Plain s (declareGlobal g) := by
  unfold declareGlobal
  refine Takes.of_read (h := ?_)
  split <;> infer_instance

instance (rs : List Reg) (vs : List Value) : Plain s (bindParams rs vs) := by
  induction rs generalizing vs with
  | nil => exact inferInstanceAs (Plain s (pure ()))
  | cons r rs ih =>
    cases vs with
    | nil => exact inferInstanceAs (Plain s (pure ()))
    | cons v vs =>
      unfold bindParams
      infer_instance

instance : Plain s finish := by
  unfold finish
  infer_instance

end Native

end RecordMill

import RecordMill.Proofs.Lowering.Realizes
import RecordMill.Proofs.Machine.Acceptance

/-!
# Lowering that does not stop

Straight-line lowering of what is well typed is never refused. It only adds instructions to the block it
is in, and its values have the kinds that they should have.
-/

namespace RecordMill

open Machine (Kind Value VarId RefId BlockId FuncId Body FuncDraft Build Action Callee FuncDecl Signature)

/-- What a function relies on that is not its own: services and functions are declared as they should be. -/
structure Surroundings.Apt (s : Surroundings) : Prop where
  services : ∀ sv : Service, ∃ id e, s.module.lookup? sv.name = some id ∧ s.module.funcs[id]? = some e ∧ e.sig = sv.sig
  funcs : ∀ {n : Int} {f : Func}, s.program.func? n = some f →
    ∃ id e, s.funcs[n.toNat]? = some id ∧ s.module.funcs[id]? = some e ∧ f.signature = .ok e.sig
  /-- A global is never taken for one that holds only literals. -/
  counted : ∀ {r : Reg} {b : Binding}, s.scope.binding? r = some b → b.isGlobal → b.isLiteral = false

namespace Native

/-! ## Facts about a body -/

/-- Something that stays true of a body that grows. -/
structure Fact where
  Holds : Body → Prop
  mono : ∀ {f g : Body}, f.Grows g → Holds f → Holds g

namespace Fact

def nothing : Fact := ⟨fun _ => True, fun _ _ => trivial⟩

def and (K L : Fact) : Fact := ⟨fun f => K.Holds f ∧ L.Holds f, fun h hf => ⟨K.mono h hf.1, L.mono h hf.2⟩⟩

def kinds (vs : List Value) (ks : List Kind) : Fact :=
  ⟨fun f => vs.map (f.values[·]?) = ks.map some, fun h hf => h.kinds hf⟩

def kind (v : Value) (k : Kind) : Fact := ⟨fun f => f.values[v]? = some k, fun h hf => h.values hf⟩

def var (v : VarId) (k : Kind) : Fact :=
  ⟨fun f => f.vars[v]? = some k ∧ k ≠ .invalid, fun h hf => ⟨h.vars hf.2 hf.1, hf.2⟩⟩

def vars (s : Surroundings) : Fact where
  Holds f := ∀ {pl v}, s.scope.var? pl = some v → f.vars[v]? = some (s.scope.kindOf pl) ∧ s.scope.kindOf pl ≠ .invalid
  mono h hf _ _ hv := ⟨h.vars (hf hv).2 (hf hv).1, (hf hv).2⟩

def slot (i : Nat) : Fact := ⟨fun f => i < f.slots.size, fun h hf => Nat.lt_of_lt_of_le hf h.slots_size⟩

def callee (r : RefId) (sig : Signature) : Fact :=
  ⟨fun f => ∃ c, f.callees[r]? = some c ∧ c.sig = sig, fun h ⟨c, hc, e⟩ => ⟨c, h.callees hc, e⟩⟩

/-- A fact follows from another. -/
structure Gives (K L : Fact) : Prop where
  of : ∀ {f : Body}, K.Holds f → L.Holds f

namespace Gives

variable {K L M : Fact}

theorem refl : K.Gives K := ⟨fun h => h⟩

theorem trans (h : K.Gives L) (h' : L.Gives M) : K.Gives M := ⟨fun hK => h'.of (h.of hK)⟩

theorem last : (K.and L).Gives L := ⟨fun h => h.2⟩

theorem left (h : K.Gives M) : (K.and L).Gives M := ⟨fun hK => h.of hK.1⟩

theorem fst (h : K.Gives (L.and M)) : K.Gives L := ⟨fun hK => (h.of hK).1⟩

theorem snd (h : K.Gives (L.and M)) : K.Gives M := ⟨fun hK => (h.of hK).2⟩

theorem nothing : K.Gives nothing := ⟨fun _ => trivial⟩

theorem kinds_nil : K.Gives (kinds [] []) := ⟨fun _ => rfl⟩

theorem kinds_cons {v : Value} {k : Kind} {vs : List Value} {ks : List Kind} (h : K.Gives (kind v k))
    (h' : K.Gives (kinds vs ks)) : K.Gives (kinds (v :: vs) (k :: ks)) :=
  ⟨fun hK => List.cons_eq_cons.2 ⟨h.of hK, h'.of hK⟩⟩

theorem kinds_one {v : Value} {k : Kind} (h : K.Gives (kind v k)) : K.Gives (kinds [v] [k]) := kinds_cons h kinds_nil

theorem kinds_head {v : Value} {k : Kind} {vs : List Value} {ks : List Kind} (h : K.Gives (kinds (v :: vs) (k :: ks))) :
    K.Gives (kind v k) :=
  ⟨fun hK => (List.cons.inj (h.of hK)).1⟩

theorem kinds_tail {v : Value} {k : Kind} {vs : List Value} {ks : List Kind} (h : K.Gives (kinds (v :: vs) (k :: ks))) :
    K.Gives (kinds vs ks) :=
  ⟨fun hK => (List.cons.inj (h.of hK)).2⟩

theorem of_vars {s : Surroundings} (h : K.Gives (vars s)) (pl : Place) {v : VarId} (hv : s.scope.var? pl = some v) :
    K.Gives (var v (s.scope.kindOf pl)) :=
  ⟨fun hK => h.of hK hv⟩

end Gives

end Fact

/-! ## Code that is added -/

variable {s : Surroundings}

/-- Instructions can be added to block `b`. -/
structure Open (s : Surroundings) (p : Progress) (b : BlockId) : Prop where
  ready : p.draft.Ready b
  tidy : p.draft.body.Tidy
  callees : ∀ {r : Nat} {c : Callee}, p.draft.body.callees[r]? = some c →
    ∃ e, s.module.funcs[c.id]? = some e ∧ e.sig = c.sig

/-- Instructions were added to block `b`, which is still open, and to no other. -/
structure Steps (s : Surroundings) (b : BlockId) (p p' : Progress) : Prop where
  opened : Open s p' b
  grows : p.draft.body.Grows p'.draft.body
  vars : p'.draft.body.vars = p.draft.body.vars
  others : ∀ {c : Nat}, c ≠ b → p'.draft.body.blocks[c]? = p.draft.body.blocks[c]?
  params : (p'.draft.body.blocks.getD b {}).params = (p.draft.body.blocks.getD b {}).params
  literals : p.literals <+: p'.literals

theorem Steps.refl {p : Progress} {b : BlockId} (h : Open s p b) : Steps s b p p :=
  ⟨h, .refl _, rfl, fun _ => rfl, rfl, List.prefix_rfl⟩

theorem Steps.trans {p p' p'' : Progress} {b : BlockId} (h : Steps s b p p') (h' : Steps s b p' p'') :
    Steps s b p p'' :=
  ⟨h'.opened, h.grows.trans h'.grows, h'.vars.trans h.vars, fun hc => (h'.others hc).trans (h.others hc),
    h'.params.trans h.params,
    h.literals.trans h'.literals⟩

theorem build_of_ok {α : Type} {o : Build α} {p : Progress} {a : α} {d : FuncDraft} (h : o p.draft = (.ok a, d)) :
    build o s p = (.ok a, ⟨d, p.literals⟩) := by
  rw [build_apply, h]

/-- Where `K` is known the lowering `x` only adds instructions, and `R` is known of what it gives. -/
structure Emits (s : Surroundings) {α : Type} (K : Fact) (x : Native α) (R : α → Fact) : Prop where
  run : ∀ {p : Progress} {b : BlockId}, Open s p b → K.Holds p.draft.body →
    ∃ a p', x s p = (.ok a, p') ∧ Steps s b p p' ∧ (R a).Holds p'.draft.body

namespace Emits

variable {α β : Type} {K L : Fact} {x : Native α} {R : α → Fact}

theorem pure {a : α} (h : K.Gives (R a)) : Emits s K (Pure.pure a) R :=
  ⟨fun hp hK => ⟨a, _, rfl, .refl hp, h.of hK⟩⟩

theorem bind {f : α → Native β} {T : β → Fact} (hx : Emits s K x R) (hf : ∀ a, Emits s (K.and (R a)) (f a) T) :
    Emits s K (x >>= f) T where
  run {p b} hp hK := by
    obtain ⟨a, p', hxp, hsteps, hR⟩ := hx.run hp hK
    obtain ⟨c, p'', hfp, hsteps', hT⟩ := (hf a).run hsteps.opened ⟨K.mono hsteps.grows hK, hR⟩
    refine ⟨c, p'', ?_, hsteps.trans hsteps', hT⟩
    rw [bind_apply, hxp]
    exact hfp

theorem weaken {T : α → Fact} (h : Emits s K x R) (hT : ∀ a, (R a).Gives (T a)) : Emits s K x T where
  run hp hK := by
    obtain ⟨a, p', hx, hsteps, hR⟩ := h.run hp hK
    exact ⟨a, p', hx, hsteps, (hT a).of hR⟩

theorem of_gives (h : Emits s K x R) (hL : L.Gives K) : Emits s L x R := ⟨fun hp hK => h.run hp (hL.of hK)⟩

theorem forM {xs : List β} {f : β → Native Unit} (h : ∀ y ∈ xs, Emits s K (f y) fun _ => .nothing) :
    Emits s K (xs.forM f) fun _ => .nothing := by
  induction xs with
  | nil => exact pure .nothing
  | cons y ys ih =>
    exact bind (h y (.head _)) fun _ => (ih fun z hz => h z (.tail _ hz)).of_gives (.left .refl)

theorem of_length {vs : List Value} {ks : List Kind} (hvs : K.Gives (.kinds vs ks))
    (h : vs.length = ks.length → Emits s K x R) : Emits s K x R :=
  ⟨fun hp hK => (h (by simpa using congrArg List.length (hvs.of hK))).run hp hK⟩

theorem of_single {vs : List Value} {k : Kind} (hvs : K.Gives (.kinds vs [k]))
    (h : ∀ v, vs = [v] → K.Gives (.kind v k) → Emits s K x R) : Emits s K x R :=
  of_length hvs fun hlen => by
    obtain ⟨v, rfl⟩ := List.length_eq_one_iff.1 hlen
    exact h v rfl hvs.kinds_head

theorem of_pair {vs : List Value} {j k : Kind} (hvs : K.Gives (.kinds vs [j, k]))
    (h : ∀ u v, vs = [u, v] → K.Gives (.kind u j) → K.Gives (.kind v k) → Emits s K x R) : Emits s K x R :=
  of_length hvs fun hlen => by
    obtain ⟨u, rest, rfl⟩ := List.exists_cons_of_length_eq_add_one hlen
    exact of_single hvs.kinds_tail fun v hv => h u v (by rw [hv]) hvs.kinds_head

theorem scope {f : Scope → Native β} {T : β → Fact} (h : Emits s K (f s.scope) T) : Emits s K (Native.scope >>= f) T :=
  ⟨fun hp hK => h.run hp hK⟩

theorem read {f : Surroundings → Native β} {T : β → Fact} (h : Emits s K (f s) T) :
    Emits s K ((MonadReaderOf.read : Native Surroundings) >>= f) T :=
  ⟨fun hp hK => h.run hp hK⟩

/-! ## Building -/

theorem of_add {o : Build α}
    (ho : ∀ {p : Progress} {b : BlockId}, Open s p b → K.Holds p.draft.body → ∃ a ks r,
      o p.draft = (.ok r, p.draft.add b a ks)
      ∧ a.Fits p.draft.body ks ∧ a.Known p.draft.body ∧ a.isTerminator = false
        ∧ (R r).Holds (p.draft.add b a ks).body) :
    Emits s K (build o) R := by
  refine ⟨fun {p b} hp hK => ?_⟩
  obtain ⟨a, ks, r, hrun, hfits, hknown, hstraight, hR⟩ := ho hp hK
  have hleads := hp.ready.sound.add hp.ready.unfinished hfits
  have hb := Array.getElem?_eq_getElem hp.ready.lt
  refine ⟨r, _, build_of_ok hrun, ⟨⟨?_, ?_, hp.callees⟩, hleads.grows, rfl, fun hc => ?_, ?_, List.prefix_rfl⟩, hR⟩
  · refine ⟨hleads.sound, hp.ready.current, ?_⟩
    simp [FuncDraft.add, Array.getD_eq_getD_getElem?, Array.getElem?_modify, hb, hstraight]
  · exact hp.tidy.add hp.ready hknown
  · simp [FuncDraft.add, Array.getElem?_modify, Ne.symm hc]
  · simp [FuncDraft.add, Array.getD_eq_getD_getElem?, Array.getElem?_modify, hb]

theorem of_change {o : Build α}
    (ho : ∀ {p : Progress} {b : BlockId}, Open s p b → K.Holds p.draft.body → ∃ r g,
      o p.draft = (.ok r, { p.draft with body := g })
      ∧ p.draft.body.Grows g ∧ g.vars = p.draft.body.vars ∧ g.insts = p.draft.body.insts
      ∧ g.blocks = p.draft.body.blocks
      ∧ (∀ {r : Nat} {c : Callee}, g.callees[r]? = some c → ∃ e, s.module.funcs[c.id]? = some e ∧ e.sig = c.sig)
      ∧ (R r).Holds g) :
    Emits s K (build o) R := by
  refine ⟨fun {p b} hp hK => ?_⟩
  obtain ⟨r, g, hrun, hgrows, hvars, hinsts, hblocks, hcallees, hR⟩ := ho hp hK
  have hleads := hp.ready.sound.leads hgrows hinsts fun e => .inr ⟨_, hblocks ▸ e, rfl⟩
  refine ⟨r, _, build_of_ok hrun,
    ⟨⟨⟨hleads.sound, hp.ready.current, ?_⟩, ?_, hcallees⟩, hgrows, hvars, fun _ => by rw [hblocks], by rw [hblocks],
      List.prefix_rfl⟩, hR⟩
  · rw [hblocks]
    exact hp.ready.unfinished
  · exact hp.tidy.of_same hgrows hinsts fun e => .inr ⟨_, hblocks ▸ e, rfl, rfl⟩

theorem kind_add {d : FuncDraft} {b : BlockId} {a : Action} {k : Kind} :
    (d.add b a [k]).body.values[d.body.values.size]? = some k := by
  simp [FuncDraft.add]

theorem kinds_add {d : FuncDraft} {b : BlockId} {a : Action} {ks : List Kind} :
    (List.range' d.body.values.size ks.length).map ((d.add b a ks).body.values[·]?) = ks.map some := by
  refine List.ext_getElem (by simp) fun i h₁ h₂ => ?_
  simp only [List.length_map, List.length_range'] at h₁
  simp [FuncDraft.add, h₁]

theorem known_of_kinds {f : Body} {a : Action} (ks : List Kind) (h : a.args.map (f.values[·]?) = ks.map some)
    (hc : ∀ c k x y, a = .icmp c k x y → (Machine.X86.condByte? c).isSome) : a.Known f := by
  refine ⟨fun v hv => ?_, hc⟩
  have hk : f.values[v]? ∈ ks.map some := h ▸ List.mem_map_of_mem hv
  obtain ⟨k, -, hk⟩ := List.mem_map.1 hk
  exact (Array.getElem?_eq_some_iff.1 hk.symm).1

section

variable {v u : Value} {k : Kind}

theorem iconst {n : Int64} (hk : k.IsWord) : Emits s K (build (Build.iconst k n)) fun v => .kind v k :=
  of_add fun hp _ => ⟨.iconst k (Build.constant k n), [k], _, Build.iconst_eq hp.ready hk n, ⟨rfl, hk⟩,
    ⟨by simp [Action.args], by simp⟩,
    rfl, kind_add⟩

theorem fconst (w : UInt64) : Emits s K (build (Build.fconst w)) fun v => .kind v .f64 :=
  of_add fun hp _ => ⟨.fconst w, [.f64], _, Build.one_eq hp.ready _ _, rfl, ⟨by simp [Action.args], by simp⟩,
    rfl, kind_add⟩

theorem binary {o : Build Value} {act : Action} {j k : Kind} (hargs : act.args = [v, u])
    (hterm : act.isTerminator = false) (hcond : ∀ c k x y, act = .icmp c k x y → (Machine.X86.condByte? c).isSome)
    (ho : ∀ {p : Progress} {b : BlockId}, Open s p b → p.draft.body.values[v]? = some j →
      p.draft.body.values[u]? = some j →
      o p.draft = (.ok p.draft.body.values.size, p.draft.add b act [k]) ∧ act.Fits p.draft.body [k])
    (hv : K.Gives (.kind v j)) (hu : K.Gives (.kind u j)) : Emits s K (build o) fun r => .kind r k := by
  refine of_add fun hp hK => ?_
  obtain ⟨hrun, hfits⟩ := ho hp (hv.of hK) (hu.of hK)
  refine ⟨_, _, _, hrun, hfits, known_of_kinds [j, j] ?_ hcond, hterm, kind_add⟩
  rw [hargs]
  exact ((hv.kinds_cons hu.kinds_one).of hK)

theorem unary {o : Build Value} {act : Action} {j k : Kind} (hargs : act.args = [v]) (hterm : act.isTerminator = false)
    (ho : ∀ {p : Progress} {b : BlockId}, Open s p b → p.draft.body.values[v]? = some j →
      o p.draft = (.ok p.draft.body.values.size, p.draft.add b act [k]) ∧ act.Fits p.draft.body [k])
    (hv : K.Gives (.kind v j)) : Emits s K (build o) fun r => .kind r k := by
  refine of_add fun hp hK => ?_
  obtain ⟨hrun, hfits⟩ := ho hp (hv.of hK)
  refine ⟨_, _, _, hrun, hfits,
    known_of_kinds [j] ?_ fun c k x y e => by simp [e, Action.args] at hargs, hterm, kind_add⟩
  rw [hargs]
  exact hv.kinds_one.of hK

theorem iconcat (hv : K.Gives (.kind v .i64)) (hu : K.Gives (.kind u .i64)) :
    Emits s K (build (Build.iconcat v u)) fun r => .kind r .i128 :=
  binary rfl rfl (by simp) (fun hp hx hy => ⟨Build.iconcat_eq hp.ready hx hy, rfl, hx, hy⟩) hv hu

theorem int (op : Machine.IntOp) (hv : K.Gives (.kind v .i64)) (hu : K.Gives (.kind u .i64)) :
    Emits s K (build (Build.int op v u)) fun r => .kind r .i64 :=
  binary rfl rfl (by simp) (fun hp hx hy => ⟨Build.int_eq hp.ready op (.inr rfl) hx hy, rfl, .inr rfl, hx, hy⟩) hv hu

theorem shift (op : Machine.ShiftOp) (hv : K.Gives (.kind v .i64)) (hu : K.Gives (.kind u .i64)) :
    Emits s K (build (Build.shift op v u)) fun r => .kind r .i64 :=
  binary rfl rfl (by simp) (fun hp hx hy => ⟨Build.shift_eq hp.ready op hx hy, rfl, hx, hy⟩) hv hu

theorem float (op : Machine.FloatOp) (hv : K.Gives (.kind v .f64)) (hu : K.Gives (.kind u .f64)) :
    Emits s K (build (Build.float op v u)) fun r => .kind r .f64 :=
  binary rfl rfl (by simp) (fun hp hx hy => ⟨Build.float_eq hp.ready op hx hy, rfl, hx, hy⟩) hv hu

theorem icmp {c : Machine.IntCond} (hc : (Machine.X86.condByte? c).isSome) (hv : K.Gives (.kind v .i64))
    (hu : K.Gives (.kind u .i64)) : Emits s K (build (Build.icmp c v u)) fun r => .kind r .b1 :=
  binary rfl rfl (fun c' _ _ _ e => by cases e; exact hc)
    (fun hp hx hy => ⟨Build.icmp_eq hp.ready c (.inr rfl) hx hy, rfl, .inr rfl, hx, hy⟩) hv hu

theorem fcmp (c : Machine.FloatCond) (hv : K.Gives (.kind v .f64)) (hu : K.Gives (.kind u .f64)) :
    Emits s K (build (Build.fcmp c v u)) fun r => .kind r .b1 :=
  binary rfl rfl (by simp) (fun hp hx hy => ⟨Build.fcmp_eq hp.ready c hx hy, rfl, hx, hy⟩) hv hu

theorem intUnary (op : Machine.IntUnary) (hv : K.Gives (.kind v .i64)) :
    Emits s K (build (Build.intUnary op v)) fun r => .kind r .i64 :=
  unary rfl rfl (fun hp hx => ⟨Build.intUnary_eq hp.ready op (.inr rfl) hx, rfl, .inr rfl, hx⟩) hv

theorem floatUnary (op : Machine.FloatUnary) (hv : K.Gives (.kind v .f64)) :
    Emits s K (build (Build.floatUnary op v)) fun r => .kind r .f64 :=
  unary rfl rfl (fun hp hx => ⟨Build.floatUnary_eq hp.ready op hx, rfl, hx⟩) hv

theorem bint (hv : K.Gives (.kind v .b1)) : Emits s K (build (Build.bint .i64 v)) fun r => .kind r .i64 :=
  unary rfl rfl (fun hp hx => ⟨Build.bint_eq hp.ready .i64 hx, rfl, hx⟩) hv

theorem toInt (hv : K.Gives (.kind v .f64)) : Emits s K (build (Build.toInt .i64 v)) fun r => .kind r .i64 :=
  unary rfl rfl (fun hp hx => ⟨Build.toInt_eq hp.ready .i64 hx, rfl, hx⟩) hv

theorem ofInt (hv : K.Gives (.kind v .i64)) : Emits s K (build (Build.ofInt .f64 v)) fun r => .kind r .f64 :=
  unary rfl rfl (fun hp hx => ⟨Build.ofInt_eq hp.ready .f64 (.inr rfl) hx, rfl, .i64, .inr rfl, hx, rfl⟩) hv

theorem load (k : Kind) (off : Int32) (hv : K.Gives (.kind v .i64)) :
    Emits s K (build (Build.load k v off)) fun r => .kind r k :=
  unary (show (Action.load k v off).args = [v] from rfl) rfl (fun hp _ => ⟨Build.one_eq hp.ready _ _, rfl⟩) hv

theorem store (off : Int32) (hv : K.Gives (.kind v k)) (hu : K.Gives (.kind u .i64)) :
    Emits s K (build (Build.store v u off)) fun _ => .nothing :=
  of_add fun hp hK => ⟨.store k v u off, [], (), Build.store_eq hp.ready (hv.of hK) u off, ⟨rfl, hv.of hK⟩,
    known_of_kinds [k, .i64] ((hv.kinds_cons hu.kinds_one).of hK) (by simp), rfl, trivial⟩

theorem useVar {x : VarId} (hx : K.Gives (.var x k)) : Emits s K (build (Build.useVar x)) fun r => .kind r k :=
  of_add fun hp hK => ⟨.useVar k x, [k], _, Build.useVar_eq hp.ready (hx.of hK).1 (hx.of hK).2,
    ⟨rfl, (hx.of hK).2, (hx.of hK).1⟩,
    ⟨by simp [Action.args], by simp⟩, rfl, kind_add⟩

theorem defVar {x : VarId} (hx : K.Gives (.var x k)) (hv : K.Gives (.kind v k)) :
    Emits s K (build (Build.defVar x v)) fun _ => .nothing :=
  of_add fun hp hK => ⟨.defVar k x v, [], (), Build.defVar_eq hp.ready (hx.of hK).1 (hx.of hK).2 (hv.of hK),
    ⟨rfl, (hx.of hK).2, (hx.of hK).1, hv.of hK⟩, known_of_kinds [k] (hv.kinds_one.of hK) (by simp), rfl, trivial⟩

theorem createSlot (w : Int64) : Emits s K (build (Build.createSlot w)) fun i => .slot i := by
  refine of_change fun {p b} hp _ =>
    ⟨p.draft.body.slots.size, { p.draft.body with slots := p.draft.body.slots.push w }, rfl, ?_,
    rfl, rfl, rfl, hp.callees, ?_⟩
  · refine { Machine.Body.Grows.refl p.draft.body with slots := fun {i x} e => ?_ }
    obtain ⟨hi, -⟩ := Array.getElem?_eq_some_iff.1 e
    simp only [Array.getElem?_push_lt hi, ← e, Array.getElem?_eq_getElem hi]
  · simp [Fact.slot]

theorem stackAddr {i : Nat} (hi : K.Gives (.slot i)) (off : Int32) :
    Emits s K (build (Build.stackAddr .i64 i off)) fun r => .kind r .i64 :=
  of_add fun hp hK => ⟨.stackAddr .i64 i off, [.i64], _, Build.stackAddr_eq hp.ready .i64 (hi.of hK) off,
    ⟨rfl, hi.of hK⟩,
    ⟨by simp [Action.args], by simp⟩, rfl, kind_add⟩

end

/-! ## Calls -/

theorem importInto_apply {id : FuncId} {e : FuncDecl Service} (hid : s.module.funcs[id]? = some e) (d : FuncDraft) :
    s.module.importInto id d = match d.body.callees.findIdx? (·.id == id) with
      | some r => (.ok r, d)
      | none =>
        (.ok d.body.callees.size,
          { d with body := { d.body with callees := d.body.callees.push { id, sig := e.sig } } }) := by
  unfold Machine.Module.importInto
  simp only [hid]
  rw [Build.get_bind]
  cases d.body.callees.findIdx? (·.id == id) <;> rfl

theorem importInto {id : FuncId} {e : FuncDecl Service} (hid : s.module.funcs[id]? = some e) :
    Emits s K (build (s.module.importInto id)) fun r => .callee r e.sig := by
  refine of_change fun {p b} hp _ => ?_
  rw [importInto_apply hid]
  cases hfound : p.draft.body.callees.findIdx? (·.id == id) with
  | some r =>
    refine ⟨r, p.draft.body, rfl, .refl _, rfl, rfl, rfl, hp.callees, ?_⟩
    obtain ⟨hr, hsame, -⟩ := Array.findIdx?_eq_some_iff_getElem.1 hfound
    have hc := Array.getElem?_eq_getElem hr
    obtain ⟨e', he', hsig⟩ := hp.callees hc
    rw [eq_of_beq hsame, hid] at he'
    cases he'
    exact ⟨_, hc, hsig.symm⟩
  | none =>
    refine ⟨_, _, rfl, { Machine.Body.Grows.refl p.draft.body with callees := fun {r c} he => ?_ }, rfl, rfl, rfl,
      fun {r c} he => ?_, ?_⟩
    · obtain ⟨hr, -⟩ := Array.getElem?_eq_some_iff.1 he
      simp only [Array.getElem?_push_lt hr, ← he, Array.getElem?_eq_getElem hr]
    · rw [Array.getElem?_push] at he
      split at he
      · cases he
        exact ⟨e, hid, rfl⟩
      · exact hp.callees he
    · exact ⟨{ id, sig := e.sig }, by simp, rfl⟩

theorem callRef {r : RefId} {sig : Signature} {args : List Value} (hr : K.Gives (.callee r sig))
    (hargs : K.Gives (.kinds args sig.params)) :
    Emits s K (build (Build.call r args)) fun vs => .kinds vs sig.returns := by
  refine of_add fun hp hK => ?_
  obtain ⟨c, hc, rfl⟩ := hr.of hK
  exact ⟨.call r args, c.sig.returns, _, Build.call_eq hp.ready hc (hargs.of hK), ⟨c, hc, rfl, hargs.of hK⟩,
    known_of_kinds c.sig.params (hargs.of hK) (by simp), rfl, kinds_add⟩

theorem service_apply (sv : Service) (args : List Value) (s : Surroundings) (p : Progress) :
    Native.service sv args s p = (match s.module.lookup? sv.name with
      | none => throw .outOfRange
      | some id => do
        let ref ← build (s.module.importInto id)
        build (Build.call ref args) : Native (List Value)) s p := rfl

section

variable (hs : s.Apt) {sv : Service} {args : List Value}

include hs

theorem service (hargs : K.Gives (.kinds args sv.sig.params)) :
    Emits s K (Native.service sv args) fun vs => .kinds vs sv.sig.returns := by
  obtain ⟨id, e, hid, he, hsig⟩ := hs.services sv
  have hbody : Emits s K (do
      let ref ← build (s.module.importInto id)
      build (Build.call ref args)) fun vs => .kinds vs sv.sig.returns := by
    rw [← hsig] at hargs ⊢
    exact bind (importInto he) fun _ => callRef .last hargs.left
  refine ⟨fun {p b} hp hK => ?_⟩
  obtain ⟨vs, p', hx, hsteps, hR⟩ := hbody.run hp hK
  refine ⟨vs, p', ?_, hsteps, hR⟩
  rw [service_apply, hid]
  exact hx

theorem ask {k : Kind} (hargs : K.Gives (.kinds args sv.sig.params)) (hk : sv.sig.returns = [k]) :
    Emits s K (Native.ask sv args) fun v => .kind v k := by
  refine ⟨fun {p b} hp hK => ?_⟩
  obtain ⟨vs, p', hx, hsteps, hR⟩ := (service hs hargs).run hp hK
  rw [hk] at hR
  obtain ⟨v, rfl⟩ : ∃ v, vs = [v] := List.length_eq_one_iff.1 (by simpa using congrArg List.length hR)
  refine ⟨v, p', ?_, hsteps, (List.cons.inj hR).1⟩
  rw [Native.ask, bind_apply, hx]
  rfl

theorem tell (hargs : K.Gives (.kinds args sv.sig.params)) : Emits s K (Native.tell sv args) fun _ => .nothing :=
  bind (service hs hargs) fun _ => pure .nothing

end

end Emits

end Native

end RecordMill

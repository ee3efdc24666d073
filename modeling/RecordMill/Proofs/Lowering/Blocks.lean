import RecordMill.Lowering.Compile
import RecordMill.Proofs.Lowering.Bindings

/-!
# Blocks are opened and ended

Lowering is always at one block without an end; beside it only the blocks of labels still to come have none.
So at the end of a function every block has one.
-/

namespace RecordMill

open Machine (Kind Value VarId BlockId Block Body FuncDraft Build Action Callee Signature)

theorem Machine.Body.Entered.grow {f g : Body} (h : f.Entered) (hg : f.Grows g) (hf : 0 < f.blocks.size)
    (hb : ∀ {c : Nat} {y : Block}, g.blocks[c]? = some y →
      0 < c ∧ y.params = [] ∨ ∃ x, f.blocks[c]? = some x ∧ x.params = y.params) : g.Entered := by
  constructor
  · have hx := Array.getElem?_eq_getElem hf
    obtain ⟨y, hy, -⟩ := hg.blocks hx
    rcases hb hy with ⟨h0, -⟩ | ⟨x, hx, hp⟩
    · exact absurd h0 (Nat.lt_irrefl 0)
    · have hparams := h.1
      simp only [Array.getD_eq_getD_getElem?, hx, hy, Option.getD_some] at hparams ⊢
      rw [← hp, hg.sig]
      exact hg.kinds hparams
  · intro c y hc hy
    rcases hb hy with ⟨-, hp⟩ | ⟨x, hx, hp⟩
    · exact hp
    · exact hp ▸ h.2 hc hx

theorem Machine.Body.Grows.push (f : Body) : f.Grows { f with blocks := f.blocks.push {} } :=
  .of_blocks fun {c x} hx => by
    obtain ⟨hc, -⟩ := Array.getElem?_eq_some_iff.1 hx
    refine ⟨x, ?_, List.prefix_rfl, List.prefix_rfl, fun ht => ⟨rfl, ht⟩⟩
    rw [Array.getElem?_push_lt hc, ← hx, Array.getElem?_eq_getElem hc]

namespace Native

def Fact.block (c : BlockId) : Fact :=
  ⟨fun f => 0 < c ∧ c < f.blocks.size, fun h hf => ⟨hf.1, Nat.lt_of_lt_of_le hf.2 h.blocks_size⟩⟩

def Fact.labels (s : Surroundings) : Fact where
  Holds f := ∀ l ∈ s.scope.func.labels, (Fact.block (s.scope.block l)).Holds f
  mono h hf l hl := (Fact.block _).mono h (hf l hl)

open Native.Fact (Gives)

/-! ## Where lowering is -/

/-- A body of which exactly the blocks `os` have no end. -/
structure Stands (s : Surroundings) (V : List Kind) (K : Fact) (os : List BlockId) (p : Progress) : Prop where
  sound : p.draft.Sound
  tidy : p.draft.body.Tidy
  callees : ∀ {r : Nat} {c : Callee}, p.draft.body.callees[r]? = some c →
    ∃ e, s.module.funcs[c.id]? = some e ∧ e.sig = c.sig
  entered : p.draft.body.Entered
  nonempty : 0 < p.draft.body.blocks.size
  opens : ∀ {c : Nat} {x : Block}, p.draft.body.blocks[c]? = some x → (x.terminated = false ↔ c ∈ os)
  listed : ∀ c ∈ os, c < p.draft.body.blocks.size
  sig : p.draft.body.sig = s.scope.func.sig
  vars : p.draft.body.vars.toList = V
  known : K.Holds p.draft.body

def Hollow (os : List BlockId) (p : Progress) : Prop :=
  ∀ c ∈ os, ∀ {x : Block}, p.draft.body.blocks[c]? = some x → x.insts = #[]

/-- Lowering is at block `b`, and the blocks `os` are still to come. -/
structure At (s : Surroundings) (V : List Kind) (K : Fact) (os : List BlockId) (b : BlockId) (p : Progress) : Prop
    extends Stands s V K (b :: os) p where
  current : p.draft.current = some b
  apart : b ∉ os
  hollow : Hollow os p

/-- Lowering has ended a block, and the blocks `os` are still to come. -/
structure Ended (s : Surroundings) (V : List Kind) (K : Fact) (os : List BlockId) (p : Progress) : Prop
    extends Stands s V K os p where
  hollow : Hollow os p

variable {s : Surroundings} {V : List Kind} {K L : Fact} {os : List BlockId} {b : BlockId} {p : Progress} {α β : Type}

theorem Stands.congr {os' : List BlockId} (h : Stands s V K os p) (hos : ∀ c, c ∈ os' ↔ c ∈ os) : Stands s V K os' p :=
  { h with
    opens := fun hx => (h.opens hx).trans (hos _).symm
    listed := fun c hc => h.listed c ((hos c).1 hc) }

theorem Stands.weaken (h : Stands s V K os p) (hL : K.Gives L) : Stands s V L os p := { h with known := hL.of h.known }

theorem Ended.weaken (h : Ended s V K os p) (hL : K.Gives L) : Ended s V L os p := { h with known := hL.of h.known }

theorem At.weaken (h : At s V K os b p) (hL : K.Gives L) : At s V L os b p := { h with known := hL.of h.known }

theorem At.opened (h : At s V K os b p) : Open s p b := by
  have hb := Array.getElem?_eq_getElem (h.listed b (.head _))
  refine ⟨⟨h.sound, h.current, ?_⟩, h.tidy, h.callees⟩
  simpa [Array.getD_eq_getD_getElem?, hb] using (h.opens hb).2 (.head _)

/-! ## Passages -/

/-- From where `P` holds the lowering `x` does not stop, and then `Q` holds. No literal is lost. -/
structure Passes (s : Surroundings) (P : Progress → Prop) (x : Native α) (Q : α → Progress → Prop) : Prop where
  run : ∀ {p : Progress}, P p → ∃ a p', x s p = (.ok a, p') ∧ Q a p' ∧ p.literals <+: p'.literals

namespace Passes

variable {P : Progress → Prop} {x : Native α} {Q : α → Progress → Prop}

theorem pure {a : α} (h : ∀ {p}, P p → Q a p) :
    Passes s P (Pure.pure a) Q := ⟨fun hp => ⟨a, _, rfl, h hp, List.prefix_rfl⟩⟩

theorem bind {f : α → Native β} {T : β → Progress → Prop} (hx : Passes s P x Q) (hf : ∀ a, Passes s (Q a) (f a) T) :
    Passes s P (x >>= f) T where
  run {p} hp := by
    obtain ⟨a, p', hxp, hQ, hl⟩ := hx.run hp
    obtain ⟨c, p'', hfp, hT, hl'⟩ := (hf a).run hQ
    refine ⟨c, p'', ?_, hT, hl.trans hl'⟩
    rw [bind_apply, hxp]
    exact hfp

theorem weaken {T : α → Progress → Prop} (h : Passes s P x Q) (hT : ∀ {a p}, Q a p → T a p) : Passes s P x T where
  run hp := by
    obtain ⟨a, p', hx, hQ, hl⟩ := h.run hp
    exact ⟨a, p', hx, hT hQ, hl⟩

theorem of_imp {P' : Progress → Prop} (h : Passes s P x Q) (hP : ∀ {p}, P' p → P p) : Passes s P' x Q :=
  ⟨fun hp => h.run (hP hp)⟩

theorem scope {f : Scope → Native β} {T : β → Progress → Prop} (h : Passes s P (f s.scope) T) :
    Passes s P (Native.scope >>= f) T :=
  ⟨fun hp => h.run hp⟩

theorem of_build {o : Build α} (h : ∀ {p}, P p → ∃ a d, o p.draft = (.ok a, d) ∧ Q a ⟨d, p.literals⟩) :
    Passes s P (build o) Q := by
  refine ⟨fun {p} hp => ?_⟩
  obtain ⟨a, d, hrun, hQ⟩ := h hp
  exact ⟨a, _, build_of_ok hrun, hQ, List.prefix_rfl⟩

end Passes

theorem At.steps {p' : Progress} (h : At s V K os b p) (hs : Steps s b p p') (hL : L.Holds p'.draft.body) :
    At s V L os b p' where
  sound := hs.opened.ready.sound
  tidy := hs.opened.tidy
  callees := hs.opened.callees
  nonempty := Nat.lt_of_lt_of_le h.nonempty hs.grows.blocks_size
  entered := by
    refine h.entered.grow hs.grows h.nonempty fun {c y} hy => .inr ?_
    by_cases hc : c = b
    · subst hc
      have hx := Array.getElem?_eq_getElem (h.listed c (.head _))
      exact ⟨_, hx, by simpa [Array.getD_eq_getD_getElem?, hx, hy] using hs.params.symm⟩
    · exact ⟨y, hs.others hc ▸ hy, rfl⟩
  opens {c x} hx := by
    by_cases hc : c = b
    · subst hc
      simpa [Array.getD_eq_getD_getElem?, hx] using hs.opened.ready.unfinished
    · exact h.opens (hs.others hc ▸ hx)
  listed c hc := Nat.lt_of_lt_of_le (h.listed c hc) hs.grows.blocks_size
  sig := hs.grows.sig.trans h.sig
  vars := by rw [hs.vars, h.vars]
  known := hL
  current := hs.opened.ready.current
  apart := h.apart
  hollow c hc x hx := h.hollow c hc (hs.others (fun e => h.apart (e ▸ hc)) ▸ hx)

theorem Emits.passes {x : Native α} {R : α → Fact} (h : Emits s K x R) :
    Passes s (At s V K os b) x fun a => At s V (K.and (R a)) os b := by
  refine ⟨fun {p} hp => ?_⟩
  obtain ⟨a, p', hrun, hsteps, hR⟩ := h.run hp.opened hp.known
  exact ⟨a, p', hrun, hp.steps hsteps ⟨K.mono hsteps.grows hp.known, hR⟩, hsteps.literals⟩

/-! ## Ends of blocks -/

theorem Passes.of_end {o : Build Unit} {a : Action} (hterm : a.isTerminator)
    (ho : ∀ {p}, At s V K os b p → o p.draft = (.ok (), p.draft.add b a []) ∧ a.Fits p.draft.body []
      ∧ a.Known p.draft.body) :
    Passes s (At s V K os b) (build o) fun _ => Ended s V K os := by
  refine of_build fun {p} hp => ?_
  obtain ⟨hrun, hfits, hknown⟩ := ho hp
  have hready := hp.opened.ready
  have hleads := hready.sound.add hready.unfinished hfits
  have hblocks : ∀ {c : Nat} {y : Block}, (p.draft.add b a []).body.blocks[c]? = some y →
      ∃ x, p.draft.body.blocks[c]? = some x ∧ x.params = y.params ∧ (c = b → y.terminated = true)
          ∧ (c ≠ b → y = x) := by
    intro c y hy
    simp only [FuncDraft.add, Array.getElem?_modify] at hy
    split at hy
    · next hc =>
      obtain ⟨x, hx, rfl⟩ := Option.map_eq_some_iff.1 hy
      exact ⟨x, hx, rfl, fun _ => hterm, fun hne => absurd hc.symm hne⟩
    · next hc => exact ⟨y, hy, rfl, fun e => absurd e.symm hc, fun _ => rfl⟩
  refine ⟨(), _, hrun, ⟨hleads.sound, hp.tidy.add hready hknown, hp.callees, ?_, ?_, ?_, ?_, hp.sig, hp.vars,
    K.mono hleads.grows hp.known⟩, ?_⟩
  · refine hp.entered.grow hleads.grows hp.nonempty fun hy => .inr ?_
    obtain ⟨x, hx, hparams, -⟩ := hblocks hy
    exact ⟨x, hx, hparams⟩
  · simpa [FuncDraft.add] using hp.nonempty
  · intro c y hy
    obtain ⟨x, hx, -, hended, hsame⟩ := hblocks hy
    by_cases hc : c = b
    · subst hc
      simp [hended rfl, hp.apart]
    · rw [hsame hc, hp.opens hx, List.mem_cons, or_iff_right hc]
  · intro c hc
    simpa [FuncDraft.add] using hp.listed c (.tail _ hc)
  · intro c hc y hy
    obtain ⟨x, hx, -, -, hsame⟩ := hblocks hy
    rw [hsame fun e => hp.apart (e ▸ hc)]
    exact hp.hollow c hc hx

theorem Stands.enterable (h : Stands s V K os p) {t : BlockId} (ht : (Fact.block t).Holds p.draft.body) :
    ∃ x, p.draft.body.blocks[t]? = some x ∧ x.params = [] :=
  ⟨_, Array.getElem?_eq_getElem ht.2, h.entered.2 ht.1 (Array.getElem?_eq_getElem ht.2)⟩

theorem Passes.jump {t : BlockId} (ht : K.Gives (.block t)) :
    Passes s (At s V K os b) (build (Build.jump t [])) fun _ => Ended s V K os := by
  refine of_end (a := .jump t []) rfl fun hp => ?_
  obtain ⟨x, hx, hparams⟩ := hp.enterable (ht.of hp.known)
  exact ⟨Build.jump_eq hp.opened.ready hx hparams, ⟨rfl, (ht.of hp.known).2⟩, by simp [Action.args], by simp⟩

theorem Passes.brif {c : Value} {k : Kind} {t e : BlockId} (hc : K.Gives (.kind c k)) (ht : K.Gives (.block t))
    (he : K.Gives (.block e)) : Passes s (At s V K os b) (build (Build.brif c t e)) fun _ => Ended s V K os := by
  refine of_end (a := .brif c t e) rfl fun hp => ?_
  obtain ⟨x, hx, hparams⟩ := hp.enterable (ht.of hp.known)
  obtain ⟨y, hy, hparams'⟩ := hp.enterable (he.of hp.known)
  refine ⟨Build.brif_eq hp.opened.ready c hx hparams hy hparams', ⟨rfl, (ht.of hp.known).2, (he.of hp.known).2⟩, ?_⟩
  exact Emits.known_of_kinds [k] (hc.kinds_one.of hp.known) (by simp)

theorem Passes.ret {vs : List Value} (hvs : K.Gives (.kinds vs s.scope.func.sig.returns)) :
    Passes s (At s V K os b) (build (Build.ret vs)) fun _ => Ended s V K os := by
  refine of_end (a := .ret vs) rfl fun {p} hp => ?_
  have hkinds : vs.map (p.draft.body.values[·]?) = p.draft.body.sig.returns.map some := by
    rw [hp.sig]
    exact hvs.of hp.known
  exact ⟨Build.ret_eq hp.opened.ready hkinds, ⟨rfl, hkinds⟩, Emits.known_of_kinds _ (hvs.of hp.known) (by simp)⟩

/-! ## New blocks -/

theorem Stands.created (h : Stands s V K os p) :
    Stands s V (K.and (.block p.draft.body.blocks.size)) (p.draft.body.blocks.size :: os)
      { p with draft := { p.draft with body := { p.draft.body with blocks := p.draft.body.blocks.push {} } } } := by
  have hgrows := Machine.Body.Grows.push p.draft.body
  have hblocks : ∀ {c : Nat} {y : Block}, (p.draft.body.blocks.push {})[c]? = some y →
      c = p.draft.body.blocks.size ∧ y = {} ∨ c ≠ p.draft.body.blocks.size ∧ p.draft.body.blocks[c]? = some y := by
    intro c y hy
    rw [Array.getElem?_push] at hy
    split at hy
    · next hc => exact .inl ⟨hc, (Option.some.inj hy).symm⟩
    · next hc => exact .inr ⟨hc, hy⟩
  have hleads := h.sound.leads hgrows rfl fun {c y} hy => by
    rcases hblocks hy with ⟨-, rfl⟩ | ⟨-, hx⟩
    · exact .inl rfl
    · exact .inr ⟨y, hx, rfl⟩
  refine ⟨hleads.sound, ?_, h.callees, ?_, ?_, ?_, ?_, h.sig, h.vars, K.mono hgrows h.known, h.nonempty, by simp⟩
  · refine h.tidy.of_same hgrows rfl fun {c y} hy => ?_
    rcases hblocks hy with ⟨-, rfl⟩ | ⟨-, hx⟩
    · exact .inl ⟨rfl, rfl⟩
    · exact .inr ⟨y, hx, rfl, rfl⟩
  · refine h.entered.grow hgrows h.nonempty fun {c y} hy => ?_
    rcases hblocks hy with ⟨rfl, rfl⟩ | ⟨-, hx⟩
    · exact .inl ⟨h.nonempty, rfl⟩
    · exact .inr ⟨y, hx, rfl⟩
  · simp
  · intro c y hy
    rcases hblocks hy with ⟨rfl, rfl⟩ | ⟨hc, hx⟩
    · simp
    · rw [h.opens hx, List.mem_cons, or_iff_right hc]
  · intro c hc
    rw [Array.size_push]
    rcases List.mem_cons.1 hc with rfl | hc
    · exact Nat.lt_succ_self _
    · exact Nat.lt_succ_of_lt (h.listed c hc)

theorem Hollow.created (h : Hollow os p) : Hollow (p.draft.body.blocks.size :: os)
    { p with draft := { p.draft with body := { p.draft.body with blocks := p.draft.body.blocks.push {} } } } := by
  intro c hc x hx
  dsimp only at hx
  rw [Array.getElem?_push] at hx
  split at hx
  · cases hx
    rfl
  · next hne => exact h c ((List.mem_cons.1 hc).resolve_left hne) hx

theorem Ended.created (h : Ended s V K os p) :
    Ended s V (K.and (.block p.draft.body.blocks.size)) (p.draft.body.blocks.size :: os)
      { p with draft := { p.draft with body := { p.draft.body with blocks := p.draft.body.blocks.push {} } } } :=
  { h.toStands.created with hollow := h.hollow.created }

theorem At.created (h : At s V K os b p) :
    At s V (K.and (.block p.draft.body.blocks.size)) (p.draft.body.blocks.size :: os) b
    { p with draft := { p.draft with body := { p.draft.body with blocks := p.draft.body.blocks.push {} } } } := by
  have hlt := h.listed b (.head _)
  refine { h.toStands.created.congr fun c => ?_ with current := h.current, apart := ?_, hollow := h.hollow.created }
  · simp only [List.mem_cons]
    exact or_left_comm
  · simpa [h.apart] using Nat.ne_of_lt hlt

theorem Stands.fresh (h : Stands s V K os p) :
    p.draft.body.blocks.size ∉ os := fun hmem => Nat.lt_irrefl _ (h.listed _ hmem)

theorem Passes.switchTo {c : BlockId} (hc : c ∉ os) :
    Passes s (Ended s V K (c :: os)) (build (Build.switchTo c)) fun _ => At s V K os c := by
  refine of_build fun {p} hp => ⟨(), _, Build.switchTo_eq (hp.listed c (.head _)), ?_⟩
  exact { hp with
    sound := ⟨hp.sound.body, fun e => Option.some.inj e ▸ hp.listed c (.head _)⟩
    current := rfl
    apart := hc
    hollow := fun d hd => hp.hollow d (.tail _ hd) }

theorem Passes.unreachable : Passes s (Ended s V K os) Native.unreachable fun _ p => ∃ c, At s V K os c p := by
  refine ⟨fun {p} hp => ?_⟩
  obtain ⟨_, p', hrun, hat, hl⟩ := (switchTo hp.fresh).run hp.created
  refine ⟨(), p', ?_, ⟨_, hat.weaken (.left .refl)⟩, hl⟩
  show (build Build.createBlock >>= fun c => build (Build.switchTo c)) s p = _
  rw [bind_apply]
  exact hrun

/-! ## Control -/

section

variable (hK : K.Gives (.labels s)) {l : Label}

include hK

theorem gives_block (hl : l ∈ s.scope.func.labels) : K.Gives (.block (s.scope.block l)) := ⟨fun h => hK.of h l hl⟩

theorem Passes.label (hl : l ∈ s.scope.func.labels) (hnew : s.scope.block l ∉ os) :
    Passes s (At s V K (s.scope.block l :: os) b) (Native.label l) fun _ => At s V K os (s.scope.block l) := by
  refine scope ⟨fun {p} hp => ?_⟩
  obtain ⟨a, p', hrun, hat⟩ := ((jump (gives_block hK hl)).bind fun _ => switchTo hnew).run hp
  refine ⟨a, p', ?_, hat⟩
  rw [bind_apply, build_of_ok (Build.isTerminated_eq hp.opened.ready)]
  exact hrun

theorem Passes.jumpTo (hl : l ∈ s.scope.func.labels) :
    Passes s (At s V K os b) (Native.jump l) fun _ p => ∃ c, At s V K os c p :=
  scope ((jump (gives_block hK hl)).bind fun _ => unreachable)

theorem Passes.jumpIf (hvars : K.Gives (.vars s)) {cond : Reg} (hc : s.Usable cond) (hl : l ∈ s.scope.func.labels) :
    Passes s (At s V K os b) (Native.jumpIf cond l) fun _ p => ∃ c, At s V K os c p := by
  refine (Emits.value hvars hc).passes.bind fun v => ⟨fun {p} hp => ?_⟩
  have hnew : p.draft.body.blocks.size ∉ os := fun hmem => hp.fresh (.tail _ hmem)
  obtain ⟨a, p', hrun, hat, hl⟩ :=
    ((brif (Gives.left .last) (gives_block hK hl).left.left .last).bind fun _ => switchTo hnew).run hp.created
  refine ⟨a, p', ?_, ⟨_, hat.weaken (.left (.left .refl))⟩, hl⟩
  rw [bind_apply]
  exact hrun

end

/-! ## Returns -/

section

variable (h : s.Fit) (hK : K.Gives (.vars s))

include h hK

omit hK in
theorem var_of_local {r : Reg} {b : Binding} (hK : K.Gives (.vars s)) (hb : (r, b) ∈ s.scope.locals) :
    K.Gives (.var b.var r.ty.words) := by
  obtain ⟨hmem, hlocal⟩ := List.mem_filter.1 hb
  have hvar := Emits.varOf hK (h.binding_of_mem hmem)
  rwa [if_neg (by simpa using hlocal)] at hvar

theorem keys_of_cursor {r : Reg} {c : Cursor} (hc : (r, c) ∈ s.scope.cursors) : K.Gives (.var c.keys .i64) :=
  hK.of_vars (.keys r) (by rw [Scope.var?, h.cursor_of_mem hc]; rfl)

theorem pointer_of_global {g : Reg} (hg : g ∈ s.program.globals) :
    ∃ b, s.scope.binding? g = some b ∧ K.Gives (.var b.var .i64) := by
  obtain ⟨i, hi⟩ := List.mem_iff_getElem?.1 hg
  exact ⟨_, h.global_binding hi, Emits.varOf hK (h.global_binding hi)⟩

theorem Emits.releaseGlobal {g : Reg} (hg : g ∈ s.program.globals) :
    Emits s K (Native.releaseGlobal g) fun _ => .nothing := by
  obtain ⟨b, hb, hvar⟩ := pointer_of_global h hK hg
  have hs := h.storable_global hg
  unfold Native.releaseGlobal
  split
  · refine Emits.scope ?_
    rw [hb]
    refine bind (useVar hvar) fun _ => bind (loadFrom hs.1 (Ty.isIter_eq_false.2 hs.2.2) .last) fun _ =>
      bind (drop h.apt hK.left.left .last) fun _ => ?_
    dsimp only
    split
    · exact bind (packed _) fun _ => store 0 .last Gives.last.left.left.left
    · exact bind (constInt 0) fun _ => store 0 .last Gives.last.left.left.left
  · exact pure .nothing

theorem Emits.release : Emits s K Native.release fun _ => .nothing := by
  refine scope (bind (forM fun x hx => ?_) fun _ => bind (forM fun x hx => ?_) fun _ => ?_)
  · obtain ⟨r, b⟩ := x
    show Emits s K (if r.ty.isHeap && !b.isLiteral then _ else _) _
    split
    · exact bind (useVar (var_of_local h hK hx)) fun _ => drop h.apt hK.left .last
    · exact pure .nothing
  · exact dropKeys h.apt hK.left (keys_of_cursor h hK.left hx)
  · split
    · exact forM fun g hg => releaseGlobal h hK.left.left (h.globals_eq ▸ hg)
    · exact pure .nothing

theorem Passes.returns {src : Reg} (hsrc : s.Usable src) (hty : src.ty = .null ∨ src.ty = s.scope.func.ret) :
    Passes s (At s V K os b) (Native.ret src) fun _ p => ∃ c, At s V K os c p := by
  -- The values to return are at hand: the rest is the same for all of them.
  have hrest : ∀ {L : Fact} {vs : List Value}, L.Gives K → L.Gives (.kinds vs s.scope.func.sig.returns) →
      Passes s (At s V L os b) (do Native.release; build (Build.ret vs); Native.unreachable) fun _ p => ∃ c,
          At s V K os c p := by
    intro L vs hL hvs
    refine (Emits.release h (hL.trans hK)).passes.bind fun _ => (ret hvs.left).bind fun _ => unreachable.weaken ?_
    rintro _ p ⟨c, hc⟩
    exact ⟨c, hc.weaken hL.left⟩
  refine scope ?_
  by_cases hnull : s.scope.func.ret = .null
  · simp only [hnull, if_true, pure_bind]
    refine hrest .refl ?_
    rw [Func.sig, if_pos hnull]
    exact .kinds_nil
  · have hreturns : s.scope.func.sig.returns = [s.scope.func.ret.words] := if_neg hnull
    simp only [hnull, if_false, pure_bind]
    split
    · refine (Emits.zero h.apt hK _).passes.bind fun _ => hrest (.left .refl) ?_
      rw [hreturns]
      exact Gives.last.kinds_one
    · next hsome =>
      have hret : src.ty = s.scope.func.ret := hty.resolve_left fun e => hsome (by simp [Reg.isNull, e])
      rw [← hret]
      refine (Emits.value hK hsrc).passes.bind fun _ => (Emits.ref h.apt hK.left .last).passes.bind fun _ =>
        hrest (.left (.left .refl)) ?_
      rw [hreturns, ← hret]
      exact Gives.last.left.kinds_one

theorem Passes.finish : Passes s (At s V K [] b) Native.finish fun _ => Ended s V K [] := by
  refine ⟨fun {p} hp => ?_⟩
  have hend : Passes s (At s V K [] b) (do
      Native.release
      let ty := (← Native.scope).func.ret
      if ty = .null then build (Build.ret [])
      else if ty.isMap then build (Build.ret [← Native.constInt 0])
      else build (Build.ret [← Native.zero ty])) fun _ => Ended s V K [] := by
    refine (Emits.release h hK).passes.bind fun _ => scope ?_
    by_cases hnull : s.scope.func.ret = .null
    · rw [if_pos hnull]
      refine (ret ?_).weaken fun hs => hs.weaken (.left .refl)
      rw [Func.sig, if_pos hnull]
      exact .kinds_nil
    · have hreturns : s.scope.func.sig.returns = [s.scope.func.ret.words] := if_neg hnull
      rw [if_neg hnull]
      split
      · next hmap =>
        refine (Emits.constInt 0).passes.bind fun _ => (ret ?_).weaken fun hs => hs.weaken (.left (.left .refl))
        have hwords : s.scope.func.ret.words = .i64 := by cases ht : s.scope.func.ret <;> simp_all [Ty.isMap, Ty.words]
        rw [hreturns, hwords]
        exact Gives.last.kinds_one
      · refine (Emits.zero h.apt hK.left _).passes.bind fun _ => (ret ?_).weaken fun hs =>
          hs.weaken (.left (.left .refl))
        rw [hreturns]
        exact Gives.last.kinds_one
  obtain ⟨a, p', hrun, hstands⟩ := hend.run hp
  refine ⟨a, p', ?_, hstands⟩
  unfold Native.finish
  rw [bind_apply, build_of_ok (Build.isTerminated_eq hp.opened.ready)]
  exact hrun

end

/-! ## Bodies -/

def pending (s : Surroundings) (is : List Instr) : List BlockId :=
  ({ s.scope.func with body := is } : Func).labels.map s.scope.block

theorem pending_cons {i : Instr} {is : List Instr} (hi : ∀ l, i ≠ .label l) : pending s (i :: is) = pending s is := by
  cases i with
  | label l => exact absurd rfl (hi l)
  | _ => rfl

section

variable (h : s.Fit) (hK : K.Gives (.vars s)) (hL : K.Gives (.labels s))

include h hK hL

theorem Passes.instr {i : Instr} {rest : List Instr} (hi : i ∈ s.scope.func.body) (hop : i.unknown? = none)
    (hnew : (pending s (i :: rest)).Nodup) :
    Passes s (At s V K (pending s (i :: rest)) b) (Lowering.lower i : Native Unit) fun _ p => ∃ c,
      At s V K (pending s rest) c p := by
  have htyped := h.typed hi
  cases hcontrol : i.isControl
  · rw [pending_cons fun l e => by simp [e, Instr.isControl] at hcontrol]
    exact (Emits.lower h.apt hK h.checked htyped (h.covers hi) hop hcontrol).passes.weaken fun hat =>
      ⟨b, hat.weaken (.left .refl)⟩
  · cases i with
    | label l =>
      have hl : l ∈ s.scope.func.labels := List.mem_filterMap.2 ⟨_, hi, rfl⟩
      exact (label hL hl (List.nodup_cons.1 hnew).1).weaken fun hat => ⟨_, hat⟩
    | jmp l => exact jumpTo hL (h.target hi rfl)
    | jmpIf c l =>
      have hc : c.ty = .int := htyped
      exact jumpIf hL hK ((h.covers hi).usable (.head _) (by simp [hc, Ty.isIter])) (h.target hi rfl)
    | ret src =>
      refine returns h hK ((h.covers hi).usable (.head _) ?_) htyped
      rcases htyped with hnull | hret
      · simp [hnull, Ty.isIter]
      · exact hret ▸ Ty.isIter_eq_false.2 h.ret.2
    | _ => simp [Instr.isControl] at hcontrol

theorem lowerAll_cases {rest : List Instr} {n : Nat} (hp : At s V K (pending s rest) b p)
    (hrest : ∀ i ∈ rest, i ∈ s.scope.func.body) (hnew : (pending s rest).Nodup) :
    (∀ i ∈ rest, i.unknown? = none) ∧ (∃ p' c, Declared.lowerAll s n rest p = .ok p' ∧ At s V K [] c p')
      ∨ ∃ (j : Nat) (i : Instr) (op : ValueOp), rest[j]? = some i ∧ i.unknown? = some op
        ∧ Declared.lowerAll s n rest p = .error
          (.lowering s.scope.func.name ((n + j : Nat) : Int) (.unsupported op)) := by
  induction rest generalizing n p b with
  | nil => exact .inl ⟨by simp, p, b, rfl, hp⟩
  | cons i rest ih =>
    cases hop : i.unknown? with
    | some op =>
      obtain ⟨q, hrun⟩ := lower_unknown (h.typed (hrest i (.head _))) (h.covers (hrest i (.head _))) hop hp.opened
        (hK.of hp.known)
      refine .inr ⟨0, i, op, rfl, hop, ?_⟩
      rw [Declared.lowerAll, Declared.advance, hrun]
      rfl
    | none =>
      obtain ⟨_, p', hrun, ⟨c, hat⟩, -⟩ := (Passes.instr h hK hL (hrest i (.head _)) hop hnew).run hp
      have hnew' : (pending s rest).Nodup := by
        cases i with
        | label l => exact (List.nodup_cons.1 hnew).2
        | _ => exact hnew
      have hstep : Declared.lowerAll s n (i :: rest) p = Declared.lowerAll s (n + 1) rest p' := by
        rw [Declared.lowerAll, Declared.advance, hrun]
        rfl
      rw [hstep]
      rcases ih (n := n + 1) hat (fun j hj => hrest j (.tail _ hj)) hnew' with ⟨hall, hdone⟩ | ⟨j, x, op,
        hx, hxop, herr⟩
      · exact .inl ⟨by simpa [hop] using hall, hdone⟩
      · exact .inr ⟨j + 1, x, op, hx, hxop, by rw [herr, Nat.add_right_comm, Nat.add_assoc]⟩

end

end Native

end RecordMill

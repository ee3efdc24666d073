import RecordMill.Proofs.Lowering.Totality
import RecordMill.Proofs.Plain.Runs

/-!
# Compiled programs on plain values

The machine that is made of a compiled program ends as the plain run does, with the same records, unless its
stack is too small.
-/

namespace RecordMill

open Machine (BlockId Value Instance CellState FuncId Outside Memory End)

/-! ## Literals -/

theorem Native.Emits.of_run {s : Surroundings} {α : Type} {K : Fact} {x : Native α} {R : α → Fact} (h : Emits s K x R)
    {p p' : Progress} {b : BlockId} {a : α} (hp : Open s p b) (hK : K.Holds p.draft.body) (hx : x s p = (.ok a, p')) :
    Steps s b p p' ∧ (R a).Holds p'.draft.body := by
  obtain ⟨a', q, hq, hsteps, hR⟩ := h.run hp hK
  rw [hx] at hq
  cases hq
  exact ⟨hsteps, hR⟩

namespace Plan.Sound

variable {P : Plan} (h : P.Sound) {i : Nat} {f : Func} (hf : P.program.funcs[i]? = some f)

include h hf

theorem literal_mem {d : Reg} {t : Bytes} (hi : .constStr d t ∈ f.body) (hlong : Packed.maxInline < t.length) :
    t ∈ P.code.literals := by
  have L : (P.site 0 i 0).Lowered (P.entry i) := h.site_lowered hf
  have hbody : (P.site 0 i 0).scope.func.body = f.body := congrArg Func.body (h.func hf)
  obtain ⟨k, hk⟩ := List.mem_iff_getElem?.1 (hbody ▸ hi)
  have hlt : k < (P.site 0 i 0).scope.func.body.length := (List.getElem?_eq_some_iff.1 hk).1
  obtain ⟨b, hbefore⟩ := L.before (Nat.le_of_lt hlt)
  obtain ⟨V, hat⟩ := hbefore
  obtain ⟨v, q₁, hconst, hbind⟩ := Native.bind_eq_ok (L.lower hk)
  have hconst : Native.constStr t (P.given i) ((P.given i).stage (P.entry i) k) = (.ok v, q₁) := hconst
  obtain ⟨hsteps, hv⟩ := (Native.Emits.constStr (K := .nothing) t).of_run hat.opened trivial hconst
  have hmem : t ∈ q₁.literals := by
    unfold Native.constStr at hconst
    rw [Packed.inline?, if_neg (Nat.not_le_of_lt hlong)] at hconst
    obtain ⟨j, q₂, hindex, hpacked⟩ := Native.bind_eq_ok hconst
    obtain ⟨hindexed, -⟩ := (Native.Emits.literalIndex (K := .nothing) t).of_run hat.opened trivial hindex
    refine ((Native.Emits.packed (K := .nothing) _).of_run hindexed.opened trivial hpacked).1.literals.subset ?_
    rw [Native.Emits.literalIndex_apply] at hindex
    split at hindex
    · next hfound =>
      cases hindex
      exact List.isSome_idxOf?.1 (by rw [hfound]; rfl)
    · cases hindex
      simp
  -- Binding the register keeps what is in the table, and so do all later instructions.
  have hty : d.ty = .str := L.fit.typed (List.mem_of_getElem? hk)
  have husable := (L.fit.covers (List.mem_of_getElem? hk)).usable (r := d) (.head _) (by rw [hty]; rfl)
  have hbound :=
    (Native.Emits.bindReg (K := (Native.Fact.vars _).and (.kind v .i128)) (v := v) L.fit.apt (.left .refl) husable
    (by rw [hty]; exact .last)).of_run hsteps.opened ⟨(Native.Fact.vars _).mono hsteps.grows hat.known.1, hv⟩ hbind
  exact (L.stage_literals hlt).subset (hbound.1.literals.subset hmem)

end Plan.Sound

/-! ## Programs -/

/-- What a program keeps to besides the check. -/
structure Program.Regular (p : Program) : Prop where
  params : ∀ f ∈ p.funcs, ∀ r ∈ f.params, r ∉ p.globals
  uncalled : p.MainUncalled
  vars : ∀ f ∈ p.funcs, ∀ i ∈ f.body, ∀ v, i.var? = some v → v ∈ Variable.builtIn
  modes : ∀ f ∈ p.funcs, ∀ i ∈ f.body, ∀ o, i.output? = some o → o.mode.code < 256
  few : p.globals.length ≤ 2 ^ 32 ∧ ∀ f ∈ p.funcs, (f.locals p.globals).length ≤ 2 ^ 32

def Program.LiteralsFit (p : Program) (literals : List Bytes) : Prop :=
  ∀ f ∈ p.funcs, ∀ d s, .constStr d s ∈ f.body → Packed.maxInline < s.length → s.length < 2 ^ 56
    ∧ literals.length < 2 ^ 64

theorem Plan.Sound.fit {P : Plan} (h : P.Sound) (hr : P.program.Regular) (hl : P.program.LiteralsFit P.code.literals) :
    P.program.Fit P.code.literals where
  checked := h.checked
  uncalled := hr.uncalled
  few := hr.few
  settings {i f} hf := by
    have hmem := List.mem_of_getElem? hf
    have L : (P.site 0 i 0).Lowered (P.entry i) := h.site_lowered hf
    have hbody : (P.site 0 i 0).scope.func.body = f.body := congrArg Func.body (h.func hf)
    exact {
      checked := h.checked
      func := hmem
      scope := rfl
      globals := h.distinct.globals
      params := hr.params f hmem
      valid := fun x hx => L.fit.valid x (hbody ▸ hx)
      vars := hr.vars f hmem
      modes := hr.modes f hmem
      literals := fun d s hi hlong => ⟨h.literal_mem hf hi hlong, hl f hmem d s hi hlong⟩
      known := fun x hx => L.known x (hbody ▸ hx) }

namespace Plain

def Passes (p : Program) (main : Func) (o : Settings) (world : World) (n : Nat) (σ : State) : Prop :=
  runs (State.step p) n (.start p main o world) = .next σ

theorem Passes.step {p : Program} {main : Func} {o : Settings} {world : World} {n : Nat} {σ τ : State}
    (h : Passes p main o world n σ) (hstep : σ.step p = .next τ) : Passes p main o world (n + 1) τ := by
  unfold Passes
  rw [runs_of_next h, runs, hstep]
  rfl

end Plain

namespace Plan

variable {P : Plan} {length : Nat} {σ : Plain.State} {cst : CellState Context} {main : Func} {o : Settings}
  {world : World}

/-- The machine is where an instruction starts, with the values of the plain run. -/
def Holding (P : Plan) (length : Nat) (σ : Plain.State) (cst : CellState Context) : Prop :=
  ∃ st, P.Shows length st cst ∧ st.Shows P.program P.code.literals σ

def Agrees (P : Plan) (e : Plain.Ending × Plain.Store) (r : End Context) : Prop :=
  ∃ d : Direct.Result, d.Shows P.program P.code.literals e ∧ d.Same r

/-- Whatever state the plain run comes to, there is room for another activation. -/
def Spacious (P : Plan) (length : Nat) (main : Func) (o : Settings) (world : World) : Prop :=
  ∀ n σ, Plain.Passes P.program main o world n σ → ¬P.Crowded length ((σ.frame :: σ.below).map (·.func))

/-- There may have been no room for another activation: for the main function, or beside the activations of a state that
the plain run comes to. -/
def Exhausted (P : Plan) (length : Nat) (main : Func) (o : Settings) (world : World) : Prop :=
  P.Crowded length [] ∨ ∃ n σ, Plain.Passes P.program main o world n σ
    ∧ P.Crowded length ((σ.frame :: σ.below).map (·.func))

theorem Spacious.not_exhausted (h : P.Spacious length main o world) (hempty : ¬P.Crowded length []) :
    ¬P.Exhausted length main o world := by
  rintro (hcrowded | ⟨n, σ, hn, hcrowded⟩)
  · exact hempty hcrowded
  · exact h n σ hn hcrowded

theorem Shows.depth {st : Direct.State} (h : P.Shows length st cst) : st.below.length < Direct.maxFrames := by
  obtain ⟨area, out, fr, below, rfl, hgo⟩ := h
  have hlen := hgo.awaits.top_eq.2
  have hdepth := hgo.depth
  rw [List.length_map] at hlen
  have hmax : Machine.maxDepth = 10000 := rfl
  unfold Direct.maxFrames
  omega

namespace Sound

variable (h : P.Sound) (hfit : P.program.Fit P.code.literals) (hlength : length < Memory.maxIndex)

include h hfit hlength

/-- Whatever the plain run does next, the machine does too, unless its stack is full. -/
theorem proceeds (hholding : P.Holding length σ cst) : match σ.step P.program with
    | .next τ => Proceeds (CellState.step P.code.module Service.perform) P.Inside (P.Holding length τ)
      (fun r => r.GivesUp ∧ P.Crowded length ((σ.frame :: σ.below).map (·.func))) cst
    | .ended e => Proceeds (CellState.step P.code.module Service.perform) P.Inside (fun _ => False)
      (fun r => P.Agrees e r ∨ r.GivesUp ∧ P.Crowded length ((σ.frame :: σ.below).map (·.func))) cst := by
  obtain ⟨st, hshows, hσ⟩ := hholding
  have hfollows := h.follows hlength hshows
  rw [hσ.funcs] at hfollows
  have halike := hσ.step hfit hshows.depth
  generalize hdirect : st.step P.program P.code.literals = turn at halike hfollows
  generalize σ.step P.program = turn' at halike
  cases halike with
  | @next st' τ hτ =>
    refine hfollows.mono ?_ ?_
    · rintro cst' ⟨st'', hst'', hcst'⟩
      cases hst''
      exact ⟨st', hcst', hτ⟩
    · rintro e (⟨r, hr, -⟩ | he)
      · cases hr
      · exact he
  | @ended r e hr =>
    refine hfollows.mono ?_ ?_
    · rintro cst' ⟨st'', hst'', -⟩
      cases hst''
    · rintro e' (⟨r', hr', hsame⟩ | he)
      · cases hr'
        exact .inl ⟨r, hr, hsame⟩
      · exact .inr he

/-- The machine follows the plain run, unless that comes to where the stack has no room. -/
theorem follows_plain : Simulation (Plain.State.step P.program) (CellState.step P.code.module Service.perform)
    (fun σ cst => (∃ n, Plain.Passes P.program main o world n σ) ∧ P.Holding length σ cst) P.Agrees
    (fun r => r.GivesUp ∧ P.Exhausted length main o world) P.Inside where
  next {σ τ cst} hrel hstep := by
    obtain ⟨⟨n, hn⟩, hholding⟩ := hrel
    have hproceeds := h.proceeds hfit hlength hholding
    rw [hstep] at hproceeds
    exact hproceeds.mono (fun _ hτ => ⟨⟨n + 1, hn.step hstep⟩, hτ⟩) fun _ he => ⟨he.1, .inr ⟨n, σ, hn, he.2⟩⟩
  ended {σ e cst} hrel hstep := by
    obtain ⟨⟨n, hn⟩, hholding⟩ := hrel
    have hproceeds := h.proceeds hfit hlength hholding
    rw [hstep] at hproceeds
    exact hproceeds.mono (fun _ => id) fun _ he => he.imp_right fun he => ⟨he.1, .inr ⟨n, σ, hn, he.2⟩⟩

end Sound

/-! ## From the start -/

namespace Sound

variable (h : P.Sound) (hfit : P.program.Fit P.code.literals) {main : Func}
  (hmain : P.program.func? P.program.main = some main)
  {o : Settings}
  (ho : o.literals = P.code.literals) {world : World} {stackWords : Int64} {inst : Instance Service Context}
  (hinst : Instance.ofModule P.code.module (Context.ofSettings o world) stackWords = .ok inst)

include h hfit hmain ho hinst

theorem starts_plain : (CellState.call P.code.module Service.perform P.code.main [0] [] inst.outside []).Comes
    (fun cst => P.Inside cst ∧ Proceeds (CellState.step P.code.module Service.perform) P.Inside
      (P.Holding inst.outside.memory.length (.start P.program main o world))
      (fun r => r.GivesUp ∧ P.Crowded inst.outside.memory.length []) cst)
    fun r => r.GivesUp ∧ P.Crowded inst.outside.memory.length [] := by
  obtain ⟨st, hstart, hst⟩ := Direct.start_shows hfit hmain ho world
  have hcall := h.call_main hinst
  rw [(h.starts hinst).1, hstart] at hcall
  generalize CellState.call P.code.module Service.perform P.code.main [0] [] inst.outside [] = turn at hcall ⊢
  cases turn with
  | ended r => exact hcall
  | next cst =>
    obtain ⟨hinside, hfollows⟩ := hcall
    refine ⟨hinside, hfollows.mono ?_ ?_⟩
    · rintro cst' ⟨st', hst', hcst'⟩
      cases hst'
      exact ⟨st, hcst', hst⟩
    · rintro e (⟨r, hr, -⟩ | he)
      · cases hr
      · exact he

theorem ends_plain (hempty : ¬P.Crowded inst.outside.memory.length [])
    (hspacious : P.Spacious inst.outside.memory.length main o world) {e : Plain.Ending × Plain.Store}
    (hends : Ends (Plain.State.step P.program) (.start P.program main o world) e) : ∃ first n r,
      CellState.call P.code.module Service.perform P.code.main [0] [] inst.outside [] = .next first
        ∧ runs (CellState.step P.code.module Service.perform) n first = .ended r ∧ P.Agrees e r := by
  have hstarts := h.starts_plain hfit hmain ho hinst
  generalize CellState.call P.code.module Service.perform P.code.main [0] [] inst.outside [] = turn at hstarts
  cases turn with
  | ended r => exact absurd hstarts.2 hempty
  | next first =>
    obtain ⟨-, hproceeds⟩ := hstarts
    obtain ⟨cst, hvisits, hholding⟩ := (hproceeds.mono (fun _ => id) fun _ he => hempty he.2).visits
    obtain ⟨r, hends', hagrees⟩ := (h.follows_plain hfit (h.starts hinst).2.1).ends ⟨⟨0, rfl⟩, hholding⟩ hends
    obtain ⟨n, hn⟩ := hvisits.ends hends'
    exact ⟨first, n, r, rfl, hn, hagrees.resolve_right fun he => hspacious.not_exhausted hempty he.2⟩

end Sound

end Plan

end RecordMill

/-! ## Programs without recursion

Where every call goes to a function of a lower rank, only so many activations can wait for one another. A stack
that has room for them is never full. -/

namespace RecordMill

open Machine (Instance)

def Program.Ranked (p : Program) (rank : Nat → Nat) : Prop :=
  ∀ i f, p.funcs[i]? = some f → ∀ dst fn args, .call dst fn args ∈ f.body → rank fn.toNat < rank i

namespace Plain.State

variable {p : Program} {σ τ : Plain.State}

def frames (σ : Plain.State) : List Frame := σ.frame :: σ.below

@[simp] theorem below_set (r : Reg) (v : Val) : (σ.set p r v).below = σ.below := congrArg (·.2.2.2) (site_set r v)

@[simp] theorem func_set (r : Reg) (v : Val) : (σ.set p r v).frame.func = σ.frame.func := congrArg (·.1) (site_set r v)

/-- A step stays in its activation, calls a function, or goes back to the one that waits. -/
theorem step_frames (h : σ.step p = .next τ) :
    τ.frame.func = σ.frame.func ∧ τ.below = σ.below
      ∨ (∃ f dst fn args, p.funcs[σ.frame.func]? = some f ∧ .call dst fn args ∈ f.body ∧ τ.frame.func = fn.toNat
        ∧ τ.below = { σ.frame with next := σ.frame.next + 1 } :: σ.below)
      ∨ ∃ fr, σ.below = fr :: τ.below ∧ τ.frame.func = fr.func := by
  unfold step at h
  split at h
  · cases h
  next f hf =>
  split at h
  · cases h
  · cases h
    exact .inl ⟨rfl, rfl⟩
  · cases h
    exact .inl ⟨rfl, rfl⟩
  next dst fn args hi =>
    split at h
    · cases h
    cases h
    exact .inr (.inl ⟨f, dst, fn, args, hf, List.mem_of_getElem? hi, rfl, rfl⟩)
  next r hi =>
    dsimp only at h
    split at h
    · cases h
    next fr rest hbelow =>
    cases h
    exact .inr (.inr ⟨fr, by rw [hbelow, below_set], func_set ..⟩)
  next i _ _ _ _ _ =>
    split at h
    next υ hexec =>
      cases h
      have hsite := site_exec hexec
      exact .inl ⟨congrArg (·.1) hsite, congrArg (·.2.2.2) hsite⟩
    · cases h

end Plain.State

/-! ## Depth -/

/-- Under each activation there is room for it below the rank `top`. -/
def Plain.Within (rank : Nat → Nat) (top : Nat) : List Plain.Frame → Prop
  | [] => True
  | fr :: below => rank fr.func + below.length ≤ top ∧ Within rank top below

namespace Plain.Within

variable {p : Program} {rank : Nat → Nat} {top : Nat} {σ τ : Plain.State}

theorem step (hranked : p.Ranked rank) (h : Within rank top σ.frames) (hstep : σ.step p = .next τ) :
    Within rank top τ.frames := by
  obtain ⟨hroom, hbelow⟩ := h
  obtain ⟨hfunc, hsame⟩ | ⟨f, dst, fn, args, hf, hmem, hfunc, hcall⟩ | ⟨fr, hret, hfunc⟩ := State.step_frames hstep
  · exact ⟨by rw [hfunc, hsame]; exact hroom, by rw [hsame]; exact hbelow⟩
  · have hlower := hranked _ f hf dst fn args hmem
    refine ⟨?_, ?_⟩
    · rw [hfunc, hcall, List.length_cons]
      omega
    · rw [hcall]
      exact ⟨hroom, hbelow⟩
  · rw [hret] at hbelow
    exact ⟨by rw [hfunc]; exact hbelow.1, hbelow.2⟩

theorem run (hranked : p.Ranked rank) {n : Nat} (h : Within rank top σ.frames)
    (hrun : runs (State.step p) n σ = .next τ) :
    Within rank top τ.frames := by
  induction n generalizing σ with
  | zero =>
    cases hrun
    exact h
  | succ n ih =>
    rw [runs] at hrun
    cases hstep : σ.step p with
    | next υ =>
      rw [hstep] at hrun
      exact ih (h.step hranked hstep) hrun
    | ended e =>
      rw [hstep] at hrun
      cases hrun

theorem length_le (h : Within rank top σ.frames) : σ.frames.length ≤ top + 1 := by
  have hroom := h.1
  rw [State.frames, List.length_cons]
  omega

theorem start (main : Func) (o : Settings) (world : World) :
    Within rank (rank p.main.toNat) (State.start p main o world).frames := by
  have hfunc : (State.start p main o world).frame.func = p.main.toNat := rfl
  have hbelow : (State.start p main o world).below = [] := rfl
  refine ⟨?_, ?_⟩
  · rw [hfunc, hbelow]
    exact Nat.le_refl _
  · rw [hbelow]
    trivial

end Plain.Within

/-! ## The stack -/

namespace Plan

variable {P : Plan} {length words : Nat}

theorem top_le (hroom : ∀ i, P.room i ≤ words) (funcs : List Nat) : P.top funcs ≤ P.base + funcs.length * words := by
  induction funcs with
  | nil => exact Nat.le_add_right ..
  | cons i funcs ih =>
    have hi := hroom i
    show P.top funcs + P.room i ≤ P.base + (funcs.length + 1) * words
    rw [Nat.succ_mul]
    omega

namespace Sound

variable (h : P.Sound) (hwords : ∀ f ∈ P.program.funcs, (f.body.flatMap Instr.slotWords).sum ≤ words)

include h hwords

theorem room_le (i : Nat) : P.room i ≤ words := by
  cases hf : P.program.funcs[i]? with
  | some f =>
    obtain ⟨id, e, c, hholds⟩ := h.holds hf
    exact Nat.le_trans hholds.slotted (hwords f (List.mem_of_getElem? hf))
  | none =>
    obtain ⟨m, -, hsound⟩ := h.complete
    have hnone : P.declared.funcs[i]? = none := by
      rw [List.getElem?_eq_none_iff] at hf ⊢
      exact hsound.length ▸ hf
    unfold room
    rw [hnone]
    exact Nat.zero_le _

theorem not_crowded {funcs : List Nat} (hdepth : funcs.length < Machine.maxDepth)
    (hroom : P.base + (funcs.length + 1) * words ≤ length) : ¬P.Crowded length funcs := by
  rintro (hmany | ⟨i, f, -, hfull⟩)
  · omega
  · have htop := top_le (h.room_le hwords) funcs
    have hi := h.room_le hwords i
    rw [Nat.succ_mul] at hroom
    omega

/-- Without recursion the stack is never full when it has room for one activation of each rank. -/
theorem spacious {rank : Nat → Nat} (hranked : P.program.Ranked rank)
    (hdepth : rank P.program.main.toNat + 1 < Machine.maxDepth)
    (hroom : P.base + (rank P.program.main.toNat + 2) * words ≤ length) (main : Func) (o : Settings) (world : World) :
    P.Spacious length main o world := by
  intro n τ hrun
  have hlength := ((Plain.Within.start main o world).run hranked hrun).length_le
  have hmany : ((τ.frame :: τ.below).map (·.func)).length ≤ rank P.program.main.toNat + 1 := by
    rw [List.length_map]
    exact hlength
  refine h.not_crowded hwords (by omega) (Nat.le_trans (Nat.add_le_add_left (Nat.mul_le_mul_right _ ?_) _) hroom)
  omega

end Sound

end Plan

end RecordMill

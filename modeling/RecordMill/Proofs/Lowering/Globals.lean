import RecordMill.Proofs.Lowering.Activations

/-!
# Globals

Where no instruction calls the main function, globals live as long as the run does: they are made when the main
function is entered and given back when it returns, and in between only instructions that name them change them.
A program that calls its main function has its globals made anew at the call and given back when the call returns.
-/

namespace RecordMill

open Machine (Instance)

def Instr.callee? : Instr → Option Int
  | .call _ fn _ => some fn
  | _ => none

def Program.MainUncalled (p : Program) : Prop := ∀ f ∈ p.funcs, ∀ i ∈ f.body, i.callee? ≠ some p.main

instance (p : Program) : Decidable p.MainUncalled := inferInstanceAs (Decidable (∀ f ∈ p.funcs, ∀ i ∈ f.body, _))

namespace Direct

/-- The destinations that the program names for a step. That of a call is written when the call returns. -/
def State.targets (p : Program) (st : State) : List Reg :=
  match st.frame.instr? p with
  | none | some (.call ..) => []
  | some (.ret _) => (st.below.head?.bind (·.instr? p)).elim [] Instr.defs
  | some i => i.defs

structure State.KeepsGlobals (p : Program) (literals : List Bytes) (st : State) : Prop where
  once : (st.frame :: st.below).countP (fun fr => fr.func = p.main.toNat) = 1
  enters : ∀ {dst fn args}, st.frame.instr? p = some (.call dst fn args) → fn ≠ p.main
  call : ∀ {dst fn args st'}, st.frame.instr? p = some (.call dst fn args) → st.step p literals = .next st' →
    st'.globals = st.globals
  /-- What a return to a caller gives back is no global. -/
  ret : ∀ {f src}, p.funcs[st.frame.func]? = some f → f.body[st.frame.next]? = some (.ret src) → st.below ≠ [] →
    ((Lowering.lower (.ret src) : Direct Unit) (setting p literals st.frame.func f) st.store).2.globals = st.globals
  ends : ∀ {src}, st.frame.instr? p = some (.ret src) → st.frame.func = p.main.toNat → ∃ r,
    st.step p literals = .ended r
  /-- A step changes the globals that are named as its destinations. -/
  step : ∀ {st'}, st.step p literals = .next st' → ∀ g ∉ st.targets p, st'.globals g = st.globals g

section

variable {p : Program} {literals : List Bytes} {context : Context} {st st' : State}

section

variable (hp : p.check = []) (hmain : p.MainUncalled)

include hp hmain

theorem Frame.callee_ne {fr : Frame} {dst : Reg} {fn : Int} {args : List Reg}
    (h : fr.instr? p = some (.call dst fn args)) :
    fn.toNat ≠ p.main.toNat := by
  obtain ⟨f, hf, hi⟩ := Option.bind_eq_some_iff.1 h
  obtain ⟨⟨main, hm, -⟩, -, hfuncs⟩ := Check.check_eq_nil.1 hp
  obtain ⟨-, -, -, hbody, -⟩ := Check.func_eq_nil.1 (hfuncs f (List.mem_of_getElem? hf))
  obtain ⟨callee, hcallee, -⟩ : (Instr.call dst fn args).Typed p f.ret :=
    (Check.body_eq_nil.1 hbody).1 _ (List.mem_of_getElem? hi)
  have hne : fn ≠ p.main := fun e => hmain f (List.mem_of_getElem? hf) _ (List.mem_of_getElem? hi) (congrArg some e)
  have hmain0 : 0 ≤ p.main := (Program.place_of_func? hm).1
  have hfn0 : 0 ≤ fn := (Program.place_of_func? hcallee).1
  omega

theorem Chain.func_ne {fr caller : Frame} {frs : List Frame} (h : Chain p fr (caller :: frs)) :
    fr.func ≠ p.main.toNat := by
  cases h with
  | call hinstr hcallee => exact hcallee ▸ Frame.callee_ne hp hmain hinstr

theorem Chain.once {fr : Frame} {frs : List Frame} (h : Chain p fr frs) :
    (fr :: frs).countP (fun fr => fr.func = p.main.toNat) = 1 := by
  induction h with
  | main hfunc => simp [hfunc]
  | call hinstr hcallee hbelow ih =>
    have hne := (Chain.call hinstr hcallee hbelow).func_ne hp hmain
    rw [List.countP_cons, ih]
    simp [hne]

end

theorem isMain_eq_false (literals : List Bytes) {i : Nat} {f : Func} (h : i ≠ p.main.toNat) :
    (setting p literals i f).scope.isMain = false := by
  have hne : p.main ≠ i := by omega
  simpa [setting, Scope.ofFunc] using hne

theorem State.changes_eq {i : Instr} (h : st.frame.instr? p = some i) (hret : ∀ src, i ≠ .ret src) (s : Scope) :
    i.changes s = st.targets p := by
  unfold targets
  cases i <;> simp_all [Instr.changes, Instr.assigns]

theorem State.Does.ret_globals {f : Func} {src : Reg} {δ : Store} (h : st.Does p literals f (.ret src) δ)
    (hne : st.frame.func ≠ p.main.toNat) : δ.globals = st.globals := by
  have hscope : (Scope.ofFunc p f (p.main = st.frame.func)).isMain = false := isMain_eq_false literals hne
  funext g
  refine h.spares.globals g ?_
  simp [Instr.footprint, Instr.changes, hscope]

theorem enter_globals {i : Nat} {f : Func} (hparams : ∀ r ∈ f.params, r ∉ p.globals) (hne : i ≠ p.main.toNat)
    {args : List (List UInt64)} {δ δ' : Store} (h : enter args (setting p literals i f) δ = (.ok (), δ')) :
    δ'.globals = δ.globals := by
  have hmain : p.main ≠ i := by omega
  exact funext fun g => (enter_spares h).globals g (by simpa [hmain] using hparams g)

section

variable (hp : p.check = []) (hmain : p.MainUncalled) (hparams : ∀ f ∈ p.funcs, ∀ r ∈ f.params, r ∉ p.globals)

include hp hmain hparams

theorem State.step_globals (hchain : Chain p st.frame st.below) (hstep : st.step p literals = .next st') {g : Reg}
    (hg : g ∉ st.targets p) : st'.globals g = st.globals g := by
  obtain ⟨f, i, δ, hdoes, hmoves⟩ := step_eq_next hstep
  -- Where the run stays in the activation, it is the instruction that changed them.
  have hstay : (∀ ws, δ.flow ≠ .back ws) → δ.globals g = st.globals g := fun hflow => by
    refine hdoes.spares.globals g ?_
    have hret : ∀ src, i ≠ .ret src := by
      rintro src rfl
      obtain ⟨ws, hback⟩ := hdoes.back
      exact hflow ws hback
    rwa [show (i.footprint _).globals = _ from changes_eq hdoes.instr? hret _]
  cases hmoves with
  | on hflow | goto hflow => exact hstay (by simp [hflow])
  | call hflow hst hcallee henter =>
    subst hst
    have hchain' := hchain.step hstep
    have hfunc : _ ≠ p.main.toNat := hchain'.func_ne hp hmain
    have hentered := enter_globals (hparams _ (List.mem_of_getElem? hcallee)) hfunc henter
    exact (congrFun hentered g).trans (hstay (by simp [hflow]))
  | @back results fr frs _ _ δ' hflow hbelow hst hcaller hresume =>
    subst hst
    obtain ⟨src, rfl⟩ := (hflow ▸ hdoes.leads.resolve_left (by simp [hflow])).back
    rw [hbelow] at hchain
    have hret := hdoes.ret_globals (hchain.func_ne hp hmain)
    cases hchain with
    | call hinstr =>
      have htargets : st.targets p = Instr.nonNull [st.frame.dst] := by
        simp [targets, hdoes.instr?, hbelow, hinstr, Instr.defs]
      exact ((resume_spares hresume).globals g (htargets ▸ hg)).trans (congrFun hret g)

theorem Passes.keepsGlobals {n : Nat} (h : Passes p literals context n st) : st.KeepsGlobals p literals where
  once := h.chain.once hp hmain
  enters hcall := fun e => Frame.callee_ne hp hmain hcall (congrArg Int.toNat e)
  call hcall hstep := funext fun g => State.step_globals hp hmain hparams h.chain hstep (by simp [State.targets, hcall])
  ret {f src} hf hi hbelow := by
    obtain ⟨caller, frs, hframes⟩ := List.exists_cons_of_ne_nil hbelow
    have hne : st.frame.func ≠ p.main.toNat := (hframes ▸ h.chain).func_ne hp hmain
    have hspares := (Lowering.spares_lower (e := setting p literals st.frame.func f) (fun _ => Scope.isGlobal_of_mem)
      (.ret src)).store st.store
    exact funext fun g => hspares.globals g (by simp [Instr.footprint, Instr.changes, isMain_eq_false literals hne])
  ends {src} hret hfunc := by
    cases hstep : st.step p literals with
    | ended r => exact ⟨r, rfl⟩
    | next st' =>
      obtain ⟨f, i, δ, hdoes, hmoves⟩ := State.step_eq_next hstep
      obtain rfl : i = .ret src := Option.some.inj (hdoes.instr?.symm.trans hret)
      obtain ⟨ws, hback⟩ := hdoes.back
      cases hmoves with
      | back _ hbelow => exact absurd hfunc ((hbelow ▸ h.chain).func_ne hp hmain)
      | on hflow | goto hflow | call hflow => simp [hback] at hflow
  step hstep := fun g hg => State.step_globals hp hmain hparams h.chain hstep hg

theorem Passes.globals_eq {m n : Nat} (hm : Passes p literals context m st) (hn : Passes p literals context n st')
    (hle : m ≤ n) {g : Reg} (hg : ∀ k, m ≤ k → k < n → ∀ t, Passes p literals context k t → g ∉ t.targets p) :
    st'.globals g = st.globals g := by
  induction hle generalizing st' with
  | refl => rw [hm.unique hn]
  | @step n hle ih =>
    obtain ⟨before, hbefore, hstep⟩ := passes_succ.1 hn
    have hone := State.step_globals hp hmain hparams hbefore.chain hstep (hg n hle (Nat.lt_succ_self n) before hbefore)
    exact hone.trans (ih hbefore fun k hk hlt => hg k hk (Nat.lt_succ_of_lt hlt))

end

end

end Direct

/-- Globals live for the whole run of a program that does not call its main function, and where the machine stands at a
state of the run its memory holds the globals of that state. -/
theorem Program.globals_live {p : Program} (hp : p.check = []) (hparams : ∀ f ∈ p.funcs, ∀ r ∈ f.params, r ∉ p.globals)
    (hmain : p.MainUncalled) {x : Executable} (hx : p.compile = .ok x) {context : Context} {stackWords : Int64}
    {inst : Instance Service Context} (hinst : Instance.ofModule x.module context stackWords = .ok inst) :
    (∀ n st, Direct.Passes p x.literals inst.outside.host n st → st.KeepsGlobals p x.literals)
      ∧ (∀ m n st st' g, m ≤ n → Direct.Passes p x.literals inst.outside.host m st →
        Direct.Passes p x.literals inst.outside.host n st' →
        (∀ k, m ≤ k → k < n → ∀ t, Direct.Passes p x.literals inst.outside.host k t → g ∉ t.targets p) →
          st'.globals g = st.globals g)
      ∧ (p.Sized → ∃ P : Plan, P.Sound ∧ P.program = p ∧ P.code = x ∧ P.Mirrors inst.outside
        ∧ ∀ st mst, P.Stands st mst → P.Carries mst.outside.memory st.globals) := by
  refine ⟨fun n st h => h.keepsGlobals hp hmain hparams, fun m n st st' g hle hm hn hg =>
    hm.globals_eq hp hmain hparams hn hle hg,
    fun hs => ?_⟩
  obtain ⟨P, hP, hprogram, rfl⟩ := Plan.exists_of_compile hp hs hx
  refine ⟨P, hP, hprogram, rfl, hP.mirrors hinst, ?_⟩
  rintro st mst ⟨_, hst, area, out, fr, below, rfl, hgo⟩
  obtain ⟨f, hf⟩ := hgo.runs.func
  cases hst
  exact hP.carries hf hgo.sound

/-- A program whose main function calls another, with a map that both share. -/
theorem Program.globals_live_uniq :
    Samples.uniq.check = [] ∧ (∀ f ∈ Samples.uniq.funcs, ∀ r ∈ f.params, r ∉ Samples.uniq.globals)
    ∧ Samples.uniq.MainUncalled ∧ ∃ x inst, Samples.uniq.compile = .ok x
      ∧ Instance.ofModule x.module (Context.ofSettings {} {}) 0 = .ok inst
      ∧ (∀ n st, Direct.Passes Samples.uniq x.literals inst.outside.host n st → st.KeepsGlobals Samples.uniq x.literals)
      ∧ ∃ P : Plan, P.Sound ∧ P.program = Samples.uniq ∧ P.code = x ∧ P.Mirrors inst.outside := by
  have hp : Samples.uniq.check = [] := by decide +kernel
  have hparams : ∀ f ∈ Samples.uniq.funcs, ∀ r ∈ f.params, r ∉ Samples.uniq.globals := by decide +kernel
  have hmain : Samples.uniq.MainUncalled := by decide +kernel
  have hsized : Samples.uniq.Sized := sized_of_slots (by decide +kernel) (by decide +kernel)
  obtain ⟨x, hx⟩ := exists_compile hp (by decide +kernel) (by decide +kernel) (by decide +kernel)
  obtain ⟨P, hP, hprogram, rfl⟩ := Plan.exists_of_compile hp hsized hx
  obtain ⟨inst, hinst⟩ := hP.exists_instance (by rw [hprogram]; decide +kernel) (Context.ofSettings {} {})
  obtain ⟨hkeeps, -, hplan⟩ := globals_live hp hparams hmain hx hinst
  exact ⟨hp, hparams, hmain, P.code, inst, hx, hinst, hkeeps, P, hP, hprogram, rfl, hP.mirrors hinst⟩

/-- A program that puts a text into a global and calls its main function, which returns at once the second time. -/
def Program.callingMain : Program where
  funcs := [{
    name := "main", ret := .null
    body := [.jmpIf ⟨2, .int⟩ 1, .constInt ⟨2, .int⟩ 1, .constStr ⟨3, .str⟩ "kept", .mov ⟨1, .str⟩ ⟨3, .str⟩,
      .call ⟨0, .null⟩ 0 [],
      .print none [⟨1, .str⟩] ⟨0, .null⟩, .label 1, .ret ⟨0, .null⟩] }]
  globals := [⟨1, .str⟩, ⟨2, .int⟩]

/-- The text is gone once the call has returned, though no instruction names that global. -/
theorem Program.globals_given_back_by_call :
    callingMain.check = [] ∧ (∀ f ∈ callingMain.funcs, ∀ r ∈ f.params, r ∉ callingMain.globals)
      ∧ ∃ n st st', Direct.Passes callingMain [] (Context.ofSettings {} {}) n st ∧ st.step callingMain [] = .next st'
        ∧ ∃ g ∈ callingMain.globals, g ∉ st.targets callingMain ∧ st'.globals g ≠ st.globals g := by
  have hbefore : (Direct.stateAt? callingMain [] (Context.ofSettings {} {}) 6).map
      (fun st => (st.targets callingMain, st.globals ⟨1, .str⟩)) = some ([], [1953523051, 288230376151711744]) := by
    decide +kernel
  have hafter : (Direct.stateAt? callingMain [] (Context.ofSettings {} {}) 7).map (·.globals ⟨1, .str⟩)
      = some [0, 0] := by
    decide +kernel
  obtain ⟨st, hst, hglobal⟩ := Option.map_eq_some_iff.1 hbefore
  obtain ⟨st', hst', hglobal'⟩ := Option.map_eq_some_iff.1 hafter
  rw [Prod.mk.injEq] at hglobal
  rw [Direct.stateAt?_eq_some] at hst hst'
  obtain ⟨before, hpass, hstep⟩ := Direct.passes_succ.1 hst'
  obtain rfl := hpass.unique hst
  refine ⟨by decide +kernel, by decide +kernel, 6, before, st', hst, hstep, ⟨1, .str⟩, .head _, by simp [hglobal.1], ?_⟩
  rw [hglobal.2, hglobal']
  decide

end RecordMill

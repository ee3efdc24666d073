import RecordMill.Proofs.Lowering.Footprint
import RecordMill.Proofs.Lowering.Start
import RecordMill.Proofs.Program.WellFormed

/-!
# Activations

What one step of a direct run can come to, told once. From it follows that every activation of a run but the
outermost, which is one of the main function, was called from where the one below it stands.
-/

namespace RecordMill

namespace Direct

namespace State

variable (p : Program) (literals : List Bytes)

/-- The instruction `i` of the function `f` is done, and leaves the store `δ`. -/
structure Does (st : State) (f : Func) (i : Instr) (δ : Store) : Prop where
  func : p.funcs[st.frame.func]? = some f
  instr : f.body[st.frame.next]? = some i
  done : (Lowering.lower i : Direct Unit) (setting p literals st.frame.func f) st.store = (.ok (), δ)

/-- Where the run is after an instruction of `f` that left the store `δ`. -/
inductive Moves (st : State) (f : Func) (δ : Store) : State → Prop
  | on : δ.flow = .on → Moves st f δ (st.load δ (st.frame.next + 1))
  | goto {l : Label} : δ.flow = .goto l → Moves st f δ (st.load δ (f.target l))
  | call {dst : Reg} {fn : Int} {args : List (List UInt64)} {st' : State} {g : Func} {δ' : Store} :
    δ.flow = .call dst fn args →
      st' = ⟨δ.context, δ.globals, fresh fn.toNat dst, (st.load δ st.frame.next).frame :: st.below⟩ →
      p.funcs[fn.toNat]? = some g → enter args (setting p literals fn.toNat g) st'.store = (.ok (), δ') →
      Moves st f δ (st'.load δ' 0)
  | back {results : List UInt64} {fr : Frame} {frs : List Frame} {st' : State} {g : Func} {δ' : Store} :
    δ.flow = .back results →
      st.below = fr :: frs → st' = ⟨δ.context, δ.globals, fr, frs⟩ → p.funcs[fr.func]? = some g →
      resume st.frame.dst f.ret results (setting p literals fr.func g) st'.store = (.ok (), δ') →
      Moves st f δ (st'.load δ' (fr.next + 1))

variable {p literals} {st st' : State} {f : Func} {i : Instr} {δ : Store}

theorem perform_eq_next {next : Nat} {x : Direct Unit} (h : st.perform p literals next x = .next st') :
    ∃ f δ, p.funcs[st.frame.func]? = some f ∧ x (setting p literals st.frame.func f) st.store = (.ok (), δ)
      ∧ st' = st.load δ next := by
  unfold perform at h
  split at h
  · cases h
  · next f hf =>
    split at h
    · next δ hx =>
      cases h
      exact ⟨f, δ, hf, hx, rfl⟩
    · cases h
    · cases h

theorem step_eq_next (h : st.step p literals = .next st') :
    ∃ f i δ, st.Does p literals f i δ ∧ st.Moves p literals f δ st' := by
  unfold step at h
  split at h
  · cases h
  next f hf =>
  split at h
  · cases h
  next i hi =>
  split at h
  · next δ hrun =>
    refine ⟨f, i, δ, ⟨hf, hi, hrun⟩, ?_⟩
    cases hflow : δ.flow with
    | on =>
      rw [hflow] at h
      cases h
      exact .on hflow
    | goto l =>
      rw [hflow] at h
      cases h
      exact .goto hflow
    | call dst fn args =>
      rw [hflow] at h
      obtain ⟨g, δ', hg, hx, rfl⟩ := perform_eq_next h
      exact .call hflow rfl hg hx
    | back results =>
      rw [hflow] at h
      unfold follow at h
      dsimp only at h
      split at h
      · cases h
      · next fr frs hbelow =>
        obtain ⟨g, δ', hg, hx, rfl⟩ := perform_eq_next h
        exact .back hflow hbelow rfl hg hx
  · cases h
  · cases h

namespace Does

variable (h : st.Does p literals f i δ)

include h

theorem instr? : st.frame.instr? p = some i := by rw [Frame.instr?, h.func]; exact h.instr

theorem spares : Store.Spares (i.footprint (.ofFunc p f (p.main = st.frame.func))) st.store δ :=
  (Lowering.spares_lower (e := setting p literals st.frame.func f) (fun _ => Scope.isGlobal_of_mem) i).of_run h.done

theorem leads : δ.flow = .on ∨ i.Leads δ.flow := h.spares.flow

end Does

theorem Does.back {src : Reg} (h : st.Does p literals f (.ret src) δ) : ∃ ws, δ.flow = .back ws := by
  have hret : (results src >>= fun ws => Direct.follow (.back ws)) (setting p literals st.frame.func f) st.store
      = (.ok (), δ) :=
    ret_eq src ▸ h.done
  rw [bind_apply] at hret
  rcases hresults : results src (setting p literals st.frame.func f) st.store with ⟨e | ws, δ'⟩
    <;> rw [hresults] at hret
  · cases hret
  · cases hret
    exact ⟨ws, rfl⟩

end State

theorem enter_spares {p : Program} {literals : List Bytes} {i : Nat} {f : Func} {args : List (List UInt64)}
    {δ δ' : Store} (h : enter args (setting p literals i f) δ = (.ok (), δ')) :
    Store.Spares ⟨f.params.filter (p.globals.contains ·) ++ (if p.main = i then p.globals else []), fun _ => True, [],
      fun _ => False,
      fun _ => False⟩ δ δ' := by
  refine (spares_enter (fun _ => Scope.isGlobal_of_mem) (fun hmain g hg _ => ?_) (fun _ => trivial)
    (fun r hr => ⟨fun _ hglobal => ?_, fun _ _ => trivial⟩) args).of_run h
  · have hmain : p.main = i := of_decide_eq_true hmain
    exact List.mem_append_right _ (by rwa [if_pos hmain])
  · exact List.mem_append_left _ (List.mem_filter.2 ⟨hr, by simpa using Scope.mem_of_isGlobal hglobal⟩)

theorem resume_spares {e : Setting} {dst : Reg} {ret : Ty} {results : List UInt64} {δ δ' : Store}
    (h : resume dst ret results e δ = (.ok (), δ')) : Store.Spares (.only (Instr.nonNull [dst])) δ δ' := by
  have hopen : Open e (.only (Instr.nonNull [dst])) dst := open_nonNull rfl rfl (.head _)
  have hspares : Spares e (.only (Instr.nonNull [dst])) (resume dst ret results) := inferInstance
  exact hspares.of_run h

theorem State.step_heap {p : Program} {literals : List Bytes} {st st' : State}
    (hstep : st.step p literals = .next st') :
    st.context.heap.Reaches st'.context.heap := by
  obtain ⟨f, i, δ, hdoes, hmoves⟩ := step_eq_next hstep
  have hfirst : st.context.heap.Reaches δ.context.heap := hdoes.spares.heap
  cases hmoves with
  | on | goto => exact hfirst
  | call _ hst _ henter =>
    subst hst
    exact hfirst.trans (enter_spares henter).heap
  | back _ _ hst _ hresume =>
    subst hst
    exact hfirst.trans (resume_spares hresume).heap

end Direct

namespace Instr

variable {i : Instr}

theorem Leads.goto {l : Label} (h : i.Leads (.goto l)) : i.target? = some l := by cases i <;> simp_all [Leads, target?]

theorem Leads.call {dst : Reg} {fn : Int} {wss : List (List UInt64)} (h : i.Leads (.call dst fn wss)) :
    ∃ args, i = .call dst fn args := by
  cases i <;> simp_all [Leads]

theorem Leads.back {ws : List UInt64} (h : i.Leads (.back ws)) : ∃ src, i = .ret src := by cases i <;> simp_all [Leads]

end Instr

namespace Direct

variable {p : Program} {literals : List Bytes} {context : Context} {st st' : State} {n : Nat}

/-! ## Runs -/

theorem Passes.heap (h : Passes p literals context n st) : context.heap.Reaches st.context.heap := by
  induction n generalizing st with
  | zero =>
    obtain ⟨f, δ, -, henter, rfl⟩ := State.perform_eq_next (passes_zero.1 h)
    exact (enter_spares henter).heap
  | succ n ih =>
    obtain ⟨before, hbefore, hstep⟩ := passes_succ.1 h
    exact (ih hbefore).trans (State.step_heap hstep)

/-- The state after so many instructions, if the run is not over by then. -/
def stateAt? (p : Program) (literals : List Bytes) (context : Context) (n : Nat) : Option State :=
  match start p literals context with
  | .ended _ => none
  | .next first => match runs (State.step p literals) n first with
    | .ended _ => none
    | .next st => some st

theorem stateAt?_eq_some : stateAt? p literals context n = some st ↔ Passes p literals context n st := by
  unfold stateAt? Passes
  cases start p literals context with
  | ended r => simp
  | next first =>
    simp only [Turn.next.injEq, exists_eq_left']
    cases runs (State.step p literals) n first <;> simp

/-! ## The activations of a run -/

/-- Every activation was called from the one below it, where that one stands. -/
inductive Chain (p : Program) : Frame → List Frame → Prop
  | main {fr : Frame} : fr.func = p.main.toNat → Chain p fr []
  | call {fr caller : Frame} {frs : List Frame} {fn : Int} {args : List Reg} :
    caller.instr? p = some (.call fr.dst fn args) →
      fr.func = fn.toNat → Chain p caller frs → Chain p fr (caller :: frs)

theorem Chain.congr {fr fr' : Frame} {frs : List Frame} (h : Chain p fr frs) (hfunc : fr'.func = fr.func)
    (hdst : fr'.dst = fr.dst) :
    Chain p fr' frs := by
  cases h with
  | main hmain => exact .main (hfunc.trans hmain)
  | call hinstr hcallee hbelow => exact .call (hdst ▸ hinstr) (hfunc.trans hcallee) hbelow

theorem Chain.step (h : Chain p st.frame st.below) (hstep : st.step p literals = .next st') :
    Chain p st'.frame st'.below := by
  obtain ⟨f, i, δ, hdoes, hmoves⟩ := State.step_eq_next hstep
  cases hmoves with
  | on | goto => exact h.congr rfl rfl
  | call hflow hst =>
    obtain ⟨args, rfl⟩ := (hflow ▸ hdoes.leads.resolve_left (by simp [hflow])).call
    subst hst
    have hcaller : (st.load δ st.frame.next).frame.instr? p = some _ := hdoes.instr?
    exact .call hcaller rfl (h.congr rfl rfl)
  | back hflow hbelow hst =>
    subst hst
    rw [hbelow] at h
    cases h with
    | call _ _ hcaller => exact hcaller.congr rfl rfl

theorem Chain.runs (h : Chain p st.frame st.below) (hrun : runs (State.step p literals) n st = .next st') :
    Chain p st'.frame st'.below := by
  induction n generalizing st with
  | zero =>
    cases hrun
    exact h
  | succ n ih =>
    obtain ⟨t, hstep, hrest⟩ := runs_succ_eq_next.1 hrun
    exact ih (h.step hstep) hrest

theorem Passes.chain (h : Passes p literals context n st) : Chain p st.frame st.below := by
  obtain ⟨first, hfirst, hrun⟩ := h
  obtain ⟨f, δ, -, -, rfl⟩ := State.perform_eq_next hfirst
  exact Chain.runs (.main rfl) hrun

end Direct

end RecordMill

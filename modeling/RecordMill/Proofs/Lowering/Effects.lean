import RecordMill.Proofs.Lowering.Dependence

/-!
# What instructions do to registers

Main statement: `Program.defines_and_uses`. Until an activation is done with an instruction, it changes no other
registers than the instruction defines, and what it puts there depends on the registers that the instruction uses. At a
call that holds of all that the callee does; a return of the main function gives back the strings and maps in globals as
well. -/

namespace RecordMill

open Machine (Instance StateOf)

namespace Direct

section

variable {p : Program} {literals : List Bytes} {st st' : State} {n : Nat}

/-! ## Activations on top of others -/

theorem Chain.dst_eq {fr caller : Frame} {frs : List Frame} (h : Chain p fr (caller :: frs)) {dst : Reg} {fn : Int}
    {args : List Reg} (hi : caller.instr? p = some (.call dst fn args)) : fr.dst = dst := by
  cases h with
  | call hinstr =>
    cases hinstr.symm.trans hi
    rfl

/-- What a register of the innermost activation holds; an iterator holds a list of keys and the index of the next
one. -/
def State.holds (p : Program) (st : State) (r : Reg) : List UInt64 :=
  if r.ty.isIter then [st.frame.keys r, st.frame.position r] else st.reads p r

/-- The same activations on top of `frs`. -/
def State.over (st : State) (frs : List Frame) : State := { st with below := st.below ++ frs }

/-- The only activation of `st` returns to the activation `fr`, which has the store `δ'` then. -/
inductive State.ReturnsTo (p : Program) (literals : List Bytes) (st : State) (fr : Frame) : Store → Prop
  | intro {f g : Func} {src : Reg} {δ δ' : Store} {ws : List UInt64} :
    st.below = [] → st.Does p literals f (.ret src) δ →
      δ.flow = .back ws → p.funcs[fr.func]? = some g →
      resume st.frame.dst f.ret ws (setting p literals fr.func g) (State.store ⟨δ.context, δ.globals, fr, []⟩)
        = (.ok (), δ') →
      ReturnsTo p literals st fr δ'

/-- The caller goes on with the store `δ`. -/
def State.resumed (fr : Frame) (frs : List Frame) (δ : Store) :
    State := State.load ⟨δ.context, δ.globals, fr, frs⟩ δ (fr.next + 1)

namespace State

variable {f : Func} {i : Instr} {δ : Store} {fr : Frame} {frs : List Frame}

theorem over_inj {s t : State} (h : s.over frs = t.over frs) : s = t := by
  obtain ⟨c, globals, fr, below⟩ := s
  obtain ⟨c', globals', fr', below'⟩ := t
  simpa [State.over] using h

theorem step_of_moves (h : st.Does p literals f i δ) (hmoves : st.Moves p literals f δ st') :
    st.step p literals = .next st' := by
  rw [step_apply literals h.func h.instr, h.done]
  dsimp only
  cases hmoves with
  | on hflow | goto hflow =>
    rw [hflow]
    rfl
  | call hflow hst hcallee henter =>
    rw [hflow]
    subst hst
    exact perform_apply hcallee henter
  | back hflow hbelow hst hcaller hresume =>
    subst hst
    rw [hflow]
    unfold follow load
    dsimp only
    rw [hbelow]
    exact perform_apply hcaller hresume

theorem step_over (h : st.step p literals = .next st') (frs : List Frame) :
    (st.over frs).step p literals = .next (st'.over frs) := by
  obtain ⟨f, i, δ, hdoes, hmoves⟩ := step_eq_next h
  have hdoes' : (st.over frs).Does p literals f i δ := ⟨hdoes.func, hdoes.instr, hdoes.done⟩
  refine step_of_moves hdoes' ?_
  cases hmoves with
  | on hflow => exact .on hflow
  | goto hflow => exact .goto hflow
  | call hflow hst hcallee henter =>
    subst hst
    exact @Moves.call p literals (st.over frs) _ _ _ _ _ _ _ _ hflow rfl hcallee henter
  | back hflow hbelow hst hcaller hresume =>
    subst hst
    exact @Moves.back p literals (st.over frs) _ _ _ _ _ _ _ _ hflow (congrArg (· ++ frs) hbelow) rfl hcaller hresume

theorem runs_over (h : runs (step p literals) n st = .next st') (frs : List Frame) :
    runs (step p literals) n (st.over frs) = .next (st'.over frs) := by
  induction n generalizing st with
  | zero =>
    cases h
    rfl
  | succ n ih =>
    obtain ⟨t, hstep, hrest⟩ := runs_succ_eq_next.1 h
    exact runs_succ_eq_next.2 ⟨_, step_over hstep frs, ih hrest⟩

theorem step_under (h : (st.over (fr :: frs)).step p literals = .next st') :
    (∃ t, st.step p literals = .next t ∧ st' = t.over (fr :: frs)) ∨ ∃ δ, st.ReturnsTo p literals fr δ
      ∧ st' = resumed fr frs δ := by
  obtain ⟨f, i, δ, hdoes, hmoves⟩ := step_eq_next h
  have hdoes' : st.Does p literals f i δ := ⟨hdoes.func, hdoes.instr, hdoes.done⟩
  cases hmoves with
  | on hflow => exact .inl ⟨_, step_of_moves hdoes' (.on hflow), rfl⟩
  | goto hflow => exact .inl ⟨_, step_of_moves hdoes' (.goto hflow), rfl⟩
  | call hflow hst hcallee henter =>
    subst hst
    exact .inl ⟨_, step_of_moves hdoes' (.call hflow rfl hcallee henter), rfl⟩
  | @back ws caller callers _ g δ' hflow hbelow hst hcaller hresume =>
    subst hst
    obtain ⟨src, rfl⟩ := (hflow ▸ hdoes.leads.resolve_left (by simp [hflow])).back
    cases hst : st.below with
    | nil =>
      have hframes : st.below ++ fr :: frs = caller :: callers := hbelow
      rw [hst, List.nil_append, List.cons.injEq] at hframes
      obtain ⟨rfl, rfl⟩ := hframes
      exact .inr ⟨δ', .intro hst hdoes' hflow hcaller hresume, rfl⟩
    | cons u us =>
      have hframes : st.below ++ fr :: frs = caller :: callers := hbelow
      rw [hst, List.cons_append, List.cons.injEq] at hframes
      obtain ⟨rfl, rfl⟩ := hframes
      exact .inl ⟨_, step_of_moves hdoes' (.back hflow hst rfl hcaller hresume), rfl⟩

theorem step_returns (h : st.ReturnsTo p literals fr δ) (frs : List Frame) :
    (st.over (fr :: frs)).step p literals = .next (resumed fr frs δ) := by
  cases h with
  | @intro f g src δ₁ _ ws hbelow hdoes hflow hcaller hresume =>
    have hdoes' : (st.over (fr :: frs)).Does p literals f (.ret src) δ₁ := ⟨hdoes.func, hdoes.instr, hdoes.done⟩
    have hback : (st.over (fr :: frs)).Moves p literals f δ₁
        (State.load ⟨δ₁.context, δ₁.globals, fr, frs⟩ δ (fr.next + 1)) :=
      .back hflow (congrArg (· ++ fr :: frs) hbelow) rfl hcaller hresume
    exact step_of_moves hdoes' hback

theorem runs_under {c : State} (h : runs (step p literals) n (c.over (fr :: frs)) = .next st')
    (hlength : st'.below.length = frs.length)
    (habove : ∀ k t, k < n → runs (step p literals) k (c.over (fr :: frs)) = .next t → frs.length < t.below.length) :
    ∃ m t δ, n = m + 1 ∧ runs (step p literals) m c = .next t ∧ t.ReturnsTo p literals fr δ
      ∧ st' = resumed fr frs δ := by
  induction n generalizing c with
  | zero =>
    cases h
    simp only [State.over, List.length_append, List.length_cons] at hlength
    omega
  | succ n ih =>
    obtain ⟨u, hstep, hrest⟩ := runs_succ_eq_next.1 h
    rcases step_under hstep with ⟨c', hc', rfl⟩ | ⟨δ, hreturns, rfl⟩
    · have habove' : ∀ k t, k < n → runs (step p literals) k (c'.over (fr :: frs)) = .next t →
        frs.length < t.below.length :=
        fun k t hk ht => habove (k + 1) t (Nat.succ_lt_succ hk) (runs_succ_eq_next.2 ⟨_, hstep, ht⟩)
      obtain ⟨m, t, δ, rfl, hm, hreturns, rfl⟩ := ih hrest habove'
      exact ⟨m + 1, t, δ, rfl, runs_succ_eq_next.2 ⟨c', hc', hm⟩, hreturns, rfl⟩
    · cases n with
      | zero =>
        cases hrest
        exact ⟨0, c, δ, rfl, rfl, hreturns, rfl⟩
      | succ n =>
        have hone := habove 1 _ (Nat.succ_lt_succ (Nat.succ_pos n)) (runs_succ_eq_next.2 ⟨_, hstep, rfl⟩)
        exact absurd hone (Nat.lt_irrefl _)

/-! ## Whole instructions -/

/-- After `n` steps the activation is done with the instruction at which it was: in between there are activations on top
of it. -/
structure Finishes (p : Program) (literals : List Bytes) (n : Nat) (st st' : State) : Prop where
  run : runs (step p literals) n st = .next st'
  positive : 0 < n
  back : st'.below.length = st.below.length
  above : ∀ k t, 0 < k → k < n → runs (step p literals) k st = .next t → st.below.length < t.below.length

theorem Finishes.of_step (h : st.step p literals = .next st') (hlength : st'.below.length = st.below.length) :
    st.Finishes p literals 1 st' :=
  ⟨runs_succ_eq_next.2 ⟨st', h, rfl⟩, Nat.one_pos, hlength, fun _ _ hk hk' => absurd hk' (Nat.not_lt.2 hk)⟩

theorem Finishes.once (h : st.Finishes p literals n st') (hi : st.frame.instr? p = some i)
    (hcall : ∀ dst fn args, i ≠ .call dst fn args) :
    n = 1 ∧ ∃ f δ k, st.Does p literals f i δ ∧ (δ.flow = .on ∨ ∃ l, δ.flow = .goto l) ∧ st' = st.load δ k := by
  obtain ⟨m, rfl⟩ := Nat.exists_eq_succ_of_ne_zero (Nat.pos_iff_ne_zero.1 h.positive)
  obtain ⟨t, hstep, hrest⟩ := runs_succ_eq_next.1 h.run
  obtain ⟨f, i', δ, hdoes, hmoves⟩ := step_eq_next hstep
  obtain rfl : i' = i := Option.some.inj (hdoes.instr?.symm.trans hi)
  have hstay : t.below.length ≤ st.below.length → m = 0 := fun hle => by
    by_contra hm
    have habove := h.above 1 t Nat.one_pos (by omega) (runs_succ_eq_next.2 ⟨t, hstep, rfl⟩)
    omega
  cases hmoves with
  | on hflow =>
    obtain rfl := hstay (Nat.le_refl _)
    cases hrest
    exact ⟨rfl, f, δ, _, hdoes, .inl hflow, rfl⟩
  | goto hflow =>
    obtain rfl := hstay (Nat.le_refl _)
    cases hrest
    exact ⟨rfl, f, δ, _, hdoes, .inr ⟨_, hflow⟩, rfl⟩
  | call hflow =>
    obtain ⟨args, rfl⟩ := (hflow ▸ hdoes.leads.resolve_left (by simp [hflow])).call
    exact absurd rfl (hcall _ _ _)
  | @back _ fr frs _ _ _ hflow hbelow hst =>
    subst hst
    have hshorter : st.below.length = frs.length + 1 := by rw [hbelow]; exact List.length_cons
    obtain rfl := hstay (by rw [hshorter]; exact Nat.le_succ _)
    cases hrest
    have hback := h.back
    rw [hshorter] at hback
    exact absurd hback (Nat.ne_of_lt (Nat.lt_succ_self _))

theorem call_alike {e : Setting} [e.Scoped] {dst : Reg} {fn : Int} {args : List Reg} {δ₁ δ₂ δ₁' : Store}
    (h : δ₁.Agree e (Instr.nonNull args) δ₂) (hrun : Direct.call dst fn args e δ₁ = (.ok (), δ₁')) :
    ∃ wss c, δ₁' = { δ₁ with context := c, flow := .call dst fn wss }
      ∧ Direct.call dst fn args e δ₂ = (.ok (), { δ₂ with context := c, flow := .call dst fn wss }) := by
  have hvalues : Looks e (Instr.nonNull args) (args.mapM value) := looks_values fun r hr => .of_mem hr
  obtain ⟨a, c, h₁, h₂⟩ := hvalues.same h
  obtain ⟨wss, δ, hread, hfollow⟩ := bind_eq_ok hrun
  cases h₁.symm.trans hread
  cases hfollow
  exact ⟨wss, c, rfl, (bind_ok h₂).trans rfl⟩

theorem step_call (hp : p.check = []) (hg : p.globals.Nodup) {dst : Reg} {fn : Int} {args : List Reg} {u : State}
    (hi : st.frame.instr? p = some (.call dst fn args)) (h : st.step p literals = .next u) :
    ∃ c : State, u = c.over (st.frame :: st.below) ∧ c.below = [] ∧ ∀ s : State, s.frame.func = st.frame.func →
      s.frame.instr? p = some (.call dst fn args) → s.context = st.context → s.globals = st.globals →
      (∀ r ∈ Instr.uses (.call dst fn args), s.holds p r = st.holds p r) →
        s.step p literals = .next (c.over (s.frame :: s.below)) := by
  obtain ⟨f, i, δ, hdoes, hmoves⟩ := step_eq_next h
  obtain rfl : i = .call dst fn args := Option.some.inj (hdoes.instr?.symm.trans hi)
  have he : (setting p literals st.frame.func f).Scoped := setting_scoped hp hg hdoes.func
  have hcall :=
      fun {δ₂ : Store} (hagree : st.store.Agree (setting p literals st.frame.func f) (Instr.nonNull args) δ₂) =>
    call_alike hagree hdoes.done
  obtain ⟨wss, c, rfl, -⟩ := hcall ⟨rfl, fun _ _ => rfl, rfl⟩
  cases hmoves with
  | on hflow | goto hflow | back hflow => cases hflow
  | @call _ _ _ called g δ' hflow hst hcallee henter =>
    cases hflow
    subst hst
    refine ⟨State.load ⟨c, st.globals, fresh fn.toNat dst, []⟩ δ' 0, rfl, rfl,
      fun s hfunc hs hcontext hglobals huses => ?_⟩
    have hagree : st.store.Agree (setting p literals st.frame.func f) (Instr.nonNull args) s.store :=
      ⟨rfl, huses, hcontext⟩
    obtain ⟨wss', c', hsame, hdone⟩ := hcall hagree
    cases hsame
    have hdoes' : s.Does p literals f (.call dst fn args) { s.store with context := c, flow := .call dst fn wss } := by
      refine ⟨hfunc ▸ hdoes.func, ?_, hfunc ▸ hdone⟩
      rwa [Frame.instr?, hfunc, hdoes.func] at hs
    have henter' : enter wss (setting p literals fn.toNat g)
      (State.store ⟨c, s.globals, fresh fn.toNat dst, s.frame :: s.below⟩)
        = (.ok (), δ') := by
      rw [hglobals]
      exact henter
    exact step_of_moves hdoes' (.call rfl rfl hcallee henter')

theorem finishes_call (hp : p.check = []) (hg : p.globals.Nodup) {dst : Reg} {fn : Int} {args : List Reg}
    (hi : st.frame.instr? p = some (.call dst fn args)) :
    st.Finishes p literals n st' ↔ ∃ m c t δ, n = m + 2 ∧ st.step p literals = .next (c.over (st.frame :: st.below))
    ∧ c.below = []
      ∧ runs (step p literals) m c = .next t ∧ t.ReturnsTo p literals st.frame δ
      ∧ st' = resumed st.frame st.below δ := by
  constructor
  · intro h
    obtain ⟨m, rfl⟩ := Nat.exists_eq_succ_of_ne_zero (Nat.pos_iff_ne_zero.1 h.positive)
    obtain ⟨u, hstep, hrest⟩ := runs_succ_eq_next.1 h.run
    obtain ⟨c, rfl, hbelow, -⟩ := step_call hp hg hi hstep
    obtain ⟨m, t, δ, rfl, hm, hreturns, rfl⟩ := runs_under hrest h.back fun k t hk ht =>
      h.above (k + 1) t (Nat.succ_pos k) (Nat.succ_lt_succ hk) (runs_succ_eq_next.2 ⟨_, hstep, ht⟩)
    exact ⟨m, c, t, δ, rfl, hstep, hbelow, hm, hreturns, rfl⟩
  · rintro ⟨m, c, t, δ, rfl, hstep, hbelow, hm, hreturns, rfl⟩
    have hrest : runs (step p literals) (m + 1) (c.over (st.frame :: st.below))
        = .next (resumed st.frame st.below δ) := by
      rw [runs_of_next (runs_over hm _)]
      exact runs_succ_eq_next.2 ⟨_, step_returns hreturns st.below, rfl⟩
    refine ⟨runs_succ_eq_next.2 ⟨_, hstep, hrest⟩, Nat.succ_pos _, rfl, fun k s hk hlt hs => ?_⟩
    obtain ⟨k, rfl⟩ := Nat.exists_eq_succ_of_ne_zero (Nat.pos_iff_ne_zero.1 hk)
    obtain ⟨u, hu, hs⟩ := runs_succ_eq_next.1 hs
    cases hstep.symm.trans hu
    obtain ⟨v, hv⟩ := exists_runs_of_le hm (Nat.le_of_lt_succ (Nat.lt_of_succ_lt_succ hlt))
    cases (runs_over hv _).symm.trans hs
    simp only [State.over, List.length_append, List.length_cons]
    omega

/-! ## What is used -/

/-- Both stand at the instruction `i` of one function, with the same globals and context, and hold the same in the
registers that the instruction uses. -/
structure AgreesAt (p : Program) (i : Instr) (st s : State) : Prop where
  func : s.frame.func = st.frame.func
  left : st.frame.instr? p = some i
  right : s.frame.instr? p = some i
  context : s.context = st.context
  globals : s.globals = st.globals
  uses : ∀ r ∈ i.uses, s.holds p r = st.holds p r

/-- If the one is done with the instruction, so is the other, which is a state of a run. Then both hold the same in the
registers that the instruction defines. -/
theorem Finishes.alike (hp : p.check = []) (hg : p.globals.Nodup) {context : Context} (hcontext : context.Affords [])
    {s : State} {k : Nat} (hs : Passes p literals context k s) (hagrees : st.AgreesAt p i s)
    (h : st.Finishes p literals n st') (hsize : st'.context.heap.slots.size < UInt64.size) :
    ∃ s', s.Finishes p literals n s' ∧ ∀ d ∈ i.defs, s'.holds p d = st'.holds p d := by
  obtain ⟨hfunc, hi, his, hsame, hglobals, huses⟩ := hagrees
  have hsolvent := hs.solvent hp hg hcontext
  by_cases hcall : ∃ dst fn args, i = .call dst fn args
  · obtain ⟨dst, fn, args, rfl⟩ := hcall
    obtain ⟨m, c, t, δ, rfl, hstep, hbelow, hm, hreturns, rfl⟩ := (finishes_call hp hg hi).1 h
    obtain ⟨c', hc, -, henters⟩ := step_call hp hg hi hstep
    obtain rfl := over_inj hc
    have hentered := henters s hfunc his hsame hglobals huses
    have hlast := hs.later (runs_succ_eq_next.2 ⟨_, hentered, runs_over hm _⟩)
    cases hreturns with
    | @intro f g src δ₁ _ ws hempty hdoes hflow hcaller hresume =>
      have hcaller' : p.funcs[s.frame.func]? = some g := hfunc ▸ hcaller
      have hframes : (t.over (s.frame :: s.below)).below = s.frame :: s.below :=
        congrArg (· ++ s.frame :: s.below) hempty
      have hdst : t.frame.dst = dst := (hframes ▸ hlast.chain).dst_eq his
      have hdoes' : (t.over (s.frame :: s.below)).Does p literals f (.ret src) δ₁ :=
        ⟨hdoes.func, hdoes.instr, hdoes.done⟩
      obtain ⟨⟨fn', args', hcalled⟩, hty, hgiven⟩ :=
        (hlast.solvent hp hg hcontext).given hp hg hlast.chain hdoes' hflow hframes hcaller'
      have he : (setting p literals s.frame.func g).Scoped := setting_scoped hp hg hcaller'
      have hcounted : Counted (setting p literals s.frame.func g) t.frame.dst :=
        Lowering.counted hcalled [t.frame.dst] rfl (.head _) rfl
      have hsets : Sets (setting p literals s.frame.func g) [] (Instr.nonNull [t.frame.dst]) [f.ret.handle ws]
          (resume t.frame.dst f.ret ws) :=
        .resume hty
      have hagree : Store.Agree (setting p literals s.frame.func g) []
        (State.store ⟨δ₁.context, δ₁.globals, st.frame, []⟩)
          (State.store ⟨δ₁.context, δ₁.globals, s.frame, s.below⟩) := ⟨rfl, List.forall_mem_nil _, rfl⟩
      rw [← hfunc] at hresume
      obtain ⟨δ', hdone, hmatch⟩ := hsets.done hagree hgiven hresume hsize
      have hreturns' : t.ReturnsTo p literals s.frame δ' := .intro hempty hdoes hflow hcaller' hdone
      exact ⟨resumed s.frame s.below δ',
        (finishes_call hp hg his).2 ⟨m, c, t, δ', rfl, hentered, hbelow, hm, hreturns', rfl⟩,
        hdst ▸ hmatch.holds⟩
  · have hcall : ∀ dst fn args, i ≠ .call dst fn args := fun dst fn args heq => hcall ⟨dst, fn, args, heq⟩
    obtain ⟨rfl, f, δ, j, hdoes, hflow, rfl⟩ := h.once hi hcall
    have he : (setting p literals st.frame.func f).Scoped := setting_scoped hp hg hdoes.func
    have hmem := List.mem_of_getElem? hdoes.instr
    have hret : ∀ src, i ≠ .ret src := by
      rintro src rfl
      obtain ⟨ws, hback⟩ := hdoes.back
      simp [hback] at hflow
    have hagree : st.store.Agree (setting p literals st.frame.func f) i.uses s.store := ⟨rfl, huses, hsame⟩
    have hf : p.funcs[s.frame.func]? = some f := hfunc ▸ hdoes.func
    have hstore : s.store.Solvent (setting p literals st.frame.func f) ([] ++ s.below.flatMap (Frame.owned p)) :=
      hfunc ▸ hsolvent.store hf
    obtain ⟨δ', hdone, hmatch⟩ := (Lowering.sets_lower hmem hret hcall).done hagree hstore hdoes.done hsize
    have hdoes' : s.Does p literals f i δ' := by
      refine ⟨hf, ?_, hfunc ▸ hdone⟩
      rwa [Frame.instr?, hf] at his
    have hmoves : ∃ j', s.Moves p literals f δ' (s.load δ' j') := by
      rcases hflow with hflow | ⟨l, hflow⟩
      · exact ⟨_, .on (hmatch.flow.trans hflow)⟩
      · exact ⟨_, .goto (hmatch.flow.trans hflow)⟩
    obtain ⟨j', hmoves⟩ := hmoves
    exact ⟨s.load δ' j', .of_step (step_of_moves hdoes' hmoves) rfl, hmatch.holds⟩

/-! ## What is left alone -/

/-- What has changed when an activation is done with the instruction `i`, after `n` steps. -/
structure LeavesOthers (p : Program) (literals : List Bytes) (i : Instr) (n : Nat) (st st' : State) : Prop where
  locals : ∀ r ∉ i.defs, st'.frame.locals r = st.frame.locals r
  iterators : ∀ r ∉ i.moves, st'.frame.keys r = st.frame.keys r ∧ st'.frame.position r = st.frame.position r
  below : st'.below = st.below
  globals : (∀ dst fn args, i ≠ .call dst fn args) → ∀ g ∉ i.defs, st'.globals g = st.globals g
  /-- When a callee has returned, globals are as it left them. -/
  call : ∀ dst fn args, i = .call dst fn args → ∃ k t f src δ, n = k + 1 ∧ runs (step p literals) k st = .next t
    ∧ t.Does p literals f (.ret src) δ ∧ ∀ g ∉ i.defs, st'.globals g = δ.globals g

theorem begins_moves {r : Reg} (h : r ∈ Check.begins i) : r ∈ i.moves := by
  obtain ⟨m, rfl⟩ := Check.mem_begins.1 h
  exact .head _

theorem Finishes.leavesOthers (hp : p.check = []) (hg : p.globals.Nodup) {context : Context} {k : Nat}
    (hst : Passes p literals context k st) (hi : st.frame.instr? p = some i) (h : st.Finishes p literals n st') :
    st.LeavesOthers p literals i n st' := by
  by_cases hcall : ∃ dst fn args, i = .call dst fn args
  · obtain ⟨dst, fn, args, rfl⟩ := hcall
    obtain ⟨m, c, t, δ, rfl, hstep, -, hm, hreturns, rfl⟩ := (finishes_call hp hg hi).1 h
    have hrun : runs (step p literals) (m + 1) st = .next (t.over (st.frame :: st.below)) :=
      runs_succ_eq_next.2 ⟨_, hstep, runs_over hm _⟩
    have hchain := (hst.later hrun).chain
    cases hreturns with
    | @intro f g src δ₁ _ ws hempty hdoes hflow hcaller hresume =>
      have hframes : (t.over (st.frame :: st.below)).below = st.frame :: st.below :=
        congrArg (· ++ st.frame :: st.below) hempty
      have hdst : t.frame.dst = dst := (hframes ▸ hchain).dst_eq hi
      have hspares := resume_spares hresume
      rw [hdst] at hspares
      have hdoes' : (t.over (st.frame :: st.below)).Does p literals f (.ret src) δ₁ :=
        ⟨hdoes.func, hdoes.instr, hdoes.done⟩
      exact {
        locals := fun r hr => hspares.locals r hr
        iterators := fun r _ => ⟨hspares.keys r List.not_mem_nil, hspares.positions r id⟩
        below := rfl
        globals := fun hno => absurd rfl (hno dst fn args)
        call := fun _ _ _ _ => ⟨m + 1, _, f, src, δ₁, rfl, hrun, hdoes', fun g hg => hspares.globals g hg⟩ }
  · have hcall : ∀ dst fn args, i ≠ .call dst fn args := fun dst fn args heq => hcall ⟨dst, fn, args, heq⟩
    obtain ⟨rfl, f, δ, j, hdoes, hflow, rfl⟩ := h.once hi hcall
    have hret : ∀ src, i ≠ .ret src := by
      rintro src rfl
      obtain ⟨ws, hback⟩ := hdoes.back
      simp [hback] at hflow
    have hassigns : i.assigns = i.defs := by
      cases i with
      | call dst fn args => exact absurd rfl (hcall dst fn args)
      | _ => rfl
    have hchanges : ∀ s : Scope, i.changes s = i.defs := fun s => by
      rw [← hassigns]
      cases i with
      | ret src => exact absurd rfl (hret src)
      | _ => rfl
    have hspares := hdoes.spares
    exact {
      locals := fun r hr => hspares.locals r (by rwa [← hassigns] at hr)
      iterators := fun r hr => ⟨hspares.keys r fun hbegins => hr (begins_moves hbegins), hspares.positions r hr⟩
      below := rfl
      globals := fun _ g hg => hspares.globals g (by rwa [← hchanges] at hg)
      call := fun dst fn args heq => absurd heq (hcall dst fn args) }

/-- What a return changes in the activation that ends, and of the globals. -/
structure ReturnKeeps (p : Program) (st : State) (δ : Store) : Prop where
  locals : δ.locals = st.frame.locals
  keys : δ.keys = st.frame.keys
  position : δ.position = st.frame.position
  /-- The main function gives back the strings and maps in globals. -/
  globals : ∀ g, (p.main = st.frame.func → g ∈ p.globals → g.ty.isHeap = false) → δ.globals g = st.globals g

theorem Does.returnKeeps {src : Reg} (h : st.Does p literals f (.ret src) δ) : st.ReturnKeeps p δ where
  locals := funext fun r => h.spares.locals r List.not_mem_nil
  keys := funext fun r => h.spares.keys r List.not_mem_nil
  position := funext fun r => h.spares.positions r List.not_mem_nil
  globals g hg := by
    refine h.spares.globals g fun hmem => ?_
    have hmem : g ∈ if p.main = st.frame.func then p.globals.filter (·.ty.isHeap) else [] := by
      simpa [Instr.footprint, Instr.changes, Scope.ofFunc] using hmem
    split at hmem
    · next hmain =>
      obtain ⟨hglobal, hheap⟩ := List.mem_filter.1 hmem
      simp [hg hmain hglobal] at hheap
    · cases hmem

end State

end

end Direct

/-- The machine has in its variables what the iterators of the innermost activation hold. -/
def Plan.HasIterators (P : Plan) (st : Direct.State) (mst : Machine.State Context) : Prop :=
  ∃ out fr below, StateOf P.code.module mst ⟨out, fr :: below⟩ ∧ ∀ r c,
    (P.given st.frame.func).scope.cursor? r = some c →
    fr.cells.var c.keys = [st.frame.keys r] ∧ fr.cells.var c.position = [st.frame.position r]

theorem Plan.Stands.hasIterators {P : Plan} {st : Direct.State} {mst : Machine.State Context} (h : P.Stands st mst) :
    P.HasIterators st mst := by
  obtain ⟨_, hst, area, out, fr, below, rfl, hgo⟩ := h
  refine ⟨out, fr, below, hst, fun r c hc => ?_⟩
  have hkeys : (P.given st.frame.func).scope.var? (.keys r) = some c.keys := by rw [Scope.var?, hc]; rfl
  have hposition : (P.given st.frame.func).scope.var? (.position r) = some c.position := by rw [Scope.var?, hc]; rfl
  exact ⟨hgo.sound.vars hkeys, hgo.sound.vars hposition⟩

/-- In a program that compiles, the registers that an instruction defines are those that it changes until the activation
is done with it, besides the iterator that it begins or takes a step with; only a return of the main function gives back
globals as well. What the instruction puts there depends on the registers that it uses. Lowering asks for no register
that is neither a global nor a local of the function. -/
theorem Program.defines_and_uses {p : Program} (hp : p.check = []) {x : Executable} (hx : p.compile = .ok x) :
    (∀ context k (st : Direct.State) i n st', Direct.Passes p x.literals context k st → st.frame.instr? p = some i →
      st.Finishes p x.literals n st' →
      st.LeavesOthers p x.literals i n st')
    ∧ (∀ (st : Direct.State) f src δ, st.Does p x.literals f (.ret src) δ → st.ReturnKeeps p δ)
    ∧ (∀ o world k s (st : Direct.State) i n st', Direct.Passes p x.literals (Context.ofSettings o world) k s →
      st.AgreesAt p i s →
      st.Finishes p x.literals n st' → st'.context.heap.slots.size < UInt64.size →
      ∃ s', s.Finishes p x.literals n s' ∧ ∀ d ∈ i.defs, s'.holds p d = st'.holds p d)
    ∧ (∀ f ∈ p.funcs, ∀ i ∈ f.body, ∀ s : Surroundings, s.program = p →
      s.scope = .ofFunc p f s.scope.isMain → s.Names i)
    ∧ (p.Sized → ∃ P : Plan, P.Sound ∧ P.program = p ∧ P.code = x
      ∧ (∀ context stackWords inst, Instance.ofModule x.module context stackWords = .ok inst → P.Mirrors inst.outside)
      ∧ ∀ st mst, P.Stands st mst → P.HasRegisters st mst ∧ P.HasIterators st mst) := by
  have hg : p.globals.Nodup := (distinct_of_compile hp hx).globals
  refine ⟨fun _ _ _ _ _ _ hst hi h => h.leavesOthers hp hg hst hi, fun _ _ _ _ h => h.returnKeeps,
    fun o world _ _ _ _ _ _ hs hagrees h hsize => h.alike hp hg (Context.affords_ofSettings o world) hs hagrees hsize,
    fun f hf i hi s hprogram hscope => ?_, fun hsized => ?_⟩
  · obtain rfl : s.scope.func = f := by rw [hscope]; rfl
    subst hprogram
    have hpasses := (Check.check_eq_nil.1 hp).2.2 _ hf
    exact Surroundings.names hi ((Check.body_eq_nil.1 (Check.func_eq_nil.1 hpasses).2.2.2.1).1 i hi) hscope
  · obtain ⟨P, hP, hprogram, rfl⟩ := Plan.exists_of_compile hp hsized hx
    exact ⟨P, hP, hprogram, rfl, fun _ _ _ hinst => hP.mirrors hinst, fun st mst h =>
      ⟨hP.hasRegisters h, h.hasIterators⟩⟩

/-- A program that adds up a number again and again. -/
def Program.adding : Program where
  funcs := [{
    name := "main", ret := .null
    body := [.constInt ⟨1, .int⟩ 2, .label 1, .arith ⟨2, .int⟩ .add [⟨1, .int⟩, ⟨1, .int⟩], .jmp 1, .ret ⟨0, .null⟩] }]

/-- The second time the register of the sum has a value already, which makes no difference. -/
theorem Program.defines_and_uses_adding : adding.check = [] ∧ ∃ x, adding.compile = .ok x
    ∧ ∃ s st st' : Direct.State, Direct.Passes adding x.literals (Context.ofSettings {} {}) 4 s
      ∧ st.AgreesAt adding (.arith ⟨2, .int⟩ .add [⟨1, .int⟩, ⟨1, .int⟩]) s
      ∧ s.holds adding ⟨2, .int⟩ = [4] ∧ st.holds adding ⟨2, .int⟩ = [0] ∧ st.Finishes adding x.literals 1 st'
      ∧ ∃ s', s.Finishes adding x.literals 1 s' ∧ s'.holds adding ⟨2, .int⟩ = st'.holds adding ⟨2, .int⟩ := by
  have hp : adding.check = [] := by decide +kernel
  obtain ⟨x, hx⟩ := exists_compile hp (by decide +kernel) (by decide +kernel) (by decide +kernel)
  obtain ⟨-, -, hsame, -, -⟩ := defines_and_uses hp hx
  have hstate : ∀ ls n, n = 2 ∨ n = 4 → ∃ st, Direct.Passes adding ls (Context.ofSettings {} {}) n st
      ∧ (st.frame.func = 0 ∧ st.frame.next = 2 ∧ st.below = [])
      ∧ (st.context = Context.ofSettings {} {} ∧ st.globals = Direct.blank)
      ∧ st.frame.locals ⟨1, .int⟩ = [2] ∧ st.frame.locals ⟨2, .int⟩ = [if n = 4 then 4 else 0] := by
    rintro ls n (rfl | rfl) <;> exact ⟨_, ⟨_, rfl, rfl⟩, ⟨rfl, rfl, rfl⟩, ⟨rfl, rfl⟩, rfl, rfl⟩
  have hafter : ∀ ls, ∃ st, Direct.Passes adding ls (Context.ofSettings {} {}) 3 st ∧ st.below = []
      ∧ st.context = Context.ofSettings {} {} :=
    fun ls => ⟨_, ⟨_, rfl, rfl⟩, rfl, rfl⟩
  obtain ⟨st, hst, ⟨hfunc, hnext, hbelow⟩, ⟨hcontext, hglobals⟩, hone, htwo⟩ := hstate x.literals 2 (.inl rfl)
  obtain ⟨s, hs, ⟨hfunc', hnext', -⟩, ⟨hcontext', hglobals'⟩, hone', htwo'⟩ := hstate x.literals 4 (.inr rfl)
  obtain ⟨st', hst', hbelow', hcontext''⟩ := hafter x.literals
  obtain ⟨before, hbefore, hstep⟩ := Direct.passes_succ.1 hst'
  obtain rfl := hbefore.unique hst
  have hinstr : ∀ u : Direct.State, u.frame.func = 0 → u.frame.next = 2 →
      u.frame.instr? adding = some (.arith ⟨2, .int⟩ .add [⟨1, .int⟩, ⟨1, .int⟩]) := fun u hf hn => by
    rw [Direct.Frame.instr?, hf, hn]
    rfl
  have hagrees : before.AgreesAt adding (.arith ⟨2, .int⟩ .add [⟨1, .int⟩, ⟨1, .int⟩]) s := by
    refine ⟨hfunc'.trans hfunc.symm, hinstr before hfunc hnext, hinstr s hfunc' hnext', hcontext'.trans hcontext.symm,
      hglobals'.trans hglobals.symm, fun r hr => ?_⟩
    obtain rfl : r = ⟨1, .int⟩ := by simpa [Instr.uses] using (List.mem_filter.1 hr).1
    exact hone'.trans hone.symm
  have hfinishes : before.Finishes adding x.literals 1 st' := .of_step hstep (by rw [hbelow, hbelow'])
  obtain ⟨s', hs', hdefs⟩ := hsame {} {} 4 s before _ 1 st' hs hagrees hfinishes (by rw [hcontext'']; decide +kernel)
  exact ⟨hp, x, hx, s, before, st', hs, hagrees, htwo', htwo, hfinishes, s', hs', hdefs _ (.head _)⟩

/-- Before the called main function returns there is a text in the global, and none when it has, though it is no
destination. -/
theorem Program.globals_given_back_by_return : callingMain.check = []
    ∧ ∃ st f src δ, Direct.Passes callingMain [] (Context.ofSettings {} {}) 6 st ∧ st.Does callingMain [] f (.ret src) δ
      ∧ ∃ g ∈ callingMain.globals, g ∉ (Instr.ret src).defs ∧ δ.globals g ≠ st.globals g := by
  obtain ⟨f, hf⟩ : ∃ f, f = callingMain.funcs[0] := ⟨_, rfl⟩
  have hstate : (Direct.stateAt? callingMain [] (Context.ofSettings {} {}) 6).map (fun st =>
      let after := (Lowering.lower (.ret ⟨0, .null⟩) : Direct Unit) (Direct.setting callingMain [] st.frame.func f)
        st.store
      ((st.frame.func, st.frame.next), st.globals ⟨1, .str⟩, after.1.toOption, after.2.globals ⟨1, .str⟩))
      = some ((0, 7), [1953523051, 288230376151711744], some (), [0, 0]) := by
    rw [hf]
    decide +kernel
  obtain ⟨st, hst, hat⟩ := Option.map_eq_some_iff.1 hstate
  simp only [Prod.mk.injEq] at hat
  obtain ⟨⟨hfunc, hnext⟩, hbefore, hdone, hafter⟩ := hat
  refine ⟨by
    decide +kernel, st, f, ⟨0, .null⟩, _, Direct.stateAt?_eq_some.1 hst,
      ⟨?_, ?_, Prod.ext (Direct.eq_ok_of_toOption hdone) rfl⟩, ⟨1, .str⟩, .head _, List.not_mem_nil, ?_⟩
  · rw [hfunc, hf]
    rfl
  · rw [hnext, hf]
    rfl
  · rw [hbefore, hafter]
    decide

end RecordMill

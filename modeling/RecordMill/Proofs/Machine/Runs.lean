import RecordMill.Machine.Execution

/-!
# Runs

Runs can be cut in two anywhere, and what has come to an end stays so.
-/

namespace RecordMill.Machine

def Step.isCall : Step → Bool
  | .call .. => true
  | _ => false

/-- Runs steps up to the first call, and yields those that remain. -/
def Step.runAll (stack : UInt64) :
    List Step → Array UInt64 → Memory → Except Trap (List Step × Array UInt64) × Memory
  | [], ws, m => (.ok ([], ws), m)
  | s :: rest, ws, m =>
    if s.isCall then (.ok (s :: rest, ws), m)
    else match s.run stack ws m with
      | (.ok ws, m) => runAll stack rest ws m
      | (.error t, m) => (.error t, m)

def Frame.atBlock (fr : Frame) (b : BlockId) (words : Array UInt64) : Frame :=
  { fr with block := b, steps := (fr.blocks.getD b default).steps, exit := (fr.blocks.getD b default).exit, words }

namespace State

variable {ι σ : Type} {m : Module ι} {perform : ι → List UInt64 → HostM σ (List UInt64)}

theorem run_add (a b : Nat) (st : State σ) : run m perform (a + b) st = match run m perform a st with
    | .next st => run m perform b st
    | o => o := by
  induction a generalizing st with
  | zero => rw [Nat.zero_add]; rfl
  | succ a ih =>
    rw [Nat.succ_add, run, run]
    cases step m perform st with
    | next st => exact ih st
    | done rs out => rfl
    | trapped t out => rfl

theorem run_of_next {n : Nat} {st st' : State σ} (h : run m perform n st = .next st') (k : Nat) :
    run m perform (n + k) st = run m perform k st' := by
  rw [run_add, h]

/-- The run goes through `st'` after some steps. -/
def Leads (m : Module ι) (perform : ι → List UInt64 → HostM σ (List UInt64)) (st st' : State σ) : Prop :=
  ∃ n, run m perform n st = .next st'

def Returns (m : Module ι) (perform : ι → List UInt64 → HostM σ (List UInt64)) (st : State σ) (rs : List UInt64)
    (out : Outside σ) : Prop :=
  ∃ n, run m perform n st = .done rs out

theorem Leads.refl (st : State σ) : Leads m perform st st := ⟨0, rfl⟩

theorem Leads.trans {st st' st'' : State σ} (h : Leads m perform st st') (h' : Leads m perform st' st'') :
    Leads m perform st st'' := by
  obtain ⟨a, ha⟩ := h
  obtain ⟨b, hb⟩ := h'
  exact ⟨a + b, by rw [run_of_next ha, hb]⟩

theorem Leads.step {st st' : State σ} (h : State.step m perform st = .next st') : Leads m perform st st' :=
  ⟨1, by rw [run, h]; rfl⟩

theorem run_of_done {n k : Nat} {st : State σ} {rs : List UInt64} {out : Outside σ}
    (h : run m perform n st = .done rs out) (hk : n ≤ k) : run m perform k st = .done rs out := by
  obtain ⟨b, rfl⟩ := Nat.exists_eq_add_of_le hk
  rw [run_add, h]

theorem Returns.unique {st : State σ} {rs rs' : List UInt64} {out out' : Outside σ}
    (h : Returns m perform st rs out) (h' : Returns m perform st rs' out') : rs = rs' ∧ out = out' := by
  obtain ⟨a, ha⟩ := h
  obtain ⟨b, hb⟩ := h'
  have := run_of_done ha (Nat.le_max_left a b)
  rw [run_of_done hb (Nat.le_max_right a b)] at this
  cases this
  exact ⟨rfl, rfl⟩

theorem step_run {out : Outside σ} {fr : Frame} {below : List Frame} {s : Step} {rest : List Step}
    (hs : fr.steps = s :: rest) (hc : s.isCall = false) :
    step m perform ⟨out, fr :: below⟩ = match s.run fr.stack fr.words out.memory with
      | (.ok ws, mem) => .next ⟨{ out with memory := mem }, { fr with steps := rest, words := ws } :: below⟩
      | (.error t, mem) => .trapped t { out with memory := mem } := by
  obtain ⟨func, blocks, block, steps, exit, words, stack, results⟩ := fr
  subst hs
  cases s with
  | call => cases hc
  | _ => rfl

theorem Leads.steps {out : Outside σ} {fr : Frame} {below : List Frame} {ws : Array UInt64} {mem : Memory}
    (h : Step.runAll fr.stack fr.steps fr.words out.memory = (.ok ([], ws), mem)) :
    Leads m perform ⟨out, fr :: below⟩ ⟨{ out with memory := mem }, { fr with steps := [], words := ws } :: below⟩ := by
  obtain ⟨func, blocks, block, steps, exit, words, stack, results⟩ := fr
  induction steps generalizing words out with
  | nil =>
    cases h
    exact .refl _
  | cons s rest ih =>
    cases hc : s.isCall with
    | true =>
      simp only [Step.runAll, hc, if_true] at h
      cases h
    | false =>
      simp only [Step.runAll, hc, Bool.false_eq_true, if_false] at h
      have hstep : State.step m perform ⟨out,
          ⟨func, blocks, block, s :: rest, exit, words, stack, results⟩ :: below⟩ = _ :=
        step_run rfl hc
      rcases hr : s.run stack words out.memory with ⟨_ | ws₁, mem₁⟩ <;> rw [hr] at h hstep
      · cases h
      · exact .trans (.step hstep) (ih ws₁ h)

section

variable {out : Outside σ} {fr : Frame} {below : List Frame} {ws' : Array UInt64}

theorem step_jump {dest : BlockId} {sources targets : List Span} {scratch : Nat} (hs : fr.steps = [])
    (he : fr.exit = .jump dest sources scratch targets)
    (h : Frame.passArguments fr.words sources scratch targets = .ok ws') :
    step m perform ⟨out, fr :: below⟩ = .next ⟨out, fr.atBlock dest ws' :: below⟩ := by
  obtain ⟨func, blocks, block, steps, exit, words, stack, results⟩ := fr
  subst hs he
  simp only [step]
  rw [h]
  rfl

theorem step_branch {cond : Nat} {dest alt : BlockId} {w : UInt64} (hs : fr.steps = [])
    (he : fr.exit = .branch cond dest alt) (h : Frame.read? fr.words cond = .ok w) :
    step m perform ⟨out, fr :: below⟩
      = .next ⟨out, fr.atBlock (if w ≠ 0 then dest else alt) fr.words :: below⟩ := by
  obtain ⟨func, blocks, block, steps, exit, words, stack, results⟩ := fr
  subst hs he
  simp only [step]
  rw [h]
  rfl

theorem step_ret {sources : List Span} (hs : fr.steps = []) (he : fr.exit = .ret sources) :
    step m perform ⟨out, fr :: below⟩ = deliver (Frame.readSpans fr.words sources) fr.results
      { out with memory := out.memory.pop fr.stack } below := by
  obtain ⟨func, blocks, block, steps, exit, words, stack, results⟩ := fr
  subst hs he
  rfl

end

end State

namespace Instance

variable {ι σ : Type} {perform : ι → List UInt64 → HostM σ (List UInt64)}

theorem of_ofModule {m : Module ι} {host : σ} {stack : Int64} {inst : Instance ι σ}
    (h : ofModule m host stack = .ok inst) :
    ∃ memory, Memory.ofSizes? m.dataWords (if stack ≤ 0 then Memory.defaultStack else stack) = some memory
      ∧ inst = { module := m, outside := { memory, host } } := by
  unfold ofModule at h
  split at h
  · split at h
    · next memory hmem =>
      cases h
      exact ⟨memory, hmem, rfl⟩
    · cases h
  · cases h

def outcome (perform : ι → List UInt64 → HostM σ (List UInt64)) (fuel : Nat) (inst : Instance ι σ) (id : FuncId)
    (args : List UInt64) : Outcome σ :=
  match State.call inst.module perform id args 0 inst.outside [] with
  | .next st => State.run inst.module perform fuel st
  | o => o

def ended (inst : Instance ι σ) (d : FuncDecl ι) : Outcome σ → CallResult × Instance ι σ
  | .done rs out =>
    (.returned (rs ++ List.replicate (Kind.total d.sig.returns - rs.length) 0), { inst with outside := out })
  | .trapped t out => (.trapped (t.within d.name), { inst with outside := { out with memory := out.memory.reset } })
  | .next st => (.outOfFuel, { inst with outside := st.outside })

variable {fuel : Nat} {inst later : Instance ι σ} {id : FuncId} {args : List UInt64} {d : FuncDecl ι}

theorem call_eq (hd : inst.module.funcs[id]? = some d) (hlen : args.length = Kind.total d.sig.params) :
    inst.call perform fuel id args = inst.ended d (inst.outcome perform fuel id args) := by
  obtain ⟨m, outside⟩ := inst
  unfold outcome Instance.call
  dsimp only at hd ⊢
  rw [hd]
  dsimp only
  rw [if_neg (not_not_intro hlen)]
  generalize State.call .. = first
  cases first with
  | next st =>
    dsimp only
    cases State.run m perform fuel st <;> rfl
  | done rs out => rfl
  | trapped t out => rfl

theorem call_cases {r : CallResult} (h : inst.call perform fuel id args = (r, later)) (hr : r ≠ .outOfFuel) :
    ((∀ d, inst.module.funcs[id]? = some d → args.length ≠ Kind.total d.sig.params) ∧ (∀ ws, r ≠ .returned ws)
      ∧ later = inst)
      ∨ ∃ d, inst.module.funcs[id]? = some d ∧ args.length = Kind.total d.sig.params
        ∧ ((∃ rs out, inst.outcome perform fuel id args = .done rs out
            ∧ r = .returned (rs ++ List.replicate (Kind.total d.sig.returns - rs.length) 0)
              ∧ later = { inst with outside := out })
          ∨ ∃ t out, inst.outcome perform fuel id args = .trapped t out ∧ r = .trapped (t.within d.name)
            ∧ later = { inst with outside := { out with memory := out.memory.reset } }) := by
  cases hd : inst.module.funcs[id]? with
  | none =>
    unfold Instance.call at h
    dsimp only at h
    rw [hd] at h
    cases h
    exact .inl ⟨nofun, nofun, rfl⟩
  | some d =>
    by_cases hlen : args.length = Kind.total d.sig.params
    · refine .inr ⟨d, rfl, hlen, ?_⟩
      rw [call_eq hd hlen] at h
      cases ho : inst.outcome perform fuel id args with
      | next st =>
        rw [ho] at h
        cases h
        exact absurd rfl hr
      | done rs out =>
        rw [ho] at h
        cases h
        exact .inl ⟨rs, out, rfl, rfl, rfl⟩
      | trapped t out =>
        rw [ho] at h
        cases h
        exact .inr ⟨t, out, rfl, rfl, rfl⟩
    · unfold Instance.call at h
      dsimp only at h
      rw [hd] at h
      dsimp only at h
      rw [if_pos hlen] at h
      cases h
      refine .inl ⟨fun d' hd' => ?_, nofun, rfl⟩
      rw [← Option.some.inj hd']
      exact hlen

theorem call_of_done {rs : List UInt64} {out : Outside σ} (hd : inst.module.funcs[id]? = some d)
    (hlen : args.length = Kind.total d.sig.params) (ho : inst.outcome perform fuel id args = .done rs out) :
    inst.call perform fuel id args
      = (.returned (rs ++ List.replicate (Kind.total d.sig.returns - rs.length) 0), { inst with outside := out }) := by
  rw [call_eq hd hlen, ho]
  rfl

end Instance

end RecordMill.Machine

import RecordMill.Proofs.Lowering.Activations

/-!
# Iterators

Main statement: `Program.iterators_begun`. In an accepted program an iterator is begun before each of its steps in the
order of the text. In the order of a run it is begun before as well, or else the activation has jumped over the
instructions that begin it. In the first case the handle of its list of keys is not zero, in the second it is.
-/

namespace RecordMill

open Machine (Instance StateOf)

namespace Direct

/-! ## The list of keys -/

theorem mapService_eq_ok {map : Reg} {op : MapService} {sv : Service} {e : Setting} {δ δ' : Store}
    (h : (Lowering.mapService map op : Direct Service) e δ = (.ok sv, δ')) : ∃ k v, sv = .map k v op ∧ δ' = δ := by
  unfold Lowering.mapService at h
  cases hty : map.ty with
  | map k v =>
    rw [hty] at h
    cases h
    exact ⟨k, v, rfl, rfl⟩
  | _ =>
    rw [hty] at h
    cases h

theorem keys_iterBegin {e : Setting} {dst map : Reg} {δ δ' : Store} (h : iterBegin dst map e δ = (.ok (), δ'))
    (o : δ.context.heap.Orderly) (hsize : δ'.context.heap.slots.size < UInt64.size) : δ'.keys dst ≠ 0 := by
  unfold iterBegin at h
  obtain ⟨_, δ₁, hkey, h⟩ := bind_eq_ok h
  obtain ⟨m, δ₂, hvalue, h⟩ := bind_eq_ok h
  obtain ⟨sv, δ₃, hsv, h⟩ := bind_eq_ok h
  obtain ⟨ws, δ₄, hservice, h⟩ := bind_eq_ok h
  obtain ⟨_, δ₅, hdrop, h⟩ := bind_eq_ok h
  cases h
  obtain ⟨k, v, rfl, rfl⟩ := mapService_eq_ok hsv
  have hbefore : δ.context.heap.Reaches δ₃.context.heap := by
    have hfirst : Spares e (.only []) (iterKey dst) := inferInstance
    have hsecond : Spares e (.only []) (value map) := inferInstance
    exact (hfirst.of_run hkey).heap.trans (hsecond.of_run hvalue).heap
  have hafter : δ₄.context.heap.Reaches δ₅.context.heap := by
    have hdrops : Spares e (.only []) (dropKeys dst) := inferInstance
    exact (hdrops.of_run hdrop).heap
  have hperform := (Realizes.service_apply (.map k v .iterBegin) [contextWord, m] e δ₃).symm.trans hservice
  rcases hrun : Service.perform (.map k v .iterBegin) [contextWord, m].flatten
    ⟨⟨#[], 0, 0, 0⟩, δ₃.context⟩ with ⟨t | rs, out⟩ <;>
    rw [hrun] at hperform <;> cases hperform
  have hne := Service.perform_iterBegin hrun (hbefore.orderly o) (Nat.lt_of_le_of_lt hafter.size_le hsize)
  show (if dst = dst then word ws else δ₅.keys dst) ≠ 0
  rw [if_pos rfl]
  exact hne

variable {p : Program} {literals : List Bytes} {context : Context} {st st' : State} {n depth func k : Nat} {it : Reg}

/-! ## What an activation has done -/

/-- At time `n`, the activation of `func` that has `depth` others below it has taken a step of this sort. -/
def HasDone (p : Program) (literals : List Bytes) (context : Context) (n depth func : Nat)
    (sort : State → State → Prop) : Prop :=
  ∃ m st st', m < n ∧ Passes p literals context m st ∧ Passes p literals context (m + 1) st' ∧ st.below.length = depth
    ∧ st.frame.func = func ∧ sort st st'
    -- It has not returned since.
    ∧ ∀ k, m ≤ k → k ≤ n → ∀ t, Passes p literals context k t → depth ≤ t.below.length

namespace HasDone

variable {sort : State → State → Prop}

theorem now (h : Passes p literals context n st) (h' : Passes p literals context (n + 1) st') (hsort : sort st st')
    (hdepth : st.below.length ≤ st'.below.length) :
    HasDone p literals context (n + 1) st.below.length st.frame.func sort := by
  refine ⟨n, st, st', Nat.lt_succ_self n, h, h', rfl, rfl, hsort, fun k hk hk' t ht => ?_⟩
  rcases Nat.le_or_eq_of_le_succ hk' with hle | rfl
  · obtain rfl := Nat.le_antisymm hk hle
    exact Nat.le_of_eq (congrArg (·.below.length) (h.unique ht))
  · rwa [ht.unique h']

theorem later (h : HasDone p literals context n depth func sort) (h' : Passes p literals context (n + 1) st')
    (hdepth : depth ≤ st'.below.length) : HasDone p literals context (n + 1) depth func sort := by
  obtain ⟨m, s, s', hm, hs, hs', hlength, hfunc, hsort, hstays⟩ := h
  refine ⟨m, s, s', Nat.lt_succ_of_lt hm, hs, hs', hlength, hfunc, hsort, fun k hk hk' t ht => ?_⟩
  rcases Nat.le_or_eq_of_le_succ hk' with hle | rfl
  · exact hstays k hk hle t ht
  · rwa [ht.unique h']

theorem before (h : HasDone p literals context (n + 1) depth func sort) (hst : Passes p literals context n st)
    (hst' : Passes p literals context (n + 1) st') (hnot : st.below.length = depth → ¬ sort st st') :
    HasDone p literals context n depth func sort := by
  obtain ⟨m, s, s', hm, hs, hs', hlength, hfunc, hsort, hstays⟩ := h
  rcases Nat.lt_or_eq_of_le (Nat.le_of_lt_succ hm) with hlt | rfl
  · exact ⟨m, s, s', hlt, hs, hs', hlength, hfunc, hsort, fun k hk hk' => hstays k hk (Nat.le_succ_of_le hk')⟩
  · obtain rfl := hs.unique hst
    obtain rfl := hs'.unique hst'
    exact absurd hsort (hnot hlength)

theorem elim_call (h : HasDone p literals context (n + 1) depth func sort) (hst : Passes p literals context n st)
    (hdepth : st.below.length < depth) : False := by
  obtain ⟨m, s, s', hm, -, -, -, -, -, hstays⟩ := h
  exact absurd (hstays n (Nat.le_of_lt_succ hm) (Nat.le_succ n) st hst) (Nat.not_le.2 hdepth)

end HasDone

def State.Begins (p : Program) (it : Reg) (st _ : State) : Prop := ∃ m, st.frame.instr? p = some (.iterBegin it m)

/-- The step is a jump from before the instruction `k` to behind it. -/
def State.LeapsOver (p : Program) (k : Nat) (st st' : State) : Prop :=
  ∃ f i l, p.funcs[st.frame.func]? = some f ∧ f.body[st.frame.next]? = some i ∧ i.target? = some l
    ∧ st'.frame.next = f.target l
    ∧ st.frame.next < k ∧ k < f.target l

/-! ## The activations that are there -/

/-- What the activation `fr` with `depth` others below it has done by the time `n`: it has begun the iterators that have
a list of keys, and has passed each instruction that begins one. -/
structure Frame.Accounts (p : Program) (literals : List Bytes) (context : Context) (n depth : Nat) (fr : Frame) :
    Prop where
  keys : ∀ it, fr.keys it ≠ 0 ↔ HasDone p literals context n depth fr.func (State.Begins p it)
  passed : ∀ {f k it m}, p.funcs[fr.func]? = some f → f.body[k]? = some (.iterBegin it m) → k < fr.next →
    HasDone p literals context n depth fr.func (State.Begins p it)
      ∨ HasDone p literals context n depth fr.func (State.LeapsOver p k)

/-- All of some activations, innermost first. -/
inductive Accounted (p : Program) (literals : List Bytes) (context : Context) (n : Nat) : List Frame → Prop
  | nil : Accounted p literals context n []
  | cons {fr : Frame} {frs : List Frame} :
    fr.Accounts p literals context n frs.length → Accounted p literals context n frs →
      Accounted p literals context n (fr :: frs)

namespace Frame.Accounts

variable {fr fr' : Frame}

theorem later (a : fr.Accounts p literals context n depth) (hst : Passes p literals context n st)
    (hst' : Passes p literals context (n + 1) st') (hdepth : depth ≤ st'.below.length) (hfunc : fr'.func = fr.func)
    (hkeys : fr'.keys = fr.keys) (hnone : st.below.length = depth → ∀ it, ¬ st.Begins p it st')
    (hnext : ∀ {f k it m}, p.funcs[fr.func]? = some f → f.body[k]? = some (.iterBegin it m) → k < fr'.next →
      ¬ k < fr.next →
      HasDone p literals context (n + 1) depth fr.func (State.LeapsOver p k)) :
    fr'.Accounts p literals context (n + 1) depth where
  keys it := by
    rw [hkeys, hfunc, a.keys it]
    exact ⟨fun h => h.later hst' hdepth, fun h => h.before hst hst' fun he => hnone he it⟩
  passed {f k it m} hf hi hk := by
    rw [hfunc] at hf ⊢
    by_cases hold : k < fr.next
    · exact (a.passed hf hi hold).imp (fun h => h.later hst' hdepth) fun h => h.later hst' hdepth
    · exact .inr (hnext hf hi hk hold)

theorem begins {m : Reg} (a : st.frame.Accounts p literals context n st.below.length)
    (hst : Passes p literals context n st) (hst' : Passes p literals context (n + 1) st')
    (hbelow : st'.below = st.below) (hi : st.frame.instr? p = some (.iterBegin it m)) (hfunc : st'.frame.func
      = st.frame.func) (hnext : st'.frame.next = st.frame.next + 1) (hkeys : st'.frame.keys it ≠ 0)
    (hothers : ∀ r, r ≠ it → st'.frame.keys r = st.frame.keys r) :
    st'.frame.Accounts p literals context (n + 1) st.below.length := by
  have hdepth : st.below.length ≤ st'.below.length := Nat.le_of_eq (congrArg List.length hbelow.symm)
  have hnow : HasDone p literals context (n + 1) st.below.length st.frame.func (State.Begins p it) :=
    .now hst hst' ⟨m, hi⟩ hdepth
  constructor
  · intro r
    rw [hfunc]
    by_cases hr : r = it
    · subst hr
      exact iff_of_true hkeys hnow
    · rw [hothers r hr, a.keys r]
      refine ⟨fun h => h.later hst' hdepth, fun h => h.before hst hst' ?_⟩
      rintro - ⟨m', hi'⟩
      rw [hi] at hi'
      cases hi'
      exact hr rfl
  · intro f k r m' hf hk hlt
    rw [hfunc] at hf ⊢
    rw [hnext] at hlt
    rcases Nat.lt_or_eq_of_le (Nat.le_of_lt_succ hlt) with hold | rfl
    · exact (a.passed hf hk hold).imp (fun h => h.later hst' hdepth) fun h => h.later hst' hdepth
    · have hr : st.frame.instr? p = some (.iterBegin r m') := by rw [Frame.instr?, hf]; exact hk
      rw [hi] at hr
      cases hr
      exact .inl hnow

end Frame.Accounts

theorem Accounted.later {frs : List Frame} (a : Accounted p literals context n frs)
    (hst : Passes p literals context n st) (hst' : Passes p literals context (n + 1) st')
    (hbelow : frs.length ≤ st.below.length) (hdepth : frs.length ≤ st'.below.length + 1) :
    Accounted p literals context (n + 1) frs := by
  induction a with
  | nil => exact .nil
  | @cons fr frs ha hrest ih =>
    rw [List.length_cons] at hbelow hdepth
    refine .cons (ha.later hst hst' (Nat.le_of_succ_le_succ hdepth) rfl rfl (fun he => ?_) fun _ _ hk hold =>
      absurd hk hold) ?_
    · omega
    · exact ih (Nat.le_of_succ_le hbelow) (Nat.le_of_succ_le hdepth)

theorem State.Does.quiet {f : Func} {i : Instr} {δ : Store} {t : State} (h : st.Does p literals f i δ)
    (hi : ∀ it m, i ≠ .iterBegin it m) : δ.keys = st.frame.keys ∧ ∀ it, ¬ st.Begins p it t := by
  constructor
  · funext r
    refine h.spares.keys r fun hr => ?_
    obtain ⟨m, hm⟩ := Check.mem_begins.1 hr
    exact hi r m hm
  · rintro it ⟨m, hm⟩
    rw [h.instr?] at hm
    cases hm
    exact hi it m rfl

theorem Accounted.step (a : Accounted p literals context n (st.frame :: st.below))
    (hst : Passes p literals context n st) (hst' : Passes p literals context (n + 1) st')
    (hstep : st.step p literals = .next st') (o : st.context.heap.Orderly) (hsize : st'.context.heap.slots.size
      < UInt64.size) : Accounted p literals context (n + 1) (st'.frame :: st'.below) := by
  obtain ⟨f, i, δ, hdoes, hmoves⟩ := State.step_eq_next hstep
  have hchain := hst.chain
  cases a with
  | cons ha hbelow =>
  cases hmoves with
  | on hflow =>
    refine .cons ?_ (hbelow.later hst hst' (Nat.le_refl _) (Nat.le_succ _))
    by_cases hbegin : ∃ it m, i = .iterBegin it m
    · obtain ⟨it, m, rfl⟩ := hbegin
      refine ha.begins hst hst' rfl hdoes.instr? rfl rfl (keys_iterBegin hdoes.done o hsize) fun r hr => ?_
      refine hdoes.spares.keys r fun hmem => ?_
      obtain ⟨m', hm'⟩ : ∃ m', Instr.iterBegin it m = .iterBegin r m' := Check.mem_begins.1 hmem
      cases hm'
      exact hr rfl
    · obtain ⟨hkeys, hnone⟩ := hdoes.quiet fun it m hi => hbegin ⟨it, m, hi⟩
      refine ha.later hst hst' (Nat.le_refl _) rfl hkeys (fun _ => hnone) fun {g k it m} hg hk hlt hold => ?_
      obtain rfl : k = st.frame.next := Nat.le_antisymm (Nat.le_of_lt_succ hlt) (Nat.not_lt.1 hold)
      obtain rfl := Option.some.inj (hdoes.func.symm.trans hg)
      exact absurd ⟨it, m, Option.some.inj (hdoes.instr.symm.trans hk)⟩ hbegin
  | @goto l hflow =>
    have htarget : i.target? = some l := (hflow ▸ hdoes.leads.resolve_left (by simp [hflow])).goto
    obtain ⟨hkeys, hnone⟩ :=
      hdoes.quiet (t := st.load δ (f.target l)) fun it m hi => by rw [hi] at htarget; cases htarget
    refine .cons ?_ (hbelow.later hst hst' (Nat.le_refl _) (Nat.le_succ _))
    refine ha.later hst hst' (Nat.le_refl _) rfl hkeys (fun _ => hnone) fun {g k it m} hg hk hlt hold => ?_
    -- The jump itself begins no iterator.
    have hne : k ≠ st.frame.next := by
      rintro rfl
      obtain rfl := Option.some.inj (hdoes.func.symm.trans hg)
      rw [Option.some.inj (hdoes.instr.symm.trans hk)] at htarget
      cases htarget
    have hleap : st.LeapsOver p k (st.load δ (f.target l)) :=
      ⟨f, i, l, hdoes.func, hdoes.instr, htarget, rfl, by omega, hlt⟩
    exact .now hst hst' hleap (Nat.le_refl _)
  | @call dst fn wss _ g δ' hflow hcaller hg henter =>
    subst hcaller
    obtain ⟨args, rfl⟩ := (hflow ▸ hdoes.leads.resolve_left (by simp [hflow])).call
    obtain ⟨hkeys, hnone⟩ := hdoes.quiet nofun
    refine .cons ?_
      (.cons ?_ (hbelow.later hst hst' (Nat.le_refl _) (Nat.le_of_lt (Nat.lt_add_of_pos_right (Nat.succ_pos _)))))
    · have hzero : δ'.keys = fun _ => 0 := funext fun r => (enter_spares henter).keys r List.not_mem_nil
      have hnothing : ∀ {sort}, ¬ HasDone p literals context (n + 1) (st.below.length + 1) fn.toNat sort := fun h =>
        h.elim_call hst (Nat.lt_succ_self _)
      refine ⟨fun it => ?_, fun _ _ hk => absurd hk (Nat.not_lt_zero _)⟩
      exact iff_of_false (fun h => h (congrFun hzero it)) hnothing
    · exact ha.later hst hst' (Nat.le_succ _) rfl hkeys (fun _ => hnone) fun _ _ hk hold => absurd hk hold
  | @back results fr frs _ g δ' hflow hframes hcaller hg hresume =>
    subst hcaller
    rw [hframes] at hchain hbelow
    cases hbelow with
    | cons hfr hfrs =>
    have hdepth : frs.length < st.below.length := by rw [hframes]; exact Nat.lt_succ_self _
    refine .cons ?_ (hfrs.later hst hst' (Nat.le_of_lt hdepth) (Nat.le_succ _))
    have hkeys : δ'.keys = fr.keys := funext fun r => (resume_spares hresume).keys r List.not_mem_nil
    refine hfr.later hst hst' (Nat.le_refl _) rfl hkeys (fun he => absurd he (Nat.ne_of_gt hdepth)) ?_
    -- The caller stands at a call.
    intro h k it m hh hk hlt hold
    obtain rfl : k = fr.next := Nat.le_antisymm (Nat.le_of_lt_succ hlt) (Nat.not_lt.1 hold)
    cases hchain with
    | call hinstr =>
      rw [Frame.instr?, hh] at hinstr
      have hcall := Option.some.inj (hk.symm.trans hinstr)
      cases hcall

theorem Passes.accounted (h : Passes p literals context n st) (o : context.heap.Orderly)
    (hsize : st.context.heap.slots.size < UInt64.size) : Accounted p literals context n (st.frame :: st.below) := by
  induction n generalizing st with
  | zero =>
    obtain ⟨f, δ, -, henter, rfl⟩ := State.perform_eq_next (passes_zero.1 h)
    have hzero : δ.keys = fun _ => 0 := funext fun r => (enter_spares henter).keys r List.not_mem_nil
    refine .cons ⟨fun it => iff_of_false (fun hne => hne (congrFun hzero it)) ?_, fun _ _ hk =>
      absurd hk (Nat.not_lt_zero _)⟩ .nil
    rintro ⟨m, s, s', hm, -⟩
    exact Nat.not_lt_zero m hm
  | succ n ih =>
    obtain ⟨before, hbefore, hstep⟩ := passes_succ.1 h
    have hgrows := (State.step_heap hstep).size_le
    exact (ih hbefore (Nat.lt_of_le_of_lt hgrows hsize)).step hbefore h hstep (hbefore.heap.orderly o) hsize

end Direct

/-! ## Steps of iterators -/

/-- The instruction `k` begins the iterator. -/
def Func.BeginsAt (f : Func) (k : Nat) (it : Reg) : Prop := ∃ m, f.body[k]? = some (.iterBegin it m)

/-- Some jump leads from before the instruction `k` to behind it. -/
def Func.LeptOver (f : Func) (k : Nat) :
    Prop :=
  ∃ j i l, f.body[j]? = some i ∧ i.target? = some l ∧ j < k ∧ k < f.target l

namespace Direct

/-- How an iterator fares where the next instruction of `f` takes a step with it. -/
structure State.StepsIterator (p : Program) (literals : List Bytes) (context : Context) (n : Nat) (f : Func) (it : Reg)
    (st : State) : Prop where
  before : ∃ k < st.frame.next, f.BeginsAt k it
  /-- The activation has begun it, or has jumped over whatever begins it. -/
  begun : HasDone p literals context n st.below.length st.frame.func (State.Begins p it) ∧ st.frame.keys it ≠ 0
    ∨ st.frame.keys it = 0 ∧ ∀ k < st.frame.next, f.BeginsAt k it →
      HasDone p literals context n st.below.length st.frame.func (State.LeapsOver p k)
  /-- So where no jump leads over what begins it, the activation has begun it. -/
  kept : ∀ k < st.frame.next, f.BeginsAt k it → ¬ f.LeptOver k →
    HasDone p literals context n st.below.length st.frame.func (State.Begins p it) ∧ st.frame.keys it ≠ 0

theorem Passes.accounts {p : Program} {literals : List Bytes} {context : Context} {st : State} {n : Nat}
    (h : Passes p literals context n st) (o : context.heap.Orderly) (hsize : st.context.heap.slots.size < UInt64.size) :
    st.frame.Accounts p literals context n st.below.length := by
  cases h.accounted o hsize with
  | cons ha => exact ha

theorem Passes.stepsIterator {p : Program} {literals : List Bytes} {context : Context} {st : State} {n : Nat} {f : Func}
    {i : Instr} {it : Reg} (hp : p.check = []) (h : Passes p literals context n st) (o : context.heap.Orderly)
    (hsize : st.context.heap.slots.size < UInt64.size) (hf : p.funcs[st.frame.func]? = some f)
    (hi : f.body[st.frame.next]? = some i) (hs : i.steps? = some it) :
    st.StepsIterator p literals context n f it := by
  have ha := h.accounts o hsize
  obtain ⟨-, -, hfuncs⟩ := Check.check_eq_nil.1 hp
  obtain ⟨-, -, -, hbody, -⟩ := Check.func_eq_nil.1 (hfuncs f (List.mem_of_getElem? hf))
  have hbefore : ∃ k < st.frame.next, f.BeginsAt k it := by
    obtain hnone | ⟨k, m, hk, hm⟩ := (Check.body_eq_nil.1 hbody).2.2 _ i it hi hs
    · cases hnone
    · exact ⟨k, hk, m, hm⟩
  refine ⟨hbefore, ?_, ?_⟩
  · by_cases hzero : st.frame.keys it = 0
    · refine .inr ⟨hzero, fun k hk hbegins => ?_⟩
      obtain ⟨m, hm⟩ := hbegins
      exact (ha.passed hf hm hk).resolve_left fun hbegun => (ha.keys it).2 hbegun hzero
    · exact .inl ⟨(ha.keys it).1 hzero, hzero⟩
  · intro k hk hbegins hkept
    obtain ⟨m, hm⟩ := hbegins
    have hbegun : HasDone p literals context n st.below.length st.frame.func (State.Begins p it) := by
      refine (ha.passed hf hm hk).resolve_right ?_
      rintro ⟨_, s, s', -, -, -, -, hfunc, ⟨g, j, l, hg, hj, hl, -, hlt, hlt'⟩, -⟩
      rw [hfunc] at hg
      obtain rfl := Option.some.inj (hg.symm.trans hf)
      exact hkept ⟨s.frame.next, j, l, hj, hl, hlt, hlt'⟩
    exact ⟨hbegun, (ha.keys it).2 hbegun⟩

end Direct

/-- Wherever a run of an accepted program takes a step with an iterator, the activation has begun it or has jumped over
the instructions that begin it. The machine has the handle of its list of keys, and that is zero in the second case
only. -/
theorem Program.iterators_begun {p : Program} (hp : p.check = []) {x : Executable} (hx : p.compile = .ok x)
    {context : Context} {stackWords : Int64} {inst : Instance Service Context}
    (hinst : Instance.ofModule x.module context stackWords = .ok inst) (ho : inst.outside.host.heap.Orderly) :
    (∀ n st f i it, Direct.Passes p x.literals inst.outside.host n st → st.context.heap.slots.size < UInt64.size →
      p.funcs[st.frame.func]? = some f → f.body[st.frame.next]? = some i → i.steps? = some it →
      st.StepsIterator p x.literals inst.outside.host n f it)
    ∧ (p.Sized → ∃ P : Plan, P.Sound ∧ P.program = p ∧ P.code = x ∧ P.Mirrors inst.outside
      ∧ ∀ st mst, P.Stands st mst → ∃ out fr below, StateOf P.code.module mst ⟨out, fr :: below⟩
        ∧ ∀ it c, (P.given st.frame.func).scope.cursor? it = some c → fr.cells.var c.keys = [st.frame.keys it]) := by
  refine ⟨fun n st f i it h hsize hf hi hs => h.stepsIterator hp ho hsize hf hi hs, fun hsized => ?_⟩
  obtain ⟨P, hP, hprogram, rfl⟩ := Plan.exists_of_compile hp hsized hx
  refine ⟨P, hP, hprogram, rfl, hP.mirrors hinst, ?_⟩
  rintro st mst ⟨_, hst, area, out, fr, below, rfl, hgo⟩
  refine ⟨out, fr, below, hst, fun it c hc => ?_⟩
  have hvar : (P.given st.frame.func).scope.var? (.keys it) = some c.keys := by rw [Scope.var?, hc]; rfl
  exact hgo.sound.vars hvar

theorem Program.exists_running {p : Program} (hp : p.check = []) (hknown : p.KnownTypes) (hdistinct : p.Distinct)
    (hinstrs : ∀ f ∈ p.funcs, ∀ i ∈ f.body, i.unknown? = none) (hsized : p.Sized)
    (hspan : Declared.span p.globals < 35184372023295) (context : Context) :
    ∃ x inst, p.compile = .ok x ∧ Instance.ofModule x.module context 0 = .ok inst ∧ inst.outside.host = context := by
  obtain ⟨x, hx⟩ := exists_compile hp hknown hdistinct hinstrs
  obtain ⟨P, hP, rfl, rfl⟩ := Plan.exists_of_compile hp hsized hx
  obtain ⟨inst, hinst⟩ := hP.exists_instance hspan context
  exact ⟨P.code, inst, hx, hinst, (hP.starts hinst).1⟩

def Program.beginning : Program where
  funcs := [{
    name := "main", ret := .null
    body := [.iterBegin ⟨1, .iter .int⟩ ⟨2, .map .int .int⟩, .iterHasNext ⟨3, .int⟩ ⟨1, .iter .int⟩, .ret ⟨0, .null⟩] }]

/-- The list of keys is the third object of the run, after the arguments and the map. -/
theorem Program.iterators_begun_once : beginning.check = [] ∧ ∃ x inst, beginning.compile = .ok x
    ∧ Instance.ofModule x.module (Context.ofSettings {} {}) 0 = .ok inst ∧ inst.outside.host.heap.Orderly
    ∧ ∃ st, Direct.Passes beginning x.literals inst.outside.host 1 st ∧ st.context.heap.slots.size < UInt64.size
      ∧ st.frame.keys ⟨1, .iter .int⟩ = 3
      ∧ Direct.HasDone beginning x.literals inst.outside.host 1 0 0
        (Direct.State.Begins beginning ⟨1, .iter .int⟩) := by
  have hp : beginning.check = [] := by decide +kernel
  obtain ⟨x, inst, hx, hinst, hhost⟩ := exists_running hp (by decide +kernel) (by decide +kernel) (by decide +kernel)
    (sized_of_slots (by decide +kernel) (by decide +kernel)) (by decide +kernel) (Context.ofSettings {} {})
  have ho : inst.outside.host.heap.Orderly := hhost ▸ Context.orderly_ofSettings {} {}
  obtain ⟨hsteps, -⟩ := iterators_begun hp hx hinst ho
  have hstate : ∀ ls, (Direct.stateAt? beginning ls (Context.ofSettings {} {}) 1).map (fun st =>
      (st.frame.func, st.frame.next, st.below.length, st.context.heap.slots.size, st.frame.keys ⟨1, .iter .int⟩))
        = some (0, 1, 0, 3, 3) := fun ls => by rfl
  obtain ⟨st, hst, hat⟩ := Option.map_eq_some_iff.1 (hstate x.literals)
  simp only [Prod.mk.injEq] at hat
  obtain ⟨hfunc, hnext, hbelow, hslots, hkeys⟩ := hat
  rw [Direct.stateAt?_eq_some, ← hhost] at hst
  have hsize : st.context.heap.slots.size < UInt64.size := by rw [hslots]; decide
  have hiter := hsteps 1 st _ (.iterHasNext ⟨3, .int⟩ ⟨1, .iter .int⟩) ⟨1, .iter .int⟩ hst hsize (by rw [hfunc]; rfl)
    (by rw [hnext]; rfl) rfl
  have hbegun := hiter.begun.resolve_right fun h => by
    rw [hkeys] at h
    exact absurd h.1 (by decide)
  rw [hbelow, hfunc] at hbegun
  exact ⟨hp, x, inst, hx, hinst, ho, st, hst, hsize, hkeys, hbegun.1⟩

/-- A program that jumps over what begins an iterator and asks for its next key. -/
def Program.leaping : Program where
  funcs := [{
    name := "main", ret := .null
    body := [.jmp 1, .iterBegin ⟨1, .iter .int⟩ ⟨2, .map .int .int⟩, .label 1, .iterHasNext ⟨3, .int⟩ ⟨1, .iter .int⟩,
      .ret ⟨0, .null⟩] }]

/-- The program is accepted and comes to the question with an iterator that was not begun. -/
theorem Program.iterator_leapt_over : leaping.check = [] ∧ ∃ x inst, leaping.compile = .ok x
    ∧ Instance.ofModule x.module (Context.ofSettings {} {}) 0 = .ok inst
    ∧ ∃ st, Direct.Passes leaping x.literals inst.outside.host 1 st
      ∧ (st.frame.instr? leaping).bind Instr.steps? = some ⟨1, .iter .int⟩ ∧ st.frame.keys ⟨1, .iter .int⟩ = 0
      ∧ ¬ Direct.HasDone leaping x.literals inst.outside.host 1 0 0 (Direct.State.Begins leaping ⟨1, .iter .int⟩) := by
  have hp : leaping.check = [] := by decide +kernel
  obtain ⟨x, inst, hx, hinst, hhost⟩ := exists_running hp (by decide +kernel) (by decide +kernel) (by decide +kernel)
    (sized_of_slots (by decide +kernel) (by decide +kernel)) (by decide +kernel) (Context.ofSettings {} {})
  have hstate : ∀ ls, (Direct.stateAt? leaping ls (Context.ofSettings {} {}) 1).map (fun st =>
      (st.frame.func, st.frame.next, st.below.length, st.context.heap.slots.size, st.frame.keys ⟨1, .iter .int⟩))
        = some (0, 3, 0, 2, 0) := fun ls => by rfl
  obtain ⟨st, hst, hat⟩ := Option.map_eq_some_iff.1 (hstate x.literals)
  simp only [Prod.mk.injEq] at hat
  obtain ⟨hfunc, hnext, hbelow, hslots, hkeys⟩ := hat
  rw [Direct.stateAt?_eq_some, ← hhost] at hst
  have ho : inst.outside.host.heap.Orderly := hhost ▸ Context.orderly_ofSettings {} {}
  have haccounts := (hst.accounts ho (by rw [hslots]; decide)).keys ⟨1, .iter .int⟩
  rw [hbelow, hfunc] at haccounts
  refine ⟨hp, x, inst, hx, hinst, st, hst, ?_, hkeys, fun hbegun => haccounts.2 hbegun hkeys⟩
  rw [Direct.Frame.instr?, hfunc, hnext]
  rfl

end RecordMill

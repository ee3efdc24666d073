import RecordMill.Proofs.Lowering.Whole

/-!
# Runs from the start

A run calls the main function in a memory of zeros. The machine that was made of a program goes through the
states of the direct run, one after another, unless the stack is too small.
-/

namespace RecordMill

open Machine (Cells CellFrame CellState FuncId Outside Memory StateOf OutcomeOf Instance End)

/-! ## Runs of the machine -/

section

variable {ι σ : Type} {m : Machine.Module ι} {perform : ι → List UInt64 → Machine.HostM σ (List UInt64)}
  {out : Outside σ}
  {id : FuncId} {args : List UInt64} {n : Nat} {mst : Machine.State σ}

def Machine.Module.Passes (m : Machine.Module ι) (perform : ι → List UInt64 → Machine.HostM σ (List UInt64))
    (id : FuncId) (args : List UInt64) (out : Outside σ) (n : Nat) (mst : Machine.State σ) : Prop :=
  ∃ first, Machine.State.call m perform id args 0 out [] = .next first ∧ Machine.State.run m perform n first = .next mst

theorem Machine.Module.Passes.cells (hm : m.Laid) (h : m.Passes perform id args out n mst) : ∃ first cst,
    CellState.call m perform id args [] out [] = .next first ∧ runs (CellState.step m perform) n first = .next cst
      ∧ StateOf m mst cst := by
  obtain ⟨first, hcall, hrun⟩ := h
  have hfirst : OutcomeOf m (Machine.State.call m perform id args 0 out [])
      (CellState.call m perform id args [] out []) :=
    OutcomeOf.call hm perform args out (fun _ _ => .nil) rfl
  rw [hcall] at hfirst
  generalize CellState.call m perform id args [] out [] = t at hfirst
  cases hfirst with
  | @next _ cfirst hst =>
    have hlast := OutcomeOf.run perform hm hst n
    rw [hrun] at hlast
    generalize htarget : runs (CellState.step m perform) n cfirst = t at hlast
    cases hlast with
    | next hst' => exact ⟨cfirst, _, rfl, htarget, hst'⟩

theorem Machine.Module.passes_of_cells (hm : m.Laid) {first cst : CellState σ}
    (hcall : CellState.call m perform id args [] out [] = .next first)
    (hrun : runs (CellState.step m perform) n first = .next cst) :
    ∃ mst, m.Passes perform id args out n mst ∧ StateOf m mst cst := by
  have hfirst : OutcomeOf m (Machine.State.call m perform id args 0 out [])
      (CellState.call m perform id args [] out []) :=
    OutcomeOf.call hm perform args out (fun _ _ => .nil) rfl
  rw [hcall] at hfirst
  generalize hmcall : Machine.State.call m perform id args 0 out [] = o at hfirst
  cases hfirst with
  | @next mfirst _ hst =>
    have hlast := OutcomeOf.run perform hm hst n
    rw [hrun] at hlast
    generalize hmrun : Machine.State.run m perform n mfirst = o at hlast
    cases hlast with
    | next hst' => exact ⟨_, ⟨mfirst, hmcall, hmrun⟩, hst'⟩

end

/-! ## Direct runs -/

namespace Direct

def start (p : Program) (literals : List Bytes) (context : Context) : Turn State Result :=
  State.perform p literals ⟨context, blank, fresh p.main.toNat ⟨0, .null⟩, []⟩ 0 (enter [])

def Passes (p : Program) (literals : List Bytes) (context : Context) (n : Nat) (st : State) : Prop :=
  ∃ first, start p literals context = .next first ∧ runs (State.step p literals) n first = .next st

/-- The call of the main function, on a stack that may have no room for it. -/
def startWithin (p : Program) (literals : List Bytes) (full : List Nat → Nat → Bool) (context : Context) :
    Turn State Result :=
  guard (full [] p.main.toNat) context (start p literals context)

/-- The state after so many instructions on a limited stack. -/
def PassesWithin (p : Program) (literals : List Bytes) (full : List Nat → Nat → Bool) (context : Context) (n : Nat)
    (st : State) : Prop :=
  ∃ first, startWithin p literals full context
    = .next first ∧ runs (State.stepWithin p literals full) n first = .next st

section

variable {p : Program} {literals : List Bytes} {context : Context} {st st' : State} {n : Nat}

theorem passes_zero : Passes p literals context 0 st ↔ start p literals context = .next st :=
  ⟨fun ⟨_, hfirst, hrun⟩ => by cases hrun; exact hfirst, fun h => ⟨st, h, rfl⟩⟩

theorem passes_succ :
    Passes p literals context (n + 1) st' ↔ ∃ st, Passes p literals context n st ∧ st.step p literals = .next st' := by
  have hone : ∀ s : State, runs (State.step p literals) 1 s = .next st' ↔ s.step p literals = .next st' := fun s => by
    rw [runs_succ_eq_next]
    exact ⟨fun ⟨_, hstep, hrest⟩ => by cases hrest; exact hstep, fun h => ⟨st', h, rfl⟩⟩
  constructor
  · rintro ⟨first, hfirst, hrun⟩
    obtain ⟨st, hst⟩ := exists_runs_of_le hrun (Nat.le_succ n)
    exact ⟨st, ⟨first, hfirst, hst⟩, (hone st).1 ((runs_of_next hst 1).symm.trans hrun)⟩
  · rintro ⟨st, ⟨first, hfirst, hrun⟩, hstep⟩
    exact ⟨first, hfirst, (runs_of_next hrun 1).trans ((hone st).2 hstep)⟩

theorem Passes.unique (h : Passes p literals context n st) (h' : Passes p literals context n st') : st = st' := by
  obtain ⟨first, hfirst, hrun⟩ := h
  obtain ⟨first', hfirst', hrun'⟩ := h'
  obtain rfl : first = first' := by rw [hfirst] at hfirst'; cases hfirst'; rfl
  rw [hrun] at hrun'
  cases hrun'
  rfl

theorem Passes.earlier (h : Passes p literals context n st) {m : Nat} (hm : m ≤ n) :
    ∃ st', Passes p literals context m st' := by
  obtain ⟨first, hfirst, hrun⟩ := h
  obtain ⟨st', hst'⟩ := exists_runs_of_le hrun hm
  exact ⟨st', first, hfirst, hst'⟩

theorem Passes.later (h : Passes p literals context n st) {m : Nat}
    (hm : runs (State.step p literals) m st = .next st') :
    Passes p literals context (n + m) st' := by
  obtain ⟨first, hfirst, hrun⟩ := h
  exact ⟨first, hfirst, (runs_of_next hrun m).trans hm⟩

variable {full : List Nat → Nat → Bool}

theorem guard_eq_next {full : Bool} {turn : Turn State Result} (h : guard full context turn = .next st) :
    turn = .next st := by
  cases full with
  | false => exact h
  | true => cases h

theorem State.step_of_within (h : st.stepWithin p literals full = .next st') : st.step p literals = .next st' := by
  unfold stepWithin at h
  split at h
  · exact guard_eq_next h
  · exact h

theorem PassesWithin.passes (h : PassesWithin p literals full context n st) : Passes p literals context n st := by
  obtain ⟨first, hfirst, hrun⟩ := h
  exact ⟨first, guard_eq_next hfirst, runs_of_steps (fun _ _ => State.step_of_within) hrun⟩

theorem PassesWithin.earlier (h : PassesWithin p literals full context n st) {m : Nat} (hm : m ≤ n)
    (hst' : Passes p literals context m st') :
    PassesWithin p literals full context m st' := by
  obtain ⟨first, hfirst, hrun⟩ := h
  obtain ⟨st'', hst''⟩ := exists_runs_of_le hrun hm
  have hpass : PassesWithin p literals full context m st'' := ⟨first, hfirst, hst''⟩
  exact hpass.passes.unique hst' ▸ hpass

end

end Direct

/-! ## Both together -/

namespace Plan

variable (P : Plan) {length : Nat}

def Stands (st : Direct.State) (mst : Machine.State Context) : Prop :=
  ∃ cst, StateOf P.code.module mst cst ∧ P.Shows mst.outside.memory.length st cst

def Amid (mst : Machine.State Context) : Prop := ∃ cst, StateOf P.code.module mst cst ∧ P.Inside cst

/-- The state of the machine so many steps after the call of the main function. -/
def Passes (out : Outside Context) (n : Nat) (mst : Machine.State Context) : Prop :=
  P.code.module.Passes Service.perform P.code.main [0] out n mst

/-- Between instructions the machine is in the states of the direct run, and it has been in the earlier ones before. -/
def Mirrors (out : Outside Context) : Prop :=
  ∀ {n : Nat} {mst : Machine.State Context}, P.Passes out n mst → P.Amid mst ∨ ∃ k st,
    Direct.Passes P.program P.code.literals out.host k st ∧ P.Stands st mst ∧ ∀ j < k, ∀ st',
      Direct.Passes P.program P.code.literals out.host j st' → ∃ i < n, ∃ mst', P.Passes out i mst' ∧ P.Stands st' mst'

/-- The code does what the direct run does, though more registers may be counted in it. -/
structure Faithful (context : Context) : Prop where
  enters : P.EntersAlike
  concurs : ∀ {k : Nat} {st : Direct.State}, Direct.Passes P.program P.code.literals context k st → P.Concurs st

/-- The words of the stack; a size of 0 or less stands for the usual one. -/
def stackSize (stackWords : Int64) : Nat := (if stackWords ≤ 0 then Memory.defaultStack else stackWords).toInt.toNat

variable {P}

theorem stands_of_shows {st : Direct.State} {mst : Machine.State Context} {cst : CellState Context}
    (hst : StateOf P.code.module mst cst) (hshows : P.Shows length st cst) : P.Stands st mst := by
  obtain ⟨area, out, fr, below, rfl, hgo⟩ := hshows
  have hlength : mst.outside.memory.length = length := by
    cases hst
    exact hgo.sound.length
  exact ⟨_, hst, area, out, fr, below, rfl, hlength.symm ▸ hgo⟩

theorem Sound.faithful (h : P.Sound) (context : Context) : P.Faithful context := ⟨h.entersAlike, fun _ => h.concurs _⟩

namespace Made

variable {all : Bool} (h : P.Made all)

include h

theorem simulation (hlength : length < Memory.maxIndex) {context : Context} (hP : P.Faithful context) :
    Simulation (Direct.State.stepWithin P.program P.code.literals (P.full length))
      (CellState.step P.code.module Service.perform) (fun st cst => P.Shows length st cst ∧ ∃ k,
        Direct.Passes P.program P.code.literals context k st) Direct.Result.Same (fun _ => False)
      P.Inside where
  next {st st' cst} hrel hstep := by
    obtain ⟨hshows, k, hk⟩ := hrel
    refine (h.follows_within hlength hP.enters (hP.concurs hk) hshows).mono ?_ ?_
    · rintro t ⟨st'', hst'', ht⟩
      rw [hstep] at hst''
      cases hst''
      exact ⟨ht, k + 1, Direct.passes_succ.2 ⟨st, hk, Direct.State.step_of_within hstep⟩⟩
    · rintro e (⟨r, hr, -⟩ | he)
      · rw [hstep] at hr
        cases hr
      · exact he.2
  ended {st r cst} hrel hstep := by
    obtain ⟨hshows, k, hk⟩ := hrel
    refine (h.follows_within hlength hP.enters (hP.concurs hk) hshows).mono ?_ ?_
    · rintro t ⟨st', hst', -⟩
      rw [hstep] at hst'
      cases hst'
    · rintro e (⟨r', hr', hsame⟩ | he)
      · rw [hstep] at hr'
        cases hr'
        exact .inl hsame
      · exact .inr he.2

theorem span_lt : Declared.span P.program.globals < Machine.maxArea := by
  have hbase := h.base_lt
  have h59 : Nat.pow 2 59 = 576460752303423488 := rfl
  have hmax : Machine.maxArea = 576460752303423488 := rfl
  unfold base at hbase
  omega

theorem exists_instance (hspan : Declared.span P.program.globals < 35184372023295) (context : Context) :
    ∃ inst, Instance.ofModule P.code.module context 0 = .ok inst := by
  obtain ⟨m, hm, -⟩ := h.complete
  obtain ⟨memory, hmemory⟩ := Option.isSome_iff_exists.1 (Memory.ofSizes_isSome hspan)
  refine ⟨⟨P.code.module, ⟨memory, context⟩⟩, ?_⟩
  have hfinal : P.code.module.finalized := by rw [hm]
  simp only [Instance.ofModule, h.words, hfinal, if_true, show (0 : Int64) ≤ 0 from Int64.le_refl 0, hmemory]

section

variable {context : Context} {stackWords : Int64} {inst : Instance Service Context}
  (hinst : Instance.ofModule P.code.module context stackWords = .ok inst)

include hinst

theorem starts : inst.outside.host = context ∧ inst.outside.memory.length < Memory.maxIndex
    ∧ inst.outside.memory.length = P.base + stackSize stackWords ∧ inst.outside.memory.sp.toNat = P.base
    ∧ P.Carries inst.outside.memory Direct.blank := by
  have hstack : (0 : Int64) < (if stackWords ≤ 0 then Memory.defaultStack else stackWords) := by
    split
    · decide
    · next hpos => exact Int64.not_le.1 hpos
  simp only [Instance.ofModule, h.words] at hinst
  split at hinst
  · split at hinst
    · next m hm =>
      cases hinst
      obtain ⟨hlength, hbase, hsp, hzero⟩ := Memory.ofSizes_eq_some h.span_lt hstack hm
      refine ⟨rfl, hlength, hbase, hsp, fun g _ => ⟨?_, fun j w hw => ?_⟩⟩
      · unfold Direct.blank
        cases g.ty <;> rfl
      · rw [hzero]
        unfold Direct.blank at hw
        split at hw
        · rcases j with _ | _ | j <;> simp_all
        · rcases j with _ | j <;> simp_all
    · cases hinst
  · cases hinst

theorem calls_main (hsame : P.EntersAlike) :
    (CellState.call P.code.module Service.perform P.code.main [0] [] inst.outside []).Comes
    (fun cst => P.Inside cst ∧ P.Follows inst.outside.memory.length False cst
      (Direct.startWithin P.program P.code.literals (P.full inst.outside.memory.length) inst.outside.host))
    fun e => P.full inst.outside.memory.length [] P.program.main.toNat = true
    ∧ e = .trapped { code := .stackOverflow } inst.outside := by
  obtain ⟨hhost, hlength, hbase, hsp, hcarries⟩ := h.starts hinst
  obtain ⟨⟨f, hmain, hparams⟩, -⟩ := Check.check_eq_nil.1 h.checked
  have hf : P.program.funcs[P.program.main.toNat]? = some f := (Program.place_of_func? hmain).2
  have hargs : ([] : List (List UInt64)).map List.length = f.params.map (·.ty.words.words) := by
    rw [hparams]
    rfl
  exact h.enters hlength hsame hf h.main hargs .nil (Nat.le_refl _) (hbase ▸ Nat.le_add_right ..) rfl hsp hcarries

section

variable (hP : P.Faithful inst.outside.host)

include hP

/-- Between instructions the machine is in the states of the run on a stack of its size, and it has been in the earlier
ones before. -/
theorem mirrors_within {n : Nat} {mst : Machine.State Context} (hpass : P.Passes inst.outside n mst) :
    P.Amid mst ∨ ∃ k st,
    Direct.PassesWithin P.program P.code.literals (P.full inst.outside.memory.length) inst.outside.host k st
    ∧ P.Stands st mst
      ∧ ∀ j < k, ∀ st', Direct.PassesWithin P.program P.code.literals
        (P.full inst.outside.memory.length) inst.outside.host j st' →
        ∃ i < n, ∃ mst', P.Passes inst.outside i mst' ∧ P.Stands st' mst' := by
  obtain ⟨first, cst, hcall, hrun, hst⟩ := Machine.Module.Passes.cells h.laid hpass
  obtain ⟨-, hlength, -⟩ := h.starts hinst
  have hcomes := h.calls_main hinst hP.enters
  rw [hcall] at hcomes
  obtain ⟨hinside, k, hin, hk⟩ := hcomes
  rcases Nat.lt_or_ge k n with hlt | hle
  · cases hfirst : runs (CellState.step P.code.module Service.perform) (k + 1) first with
    | ended e =>
      rw [runs_of_ended hfirst hlt] at hrun
      cases hrun
    | next cfirst =>
      rw [hfirst] at hk
      obtain ⟨dfirst, hstart, hshows⟩ := hk
      obtain ⟨l, rfl⟩ := Nat.exists_eq_add_of_le (show k + 1 ≤ n from hlt)
      rw [runs_of_next hfirst] at hrun
      have hzero := Direct.passes_zero.2 (Direct.guard_eq_next hstart)
      rcases (h.simulation hlength hP).visits ⟨hshows, 0, hzero⟩ hrun with hi | ⟨j, st, hj, hlast, hbefore⟩
      · exact .inl ⟨cst, hst, hi⟩
      · refine .inr ⟨j, st, ⟨dfirst, hstart, hj⟩, stands_of_shows hst hlast.1, fun i hi st' hst' => ?_⟩
        obtain ⟨dfirst', hstart', hi'⟩ := hst'
        obtain rfl : dfirst = dfirst' := by
          rw [hstart] at hstart'
          cases hstart'
          rfl
        obtain ⟨i', hlt', cst', hcst', hshows'⟩ := hbefore i hi st' hi'
        obtain ⟨mst', hpass', hst''⟩ := Machine.Module.passes_of_cells h.laid hcall
          ((runs_of_next hfirst i').trans hcst')
        exact ⟨k + 1 + i', by omega, mst', hpass', stands_of_shows hst'' hshows'.1⟩
  · refine .inl ⟨cst, hst, ?_⟩
    rcases Nat.eq_zero_or_pos n with rfl | hpos
    · cases hrun
      exact hinside
    · exact hin n hpos hle cst hrun

theorem comes_to_start {dfirst : Direct.State}
    (hstart : Direct.startWithin P.program P.code.literals (P.full inst.outside.memory.length) inst.outside.host
      = .next dfirst) :
    ∃ first, CellState.call P.code.module Service.perform P.code.main [0] [] inst.outside [] = .next first
      ∧ ∃ cst, Visits (CellState.step P.code.module Service.perform) first cst
      ∧ P.Shows inst.outside.memory.length dfirst cst := by
  have hcomes := h.calls_main hinst hP.enters
  generalize CellState.call P.code.module Service.perform P.code.main [0] [] inst.outside [] = turn at hcomes
  cases turn with
  | ended e =>
    rw [Direct.startWithin, hcomes.1] at hstart
    cases hstart
  | next first =>
    have hfollows : P.Follows _ _ first _ := hcomes.2
    rw [hstart] at hfollows
    obtain ⟨cst, hvisits, st, hst, hshows⟩ := (hfollows.mono (fun _ ht => ht) fun e he => by
      obtain ⟨r, hr, -⟩ := he.resolve_right fun hno => hno.2
      cases hr).visits
    cases hst
    exact ⟨first, rfl, cst, hvisits, hshows⟩

theorem ends {r : Direct.Result}
    (hends : (Direct.startWithin P.program P.code.literals (P.full inst.outside.memory.length)
      inst.outside.host).EndsIn (Direct.State.stepWithin P.program P.code.literals
        (P.full inst.outside.memory.length)) r) :
    ∃ e, (CellState.call P.code.module Service.perform P.code.main [0] [] inst.outside []).EndsIn
      (CellState.step P.code.module Service.perform) e ∧ r.Same e := by
  generalize hstart : Direct.startWithin P.program P.code.literals (P.full inst.outside.memory.length) inst.outside.host
    = start at hends
  cases start with
  | next dfirst =>
    obtain ⟨first, hcall, cst, hvisits, hshows⟩ := h.comes_to_start hinst hP hstart
    have hzero := Direct.passes_zero.2 (Direct.guard_eq_next hstart)
    obtain ⟨e, he, hsame⟩ := (h.simulation (h.starts hinst).2.1 hP).ends ⟨hshows, 0, hzero⟩ hends
    rw [hcall]
    exact ⟨e, hvisits.ends he, hsame.resolve_right id⟩
  | ended r' =>
    obtain rfl : r' = r := hends
    have hcomes := h.calls_main hinst hP.enters
    generalize CellState.call P.code.module Service.perform P.code.main [0] [] inst.outside [] = turn at hcomes ⊢
    cases turn with
    | ended e =>
      obtain ⟨hfull, rfl⟩ := hcomes
      rw [Direct.startWithin, hfull] at hstart
      obtain rfl : _ = r' := Turn.ended.inj hstart
      exact ⟨_, rfl, .trapped⟩
    | next first =>
      have hfollows : P.Follows _ _ first _ := hcomes.2
      rw [hstart] at hfollows
      obtain ⟨e, he, hfin⟩ := (hfollows.mono (fun _ ⟨_, hno, _⟩ => by cases hno) fun _ he => he).ends
      obtain ⟨r, hr, hsame⟩ := hfin.resolve_right fun hno => hno.2
      cases hr
      exact ⟨e, he, hsame⟩

theorem ends_of_ends {e : End Context}
    (hends : (CellState.call P.code.module Service.perform P.code.main [0] [] inst.outside []).EndsIn
      (CellState.step P.code.module Service.perform) e) :
    ∃ r, (Direct.startWithin P.program P.code.literals (P.full inst.outside.memory.length) inst.outside.host).EndsIn
      (Direct.State.stepWithin P.program P.code.literals (P.full inst.outside.memory.length)) r ∧ r.Same e := by
  have hcomes := h.calls_main hinst hP.enters
  generalize CellState.call P.code.module Service.perform P.code.main [0] [] inst.outside [] = turn at hcomes hends
  cases turn with
  | ended e' =>
    obtain ⟨hfull, rfl⟩ := hcomes
    obtain rfl : _ = e := hends
    rw [Direct.startWithin, hfull]
    exact ⟨_, rfl, .trapped⟩
  | next first =>
    have hfollows : P.Follows _ _ first _ := hcomes.2
    generalize hstart : Direct.startWithin P.program P.code.literals
      (P.full inst.outside.memory.length) inst.outside.host = start
      at hfollows ⊢
    obtain hfin | ⟨cst, ⟨st, hst, hshows⟩, hrest⟩ := hfollows.ends_of_ends hends
    · obtain ⟨r, rfl, hsame⟩ := hfin.resolve_right fun hno => hno.2
      exact ⟨r, rfl, hsame⟩
    · subst hst
      have hzero := Direct.passes_zero.2 (Direct.guard_eq_next hstart)
      exact ((h.simulation (h.starts hinst).2.1 hP).ends_of_ends ⟨hshows, 0, hzero⟩ hrest).resolve_left id

theorem reaches {k : Nat} {st : Direct.State}
    (hk : Direct.PassesWithin P.program P.code.literals (P.full inst.outside.memory.length) inst.outside.host k st) :
    ∃ n mst, P.Passes inst.outside n mst ∧ P.Stands st mst := by
  obtain ⟨dfirst, hstart, hrun⟩ := hk
  obtain ⟨first, hcall, cst, ⟨m, hm⟩, hshows⟩ := h.comes_to_start hinst hP hstart
  have hzero := Direct.passes_zero.2 (Direct.guard_eq_next hstart)
  obtain ⟨cst', ⟨l, hl⟩, hlast, -⟩ := (h.simulation (h.starts hinst).2.1 hP).reaches ⟨hshows, 0, hzero⟩ hrun
  obtain ⟨mst, hpass, hst⟩ := Machine.Module.passes_of_cells h.laid hcall ((runs_of_next hm l).trans hl)
  exact ⟨m + l, mst, hpass, stands_of_shows hst hlast⟩

end

end

end Made

namespace Sound

variable (h : P.Sound) {context : Context} {stackWords : Int64} {inst : Instance Service Context}
  (hinst : Instance.ofModule P.code.module context stackWords = .ok inst)

include h hinst

theorem call_main : (CellState.call P.code.module Service.perform P.code.main [0] [] inst.outside []).Comes
    (fun cst => P.Inside cst ∧ P.Follows inst.outside.memory.length (P.Crowded inst.outside.memory.length []) cst
      (Direct.start P.program P.code.literals inst.outside.host))
    fun e => e.GivesUp ∧ P.Crowded inst.outside.memory.length [] := by
  have hcalls := h.calls_main hinst h.entersAlike
  obtain ⟨⟨f, hmain, -⟩, -⟩ := Check.check_eq_nil.1 h.checked
  have hcrowded : _ → P.Crowded inst.outside.memory.length [] := crowded_of_full (Program.place_of_func? hmain).2
  generalize CellState.call P.code.module Service.perform P.code.main [0] [] inst.outside [] = turn at hcalls
  cases turn with
  | next cst => exact ⟨hcalls.1, hcalls.2.of_guard hcrowded⟩
  | ended e =>
    obtain ⟨hfull, rfl⟩ := hcalls
    exact ⟨rfl, hcrowded hfull⟩

theorem mirrors : P.Mirrors inst.outside := fun hpass => by
  obtain hin | ⟨k, st, hst, hstands, hearlier⟩ := h.mirrors_within hinst (h.faithful _) hpass
  · exact .inl hin
  · exact .inr ⟨k, st, hst.passes, hstands, fun j hj st' hst' => hearlier j hj st' (hst.earlier (Nat.le_of_lt hj) hst')⟩

end Sound

end Plan

end RecordMill

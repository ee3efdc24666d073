import RecordMill.Proofs.Plain.Preservation
import RecordMill.Proofs.Plain.Snapshots

/-!
# Traps of compiled programs

Main statement: `Program.traps_of_compiled_runs`. A compiled program traps where the plain run halts, or because its
stack is exhausted. The plain run halts at a division by zero, at a step with an iterator that its activation has not
begun, and at a number of fields that no memory can hold; no handle, tag, address or variable can be a wrong one. -/

namespace RecordMill

open Machine (Instance)

namespace Plain.State

variable {p : Program} {σ τ υ : State} {it : Reg} {depth : Nat}

/-! ## Iterators that were not begun -/

/-- The run goes on from `σ` to a state, and the activation with `depth` others below it is there all the way. -/
inductive Stays (p : Program) (depth : Nat) (σ : State) : State → Prop
  | start : depth ≤ σ.below.length → Stays p depth σ σ
  | step {τ υ : State} : Stays p depth σ τ → τ.step p = .next υ → depth ≤ υ.below.length → Stays p depth σ υ

/-- The innermost activation has not begun the iterator. -/
def Unbegun (p : Program) (it : Reg) (τ : State) : Prop :=
  ∀ σ m, σ.below.length = τ.below.length → Stays p τ.below.length σ τ → σ.frame.instr? p ≠ some (.iterBegin it m)

theorem isSome_cursor?_step (hstep : τ.step p = .next υ) (hle : depth ≤ τ.below.length)
    (hstays : depth ≤ υ.below.length) (hc : (τ.cursor? depth it).isSome) : (υ.cursor? depth it).isSome := by
  by_cases hbegin : τ.below.length = depth ∧ ∃ m, τ.frame.instr? p = some (.iterBegin it m)
  · obtain ⟨rfl, m, hi⟩ := hbegin
    rw [step_iterBegin hi] at hstep
    cases hstep
    exact Option.isSome_iff_exists.2 ⟨_, (cursor?_top ..).trans (if_pos rfl)⟩
  by_cases hnext : τ.below.length = depth ∧ ∃ d, τ.frame.instr? p = some (.iterGetNext d it)
  · obtain ⟨rfl, d, hi⟩ := hnext
    rw [cursor?_top] at hc
    obtain ⟨c, hc⟩ := Option.isSome_iff_exists.1 hc
    rw [step_iterGetNext hi hc] at hstep
    cases hstep
    rw [← show (((τ.setCursor it c.advance).set p d c.current).goto (τ.frame.next + 1)).below
      = τ.below from below_set .., cursor?_top]
    exact Option.isSome_iff_exists.2
      ⟨_, (congrFun (cursors_set (σ := τ.setCursor it c.advance) ..) it).trans (if_pos rfl)⟩
  · rwa [cursor?_step hstep hle hstays (fun htop m hi => hbegin ⟨htop, m, hi⟩) fun htop d hi => hnext ⟨htop, d, hi⟩]

theorem Stays.isSome_cursor? {m : Reg} (h : Stays p depth σ τ) (hdepth : σ.below.length = depth)
    (hi : σ.frame.instr? p = some (.iterBegin it m)) :
    depth ≤ τ.below.length ∧ (τ = σ ∨ (τ.cursor? depth it).isSome) := by
  induction h with
  | start hle => exact ⟨hle, .inl rfl⟩
  | @step τ υ _ hstep hle ih =>
    obtain ⟨hbefore, rfl | hc⟩ := ih
    · rw [step_iterBegin hi] at hstep
      cases hstep
      subst hdepth
      exact ⟨hle, .inr (Option.isSome_iff_exists.2 ⟨_, (cursor?_top ..).trans (if_pos rfl)⟩)⟩
    · exact ⟨hle, .inr (isSome_cursor?_step hstep hbefore hle hc)⟩

theorem unbegun_of_cursors (hc : τ.frame.cursors it = none) (hi : ∀ m, τ.frame.instr? p ≠ some (.iterBegin it m)) :
    τ.Unbegun p it := by
  intro σ m hdepth hstays hbegin
  obtain ⟨-, rfl | hsome⟩ := hstays.isSome_cursor? hdepth hbegin
  · exact hi m hbegin
  · rw [cursor?_top, hc] at hsome
    cases hsome

/-! ## Where runs halt -/

def Halts (p : Program) (σ : State) : Halt → Prop
  | .divisionByZero => ∃ d x y, σ.frame.instr? p = some (.arith d .mod [x, y]) ∧ d.ty ≠ .float ∧ (σ.get p y).toInt = 0
  | .notBegun =>
    ∃ d it, (σ.frame.instr? p = some (.iterHasNext d it) ∨ σ.frame.instr? p = some (.iterGetNext d it)) ∧ σ.Unbegun p it
  | .tooManyFields => ∃ s, σ.frame.instr? p = some (.storeVar .nf s) ∧ Records.maxFields < (σ.get p s).toInt.toInt

theorem exec_eq_error {i : Instr} {h : Halt} (hi : σ.frame.instr? p = some i) (hexec : σ.exec p i = .error h) :
    σ.Halts p h := by
  cases i <;> simp only [exec] at hexec
  case arith d op args =>
    split at hexec
    · cases hexec
    next hty =>
    split at hexec <;> cases hexec
    next hnone =>
    unfold arithInts at hnone
    split at hnone <;> try cases hnone
    next x y hargs =>
    split at hnone <;> cases hnone
    next hzero =>
    rcases args with _ | ⟨r, _ | ⟨s, _ | ⟨t, args⟩⟩⟩ <;> cases hargs
    exact ⟨d, r, s, hi, hty, hzero⟩
  case iterHasNext d it =>
    split at hexec <;> cases hexec
    next hnone =>
    exact ⟨d, it, .inl hi, unbegun_of_cursors hnone fun m hm => by cases hi.symm.trans hm⟩
  case iterGetNext d it =>
    split at hexec <;> cases hexec
    next hnone =>
    exact ⟨d, it, .inr hi, unbegun_of_cursors hnone fun m hm => by cases hi.symm.trans hm⟩
  case storeVar v s =>
    split at hexec <;> cases hexec
    next herror =>
    cases v <;> simp only [Store.assign, Store.setCount, reduceCtorEq] at herror
    split at herror
    · cases herror
    next hpos =>
    split at herror <;> cases herror
    next hmany =>
    exact ⟨s, hi, by omega⟩
  all_goals first
    | cases hexec
    | split at hexec <;> cases hexec

theorem step_eq_halted {h : Halt} {s : Store} (hstep : σ.step p = .ended (.halted h, s)) :
    s = σ.store ∧ σ.Halts p h := by
  unfold step at hstep
  split at hstep
  · cases hstep
  next f hf =>
  split at hstep
  · cases hstep
  · cases hstep
  · cases hstep
  · split at hstep <;> cases hstep
  · dsimp only at hstep
    split at hstep <;> cases hstep
  next i _ _ _ _ hi =>
    split at hstep <;> cases hstep
    next hexec =>
    exact ⟨rfl, exec_eq_error (Option.bind_eq_some_iff.2 ⟨f, hf, hi⟩) hexec⟩

end Plain.State

/-- A trap is a stack that is exhausted, or tells where and why the plain run halts. -/
theorem Program.traps_of_compiled_runs {p : Program} {x : Executable} {main : Func} {o : Settings} {world : World}
    {inst : Instance Service Context} (h : p.Launched x main o world inst) {fuel : Nat} {t : Machine.Trap}
    (ht : (x.execute fuel inst).ending = .trapped t) : t.code = .stackOverflow ∧ p.Exhausts x main o world inst
      ∨ ∃ n σ halt name, Plain.Passes p main o world n σ ∧ σ.step p = .ended (.halted halt, σ.store) ∧ σ.Halts p halt
        ∧ t = halt.trap.within name := by
  refine (h.trapped ht).imp_right ?_
  rintro ⟨halt, s, name, hends, htrap⟩
  obtain ⟨n, σ, hn, hstep⟩ := hends.exists_last
  obtain ⟨rfl, hhalts⟩ := Plain.State.step_eq_halted hstep
  exact ⟨n, σ, halt, name, hn, hstep, hhalts, htrap⟩

def Program.dividing : Program where
  funcs := [{
    name := "main", ret := .null
    body := [.constInt ⟨1, .int⟩ 7, .arith ⟨2, .int⟩ .mod [⟨1, .int⟩, ⟨3, .int⟩], .ret ⟨0, .null⟩] }]

/-- It traps, and the plain run tells why. -/
theorem Program.traps_of_compiled_runs_dividing :
    ∃ x main inst fuel t, dividing.Launched x main { literals := x.literals } {} inst
    ∧ (x.execute fuel inst).ending = .trapped t
    ∧ ∃ n σ halt name, Plain.Passes dividing main { literals := x.literals } {} n σ
    ∧ σ.step dividing = .ended (.halted halt, σ.store)
      ∧ σ.Halts dividing halt ∧ t = halt.trap.within name := by
  have hmodest : dividing.Modest (fun _ => 0) 64 := by constructor <;> decide +kernel
  obtain ⟨x, hx⟩ := hmodest.exists_bounded
  have hmain : dividing.func? dividing.main = some (dividing.funcs.head (by decide)) := rfl
  obtain ⟨inst, hlaunched, hinst⟩ :=
    hx.exists_launched (by decide +kernel) hmain (o := { literals := x.literals }) rfl {}
  have hends : ∃ s, runs (Plain.State.step dividing) 2
    (.start dividing (dividing.funcs.head (by decide)) { literals := x.literals } {})
      = .ended (.halted .divisionByZero, s) := ⟨_, rfl⟩
  obtain ⟨s, hends⟩ := hends
  obtain ⟨least, hshows⟩ := hx.execute hmain rfl ⟨by decide, by decide⟩ hinst ⟨2, hends⟩
  obtain ⟨name, hname⟩ := (hshows least (Nat.le_refl _)).ending
  refine ⟨x, _, inst, least, _, hlaunched, hname, (traps_of_compiled_runs hlaunched hname).resolve_left fun hfull => ?_⟩
  have hcode := hfull.1
  rw [Machine.Trap.code_within] at hcode
  cases hcode

end RecordMill

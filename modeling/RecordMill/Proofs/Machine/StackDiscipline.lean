import RecordMill.Proofs.Machine.SymbolTable
import RecordMill.Proofs.Machine.Transitions

/-!
# Stack areas of active functions

The areas of the active functions lie one behind the other on the stack, each all zeros when its function
starts. Once a call from outside is over, whichever way it ended, the stack is empty again.
-/

namespace RecordMill.Machine

/-! ## Areas one behind the other -/

/-- The areas reach from `base` up to `top` without a gap, the innermost one last. -/
def Piled {ι : Type} (m : Module ι) (base : Nat) : Nat → List (FuncId × UInt64) → Prop
  | top, [] => top = base
  | top, (func, address) :: below =>
    ∃ start, address = Memory.addressOf start ∧ start + m.areaOf func = top ∧ Piled m base start below

namespace Piled

variable {ι : Type} {m : Module ι} {base top : Nat} {seats : List (FuncId × UInt64)}

theorem base_le (h : Piled m base top seats) : base ≤ top := by
  induction seats generalizing top with
  | nil => exact Nat.le_of_eq h.symm
  | cons seat seats ih =>
    obtain ⟨start, -, rfl, hbelow⟩ := h
    have := ih hbelow
    omega

theorem place (h : Piled m base top seats) {func : FuncId} {address : UInt64} (hs : (func, address) ∈ seats) :
    ∃ start, address = Memory.addressOf start ∧ base ≤ start ∧ start + m.areaOf func ≤ top := by
  induction seats generalizing top with
  | nil => cases hs
  | cons seat seats ih =>
    obtain ⟨start, haddress, rfl, hbelow⟩ := h
    rcases List.mem_cons.1 hs with rfl | hs
    · exact ⟨start, haddress, hbelow.base_le, Nat.le_refl _⟩
    · obtain ⟨start', haddress', hbase, htop⟩ := ih hbelow hs
      exact ⟨start', haddress', hbase, by omega⟩

theorem apart (h : Piled m base top seats) (htop : top < Memory.maxIndex) {i j : Nat} {f g : FuncId} {a b : UInt64}
    (hi : seats[i]? = some (f, a)) (hj : seats[j]? = some (g, b)) (hij : i < j) :
    b.toNat / 8 + m.areaOf g ≤ a.toNat / 8 := by
  induction seats generalizing top i j with
  | nil => simp at hi
  | cons seat seats ih =>
    obtain ⟨start, haddress, rfl, hbelow⟩ := h
    cases i with
    | succ i =>
      obtain ⟨j, rfl⟩ := Nat.exists_eq_succ_of_ne_zero (Nat.ne_of_gt (Nat.lt_of_le_of_lt (Nat.zero_le _) hij))
      exact ih hbelow (by omega) hi hj (Nat.lt_of_succ_lt_succ hij)
    | zero =>
      obtain ⟨j, rfl⟩ := Nat.exists_eq_succ_of_ne_zero (Nat.ne_of_gt hij)
      cases hi
      obtain ⟨start', haddress', -, hle⟩ := hbelow.place (List.mem_of_getElem? hj)
      have hstart : start < Memory.maxIndex := Nat.lt_of_le_of_lt (Nat.le_add_right _ _) htop
      obtain rfl : a = Memory.addressOf start := haddress
      rw [haddress', Memory.toNat_addressOf hstart, Memory.toNat_addressOf (by omega)]
      omega

end Piled

namespace State

variable {ι σ : Type} {m : Module ι} {perform : ι → List UInt64 → HostM σ (List UInt64)} {st st' : State σ}

/-- Memory has its shape, and the stack holds the areas of the active functions and nothing else. -/
structure Orderly (m : Module ι) (base words : Nat) (st : State σ) : Prop where
  stackBase : st.outside.memory.stackBase.toNat = base
  length : st.outside.memory.length = words
  piled : Piled m base st.outside.memory.sp.toNat st.seats
  room : st.outside.memory.sp.toNat ≤ words
  depth : st.frames.length ≤ maxDepth

section

variable {base words : Nat}

theorem length_seats (st : State σ) : st.seats.length = st.frames.length := List.length_map _

theorem Orderly.moves (h : st.Orderly m base words) (hmax : words < Memory.maxIndex) (hm : Moves m st st') :
    st'.Orderly m base words := by
  have hcount := length_seats st
  have hcount' := length_seats st'
  cases hm with
  | stays _ _ hseats hshape =>
    rw [hseats] at hcount'
    exact ⟨hshape.stackBase ▸ h.stackBase, hshape.length.trans h.length, by rw [hshape.sp, hseats]; exact h.piled,
      by rw [hshape.sp]; exact h.room, by have := h.depth; omega⟩
  | enters callee address _ hseats hdepth hpush =>
    -- The new area begins where the stack ended, so the pile has no gap.
    rw [hseats, List.length_cons] at hcount'
    refine ⟨hpush.stackBase ▸ h.stackBase, hpush.length.trans h.length, ?_, ?_, by omega⟩
    · rw [hseats]
      refine ⟨_, ?_, hpush.sp.symm, h.piled⟩
      rw [hpush.address, Memory.mul_eight]
    · have := hpush.room (h.length.symm ▸ h.room)
      rw [h.length] at this
      exact this
  | leaves func address _ _ hseats hpop =>
    rw [hseats, List.length_cons] at hcount
    obtain ⟨start, haddress, htop, hbelow⟩ := hseats ▸ h.piled
    have hroom := h.room
    have hsp : (st.outside.memory.pop address).sp.toNat = start := by
      rw [haddress]
      exact Memory.sp_pop _ (by omega)
    refine ⟨?_, ?_, ?_, ?_, by have := h.depth; omega⟩ <;> rw [hpop]
    · exact h.stackBase
    · exact h.length
    · rw [hsp]
      exact hbelow
    · rw [hsp]
      omega

/-- The stack is in order, or empty once the function has returned. A trap can leave it anyhow. -/
def Tidy (m : Module ι) (base words : Nat) : Outcome σ → Prop
  | .next st => st.Orderly m base words
  | .done _ out => out.memory.stackBase.toNat = base ∧ out.memory.length = words ∧ out.memory.sp.toNat = base
  | .trapped _ out => out.memory.stackBase.toNat = base ∧ out.memory.length = words

theorem Orderly.step (hhost : ∀ f args, (perform f args).KeepsShape) (h : st.Orderly m base words)
    (hmax : words < Memory.maxIndex) : Tidy m base words (State.step m perform st) := by
  have hstep := stepped (m := m) hhost st
  generalize State.step m perform st = o at hstep
  cases hstep with
  | next hm => exact h.moves hmax hm
  | trapped hshape => exact ⟨hshape.stackBase ▸ h.stackBase, hshape.length.trans h.length⟩
  | ended hend =>
    have hpiled := h.piled
    obtain ⟨hnil, rfl⟩ | ⟨-, -, func, address, hseats, hpop⟩ := hend
    · rw [seats, hnil] at hpiled
      exact ⟨h.stackBase, h.length, hpiled⟩
    · rw [hseats] at hpiled
      obtain ⟨start, rfl, htop, hbase⟩ := hpiled
      obtain rfl : start = base := hbase
      have hroom := h.room
      refine ⟨hpop ▸ h.stackBase, hpop ▸ h.length, ?_⟩
      rw [hpop]
      exact Memory.sp_pop _ (by omega)

theorem Orderly.run (hhost : ∀ f args, (perform f args).KeepsShape) (h : st.Orderly m base words)
    (hmax : words < Memory.maxIndex) (n : Nat) : Tidy m base words (State.run m perform n st) := by
  induction n generalizing st with
  | zero => exact h
  | succ n ih =>
    have hstep := h.step hhost hmax
    rw [State.run]
    generalize State.step m perform st = o at hstep
    cases o with
    | next st' => exact ih hstep
    | done rs out => exact hstep
    | trapped t out => exact hstep

end

/-! ## The counter of active functions -/

/-- The number of active functions after the next step, if it was `depth`: entering a function adds one, leaving one
takes one away, and after a trap there are none. -/
def recount (m : Module ι) (perform : ι → List UInt64 → HostM σ (List UInt64)) (depth : Nat) (st : State σ) : Nat :=
  match step m perform st with
  | .trapped .. => 0
  | _ => if st.entering m then depth + 1 else if st.leaving then depth - 1 else depth

def runCounting (m : Module ι) (perform : ι → List UInt64 → HostM σ (List UInt64)) :
    Nat → Nat → State σ → Nat × Outcome σ
  | 0, depth, st => (depth, .next st)
  | fuel + 1, depth, st => match step m perform st with
    | .next st' => runCounting m perform fuel (recount m perform depth st) st'
    | o => (recount m perform depth st, o)

theorem runCounting_snd (fuel depth : Nat) (st : State σ) :
    (runCounting m perform fuel depth st).2 = run m perform fuel st := by
  induction fuel generalizing depth st with
  | zero => rfl
  | succ fuel ih =>
    rw [runCounting, run]
    cases step m perform st with
    | next st' => exact ih _ st'
    | done rs out => rfl
    | trapped t out => rfl

def Counted (depth : Nat) : Outcome σ → Prop
  | .next st => depth = st.frames.length
  | _ => depth = 0

theorem counted_recount (hhost : ∀ f args, (perform f args).KeepsShape) (st : State σ) :
    Counted (recount m perform st.frames.length st) (step m perform st) := by
  have hcount := length_seats st
  have hstep := stepped (m := m) hhost st
  unfold recount
  generalize State.step m perform st = o at hstep
  cases hstep with
  | trapped => exact rfl
  | ended hend =>
    obtain ⟨hnil, -⟩ | ⟨hentering, hleaving, func, address, hseats, -⟩ := hend
    · simp only [entering, leaving, hnil, Bool.false_eq_true, if_false]
      rfl
    · rw [hseats] at hcount
      simp only [hentering, hleaving, Bool.false_eq_true, if_false, if_true, ← hcount]
      rfl
  | @next st' hm =>
    have hcount' := length_seats st'
    cases hm with
    | stays hentering hleaving hseats =>
      simp only [hentering, hleaving, Bool.false_eq_true, if_false]
      show st.frames.length = st'.frames.length
      rw [← hcount, ← hcount', hseats]
    | enters _ _ hentering hseats =>
      simp only [hentering, if_true]
      show st.frames.length + 1 = st'.frames.length
      rw [← hcount, ← hcount', hseats, List.length_cons]
    | leaves _ _ hentering hleaving hseats =>
      simp only [hentering, hleaving, Bool.false_eq_true, if_false, if_true]
      show st.frames.length - 1 = st'.frames.length
      rw [← hcount, ← hcount', hseats, List.length_cons, Nat.add_sub_cancel]

theorem counted_run (hhost : ∀ f args, (perform f args).KeepsShape) (fuel : Nat) (st : State σ) :
    Counted (runCounting m perform fuel st.frames.length st).1 (run m perform fuel st) := by
  induction fuel generalizing st with
  | zero => exact rfl
  | succ fuel ih =>
    have hcounted := counted_recount (m := m) hhost st
    rw [runCounting, run]
    generalize State.step m perform st = o at hcounted
    cases o with
    | next st' =>
      have hdepth : recount m perform st.frames.length st = st'.frames.length := hcounted
      dsimp only
      rw [hdepth]
      exact ih st'
    | done rs out => exact hcounted
    | trapped t out => exact hcounted

end State

/-! ## Calls from outside -/

namespace Instance

variable {ι σ : Type} {m : Module ι} {perform : ι → List UInt64 → HostM σ (List UInt64)}

/-- The call of a function goes through the state, `n` steps after it was started. -/
def Goes (perform : ι → List UInt64 → HostM σ (List UInt64)) (inst : Instance ι σ) (id : FuncId) (args : List UInt64)
    (n : Nat) (st : State σ) : Prop :=
  ∃ start, State.call inst.module perform id args 0 inst.outside [] = .next start
    ∧ State.run inst.module perform n start = .next st

/-- In the state a function has just been started, by the call itself or by a step of another one. -/
def Starts (perform : ι → List UInt64 → HostM σ (List UInt64)) (inst : Instance ι σ) (id : FuncId) (args : List UInt64)
    (st : State σ) : Prop :=
  inst.Goes perform id args 0 st
    ∨ ∃ n before, inst.Goes perform id args n before ∧ before.entering inst.module = true
      ∧ State.step inst.module perform before = .next st

/-- The counter of active functions at the end of a call, which begins with none. -/
def depthAfter (perform : ι → List UInt64 → HostM σ (List UInt64)) (fuel : Nat) (inst : Instance ι σ) (id : FuncId)
    (args : List UInt64) : Nat :=
  if (inst.module.funcs[id]?).any (fun d => args.length = Kind.total d.sig.params) then
    match State.call inst.module perform id args 0 inst.outside [] with
    | .next st => (State.runCounting inst.module perform fuel 1 st).1
    | _ => 0
  else 0

/-- An instance after any number of calls that have come to an end. -/
inductive Reaches (perform : ι → List UInt64 → HostM σ (List UInt64)) (inst : Instance ι σ) : Instance ι σ → Prop
  | start : Reaches perform inst inst
  | call {now later : Instance ι σ} {fuel : Nat} {id : FuncId} {args : List UInt64} {r : CallResult} :
    Reaches perform inst now → now.call perform fuel id args = (r, later) → r ≠ .outOfFuel → Reaches perform inst later

/-- Between calls the stack is empty. -/
structure Idle (m : Module ι) (base words : Nat) (inst : Instance ι σ) : Prop where
  module : inst.module = m
  stackBase : inst.outside.memory.stackBase.toNat = base
  length : inst.outside.memory.length = words
  sp : inst.outside.memory.sp.toNat = base

section

variable {base words : Nat} {inst : Instance ι σ} {id : FuncId} {args : List UInt64}

theorem Idle.tidy (hhost : ∀ f args, (perform f args).KeepsShape) (h : inst.Idle m base words) (hle : base ≤ words) :
    State.Tidy m base words (State.call m perform id args 0 inst.outside []) := by
  have hcalled := State.called (m := m) hhost id args 0 inst.outside []
  generalize State.call .. = o at hcalled
  cases hcalled with
  | served hne => exact absurd rfl hne
  | trapped hshape => exact ⟨hshape.stackBase ▸ h.stackBase, hshape.length.trans h.length⟩
  | ended _ hshape => exact ⟨hshape.stackBase ▸ h.stackBase, hshape.length.trans h.length, hshape.sp ▸ h.sp⟩
  | @entered st address _ hseats hdepth hpush =>
    have hcount := State.length_seats st
    rw [hseats, List.map_nil, List.length_singleton] at hcount
    refine ⟨hpush.stackBase ▸ h.stackBase, hpush.length.trans h.length, ?_, ?_, by rw [← hcount]; exact hdepth⟩
    · rw [hseats]
      refine ⟨_, ?_, hpush.sp.symm, h.sp⟩
      rw [hpush.address, Memory.mul_eight]
    · have := hpush.room (by rw [h.sp, h.length]; exact hle)
      rw [h.length] at this
      exact this

theorem Idle.call (hhost : ∀ f args, (perform f args).KeepsShape) (h : inst.Idle m base words) (hle : base ≤ words)
    (hmax : words < Memory.maxIndex) {fuel : Nat} {r : CallResult} {later : Instance ι σ}
    (hcall : inst.call perform fuel id args = (r, later)) (hr : r ≠ .outOfFuel) : later.Idle m base words := by
  obtain ⟨-, -, rfl⟩ | ⟨d, -, -, hended⟩ := call_cases hcall hr
  · exact h
  have houtcome : State.Tidy m base words (inst.outcome perform fuel id args) := by
    have htidy : State.Tidy m base words (State.call m perform id args 0 inst.outside []) := h.tidy hhost hle
    unfold outcome
    rw [h.module]
    generalize State.call .. = first at htidy
    cases first with
    | next st => exact State.Orderly.run hhost htidy hmax fuel
    | done rs out => exact htidy
    | trapped t out => exact htidy
  obtain ⟨rs, out, ho, -, rfl⟩ | ⟨t, out, ho, -, rfl⟩ := hended <;> rw [ho] at houtcome
  · exact ⟨h.module, houtcome.1, houtcome.2.1, houtcome.2.2⟩
  · -- A trap leaves areas behind, and the call takes them off the stack.
    exact ⟨h.module, houtcome.1, houtcome.2, houtcome.1⟩

theorem Idle.reaches (hhost : ∀ f args, (perform f args).KeepsShape) (h : inst.Idle m base words) (hle : base ≤ words)
    (hmax : words < Memory.maxIndex) {now : Instance ι σ} (hnow : inst.Reaches perform now) :
    now.Idle m base words := by
  induction hnow with
  | start => exact h
  | call _ hcall hr ih => exact ih.call hhost hle hmax hcall hr

theorem Idle.goes (hhost : ∀ f args, (perform f args).KeepsShape) (h : inst.Idle m base words) (hle : base ≤ words)
    (hmax : words < Memory.maxIndex) {n : Nat} {st : State σ} (hgo : inst.Goes perform id args n st) :
    st.Orderly m base words := by
  obtain ⟨start, hstart, hrun⟩ := hgo
  have htidy : State.Tidy m base words (State.call m perform id args 0 inst.outside []) := h.tidy hhost hle
  rw [h.module] at hstart hrun
  rw [hstart] at htidy
  have := State.Orderly.run hhost htidy hmax n
  rw [hrun] at this
  exact this

theorem Idle.starts (hhost : ∀ f args, (perform f args).KeepsShape) (h : inst.Idle m base words) (hle : base ≤ words)
    (hmax : words < Memory.maxIndex) {st : State σ} (hst : inst.Starts perform id args st) :
    ∃ fr below, st.frames = fr :: below
      ∧ ∀ i, (fr.area m).offset ≤ i → i < (fr.area m).offset + (fr.area m).words → st.outside.memory.get i = 0 := by
  have hzero : ∀ {before after : Memory} {callee : FuncId} {address : UInt64} {seats : List (FuncId × UInt64)},
      before.sp.toNat ≤ words → before.Pushed (m.areaOf callee) address after → st.seats = (callee, address) :: seats →
      st.outside.memory = after → ∃ fr below, st.frames = fr :: below
        ∧ ∀ i, (fr.area m).offset ≤ i → i < (fr.area m).offset + (fr.area m).words → st.outside.memory.get i = 0 := by
    intro before after callee address seats hsp hpush hseats hafter
    obtain ⟨fr, below, hframes, hseat, -⟩ := List.map_eq_cons_iff.1 hseats
    cases hseat
    refine ⟨fr, below, hframes, fun i hi hi' => ?_⟩
    have hoffset : (fr.area m).offset = before.sp.toNat := by
      show fr.stack.toNat / 8 = _
      rw [hpush.address, Memory.mul_eight, Memory.toNat_addressOf (by omega)]
      omega
    have hwords : (fr.area m).words = m.areaOf fr.func := rfl
    rw [hafter, hpush.get, if_pos (by rw [hpush.sp]; omega)]
  -- Either the call itself has pushed the area, or the last step of another function.
  obtain hgo | ⟨n, before, hgo, hentering, hstep⟩ := hst
  · obtain ⟨start, hstart, hrun⟩ := hgo
    cases hrun
    rw [h.module] at hstart
    have hcalled := State.called (m := m) hhost id args 0 inst.outside []
    rw [hstart] at hcalled
    cases hcalled with
    | served hne => exact absurd rfl hne
    | entered _ hseats _ hpush => exact hzero (by rw [h.sp]; exact hle) hpush hseats rfl
  · have horderly := h.goes hhost hle hmax hgo
    rw [h.module] at hstep hentering
    have hstepped := State.stepped (m := m) hhost before
    rw [hstep] at hstepped
    cases hstepped with
    | next hm =>
      cases hm with
      | stays hno => rw [hentering] at hno; cases hno
      | leaves _ _ hno => rw [hentering] at hno; cases hno
      | enters _ _ _ hseats _ hpush => exact hzero horderly.room hpush hseats rfl

theorem depthAfter_eq_zero (hhost : ∀ f args, (perform f args).KeepsShape) {fuel : Nat} {r : CallResult}
    {later : Instance ι σ} (hcall : inst.call perform fuel id args = (r, later)) (hr : r ≠ .outOfFuel) :
    inst.depthAfter perform fuel id args = 0 := by
  unfold depthAfter
  obtain ⟨hrefused, -⟩ | ⟨d, hd, hlen, hended⟩ := call_cases hcall hr
  · rw [if_neg]
    cases hd : inst.module.funcs[id]? with
    | none => simp
    | some d => simpa using hrefused d hd
  · rw [if_pos (by simp [hd, hlen])]
    have hcalled := State.called (m := inst.module) hhost id args 0 inst.outside []
    unfold outcome at hended
    generalize State.call .. = first at hcalled hended
    cases hcalled with
    | served hne => exact absurd rfl hne
    | ended => rfl
    | trapped => rfl
    | @entered st address _ hseats =>
      have hone : st.frames.length = 1 := by
        rw [← State.length_seats, hseats]
        rfl
      have hcounted := State.counted_run (m := inst.module) hhost fuel st
      rw [hone] at hcounted
      dsimp only at hended ⊢
      obtain ⟨rs, out, ho, -⟩ | ⟨t, out, ho, -⟩ := hended <;> rw [ho] at hcounted <;> exact hcounted

end

/-- The stack begins behind the data, if the sizes of the data have not overflowed. -/
theorem idle_ofModule {host : σ} {stack : Int64} {inst : Instance ι σ} (h : ofModule m host stack = .ok inst)
    (hdata : 0 ≤ 1 + m.dataWords) :
    inst.Idle m inst.outside.memory.stackBase.toNat inst.outside.memory.length
      ∧ inst.outside.memory.stackBase.toNat ≤ inst.outside.memory.length
      ∧ inst.outside.memory.length < Memory.maxIndex := by
  have hindex : Memory.maxIndex = 1152921504606846976 := rfl
  have hmax : Memory.maxLength.toInt = 35184372088832 := rfl
  have h0 : (0 : Int64).toInt = 0 := rfl
  obtain ⟨memory, hmem, rfl⟩ := of_ofModule h
  have hstack : 0 < (if stack ≤ 0 then Memory.defaultStack else stack) := by
    split
    · decide
    · next hpos => exact Int64.not_le.1 hpos
  generalize (if stack ≤ 0 then Memory.defaultStack else stack) = words at hmem hstack
  obtain ⟨hlow, hhigh, rfl⟩ := Memory.of_ofSizes hmem
  have hbase : (1 + m.dataWords).toUInt64.toNat = (1 + m.dataWords).toInt.toNat := Int64.toNat_toUInt64_of_le hdata
  have hlength : (1 + m.dataWords + words).toNatClampNeg = (1 + m.dataWords + words).toInt.toNat := rfl
  have hsum := Memory.toInt_size hstack hlow
  -- The sum may wrap around, but then it is smaller.
  have hfirst : (1 + m.dataWords).toInt ≤ 1 + m.dataWords.toInt := by
    have := m.dataWords.toInt_lt
    have := m.dataWords.le_toInt
    have h1 : (1 : Int64).toInt = 1 := rfl
    rw [Int64.toInt_add, h1, Int.bmod_def]
    split <;> omega
  rw [Int64.lt_iff_toInt_lt, h0] at hstack
  rw [Int64.le_iff_toInt_le] at hhigh
  refine ⟨⟨rfl, rfl, rfl, rfl⟩, ?_, ?_⟩
  · show (1 + m.dataWords).toUInt64.toNat ≤ (1 + m.dataWords + words).toNatClampNeg
    rw [hbase, hlength]
    omega
  · show (1 + m.dataWords + words).toNatClampNeg < Memory.maxIndex
    rw [hlength]
    omega

end Instance

/-! ## All together -/

/-- The areas of the active functions do not overlap and lie on the stack. -/
structure State.Disciplined {ι σ : Type} (m : Module ι) (st : State σ) : Prop where
  disjoint : ∀ {i j : Nat} {fr fr' : Frame}, st.frames[i]? = some fr → st.frames[j]? = some fr' → i ≠ j →
    (fr.area m).offset + (fr.area m).words ≤ (fr'.area m).offset ∨ (fr'.area m).offset + (fr'.area m).words
      ≤ (fr.area m).offset
  inside : ∀ {fr : Frame}, fr ∈ st.frames → fr.stack.toNat = 8 * (fr.area m).offset
    ∧ st.outside.memory.stackBase.toNat ≤ (fr.area m).offset
    ∧ (fr.area m).offset + (fr.area m).words ≤ st.outside.memory.length
  depth : st.frames.length ≤ maxDepth

theorem State.Orderly.disciplined {ι σ : Type} {m : Module ι} {st : State σ} {base words : Nat}
    (h : st.Orderly m base words) (hmax : words < Memory.maxIndex) : st.Disciplined m where
  disjoint {i j fr fr'} hi hj hne := by
    have hsp := Nat.lt_of_le_of_lt h.room hmax
    have hseat : ∀ {k : Nat} {fr : Frame}, st.frames[k]? = some fr → st.seats[k]? = some (fr.func, fr.stack) := by
      intro k fr hk
      simp [seats, hk, Frame.seat]
    rcases Nat.lt_or_gt_of_ne hne with hlt | hlt
    · exact .inr (h.piled.apart hsp (hseat hi) (hseat hj) hlt)
    · exact .inl (h.piled.apart hsp (hseat hj) (hseat hi) hlt)
  inside {fr} hfr := by
    obtain ⟨start, haddress, hbase, htop⟩ :=
      h.piled.place (List.mem_map.2 ⟨fr, hfr, rfl⟩ : (fr.func, fr.stack) ∈ st.seats)
    have hroom := h.room
    have hto : fr.stack.toNat = 8 * start := by rw [haddress, Memory.toNat_addressOf (by omega)]
    have hoffset : (fr.area m).offset = start := by
      show fr.stack.toNat / 8 = start
      omega
    have hwords : (fr.area m).words = m.areaOf fr.func := rfl
    rw [hoffset, hwords, h.stackBase, h.length]
    exact ⟨hto, hbase, by omega⟩
  depth := h.depth

/-- What a call does to the stack of an instance that was new as `fresh`: in every state the areas of the active
functions are apart and on the stack, they are zeros when their functions start, and when the call ends, by a trap or
not, the stack is empty and the counter of active functions is back at nothing. -/
structure Instance.KeepsStack {ι σ : Type} (perform : ι → List UInt64 → HostM σ (List UInt64))
    (fresh now : Instance ι σ) (id : FuncId) (args : List UInt64) : Prop where
  during : ∀ n st, now.Goes perform id args n st → st.Disciplined fresh.module
  starts : ∀ st, now.Starts perform id args st → ∃ fr below, st.frames = fr :: below
    ∧ ∀ i, (fr.area fresh.module).offset ≤ i → i < (fr.area fresh.module).offset + (fr.area fresh.module).words →
      st.outside.memory.get i = 0
  ends : ∀ fuel r later, now.call perform fuel id args = (r, later) → r ≠ .outOfFuel →
    later.outside.memory.sp = later.outside.memory.stackBase
      ∧ later.outside.memory.stackBase = fresh.outside.memory.stackBase
      ∧ later.outside.memory.length = fresh.outside.memory.length
      ∧ now.depthAfter perform fuel id args = 0

/-- Every call keeps to the stack, whatever calls came before it and however they ended. -/
theorem Instance.stack_disciplined {ι σ : Type} {m : Module ι} {perform : ι → List UInt64 → HostM σ (List UInt64)}
    (hhost : ∀ f args, (perform f args).KeepsShape) {host : σ} {stack : Int64} {inst now : Instance ι σ}
    (hinst : Instance.ofModule m host stack = .ok inst) (hdata : 0 ≤ 1 + m.dataWords) (hnow : inst.Reaches perform now)
    (id : FuncId) (args : List UInt64) : inst.KeepsStack perform now id args := by
  obtain ⟨hidle, hle, hmax⟩ := idle_ofModule hinst hdata
  obtain rfl : inst.module = m := hidle.module
  have hthen := hidle.reaches hhost hle hmax hnow
  refine ⟨fun n st hgo => (hthen.goes hhost hle hmax hgo).disciplined hmax, fun st hst =>
    hthen.starts hhost hle hmax hst,
    fun fuel r later hcall hr => ?_⟩
  have hlater := hthen.call hhost hle hmax hcall hr
  exact ⟨UInt64.toNat_inj.1 (hlater.sp.trans hlater.stackBase.symm), UInt64.toNat_inj.1 hlater.stackBase, hlater.length,
    depthAfter_eq_zero hhost hcall hr⟩

/-- A function with three words of stack calls one with two, which calls the host. -/
def Module.nested : Module Unit where
  funcs :=
    let callNext (id : FuncId) (stackWords : Int64) : Compiled :=
      { frameWords := 0, stackWords, params := [], blocks := #[⟨[.call id 0 [] 0 0], .ret []⟩], machineCode := none }
    #[{ name := text "outer", linkage := .exported, sig := ⟨[], []⟩, compiled := some (callNext 1 3) },
      { name := text "inner", linkage := .local, sig := ⟨[], []⟩, compiled := some (callNext 2 2) },
      { name := text "fail", linkage := .imported, sig := ⟨[], []⟩, host := some () }]
  dataWords := 1
  finalized := true

/-- The stack is in order also behind a trap of the host two functions deep. -/
theorem Instance.stack_disciplined_after_trap :
    let fail : Unit → List UInt64 → HostM Unit (List UInt64) := fun _ _ => throw { code := .host }
    ∃ inst now : Instance Unit Unit, Instance.ofModule Module.nested () 16 = .ok inst ∧ 0 ≤ 1 + Module.nested.dataWords
      ∧ inst.call fail 5 0 [] = (.trapped { code := .host, func := text "outer" }, now) ∧ inst.Reaches fail now
      ∧ inst.KeepsStack fail now 0 [] := by
  intro fail
  have hhost : ∀ f args, (fail f args).KeepsShape := fun _ _ out => .refl out.memory
  have hdata : 0 ≤ 1 + Module.nested.dataWords := by decide
  have hthen : ∀ inst now : Instance Unit Unit, Instance.ofModule Module.nested () 16 = .ok inst →
      inst.call fail 5 0 [] = (.trapped { code := .host, func := text "outer" }, now) →
      inst.Reaches fail now ∧ inst.KeepsStack fail now 0 [] := by
    intro inst now hinst hcall
    have hnow : inst.Reaches fail now := .call .start hcall nofun
    exact ⟨hnow, stack_disciplined hhost hinst hdata hnow 0 []⟩
  exact ⟨_, _, rfl, hdata, rfl, hthen _ _ rfl rfl⟩

/-- A function that returns the address of its stack area, which has so many words. -/
def Body.slotAddress (words : Int64) : Body where
  name := text "slot"
  sig := ⟨[], [.i64]⟩
  values := #[.i64]
  insts := #[⟨.stackAddr .i64 0 0, [0]⟩, ⟨.ret [0], []⟩]
  blocks := #[{ insts := #[0, 1], terminated := true }]
  slots := #[words]

/-- Three objects of 2^62 words each, and two functions. -/
def Module.oversized : Module Empty :=
  (Module.fresh .native []).after
    [.declareData (text "a") 4611686018427387904, .declareData (text "b") 4611686018427387904,
      .declareData (text "c") 4611686018427387904, .declareFunc (text "f") .exported ⟨[], [.i64]⟩,
      .defineFunc 0 (.slotAddress 0), .declareFunc (text "g") .exported ⟨[], [.i64]⟩,
        .defineFunc 1 (.slotAddress 1), .finalize]

/-- Where the sizes of the data overflow, the stack is elsewhere after the first call, and what had no room before has
it. -/
theorem Instance.stack_lost_by_overflow :
    let call (inst : Instance Empty Unit) (id : FuncId) := inst.call (fun f _ => f.elim) 5 id []
    (Instance.ofModule Module.oversized () 4611686018427388928).toOption.map (fun inst =>
      let later := (call inst 0).2
      (decide (inst.outside.memory.sp = inst.outside.memory.stackBase), (call inst 1).1,
        decide (later.outside.memory.sp = later.outside.memory.stackBase), (call later 1).1))
      = some (true, .trapped { code := .stackOverflow, func := text "g" }, false, .returned [8]) := by
  cbv

end RecordMill.Machine

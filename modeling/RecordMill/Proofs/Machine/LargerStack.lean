import RecordMill.Proofs.Machine.Transitions
import RecordMill.Proofs.Machine.StackDiscipline

/-!
# More stack

What a run does in a memory it also does in one that has more words behind the last one. Only a fault tells
how many words there are.
-/

namespace RecordMill.Machine

/-! ## Memory -/

namespace Memory

/-- The same words and stack, with more words behind the last one. -/
structure Widens (m wide : Memory) : Prop where
  length : m.length ≤ wide.length
  stackBase : wide.stackBase = m.stackBase
  sp : wide.sp = m.sp
  get : ∀ i, i < m.length → wide.get i = m.get i

variable {m wide m' : Memory} {address w : UInt64} {i : Nat}

theorem index_lt (h : m.index address = .ok i) : i < m.length := by
  unfold index at h
  split at h
  · cases h
  · next hok =>
    cases h
    simp only [not_or, Nat.not_le] at hok
    exact hok.2.2

theorem Widens.index (h : m.Widens wide) (hi : m.index address = .ok i) : wide.index address = .ok i := by
  have hle := h.length
  unfold Memory.index at hi ⊢
  split at hi
  · cases hi
  · next hok =>
    simp only [not_or, Nat.not_le] at hok
    rw [if_neg (by simp only [not_or, Nat.not_le]; exact ⟨hok.1, hok.2.1, by omega⟩)]
    exact hi

theorem Widens.put (h : m.Widens wide) (i : Nat) (w : UInt64) :
    ({ m with words := Memory.put m.words i w } : Memory).Widens { wide with words := Memory.put wide.words i w } where
  length := h.length
  stackBase := h.stackBase
  sp := h.sp
  get j hj := by
    have hput : ∀ k : Memory, ({ k with words := Memory.put k.words i w } : Memory).get j
        = if i = j then w else k.get j :=
      fun k => getD_put k.words i j w
    rw [hput, hput, h.get j hj]

theorem Widens.load (h : m.Widens wide) (hl : m.load address = .ok w) : wide.load address = .ok w := by
  unfold Memory.load at hl ⊢
  cases hi : m.index address with
  | error t =>
    rw [hi] at hl
    cases hl
  | ok i =>
    rw [hi] at hl
    rw [h.index hi, ← hl]
    exact congrArg Except.ok (h.get i (index_lt hi))

theorem Widens.loadAll (h : m.Widens wide) {n : Nat} {ws : List UInt64} (hl : m.loadAll address n = .ok ws) :
    wide.loadAll address n = .ok ws := by
  induction n generalizing address ws with
  | zero => exact hl
  | succ n ih =>
    unfold Memory.loadAll at hl ⊢
    cases hw : m.load address with
    | error t =>
      rw [hw] at hl
      cases hl
    | ok w =>
      cases hrest : m.loadAll (address + 8) n with
      | error t =>
        rw [hw, hrest] at hl
        cases hl
      | ok us =>
        rw [hw, hrest] at hl
        rw [h.load hw, ih hrest]
        exact hl

theorem Widens.storeAll (h : m.Widens wide) {ws : List UInt64} (hs : m.storeAll address ws = (.ok (), m')) :
    ∃ wide', wide.storeAll address ws = (.ok (), wide') ∧ m'.Widens wide' := by
  induction ws generalizing address m wide with
  | nil =>
    cases hs
    exact ⟨wide, rfl, h⟩
  | cons w ws ih =>
    rw [Memory.storeAll] at hs ⊢
    cases hi : m.index address with
    | error t =>
      rw [hi] at hs
      cases hs
    | ok i =>
      rw [hi] at hs
      rw [h.index hi]
      exact ih (h.put i w) hs

/-- An area that fits the smaller memory is at the same place in the other one, and zeros in both. -/
theorem Widens.push (h : m.Widens wide) {n : Int64} (hp : m.push n = .ok (address, m')) :
    ∃ wide', wide.push n = .ok (address, wide') ∧ m'.Widens wide' := by
  have hle := h.length
  have hsp := h.sp
  have hstack := h.stackBase
  have hpushed := pushed_of_push hp
  -- Whether there is room depends on the length, and all else only on the stack pointer.
  have hwide : ∃ wide', wide.push n = .ok (address, wide') := by
    obtain ⟨ws, length, stackBase, sp⟩ := m
    obtain ⟨ws', length', stackBase', sp'⟩ := wide
    cases hsp
    simp only [Memory.push] at hp ⊢
    split at hp
    · next h0 =>
      cases hp
      exact ⟨_, if_pos h0⟩
    next h0 =>
    split at hp
    · cases hp
    next hlen =>
    split at hp
    · cases hp
    next hstop =>
    cases hp
    dsimp only at hle
    exact ⟨_, by rw [if_neg h0, if_neg (by omega), if_neg hstop]⟩
  obtain ⟨wide', hwide⟩ := hwide
  have hpushed' := pushed_of_push hwide
  have htop : wide'.sp = m'.sp := UInt64.toNat_inj.1 (by rw [hpushed'.sp, hpushed.sp, hsp])
  refine ⟨wide', hwide, ?_, ?_, htop, fun i hi => ?_⟩
  · rw [hpushed'.length, hpushed.length]
    exact hle
  · rw [hpushed'.stackBase, hpushed.stackBase, hstack]
  · rw [hpushed.length] at hi
    rw [hpushed'.get, hpushed.get, hsp, htop, h.get i hi]

theorem Widens.pop (h : m.Widens wide) (address : UInt64) : (m.pop address).Widens (wide.pop address) :=
  ⟨h.length, h.stackBase, rfl, h.get⟩

end Memory

/-- The same state of the host, and a memory with more words. -/
structure Outside.Widens {σ : Type} (out wide : Outside σ) : Prop where
  memory : out.memory.Widens wide.memory
  host : wide.host = out.host

theorem HostM.LoadsAndStores.widens {σ α : Type} {x : HostM σ α} (hx : x.LoadsAndStores) {out wide out' : Outside σ}
    (h : out.Widens wide) {a : α} (hrun : x out = (.ok a, out')) :
    ∃ wide', x wide = (.ok a, wide') ∧ out'.Widens wide' := by
  induction hx generalizing out wide out' with
  | onHost f =>
    obtain ⟨memory, host⟩ := out
    obtain ⟨memory', host'⟩ := wide
    cases h.host
    have hf : (f host).1 = .ok a := congrArg Prod.fst hrun
    obtain rfl : ⟨memory, (f host).2⟩ = out' := congrArg Prod.snd hrun
    exact ⟨⟨memory', (f host).2⟩, congrArg (·, _) hf, h.memory, rfl⟩
  | load address =>
    have hl : out.memory.load address = .ok a := congrArg Prod.fst hrun
    obtain rfl : out = out' := congrArg Prod.snd hrun
    exact ⟨wide, congrArg (·, _) (h.memory.load hl), h⟩
  | store address w =>
    unfold HostM.store Memory.store at hrun ⊢
    cases hi : out.memory.index address with
    | error t =>
      rw [hi] at hrun
      cases hrun
    | ok i =>
      rw [hi] at hrun
      cases hrun
      rw [h.memory.index hi]
      exact ⟨_, rfl, h.memory.put i w, h.host⟩
  | @bind α β x f _ _ ihx ihf =>
    rw [bind_apply] at hrun ⊢
    rcases hfirst : x out with ⟨t | b, mid⟩ <;> rw [hfirst] at hrun
    · cases hrun
    · obtain ⟨mid', hfirst', hmid⟩ := ihx h hfirst
      rw [hfirst']
      exact ihf b hmid hrun

/-! ## Steps -/

def Step.isAccess : Step → Bool
  | .load .. | .store .. => true
  | _ => false

theorem Step.run_of_not_access {s : Step} (hs : s.isAccess = false) (stack : UInt64) (ws : Array UInt64)
    (m k : Memory) :
    s.run stack ws k = ((s.run stack ws m).1, k) := by
  cases s with
  | load => cases hs
  | store => cases hs
  | icmp c narrow out x y =>
    simp only [Step.run]
    split <;> rfl
  | fcmp c out x y =>
    simp only [Step.run]
    split <;> rfl
  | _ => rfl

theorem Step.run_widens (s : Step) {stack : UInt64} {ws ws' : Array UInt64} {m wide m' : Memory} (h : m.Widens wide)
    (hrun : s.run stack ws m = (.ok ws', m')) : ∃ wide', s.run stack ws wide = (.ok ws', wide') ∧ m'.Widens wide' := by
  by_cases hs : s.isAccess
  · cases s with
    | load out p off n =>
      simp only [Step.run] at hrun ⊢
      cases hp : Frame.read? ws p with
      | error t =>
        rw [hp] at hrun
        cases hrun
      | ok a =>
        rw [hp] at hrun
        dsimp only at hrun ⊢
        cases hl : m.loadAll (a + off) n with
        | error t =>
          rw [hl] at hrun
          cases hrun
        | ok us =>
          rw [hl] at hrun
          cases hrun
          rw [h.loadAll hl]
          exact ⟨wide, rfl, h⟩
    | store x p off n =>
      simp only [Step.run] at hrun ⊢
      cases hp : Frame.read? ws p with
      | error t =>
        rw [hp] at hrun
        cases hrun
      | ok a =>
        rw [hp] at hrun
        dsimp only at hrun ⊢
        rcases hstore : m.storeAll (a + off) (Frame.readSpan ws ⟨x, n⟩) with ⟨t | u, mem⟩ <;> rw [hstore] at hrun
        · cases hrun
        · obtain ⟨wide', hstore', hmem⟩ := h.storeAll hstore
          cases hrun
          rw [hstore']
          exact ⟨wide', rfl, hmem⟩
    | _ => cases hs
  · have hno : s.isAccess = false := by simpa using hs
    rw [run_of_not_access hno stack ws m m] at hrun
    rw [run_of_not_access hno stack ws m wide]
    have hws : (s.run stack ws m).1 = .ok ws' := congrArg Prod.fst hrun
    obtain rfl : m = m' := congrArg Prod.snd hrun
    exact ⟨wide, congrArg (·, _) hws, h⟩

/-! ## Runs -/

namespace State

variable {ι σ : Type} {m : Module ι} {perform : ι → List UInt64 → HostM σ (List UInt64)} {st wide : State σ}

/-- The same functions are active, with the same words. -/
structure Widens (st wide : State σ) : Prop where
  outside : st.outside.Widens wide.outside
  frames : wide.frames = st.frames

/-- Both come to the same, unless the one with less memory traps. -/
inductive Alike : Outcome σ → Outcome σ → Prop
  | next {st wide : State σ} : st.Widens wide → Alike (.next st) (.next wide)
  | done {rs : List UInt64} {out wide : Outside σ} : out.Widens wide → Alike (.done rs out) (.done rs wide)
  | trapped {t : Trap} {out : Outside σ} {o : Outcome σ} : Alike (.trapped t out) o

theorem deliver_alike {out wide : Outside σ} (h : out.Widens wide) (results : List UInt64) (at_ : Nat)
    (frames : List Frame) :
    Alike (deliver results at_ out frames) (deliver results at_ wide frames) := by
  cases frames with
  | nil => exact .done h
  | cons fr below => exact .next ⟨h, rfl⟩

theorem enter_widens {c : Compiled} {func : FuncId} {depth : Nat} {args : List UInt64} {results : Nat}
    {mem mem' wide : Memory} {fr : Frame} (h : mem.Widens wide)
    (he : c.enter func depth args results mem = .ok (fr, mem')) :
    ∃ wide', c.enter func depth args results wide = .ok (fr, wide') ∧ mem'.Widens wide' := by
  unfold Compiled.enter at he ⊢
  split at he
  · cases he
  next hdepth =>
  rw [if_neg hdepth]
  cases hp : mem.push c.stackArea with
  | error t =>
    rw [hp] at he
    cases he
  | ok q =>
    obtain ⟨address, mem₁⟩ := q
    obtain ⟨wide', hp', hmem⟩ := h.push hp
    rw [hp] at he
    rw [hp']
    cases he
    exact ⟨wide', rfl, hmem⟩

theorem call_alike (hhost : ∀ f args, (perform f args).LoadsAndStores) {out wide : Outside σ} (h : out.Widens wide)
    (callee : FuncId) (args : List UInt64) (results : Nat) (frames : List Frame) :
    Alike (State.call m perform callee args results out frames)
      (State.call m perform callee args results wide frames) := by
  unfold State.call
  cases m.funcs[callee]? with
  | none => exact .trapped
  | some d =>
    dsimp only
    cases d.host with
    | some f =>
      dsimp only
      rcases hrun : perform f args out with ⟨t | rs, out'⟩
      · simp only [ExceptT.run, StateT.run, hrun]
        exact .trapped
      · obtain ⟨wide', hrun', hout⟩ := (hhost f args).widens h hrun
        simp only [ExceptT.run, StateT.run, hrun, hrun']
        split
        · exact .trapped
        · exact deliver_alike hout rs results frames
    | none =>
      cases d.compiled with
      | none => exact .trapped
      | some c =>
        dsimp only
        cases he : c.enter callee frames.length args results out.memory with
        | error t => exact .trapped
        | ok q =>
          obtain ⟨fr, memory⟩ := q
          obtain ⟨wide', he', hmem⟩ := enter_widens h.memory he
          rw [he']
          exact .next ⟨⟨hmem, h.host⟩, rfl⟩

theorem Widens.step (hhost : ∀ f args, (perform f args).LoadsAndStores) (h : st.Widens wide) :
    Alike (State.step m perform st) (State.step m perform wide) := by
  obtain ⟨out, frames⟩ := st
  obtain ⟨out', frames'⟩ := wide
  obtain rfl : frames' = frames := h.frames
  have hout : out.Widens out' := h.outside
  cases frames' with
  | nil => exact .done hout
  | cons fr below =>
  obtain ⟨func, blocks, block, steps, exit, words, stack, results⟩ := fr
  cases steps with
  | cons s rest =>
    by_cases hs : s.isCall
    · cases s with
      | call callee scratch moves n dest => exact call_alike hhost hout callee _ dest _
      | _ => cases hs
    · have hno : s.isCall = false := by simpa using hs
      rw [step_run rfl hno, step_run rfl hno]
      dsimp only
      rcases hrun : s.run stack words out.memory with ⟨t | ws, mem⟩
      · exact .trapped
      · obtain ⟨wide, hrun', hmem⟩ := s.run_widens hout.memory hrun
        rw [hrun']
        exact .next ⟨⟨hmem, hout.host⟩, rfl⟩
  | nil =>
    cases exit with
    | jump dest sources scratch targets =>
      simp only [State.step]
      split
      · exact .next ⟨hout, rfl⟩
      · exact .trapped
    | branch cond dest alt =>
      simp only [State.step]
      split
      · exact .next ⟨hout, rfl⟩
      · exact .trapped
    | ret sources =>
      have hpop : Outside.Widens { out with memory := out.memory.pop stack }
          { out' with memory := out'.memory.pop stack } :=
        ⟨hout.memory.pop stack, hout.host⟩
      exact deliver_alike hpop _ _ _

theorem Widens.run (hhost : ∀ f args, (perform f args).LoadsAndStores) (h : st.Widens wide) (fuel : Nat) :
    Alike (State.run m perform fuel st) (State.run m perform fuel wide) := by
  induction fuel generalizing st wide with
  | zero => exact .next h
  | succ fuel ih =>
    have hstep := h.step (m := m) hhost
    rw [State.run, State.run]
    generalize State.step m perform st = o at hstep ⊢
    generalize State.step m perform wide = o' at hstep ⊢
    cases hstep with
    | next h' => exact ih h'
    | done hout => exact .done hout
    | trapped => exact .trapped

/-! ## Calls of the host -/

/-- The host function that the next step calls, and its arguments. -/
def asks (m : Module ι) (st : State σ) : Option (ι × List UInt64) :=
  match st.frames with
  | ⟨_, _, _, .call callee scratch moves n _ :: _, _, words, _, _⟩ :: _ =>
    ((m.funcs[callee]?).bind (·.host)).map fun f =>
      (f, Frame.readSpan (Frame.writeAll words scratch (Frame.readSpans words moves)) ⟨scratch, n⟩)
  | _ => none

/-- The host functions that a run calls, one after another. -/
def hostCalls (m : Module ι) (perform : ι → List UInt64 → HostM σ (List UInt64)) :
    Nat → State σ → List (ι × List UInt64)
  | 0, _ => []
  | fuel + 1, st => (st.asks m).toList ++ match step m perform st with
    | .next st => hostCalls m perform fuel st
    | _ => []

theorem Widens.asks (h : st.Widens wide) (m : Module ι) : wide.asks m = st.asks m := by
  unfold State.asks
  rw [h.frames]

theorem Widens.hostCalls (hhost : ∀ f args, (perform f args).LoadsAndStores) (h : st.Widens wide) {fuel : Nat}
    {rs : List UInt64} {out : Outside σ} (hdone : State.run m perform fuel st = .done rs out) :
    wide.hostCalls m perform fuel = st.hostCalls m perform fuel := by
  induction fuel generalizing st wide with
  | zero => cases hdone
  | succ fuel ih =>
    have hstep := h.step (m := m) hhost
    rw [State.run] at hdone
    rw [State.hostCalls, State.hostCalls, h.asks]
    generalize State.step m perform st = o at hstep hdone ⊢
    generalize State.step m perform wide = o' at hstep ⊢
    cases hstep with
    | next h' =>
      dsimp only
      rw [ih h' hdone]
    | done => rfl
    | trapped => cases hdone

end State

/-! ## Instances -/

namespace Memory

variable {m wide : Memory} {i : Nat}

theorem storeAll_before (ws : List UInt64) (hi : 0 < i) (hindex : i < maxIndex) (hmax : m.length < maxIndex) {j : Nat}
    (hj : j < i) :
    (m.storeAll (addressOf i) ws).2.get j = m.get j := by
  induction ws generalizing m i with
  | nil => rfl
  | cons w ws ih =>
    rw [storeAll]
    by_cases hlt : i < m.length
    · have hput : ({ m with words := put m.words i w } : Memory).get j = m.get j := by
        show (put m.words i w).getD j 0 = _
        rw [getD_put, if_neg (by omega)]
        rfl
      rw [index_addressOf hi hlt (Nat.le_of_lt hmax)]
      dsimp only
      rw [← addressOf_succ, ih (m := { m with words := put m.words i w }) (by omega) (by omega) hmax (by omega), hput]
    · have herror : m.index (addressOf i) = .error { code := .outOfBounds, address := addressOf i } :=
        if_pos (.inr (.inr (by rw [toNat_addressOf hindex]; omega)))
      rw [herror]

theorem Widens.storeAll_all (h : m.Widens wide) (ws : List UInt64) (hi : 0 < i) (hindex : i < maxIndex)
    (hmax : wide.length < maxIndex) :
    (m.storeAll (addressOf i) ws).2.Widens (wide.storeAll (addressOf i) ws).2 := by
  have hle := h.length
  induction ws generalizing m wide i with
  | nil => exact h
  | cons w ws ih =>
    by_cases hlt : i < m.length
    · rw [Memory.storeAll, Memory.storeAll, index_addressOf hi hlt (by omega),
        index_addressOf hi (by omega) (Nat.le_of_lt hmax)]
      dsimp only
      rw [← addressOf_succ]
      exact ih (h.put i w) (by omega) (by omega) hmax hle
    · have herror : m.index (addressOf i) = .error { code := .outOfBounds, address := addressOf i } :=
        if_pos (.inr (.inr (by rw [toNat_addressOf hindex]; omega)))
      have hsmall : m.storeAll (addressOf i) (w :: ws)
          = (.error { code := .outOfBounds, address := addressOf i }, m) := by
        rw [Memory.storeAll, herror]
      have hshape := wide.storeAll_shape (addressOf i) (w :: ws)
      -- The smaller memory is full; what the other one still takes in lies behind.
      rw [hsmall]
      refine ⟨by
        rw [hshape.length]; exact hle, by rw [hshape.stackBase]; exact h.stackBase, by rw [hshape.sp]; exact h.sp,
        fun j hj => ?_⟩
      have hbefore : j < m.length := hj
      rw [storeAll_before _ hi hindex hmax (by omega)]
      exact h.get j hbefore

theorem widens_of_ofSizes {dataWords a b : Int64} (ha : 0 < a) (hab : a ≤ b) (hm : ofSizes? dataWords a = some m)
    (hwide : ofSizes? dataWords b = some wide) :
    m.Widens wide ∧ wide.length < maxIndex ∧ ∀ i : Nat, (i : Int) ≤ dataWords.toInt → i < m.length := by
  have hindex : Memory.maxIndex = 1152921504606846976 := rfl
  have hmax : Memory.maxLength.toInt = 35184372088832 := rfl
  have h0 : (0 : Int64).toInt = 0 := rfl
  obtain ⟨hlow, -, rfl⟩ := of_ofSizes hm
  obtain ⟨hlow', hhigh', rfl⟩ := of_ofSizes hwide
  have hb : 0 < b := Int64.lt_of_lt_of_le ha hab
  have hlength : (1 + dataWords + a).toNatClampNeg = (1 + dataWords + a).toInt.toNat := rfl
  have hlength' : (1 + dataWords + b).toNatClampNeg = (1 + dataWords + b).toInt.toNat := rfl
  rw [toInt_size ha hlow] at hlength
  rw [toInt_size hb hlow'] at hlength'
  rw [Int64.le_iff_toInt_le, toInt_size hb hlow'] at hhigh'
  rw [Int64.lt_iff_toInt_lt, h0] at ha
  rw [Int64.le_iff_toInt_le] at hab
  refine ⟨⟨?_, rfl, rfl, fun i _ => ?_⟩, ?_, fun i hi => ?_⟩
  · dsimp only
    omega
  · dsimp only [get]
  · dsimp only
    omega
  · dsimp only
    omega

theorem base_nonneg {dataWords stackWords : Int64} (hstack : 0 < stackWords)
    (h : ofSizes? dataWords stackWords = some m) (hdata : 0 ≤ dataWords.toInt) : 0 ≤ 1 + dataWords := by
  have h0 : (0 : Int64).toInt = 0 := rfl
  have h1 : (1 : Int64).toInt = 1 := rfl
  have hmax : Memory.maxLength.toInt = 35184372088832 := rfl
  obtain ⟨hlow, hhigh, -⟩ := of_ofSizes h
  rw [Int64.le_iff_toInt_le, toInt_size hstack hlow] at hhigh
  rw [Int64.lt_iff_toInt_lt, h0] at hstack
  rw [Int64.le_iff_toInt_le, Int64.toInt_add, h0, h1, Int.bmod_def]
  split <;> omega

end Memory

namespace Instance

variable {ι σ : Type} {perform : ι → List UInt64 → HostM σ (List UInt64)} {inst wide later : Instance ι σ}

/-- The same module, with more words of memory. -/
structure Widens (inst wide : Instance ι σ) : Prop where
  module : wide.module = inst.module
  outside : inst.outside.Widens wide.outside

def hostCalls (perform : ι → List UInt64 → HostM σ (List UInt64)) (fuel : Nat) (inst : Instance ι σ) (id : FuncId)
    (args : List UInt64) : List (ι × List UInt64) :=
  match inst.module.funcs[id]? with
  | none => []
  | some d =>
    if args.length ≠ Kind.total d.sig.params then []
    else (d.host.map (·, args)).toList ++ match State.call inst.module perform id args 0 inst.outside [] with
      | .next st => st.hostCalls inst.module perform fuel
      | _ => []

theorem Widens.call (hhost : ∀ f args, (perform f args).LoadsAndStores) (h : inst.Widens wide) {fuel : Nat}
    {id : FuncId} {args rs : List UInt64} (hcall : inst.call perform fuel id args = (.returned rs, later)) :
    ∃ later', wide.call perform fuel id args = (.returned rs, later') ∧ later.Widens later'
      ∧ wide.hostCalls perform fuel id args = inst.hostCalls perform fuel id args := by
  obtain ⟨-, hrefused, -⟩ | ⟨d, hd, hlen, ⟨rs', out, hdone, hrs, rfl⟩ | ⟨t, out, -, hrs, -⟩⟩ := call_cases hcall nofun
  · exact absurd rfl (hrefused rs)
  · cases hrs
    obtain ⟨m, outside⟩ := inst
    obtain ⟨m', outside'⟩ := wide
    obtain rfl : m' = m := h.module
    have hfirst := State.call_alike (m := m') hhost h.outside id args 0 []
    have hboth : ∃ wide', outcome perform fuel ⟨m', outside'⟩ id args = .done rs' wide' ∧ out.Widens wide'
        ∧ hostCalls perform fuel ⟨m', outside'⟩ id args = hostCalls perform fuel ⟨m', outside⟩ id args := by
      unfold outcome at hdone ⊢
      unfold hostCalls
      rw [hd]
      dsimp only at hfirst hdone ⊢
      generalize State.call m' perform id args 0 outside [] = o at hfirst hdone ⊢
      generalize State.call m' perform id args 0 outside' [] = o' at hfirst ⊢
      -- The call of a host function is done at once; one with a body runs in both.
      cases hfirst with
      | trapped => cases hdone
      | done hout =>
        cases hdone
        exact ⟨_, rfl, hout, rfl⟩
      | @next st wide hst =>
        dsimp only at hdone ⊢
        rw [hst.hostCalls hhost hdone]
        have hrun := hst.run (m := m') hhost fuel
        rw [hdone] at hrun
        generalize State.run m' perform fuel wide = o at hrun ⊢
        cases hrun with
        | done hout => exact ⟨_, rfl, hout, rfl⟩
    obtain ⟨wide', hdone', hout, htrace⟩ := hboth
    exact ⟨_, call_of_done hd hlen hdone', ⟨rfl, hout⟩, htrace⟩
  · cases hrs

/-- The instance with words stored at the low end of its memory. -/
def withData (inst : Instance ι σ) (data : List UInt64) : Instance ι σ :=
  { inst with outside := { inst.outside with memory := (inst.outside.memory.storeAll 8 data).2 } }

/-- A call that returns does the same on an instance with a larger stack: the results are the same, all words of the
smaller memory and the state of the host too, and so are the calls of the host. -/
theorem returned_of_larger_stack (hhost : ∀ f args, (perform f args).LoadsAndStores) {m : Module ι} {host : σ}
    {a b : Int64} (ha : 0 < a) (hab : a ≤ b) {small large : Instance ι σ} (hsmall : ofModule m host a = .ok small)
    (hlarge : ofModule m host b = .ok large) (data : List UInt64) {fuel : Nat} {id : FuncId} {args rs : List UInt64}
    (hcall : (small.withData data).call perform fuel id args = (.returned rs, later)) :
    ∃ later', (large.withData data).call perform fuel id args = (.returned rs, later') ∧ later.Widens later'
      ∧ (∀ i : Nat, (i : Int) ≤ m.dataWords.toInt → later'.outside.memory.get i = later.outside.memory.get i)
      ∧ (large.withData data).hostCalls perform fuel id args
        = (small.withData data).hostCalls perform fuel id args := by
  have hb : 0 < b := Int64.lt_of_lt_of_le ha hab
  obtain ⟨mem, hmem, rfl⟩ := of_ofModule hsmall
  obtain ⟨mem', hmem', rfl⟩ := of_ofModule hlarge
  rw [if_neg (Int64.not_le.2 ha)] at hmem
  rw [if_neg (Int64.not_le.2 hb)] at hmem'
  obtain ⟨hwidens, hmax, hwords⟩ := Memory.widens_of_ofSizes ha hab hmem hmem'
  have hdata : Widens (withData ⟨m, mem, host⟩ data) (withData ⟨m, mem', host⟩ data) :=
    ⟨rfl, hwidens.storeAll_all data Nat.one_pos (by decide) hmax, rfl⟩
  obtain ⟨later', hcall', hlater, htrace⟩ := hdata.call hhost hcall
  refine ⟨later', hcall', hlater, fun i hi => hlater.outside.memory.get i ?_, htrace⟩
  -- No call changes the length of memory, so the words of data are still within it.
  obtain ⟨hidle, hle, hlength⟩ := idle_ofModule hsmall (Memory.base_nonneg ha hmem (by omega))
  have hshape := mem.storeAll_shape 8 data
  have hready : Idle m mem.stackBase.toNat mem.length (withData ⟨m, mem, host⟩ data) :=
    ⟨rfl, congrArg UInt64.toNat hshape.stackBase, hshape.length, (congrArg UInt64.toNat hshape.sp).trans hidle.sp⟩
  rw [(hready.call (fun f args => (hhost f args).keepsShape) hle hlength hcall nofun).length]
  exact hwords i hi

end Instance

/-- A host function that puts its argument in the place of the first word of data and adds both. -/
def HostM.exchange (args : List UInt64) : HostM Unit (List UInt64) := do
  let old ← load 8
  store 8 (args.headD 0)
  onHost fun host => (.ok [old + args.headD 0], host)

/-- A function that hands its argument to the host by way of the stack. -/
def Module.exchanging : Module Unit where
  funcs :=
    let steps : List Step := [.stackAddr 1 0, .store 0 1 0 1, .load 2 1 0 1, .call 1 3 [⟨2, 1⟩] 1 4]
    #[{ name := text "main", linkage := .exported, sig := ⟨[.i64], [.i64]⟩
        compiled := some {
          frameWords := 5, stackWords := 2, params := [⟨0, 1⟩], blocks := #[⟨steps, .ret [⟨4, 1⟩]⟩]
          machineCode := none } },
      { name := text "exchange", linkage := .imported, sig := ⟨[.i64], [.i64]⟩, host := some () }]
  dataWords := 1
  finalized := true

theorem Instance.returned_of_larger_stack_exchanging :
    let perform : Unit → List UInt64 → HostM Unit (List UInt64) := fun _ => HostM.exchange
    ∃ small large later later' : Instance Unit Unit,
      ofModule Module.exchanging () 2 = .ok small ∧ ofModule Module.exchanging () 64 = .ok large
        ∧ (small.withData [5]).call perform 9 0 [41] = (.returned [46], later)
        ∧ (large.withData [5]).call perform 9 0 [41] = (.returned [46], later')
        ∧ (∀ i : Nat, (i : Int) ≤ Module.exchanging.dataWords.toInt → later'.outside.memory.get i
          = later.outside.memory.get i)
        ∧ (small.withData [5]).hostCalls perform 9 0 [41] = [((), [41])]
        ∧ (large.withData [5]).hostCalls perform 9 0 [41] = (small.withData [5]).hostCalls perform 9 0 [41] := by
  intro perform
  have hhost : ∀ f args, (perform f args).LoadsAndStores := fun _ args =>
    .bind (.load 8) fun _ => .bind (.store 8 _) fun _ => .onHost _
  have hthen : ∀ small large later : Instance Unit Unit, ofModule Module.exchanging () 2 = .ok small →
      ofModule Module.exchanging () 64 = .ok large → (small.withData [5]).call perform 9 0 [41]
        = (.returned [46], later) →
      ∃ later', (large.withData [5]).call perform 9 0 [41] = (.returned [46], later') ∧ later.Widens later'
        ∧ (∀ i : Nat, (i : Int) ≤ Module.exchanging.dataWords.toInt → later'.outside.memory.get i
          = later.outside.memory.get i)
        ∧ (large.withData [5]).hostCalls perform 9 0 [41] = (small.withData [5]).hostCalls perform 9 0 [41] :=
    fun small large later hsmall hlarge hcall =>
      returned_of_larger_stack hhost (by decide) (by decide) hsmall hlarge [5] hcall
  obtain ⟨later', hcall', -, hdata, hcalls⟩ := hthen _ _ _ rfl rfl rfl
  exact ⟨_, _, _, later', rfl, rfl, rfl, hcall', hdata, rfl, hcalls⟩

end RecordMill.Machine

import RecordMill.Proofs.Machine.StackArea

/-!
# What one step does to the stack

A step enters a function, leaves one, or changes neither the stack nor the size of memory. A host function that comes at
memory by loads and stores only cannot tell how much there is of it, as long as none of them faults.
-/

namespace RecordMill.Machine

/-! ## Memory -/

namespace Memory

/-- As large as before, with the stack where it was; the contents may differ. -/
structure SameShape (m m' : Memory) : Prop where
  length : m'.length = m.length
  stackBase : m'.stackBase = m.stackBase
  sp : m'.sp = m.sp

variable {m m' : Memory}

theorem SameShape.refl (m : Memory) : m.SameShape m := ⟨rfl, rfl, rfl⟩

theorem SameShape.trans {m'' : Memory} (h : m.SameShape m') (h' : m'.SameShape m'') : m.SameShape m'' :=
  ⟨h'.length.trans h.length, h'.stackBase.trans h.stackBase, h'.sp.trans h.sp⟩

theorem storeAll_shape (address : UInt64) (ws : List UInt64) (m : Memory) : m.SameShape (m.storeAll address ws).2 := by
  induction ws generalizing address m with
  | nil => exact .refl m
  | cons w ws ih =>
    rw [storeAll]
    cases m.index address with
    | error t => exact .refl m
    | ok i =>
      have hput : m.SameShape { m with words := put m.words i w } := ⟨rfl, rfl, rfl⟩
      exact hput.trans (ih (address + 8) _)

theorem getD_clear_eq (ws : Array UInt64) (i n j : Nat) :
    (clear ws i n).getD j 0 = if i ≤ j ∧ j < i + n then 0 else ws.getD j 0 := by
  induction n generalizing ws i with
  | zero =>
    rw [if_neg (by omega)]
    rfl
  | succ n ih =>
    rw [clear, ih]
    by_cases hij : i = j
    · subst hij
      rw [if_neg (by omega), if_pos (by omega)]
      by_cases hi : i < ws.size <;> simp [Array.getD_eq_getD_getElem?, hi]
    · have hget : (ws.setIfInBounds i 0).getD j 0 = ws.getD j 0 := by
        simp only [Array.getD_eq_getD_getElem?, Array.getElem?_setIfInBounds_ne hij]
      rw [hget]
      by_cases hin : i + 1 ≤ j ∧ j < i + 1 + n
      · rw [if_pos hin, if_pos (by omega)]
      · rw [if_neg hin, if_neg (by omega)]

/-- An area is taken from the top of the stack, and all zeros. -/
structure Pushed (m : Memory) (words : Nat) (address : UInt64) (m' : Memory) : Prop where
  address : address = m.sp * 8
  length : m'.length = m.length
  stackBase : m'.stackBase = m.stackBase
  sp : m'.sp.toNat = m.sp.toNat + words
  room : m.sp.toNat ≤ m.length → m'.sp.toNat ≤ m.length
  get : ∀ j, m'.get j = if m.sp.toNat ≤ j ∧ j < m'.sp.toNat then 0 else m.get j

theorem pushed_of_push {n : Int64} {address : UInt64} (h : m.push n = .ok (address, m')) :
    m.Pushed n.toUInt64.toNat address m' := by
  obtain ⟨ws, length, stackBase, sp⟩ := m
  simp only [push] at h
  split at h
  · next h0 =>
    cases h
    have hzero : n.toUInt64.toNat = 0 := by
      rw [h0]
      rfl
    exact ⟨rfl, rfl, rfl, by rw [hzero, Nat.add_zero], fun hle => hle, fun j => by rw [if_neg (by omega)]⟩
  split at h
  · cases h
  next hlen =>
  split at h
  · cases h
  · next hstop =>
    cases h
    -- The end of the area has not wrapped around, or it would lie in front of its start.
    have hsum : (sp + n.toUInt64).toNat = sp.toNat + n.toUInt64.toNat := by
      rw [UInt64.lt_iff_toNat_lt, UInt64.toNat_add] at hstop
      rw [UInt64.toNat_add]
      have := sp.toNat_lt
      have := n.toUInt64.toNat_lt
      omega
    refine ⟨rfl, rfl, rfl, hsum, fun _ => Nat.le_of_not_lt hlen, fun j => ?_⟩
    show (clear ws sp.toNat _).getD j 0 = _
    rw [getD_clear_eq]
    dsimp only [get]
    by_cases hj : j < ws.size
    · by_cases hin : sp.toNat ≤ j ∧ j < (sp + n.toUInt64).toNat
      · rw [if_pos (by omega), if_pos hin]
      · rw [if_neg (by omega), if_neg hin]
    · have hout : ws.getD j 0 = 0 := by simp [Array.getD_eq_getD_getElem?, Nat.le_of_not_lt hj]
      rw [hout]
      simp

end Memory

/-! ## What a step leaves alone -/

theorem Step.run_shape (s : Step) (stack : UInt64) (ws : Array UInt64) (m : Memory) :
    m.SameShape (s.run stack ws m).2 := by
  cases s with
  | store x p off n =>
    simp only [Step.run]
    split
    · exact m.storeAll_shape _ _
    · exact .refl m
  | load out p off n =>
    simp only [Step.run]
    split <;> exact .refl m
  | icmp c narrow out x y =>
    simp only [Step.run]
    split <;> exact .refl m
  | fcmp c out x y =>
    simp only [Step.run]
    split <;> exact .refl m
  | _ => exact .refl m

/-- A host function may change the words of memory, but neither their number nor the stack. -/
def HostM.KeepsShape {σ α : Type} (x : HostM σ α) : Prop :=
  ∀ out : Outside σ, out.memory.SameShape (x.run.run out).2.memory

/-! ## Areas -/

def Module.areaOf {ι : Type} (m : Module ι) (func : FuncId) : Nat :=
  match (m.funcs[func]?).bind (·.compiled) with
  | some c => c.stackArea.toUInt64.toNat
  | none => 0

def Frame.area {ι : Type} (m : Module ι) (fr : Frame) : Span := ⟨fr.stack.toNat / 8, m.areaOf fr.func⟩

/-- Where the function of a frame keeps its stack area. -/
def Frame.seat (fr : Frame) : FuncId × UInt64 := (fr.func, fr.stack)

namespace State

variable {ι σ : Type} {m : Module ι} {perform : ι → List UInt64 → HostM σ (List UInt64)} {st st' : State σ}

def seats (st : State σ) : List (FuncId × UInt64) := st.frames.map Frame.seat

/-- The innermost function is about to call one that has a body. -/
def entering (m : Module ι) (st : State σ) : Bool :=
  match st.frames with
  | ⟨_, _, _, .call callee .. :: _, _, _, _, _⟩ :: _ =>
    (m.funcs[callee]?).any fun d => d.host.isNone && d.compiled.isSome
  | _ => false

def leaving (st : State σ) : Bool :=
  match st.frames with
  | ⟨_, _, _, [], .ret _, _, _, _⟩ :: _ => true
  | _ => false

/-- How a step changes the places of the active functions and the shape of memory. -/
inductive Moves (m : Module ι) (st st' : State σ) : Prop
  | stays : st.entering m = false → st.leaving = false → st'.seats = st.seats →
    st.outside.memory.SameShape st'.outside.memory → Moves m st st'
  | enters (callee : FuncId) (address : UInt64) : st.entering m = true → st'.seats = (callee, address) :: st.seats →
    st.frames.length < maxDepth → st.outside.memory.Pushed (m.areaOf callee) address st'.outside.memory → Moves m st st'
  | leaves (func : FuncId) (address : UInt64) : st.entering m = false → st.leaving = true →
    st.seats = (func, address) :: st'.seats → st'.outside.memory = st.outside.memory.pop address → Moves m st st'

theorem pushed_of_enter {c : Compiled} {func : FuncId} {depth : Nat} {args : List UInt64} {results : Nat}
    {mem mem' : Memory} {fr : Frame} (h : c.enter func depth args results mem = .ok (fr, mem')) :
    depth < maxDepth ∧ fr.func = func ∧ mem.Pushed c.stackArea.toUInt64.toNat fr.stack mem' := by
  unfold Compiled.enter at h
  split at h
  · cases h
  next hdepth =>
  cases hp : mem.push c.stackArea with
  | error t =>
    rw [hp] at h
    cases h
  | ok q =>
    rw [hp] at h
    cases h
    exact ⟨Nat.lt_of_not_le hdepth, rfl, Memory.pushed_of_push hp⟩

/-- What a call comes to: a host function does its work at once, and one with a body gets a frame. -/
inductive Called (m : Module ι) (callee : FuncId) (out : Outside σ) (frames : List Frame) : Outcome σ → Prop
  | served {st : State σ} : frames ≠ [] → (m.funcs[callee]?).any (fun d => d.host.isNone && d.compiled.isSome) = false →
    st.seats = frames.map Frame.seat → out.memory.SameShape st.outside.memory → Called m callee out frames (.next st)
  | entered {st : State σ} {address : UInt64} :
    (m.funcs[callee]?).any (fun d => d.host.isNone && d.compiled.isSome) = true →
    st.seats = (callee, address) :: frames.map Frame.seat → frames.length < maxDepth →
    out.memory.Pushed (m.areaOf callee) address st.outside.memory → Called m callee out frames (.next st)
  | ended {rs : List UInt64} {out' : Outside σ} : frames = [] → out.memory.SameShape out'.memory →
    Called m callee out frames (.done rs out')
  | trapped {t : Trap} {out' : Outside σ} :
    out.memory.SameShape out'.memory → Called m callee out frames (.trapped t out')

theorem called (hhost : ∀ f args, (perform f args).KeepsShape) (callee : FuncId) (args : List UInt64) (results : Nat)
    (out : Outside σ) (frames : List Frame) :
    Called m callee out frames (State.call m perform callee args results out frames) := by
  unfold State.call
  cases hd : m.funcs[callee]? with
  | none => exact .trapped (.refl _)
  | some d =>
    dsimp only
    cases hf : d.host with
    | some f =>
      have hshape := hhost f args out
      have hno : (m.funcs[callee]?).any (fun d => d.host.isNone && d.compiled.isSome) = false := by simp [hd, hf]
      dsimp only
      split
      · next rs out' hrun =>
        rw [hrun] at hshape
        split
        · exact .trapped hshape
        · cases frames with
          | nil => exact .ended rfl hshape
          | cons fr below => exact .served nofun hno rfl hshape
      · next t out' hrun =>
        rw [hrun] at hshape
        exact .trapped hshape
    | none =>
      cases hc : d.compiled with
      | none => exact .trapped (.refl _)
      | some c =>
        dsimp only
        have harea : m.areaOf callee = c.stackArea.toUInt64.toNat := by simp [Module.areaOf, hd, hc]
        cases he : c.enter callee frames.length args results out.memory with
        | error t => exact .trapped (.refl _)
        | ok q =>
          obtain ⟨fr, memory⟩ := q
          obtain ⟨hdepth, rfl, hpush⟩ := pushed_of_enter he
          exact .entered (by simp [hd, hf, hc]) rfl hdepth (harea ▸ hpush)

/-- What one step comes to. -/
inductive Stepped (m : Module ι) (st : State σ) : Outcome σ → Prop
  | next {st' : State σ} : Moves m st st' → Stepped m st (.next st')
  | ended {rs : List UInt64} {out : Outside σ} :
    (st.frames = [] ∧ out = st.outside) ∨ (st.entering m = false ∧ st.leaving = true
    ∧ ∃ func address, st.seats = [(func, address)] ∧ out.memory = st.outside.memory.pop address) →
      Stepped m st (.done rs out)
  | trapped {t : Trap} {out : Outside σ} : st.outside.memory.SameShape out.memory → Stepped m st (.trapped t out)

theorem stepped (hhost : ∀ f args, (perform f args).KeepsShape) (st : State σ) :
    Stepped m st (State.step m perform st) := by
  obtain ⟨out, frames⟩ := st
  cases frames with
  | nil => exact .ended (.inl ⟨rfl, rfl⟩)
  | cons fr below =>
  obtain ⟨func, blocks, block, steps, exit, words, stack, results⟩ := fr
  cases steps with
  | cons s rest =>
    by_cases hs : s.isCall
    · cases s with
      | call callee scratch moves n dest =>
        have hcalled := called (m := m) hhost callee
          (Frame.readSpan (Frame.writeAll words scratch (Frame.readSpans words moves)) ⟨scratch, n⟩) dest out
          (⟨func, blocks, block, rest, exit, Frame.writeAll words scratch (Frame.readSpans words moves), stack,
            results⟩ :: below)
        rw [State.step]
        generalize State.call .. = o at hcalled
        cases hcalled with
        | served _ hno hseats hshape => exact .next (.stays hno rfl hseats hshape)
        | entered hyes hseats hdepth hpush => exact .next (.enters callee _ hyes hseats (by simpa using hdepth) hpush)
        | ended hnil => cases hnil
        | trapped hshape => exact .trapped hshape
      | _ => cases hs
    · have hno : s.isCall = false := by simpa using hs
      have hentering : State.entering m (σ := σ)
          ⟨out, ⟨func, blocks, block, s :: rest, exit, words, stack, results⟩ :: below⟩ = false := by
        cases s <;> first | rfl | cases hno
      have hshape := s.run_shape stack words out.memory
      rw [step_run rfl hno]
      dsimp only
      rcases hrun : s.run stack words out.memory with ⟨t | ws, mem⟩ <;> rw [hrun] at hshape
      · exact .trapped hshape
      · exact .next (.stays hentering rfl rfl hshape)
  | nil =>
    cases exit with
    | jump dest sources scratch targets =>
      simp only [State.step]
      split
      · exact .next (.stays rfl rfl rfl (.refl _))
      · exact .trapped (.refl _)
    | branch cond dest alt =>
      simp only [State.step]
      split
      · exact .next (.stays rfl rfl rfl (.refl _))
      · exact .trapped (.refl _)
    | ret sources =>
      simp only [State.step]
      cases below with
      | nil => exact .ended (.inr ⟨rfl, rfl, func, stack, rfl, rfl⟩)
      | cons fr below => exact .next (.leaves func stack rfl rfl rfl rfl)

end State

/-! ## Host functions -/

namespace HostM

variable {σ α β : Type}

def load (address : UInt64) : HostM σ UInt64 := fun out => (out.memory.load address, out)

def store (address w : UInt64) : HostM σ Unit := fun out =>
  match out.memory.store address w with
  | .ok memory => (.ok (), { out with memory })
  | .error t => (.error t, out)

def onHost (f : σ → Except Trap α × σ) : HostM σ α := fun ⟨memory, host⟩ => ((f host).1, ⟨memory, (f host).2⟩)

/-- All access to memory is by loads and stores. A fault of one of them ends the function. -/
inductive LoadsAndStores {σ : Type} : {α : Type} → HostM σ α → Prop
  | onHost {α : Type} (f : σ → Except Trap α × σ) : LoadsAndStores (onHost f)
  | load (address : UInt64) : LoadsAndStores (load address)
  | store (address w : UInt64) : LoadsAndStores (store address w)
  | bind {α β : Type} {x : HostM σ α} {f : α → HostM σ β} :
    LoadsAndStores x → (∀ a, LoadsAndStores (f a)) → LoadsAndStores (x >>= f)

namespace LoadsAndStores

theorem pure (a : α) : (Pure.pure a : HostM σ α).LoadsAndStores := .onHost fun host => (.ok a, host)

theorem throw (t : Trap) : (MonadExcept.throw t : HostM σ α).LoadsAndStores := .onHost fun host => (.error t, host)

end LoadsAndStores

theorem bind_apply (x : HostM σ α) (f : α → HostM σ β) (out : Outside σ) : (x >>= f) out = match x out with
    | (.ok a, out) => f a out
    | (.error t, out) => (.error t, out) := by
  show (match x out with | (r, out) => ExceptT.bindCont f r out) = _
  rcases x out with ⟨_ | a, out⟩ <;> rfl

theorem LoadsAndStores.keepsShape {x : HostM σ α} (hx : x.LoadsAndStores) : x.KeepsShape := by
  induction hx with
  | onHost f => exact fun out => .refl out.memory
  | load address => exact fun out => .refl out.memory
  | store address w =>
    intro out
    show out.memory.SameShape (HostM.store address w out).2.memory
    unfold HostM.store Memory.store
    cases out.memory.index address with
    | error t => exact .refl out.memory
    | ok i => exact ⟨rfl, rfl, rfl⟩
  | @bind α β x f _ _ ihx ihf =>
    intro out
    have hfirst : out.memory.SameShape (x out).2.memory := ihx out
    show out.memory.SameShape ((x >>= f) out).2.memory
    rw [bind_apply]
    rcases hrun : x out with ⟨t | a, mid⟩ <;> rw [hrun] at hfirst
    · exact hfirst
    · exact hfirst.trans (ihf a mid)

end HostM

end RecordMill.Machine

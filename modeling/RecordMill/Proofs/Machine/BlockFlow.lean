import RecordMill.Proofs.Machine.Reference
import RecordMill.Proofs.Machine.StackDiscipline

/-!
# Where frames can get to

A frame goes from one block to another only where the end of the block leads. So it stays among any blocks that
have the entry with them and do not lead to others.
-/

namespace RecordMill.Machine

/-! ## Where blocks lead -/

/-- The blocks that an instruction passes control to. -/
def Action.targets : Action → List BlockId
  | .jump dest _ => [dest]
  | .brif _ dest alt => [dest, alt]
  | _ => []

def Exit.targets : Exit → List BlockId
  | .jump dest .. => [dest]
  | .branch _ dest alt => [dest, alt]
  | .ret _ => []

theorem Action.targets_of_not_terminator {a : Action} (h : a.isTerminator = false) : a.targets = [] := by
  cases a <;> first | rfl | cases h

namespace Body

variable {f g : Body} {b : BlockId}

def exits (f : Body) (b : BlockId) : List BlockId := (f.code b).flatMap (·.action.targets)

theorem WellFormed.targets_lt (h : f.WellFormed) {i : Inst} (hi : i ∈ f.insts) {t : BlockId}
    (ht : t ∈ i.action.targets) :
    t < f.blocks.size := by
  obtain ⟨n, hn⟩ := Array.mem_iff_getElem?.1 hi
  obtain ⟨first, ks, -, -, hfits⟩ := h.insts hn
  obtain ⟨a, rs⟩ := i
  cases a <;> simp only [Action.targets, List.mem_cons, List.not_mem_nil, or_false] at ht
  case jump dest args => exact ht ▸ hfits.2
  case brif c dest alt =>
    rcases ht with rfl | rfl
    · exact hfits.2.1
    · exact hfits.2.2

theorem WellFormed.exits_lt (h : f.WellFormed) {t : BlockId} (ht : t ∈ f.exits b) : t < f.blocks.size := by
  obtain ⟨i, hi, ht⟩ := List.mem_flatMap.1 ht
  obtain ⟨n, -, hn⟩ := List.mem_filterMap.1 hi
  exact h.targets_lt (Array.mem_of_getElem? hn) ht

end Body

theorem Lay.targets_exit {f : Body} {l : Layout} {a : Action} {n n' : Nat} {e : Exit}
    (h : Lay.exit f l a n = some (e, n')) :
    e.targets = a.targets := by
  cases a
  case jump dest args =>
    cases args with
    | nil =>
      cases h
      rfl
    | cons v vs =>
      simp only [Lay.exit, Lay.bind_eq, Lay.pure_eq] at h
      obtain ⟨_, _, -, _, _, -, _, _, -, rfl, -⟩ := h
      rfl
  case brif c dest alt =>
    simp only [Lay.exit, Lay.bind_eq, Lay.pure_eq] at h
    obtain ⟨_, _, -, rfl, -⟩ := h
    rfl
  case ret vs =>
    simp only [Lay.exit, Lay.bind_eq, Lay.pure_eq] at h
    obtain ⟨_, _, -, rfl, -⟩ := h
    rfl
  all_goals cases h

theorem X86.targets_exit {f : Body} {l : Layout} {a : Action} {n n' : Nat} {e : Exit}
    (h : X86.exit f l a n = some (e, n')) :
    e.targets = a.targets := by
  unfold X86.exit at h
  split at h
  · simp only [Lay.bind_eq, Lay.pure_eq] at h
    obtain ⟨_, _, -, _, _, -, _, _, -, rfl, -⟩ := h
    rfl
  · exact Lay.targets_exit h

theorem Body.exits_of_compile {f : Body} {t : Target} {c : Compiled} (h : f.compile t = .ok c) {b : BlockId}
    (hb : b < f.blocks.size) {u : BlockId} (hu : u ∈ (c.blocks.getD b default).exit.targets) : u ∈ f.exits b := by
  obtain ⟨-, -, -, hblocks⟩ := laid_of_compile h
  obtain ⟨cb, hcb, hlaid⟩ := hblocks hb
  obtain ⟨last, hcode, -, n, n', hexit, -⟩ := hlaid.steps
  rw [Array.getD_eq_getD_getElem?, hcb, Option.getD_some] at hu
  have htargets : cb.exit.targets = last.action.targets := hexit.elim Lay.targets_exit X86.targets_exit
  rw [htargets] at hu
  rw [exits, hcode]
  exact List.mem_flatMap.2 ⟨last, List.mem_append_right _ (List.mem_singleton_self _), hu⟩

/-! ## Blocks that are not left -/

/-- The entry is one of the blocks, and none of them leads to another block. -/
structure Compiled.Closed (c : Compiled) (live : BlockId → Prop) : Prop where
  entry : live 0
  exits : ∀ {b t : BlockId}, live b → t ∈ (c.blocks.getD b default).exit.targets → live t

structure Frame.Within (c : Compiled) (live : BlockId → Prop) (fr : Frame) : Prop where
  blocks : fr.blocks = c.blocks
  exit : fr.exit = (c.blocks.getD fr.block default).exit
  live : live fr.block

theorem Frame.Within.enter {c : Compiled} {live : BlockId → Prop} {fr : Frame} (h : fr.Within c live)
    (hc : c.Closed live) {t : BlockId} (ht : t ∈ fr.exit.targets) (ws : Array UInt64) :
    (fr.atBlock t ws).Within c live where
  blocks := h.blocks
  exit := by
    show (fr.blocks.getD t default).exit = _
    rw [h.blocks]
    rfl
  live := hc.exits h.live (h.exit ▸ ht)

namespace State

variable {ι σ : Type} {m : Module ι} {perform : ι → List UInt64 → HostM σ (List UInt64)} {id : FuncId} {c : Compiled}
  {live : BlockId → Prop}

def Within (id : FuncId) (c : Compiled) (live : BlockId → Prop) (frames : List Frame) : Prop :=
  ∀ fr ∈ frames, fr.func = id → fr.Within c live

variable {fr fr' : Frame} {below frames : List Frame}

theorem Within.tail (h : Within id c live (fr :: below)) : Within id c live below := fun fr hfr => h fr (.tail _ hfr)

theorem Within.change (h : Within id c live (fr :: below)) (hfunc : fr'.func = fr.func)
    (hin : fr.Within c live → fr'.Within c live) :
    Within id c live (fr' :: below) := by
  intro x hx hid
  rcases List.mem_cons.1 hx with rfl | hx
  · exact hin (h fr (.head _) (hfunc ▸ hid))
  · exact h x (.tail _ hx) hid

theorem Within.deliver {rs : List UInt64} {at_ : Nat} {out : Outside σ} {st : State σ} (h : Within id c live frames)
    (hnext : State.deliver rs at_ out frames = .next st) : Within id c live st.frames := by
  cases frames with
  | nil => cases hnext
  | cons fr below =>
    cases hnext
    exact h.change rfl fun hin => ⟨hin.blocks, hin.exit, hin.live⟩

section

variable {e : FuncDecl ι} (he : m.funcs[id]? = some e) (hc : e.compiled = some c) (hclosed : c.Closed live)

include he hc hclosed

theorem Within.call {callee : FuncId} {args : List UInt64} {results : Nat} {out : Outside σ} {st : State σ}
    (h : Within id c live frames) (hnext : State.call m perform callee args results out frames = .next st) :
    Within id c live st.frames := by
  unfold State.call at hnext
  split at hnext
  · cases hnext
  next d hd =>
  split at hnext
  · dsimp only at hnext
    split at hnext
    · split at hnext
      · cases hnext
      · exact h.deliver hnext
    · cases hnext
  · cases hnext
  next c' hhost hc' =>
  split at hnext
  next fr memory henter =>
    cases hnext
    intro x hx hid
    rcases List.mem_cons.1 hx with rfl | hx
    · unfold Compiled.enter at henter
      split at henter
      · cases henter
      simp only [bind, Except.bind] at henter
      split at henter
      · cases henter
      cases henter
      obtain rfl : callee = id := hid
      obtain rfl : d = e := Option.some.inj (hd.symm.trans he)
      obtain rfl : c' = c := Option.some.inj (hc'.symm.trans hc)
      exact ⟨rfl, rfl, hclosed.entry⟩
    · exact h x hx hid
  · cases hnext

theorem Within.step {st st' : State σ} (h : Within id c live st.frames) (hnext : State.step m perform st = .next st') :
    Within id c live st'.frames := by
  obtain ⟨out, frames⟩ := st
  cases frames with
  | nil => cases hnext
  | cons fr below =>
  obtain ⟨func, blocks, block, steps, exit, words, stack, results⟩ := fr
  cases steps with
  | cons s rest =>
    by_cases hs : s.isCall
    · cases s with
      | call callee scratch moves n dest =>
        rw [State.step] at hnext
        have hrest : Within id c live (⟨func, blocks, block, rest, exit,
          Frame.writeAll words scratch (Frame.readSpans words moves), stack,
            results⟩ :: below) := h.change rfl fun hin => ⟨hin.blocks, hin.exit, hin.live⟩
        exact hrest.call he hc hclosed hnext
      | _ => cases hs
    · rw [step_run rfl (by simpa using hs)] at hnext
      split at hnext
      · cases hnext
        exact h.change rfl fun hin => ⟨hin.blocks, hin.exit, hin.live⟩
      · cases hnext
  | nil =>
    cases exit with
    | jump dest sources scratch targets =>
      simp only [State.step] at hnext
      split at hnext
      · cases hnext
        exact h.change rfl fun hin => hin.enter hclosed (.head _) _
      · cases hnext
    | branch cond dest alt =>
      simp only [State.step] at hnext
      split at hnext
      · next w _ =>
        cases hnext
        refine h.change rfl fun hin => hin.enter hclosed (t := if w ≠ 0 then dest else alt) ?_ _
        show _ ∈ [dest, alt]
        split <;> simp
      · cases hnext
    | ret sources => exact h.tail.deliver hnext

theorem Within.run {n : Nat} {st st' : State σ} (h : Within id c live st.frames)
    (hrun : State.run m perform n st = .next st') :
    Within id c live st'.frames := by
  induction n generalizing st with
  | zero =>
    cases hrun
    exact h
  | succ n ih =>
    rw [State.run] at hrun
    split at hrun
    · next st₁ hstep => exact ih (h.step he hc hclosed hstep) hrun
    · next hno => exact absurd hrun (hno st')

end

end State

/-- However a function comes to be called, its frames stay among blocks that do not lead to others. -/
theorem Instance.Goes.within {ι σ : Type} {perform : ι → List UInt64 → HostM σ (List UInt64)} {inst : Instance ι σ}
    {called : FuncId} {args : List UInt64} {n : Nat} {st : State σ} (h : inst.Goes perform called args n st)
    {id : FuncId} {e : FuncDecl ι} {c : Compiled} (he : inst.module.funcs[id]? = some e) (hc : e.compiled = some c)
    {live : BlockId → Prop} (hclosed : c.Closed live) :
    State.Within id c live st.frames := by
  obtain ⟨start, hstart, hrun⟩ := h
  exact .run he hc hclosed (.call he hc hclosed (fun fr hfr => absurd hfr (List.not_mem_nil)) hstart) hrun

end RecordMill.Machine

import RecordMill.Proofs.Lowering.Globals
import RecordMill.Proofs.Plain.Leaving

/-!
# Runs on plain values

The direct run of a program and the plain one go through the same states. Whoever waits for a result keeps
its registers, which own what they hold; so the items of a state are those of all activations and the globals.
-/

namespace RecordMill

open Plain (Val Table)

/-! ## Where instructions lead -/

theorem Func.next_lt {f : Func} (hends : ∃ last, f.body.getLast? = some last ∧ last.isEnd) {i : Instr} {k : Nat}
    (hi : f.body[k]? = some i) (hnot : i.isEnd = false) : k + 1 < f.body.length := by
  obtain ⟨last, hlast, hend⟩ := hends
  obtain ⟨hk, hget⟩ := List.getElem?_eq_some_iff.1 hi
  rw [List.getLast?_eq_getElem?] at hlast
  by_contra hle
  have hsame : f.body.length - 1 = k := by omega
  rw [hsame, hi] at hlast
  cases hlast
  simp [hnot] at hend

theorem Func.target_lt {f : Func} (hends : ∃ last, f.body.getLast? = some last ∧ last.isEnd) {l : Label}
    (hl : l ∈ f.labels) :
    f.target l < f.body.length := by
  obtain ⟨j, htarget, hj⟩ := Func.target_eq hl
  rw [htarget]
  exact Func.next_lt hends hj rfl

namespace Plain.State

variable {p : Program} {σ τ : Plain.State} {i : Instr}

def site (σ : Plain.State) : Nat × Nat × Reg × List Frame := (σ.frame.func, σ.frame.next, σ.frame.dst, σ.below)

@[simp] theorem site_set (r : Reg) (v : Val) : (σ.set p r v).site = σ.site := by
  unfold set
  split
  · rfl
  · split <;> rfl

@[simp] theorem site_setCursor (r : Reg) (c : Plain.Cursor) : (σ.setCursor r c).site = σ.site := rfl

@[simp] theorem site_withStore (s : Plain.Store) : (σ.withStore s).site = σ.site := rfl

theorem site_exec (h : σ.exec p i = .ok τ) : τ.site = σ.site := by
  cases i <;> simp only [exec] at h
  case arith =>
    split at h
    · cases h
      exact site_set ..
    · split at h <;> cases h
      exact site_set ..
  all_goals first
    | cases h; simp
    | split at h <;> cases h <;> simp

theorem step_exec {f : Func} (hf : p.funcs[σ.frame.func]? = some f) (hi : f.body[σ.frame.next]? = some i)
    (hnext : i.goesOn) :
    σ.step p = match σ.exec p i with
      | .ok τ => .next (τ.goto (σ.frame.next + 1))
      | .error h => .ended (.halted h, σ.store) := by
  unfold step
  rw [hf]
  dsimp only
  rw [hi]
  cases i <;> first | rfl | cases hnext

theorem step_ret {f : Func} {src : Reg} {x : Val} {s : Plain.Store} (hf : p.funcs[σ.frame.func]? = some f)
    (hi : f.body[σ.frame.next]? = some (.ret src)) (hresult : result p f σ src = (x, s)) : σ.step p = match σ.below with
      | [] => .ended (.returned, s)
      | frame :: below => .next ({ store := s, frame, below : Plain.State }.set p σ.frame.dst x) := by
  unfold step
  rw [hf]
  dsimp only
  rw [hi]
  dsimp only
  rewrite [hresult]
  rfl

end Plain.State

/-! ## States -/

/-- A program whose functions run on plain values as they do at once. -/
structure Program.Fit (p : Program) (literals : List Bytes) : Prop where
  checked : p.check = []
  uncalled : p.MainUncalled
  settings : ∀ {i f}, p.funcs[i]? = some f → (Direct.setting p literals i f).Fit
  few : p.globals.length ≤ 2 ^ 32 ∧ ∀ f ∈ p.funcs, (f.locals p.globals).length ≤ 2 ^ 32

namespace Direct

/-- So many activations that they all find a handle for each of their registers. -/
def maxFrames : Nat := 2 ^ 20

def Frame.items (p : Program) (f : Func) (fr : Frame) (pf : Plain.Frame) : List Item :=
  (f.locals p.globals).map (.ofLocal fr.locals fr.keys fr.position pf.regs pf.cursors)

/-- Activations that wait, and what they have. -/
inductive Waiting (p : Program) : List Frame → List Plain.Frame → List Item → Prop
  | nil : Waiting p [] [] []
  | cons {f : Func} {fr : Frame} {pf : Plain.Frame} {frs : List Frame} {pfs : List Plain.Frame} {items : List Item} :
      p.funcs[fr.func]? = some f → pf.func = fr.func → pf.next = fr.next + 1 → pf.dst = fr.dst →
      (∀ r ∈ f.locals p.globals, f.holdsLiterals r →
        (Item.ofLocal fr.locals fr.keys fr.position pf.regs pf.cursors r).handle = 0) →
      Waiting p frs pfs items → Waiting p (fr :: frs) (pf :: pfs) (fr.items p f pf ++ items)

/-- Both runs are at the same instruction, and have the same values. -/
structure State.Shows (p : Program) (literals : List Bytes) (st : State) (σ : Plain.State) : Prop where
  chain : Chain p st.frame st.below
  func : σ.frame.func = st.frame.func
  next : σ.frame.next = st.frame.next
  dst : σ.frame.dst = st.frame.dst
  stands : ∃ f others, p.funcs[st.frame.func]? = some f ∧ st.frame.next < f.body.length
    ∧ Waiting p st.below σ.below others
    ∧ Reflects (setting p literals st.frame.func f) ((setting p literals st.frame.func f).holdings others) [] st.store σ

inductive Result.Shows (p : Program) (literals : List Bytes) : Result → Plain.Ending × Plain.Store → Prop
  | done {f : Func} {ws : List UInt64} {c : Context} {s : Plain.Store} {x : Val} : p.funcs[p.main.toNat]? = some f →
      c.Reflects literals.toArray s (Item.result f.ret x ws ++ [.null]) →
        Result.Shows p literals (.done ws c) (.returned, s)
  | trapped {h : Plain.Halt} {c : Context} {s : Plain.Store} {items : List Item} : c.Reflects literals.toArray s items →
      Result.Shows p literals (.trapped h.trap c) (.halted h, s)

inductive Alike (p : Program) (literals : List Bytes) :
    Turn State Result → Turn Plain.State (Plain.Ending × Plain.Store) → Prop
  | next {st : State} {σ : Plain.State} : st.Shows p literals σ → Alike p literals (.next st) (.next σ)
  | ended {r : Result} {e : Plain.Ending × Plain.Store} : r.Shows p literals e → Alike p literals (.ended r) (.ended e)

section

variable {p : Program} {literals : List Bytes} {st : State} {σ : Plain.State} {f : Func} {others : List Item}

theorem State.store_load {δ : Store} (h : δ.flow = .on) (n : Nat) : (st.load δ n).store = δ := by
  obtain ⟨context, globals, locals, keys, position, flow⟩ := δ
  cases h
  rfl

theorem State.step_apply (literals : List Bytes) {i : Instr} (hf : p.funcs[st.frame.func]? = some f)
    (hi : f.body[st.frame.next]? = some i) :
    st.step p literals = match (Lowering.lower i : Direct Unit) (setting p literals st.frame.func f) st.store with
      | (.ok (), δ) => (st.load δ st.frame.next).follow p literals f δ.flow
      | (.error (.trap t), δ) => .ended (.trapped t δ.context)
      | (.error (.stop _), _) => .ended .stuck := by
  unfold State.step
  rw [hf]
  dsimp only
  rewrite [hi]
  rfl

theorem State.perform_apply {s : State} {next : Nat} {x : Direct Unit} {δ : Store}
    (hf : p.funcs[s.frame.func]? = some f) (hx : x (setting p literals s.frame.func f) s.store = (.ok (), δ)) :
    s.perform p literals next x = .next (s.load δ next) := by
  unfold State.perform
  rw [hf]
  dsimp only
  rw [hx]

theorem Waiting.funcs {frs : List Frame} {pfs : List Plain.Frame} (h : Waiting p frs pfs others) :
    frs.map (·.func) = pfs.map (·.func) := by
  induction h with
  | nil => rfl
  | cons _ hfunc _ _ _ _ ih => rw [List.map_cons, List.map_cons, hfunc, ih]

theorem State.Shows.funcs (h : st.Shows p literals σ) :
    (st.frame :: st.below).map (·.func) = (σ.frame :: σ.below).map (·.func) := by
  obtain ⟨f, others, -, -, hwait, -⟩ := h.stands
  rw [List.map_cons, List.map_cons, h.func, hwait.funcs]

variable (hp : p.Fit literals)

include hp

theorem Waiting.length_le {frs : List Frame} {pfs : List Plain.Frame} (h : Waiting p frs pfs others) :
    others.length ≤ frs.length * 2 ^ 32 := by
  induction h with
  | nil => exact Nat.zero_le _
  | @cons f fr pf frs pfs items hf _ _ _ _ hrest ih =>
    have hlen := hp.few.2 f (List.mem_of_getElem? hf)
    rw [List.length_append, Frame.items, List.length_map, List.length_cons]
    omega

theorem Waiting.few {frs : List Frame} {pfs : List Plain.Frame} (h : Waiting p frs pfs others)
    (hfrs : frs.length ≤ maxFrames) {i : Nat} (hf : p.funcs[i]? = some f) :
    ((setting p literals i f).holdings others).Few := by
  have hothers := h.length_le hp
  have hlocals := hp.few.2 f (List.mem_of_getElem? hf)
  have hglobals := hp.few.1
  have howners : Heap.maxOwners = 4611686018427387904 := rfl
  show (f.locals p.globals).length + p.globals.length + others.length + 32 ≤ Heap.maxOwners
  unfold maxFrames at hfrs
  omega

/-! ## One step -/

omit hp in
theorem Holdings.Reads.pairs {H : Holdings} {e : Setting} {δ : Store} {rs params : List Reg} {wss : List (List UInt64)}
    (h : H.Reads e δ σ rs wss) (htypes : rs.map (·.ty) = params.map (·.ty)) : ∃ xs : List (Val × List UInt64),
      xs.map (·.1) = rs.map (σ.get e.program) ∧ xs.map (·.2) = wss
        ∧ List.Forall₂ (fun r x => .reg r.ty x.1 x.2 ∈ H.items δ σ) params xs := by
  induction h generalizing params with
  | nil => exact ⟨[], rfl, rfl, List.map_eq_nil_iff.1 htypes.symm ▸ .nil⟩
  | @cons r ws rs wss hx _ ih =>
    obtain ⟨param, params, rfl⟩ := List.exists_cons_of_ne_nil (l := params) (by rintro rfl; cases htypes)
    obtain ⟨hty, hrest⟩ := List.cons.inj htypes
    obtain ⟨xs, hvals, hwords, hxs⟩ := ih hrest
    have hty : r.ty = param.ty := hty
    exact ⟨(σ.get e.program r, ws) :: xs, congrArg _ hvals, congrArg _ hwords, .cons (hty ▸ hx) hxs⟩

section

variable (h : st.Shows p literals σ) (hf : p.funcs[st.frame.func]? = some f) (hwait : Waiting p st.below σ.below others)
  (hr : Reflects (setting p literals st.frame.func f)
  ((setting p literals st.frame.func f).holdings others) [] st.store σ)

include h hf hwait hr

omit hp hr in
theorem State.Shows.stay {δ : Store} {τ : Plain.State} {n : Nat} (hstep : st.step p literals = .next (st.load δ n))
    (hsite : τ.site = (σ.frame.func, n, σ.frame.dst, σ.below)) (hn : n < f.body.length)
    (hτ : Reflects (setting p literals st.frame.func f) ((setting p literals st.frame.func f).holdings others) [] δ τ) :
    (st.load δ n).Shows p literals τ := by
  simp only [Plain.State.site, Prod.mk.injEq] at hsite
  obtain ⟨hfunc, hnext, hdst, hbelow⟩ := hsite
  refine ⟨h.chain.step hstep, hfunc.trans h.func, hnext, hdst.trans h.dst, f, others, hf, hn, hbelow ▸ hwait, ?_⟩
  rw [State.store_load hτ.flow]
  exact hτ

theorem State.Shows.step_on (hdepth : st.below.length ≤ maxFrames) {i : Instr} (hi : f.body[st.frame.next]? = some i)
    (hgo : i.goesOn) :
    Alike p literals (st.step p literals) (σ.step p) := by
  have hfit := hp.settings (f := f) hf
  have hends := (Check.func_eq_nil.1 hfit.passes).2.2.2.2
  have hfollows := lower_follows hfit hr (hwait.few hp hdepth hf) (List.mem_of_getElem? hi) hgo
  rw [Plain.State.step_exec (h.func ▸ hf) (h.next ▸ hi) hgo]
  have hstep := State.step_apply literals hf hi
  cases hexec : σ.exec p i with
  | ok τ =>
    have hexec' : σ.exec (setting p literals st.frame.func f).program i = .ok τ := hexec
    rw [hexec'] at hfollows
    obtain ⟨δ, hlower, hτ⟩ := hfollows
    rw [hlower] at hstep
    dsimp only at hstep
    rw [hτ.flow] at hstep
    have hnext : st.step p literals = .next (st.load δ (st.frame.next + 1)) := hstep
    have hlt : st.frame.next + 1 < f.body.length := Func.next_lt hends hi (by cases i <;> first | rfl | cases hgo)
    rw [hnext]
    refine .next (h.stay hf hwait hnext ?_ hlt ⟨hτ.context, hτ.literal, hτ.flow⟩)
    have hsite := Plain.State.site_exec hexec
    simp only [Plain.State.site, Prod.mk.injEq] at hsite
    simp only [Plain.State.site, Plain.State.goto, hsite, h.next]
  | error e =>
    have hexec' : σ.exec (setting p literals st.frame.func f).program i = .error e := hexec
    rw [hexec'] at hfollows
    have htrap : (Lowering.lower i : Direct Unit) (setting p literals st.frame.func f) st.store
      = (.error (.trap e.trap), st.store) := hfollows
    rw [htrap] at hstep
    rw [hstep]
    exact .ended (.trapped hr.context)

theorem State.Shows.step_jmp {l : Label} (hi : f.body[st.frame.next]? = some (.jmp l)) :
    Alike p literals (st.step p literals) (σ.step p) := by
  have hfit := hp.settings (f := f) hf
  obtain ⟨-, -, -, hbody, hends⟩ := Check.func_eq_nil.1 hfit.passes
  have hl : l ∈ f.labels := (Check.body_eq_nil.1 hbody).2.1 _ (List.mem_of_getElem? hi) l rfl
  have hnext : st.step p literals = .next (st.load { st.store with flow := .goto l } (f.target l)) :=
    State.step_apply literals hf hi
  have hplain : σ.step p = .next (σ.goto (f.target l)) := by
    unfold Plain.State.step
    rw [h.func, hf]
    dsimp only
    rw [h.next, hi]
  rw [hnext, hplain]
  exact .next (h.stay (δ := st.store) (τ := σ.goto (f.target l)) hf hwait hnext rfl (Func.target_lt hends hl)
    ⟨hr.context, hr.literal, hr.flow⟩)

theorem State.Shows.step_jmpIf {cond : Reg} {l : Label} (hi : f.body[st.frame.next]? = some (.jmpIf cond l)) :
    Alike p literals (st.step p literals) (σ.step p) := by
  have hfit := hp.settings (f := f) hf
  obtain ⟨-, -, -, hbody, hends⟩ := Check.func_eq_nil.1 hfit.passes
  have hmem := List.mem_of_getElem? hi
  have hl : l ∈ f.labels := (Check.body_eq_nil.1 hbody).2.1 _ hmem l rfl
  have hcond : cond.ty = .int := (Check.body_eq_nil.1 hbody).1 _ hmem
  obtain ⟨ws, hvalue, hx⟩ := Reflects.value (δ := st.store) (σ := σ) hfit (hfit.within others)
    ((setting p literals st.frame.func f).has hmem (.head _) (by rw [hcond]; rfl))
  obtain rfl := hr.intWords hx hcond
  have hread : (Lowering.lower (.jmpIf cond l) : Direct Unit) (setting p literals st.frame.func f) st.store
      = (if word [(σ.get p cond).toInt.toUInt64] ≠ 0 then Direct.follow (.goto l) else pure ())
          (setting p literals st.frame.func f) st.store :=
    bind_ok hvalue
  have hword : word [(σ.get p cond).toInt.toUInt64] ≠ 0 ↔ (σ.get p cond).toInt ≠ 0 := by
    rw [not_iff_not]
    exact ⟨fun hzero => congrArg UInt64.toInt64 hzero, fun hzero => by rw [hzero]; rfl⟩
  have hstep := State.step_apply literals hf hi
  rw [hread] at hstep
  have hplain : σ.step p = .next (σ.goto (if (σ.get p cond).toInt ≠ 0 then f.target l else σ.frame.next + 1)) := by
    unfold Plain.State.step
    rw [h.func, hf]
    dsimp only
    rw [h.next, hi]
  rw [hplain]
  by_cases htaken : (σ.get p cond).toInt ≠ 0
  · rw [if_pos (hword.2 htaken)] at hstep
    have hnext : st.step p literals = .next (st.load st.store (f.target l)) := hstep
    rw [if_pos htaken, hnext]
    exact .next (h.stay (τ := σ.goto (f.target l)) hf hwait hnext rfl (Func.target_lt hends hl)
      ⟨hr.context, hr.literal, hr.flow⟩)
  · rw [if_neg (mt hword.1 htaken)] at hstep
    have hnext : st.step p literals = .next (st.load st.store (st.frame.next + 1)) := hstep
    rw [if_neg htaken, hnext, h.next]
    exact .next (h.stay (τ := σ.goto (st.frame.next + 1)) hf hwait hnext rfl (Func.next_lt hends hi rfl)
      ⟨hr.context, hr.literal, hr.flow⟩)

theorem State.Shows.step_call (hdepth : st.below.length < maxFrames) {dst : Reg} {fn : Int} {args : List Reg}
    (hi : f.body[st.frame.next]? = some (.call dst fn args)) : Alike p literals (st.step p literals) (σ.step p) := by
  have hfit := hp.settings (f := f) hf
  have hends := (Check.func_eq_nil.1 hfit.passes).2.2.2.2
  have hmem := List.mem_of_getElem? hi
  obtain ⟨callee, hfunc, htypes, -⟩ : (Instr.call dst fn args).Typed p f.ret := hfit.typed hmem
  have hcallee : p.funcs[fn.toNat]? = some callee := (Program.place_of_func? hfunc).2
  have hfit' := hp.settings (f := callee) hcallee
  have hne : fn.toNat ≠ p.main.toNat := Frame.callee_ne hp.checked hp.uncalled <|
    show st.frame.instr? p = some (.call dst fn args) from
    (by rw [Frame.instr?, hf]; exact hi)
  have hparam : ∀ a ∈ args, a.ty.isIter = false := fun a ha => by
    obtain ⟨r, hr, hty⟩ := List.mem_map.1 (htypes ▸ List.mem_map_of_mem (f := fun r : Reg => r.ty) ha)
    have hstorable := hfit'.storable_param hr
    cases hat : a.ty with
    | iter k => exact absurd (hty.trans hat) (hstorable.2.2 k)
    | _ => rfl
  obtain ⟨wss, hvalues, hreads⟩ := Reflects.values (δ := st.store) (σ := σ) hfit (hfit.within others) (l := args)
    fun a ha => (setting p literals st.frame.func f).has hmem (.tail _ ha) (hparam a ha)
  obtain ⟨xs, hvals, hwords, hxs⟩ := hreads.pairs htypes
  -- For the callee the registers of its caller are among what others own.
  have hargs : List.Forall₂ (fun r x => .reg r.ty x.1 x.2 ∈ p.globals.map (.ofGlobal st.globals σ.store.globals)
      ++ (st.frame.items p f σ.frame ++ others)) callee.params xs := by
    refine ((List.forall₂_and_left ..).2 ⟨fun r hr => (hfit'.storable_param hr).2.1, hxs⟩).imp fun r x hargs => ?_
    obtain ⟨hty, hx⟩ := hargs
    rcases List.mem_cons.1 hx with hnull | hx
    · injection hnull with hnull
      exact absurd hnull hty
    · rcases List.mem_append.1 hx with hx | hx
      · exact List.mem_append_right _ (List.mem_append_left _ hx)
      · rcases List.mem_append.1 hx with hx | hx
        · exact List.mem_append_left _ hx
        · exact List.mem_append_right _ (List.mem_append_right _ hx)
  have hitems : st.context.Reflects literals.toArray σ.store (p.globals.map (.ofGlobal st.globals σ.store.globals)
      ++ (st.frame.items p f σ.frame ++ others)) := by
    have hall := hr.context.uncons (x := .null) rfl
    refine hall.perm ?_
    refine .trans ?_ (List.perm_append_comm_assoc ..)
    exact .refl _
  have hwait' : Waiting p (st.frame :: st.below) ({ σ.frame with next := σ.frame.next + 1 } :: σ.below)
      (st.frame.items p f σ.frame ++ others) :=
    .cons hf h.func (congrArg (· + 1) h.next) h.dst (fun r hr' hl => hr.literal r hr' hl) hwait
  obtain ⟨δ, henter, hδ⟩ := enter_follows hfit' fn.toNat dst ({ σ.frame with next := σ.frame.next + 1 } :: σ.below)
    (isMain_eq_false literals hne) (hwait'.few hp hdepth hcallee) hargs hitems
  rw [hvals] at hδ
  rw [hwords] at henter
  have hlower : (Lowering.lower (.call dst fn args) : Direct Unit) (setting p literals st.frame.func f) st.store
      = (.ok (), { st.store with flow := .call dst fn wss }) := bind_ok hvalues
  have hstep := State.step_apply literals hf hi
  rw [hlower] at hstep
  have hnext : st.step p literals = .next
      ((⟨st.context, st.globals, fresh fn.toNat dst, st.frame :: st.below⟩ : State).load δ 0) := by
    rw [hstep]
    exact State.perform_apply (s := ⟨st.context, st.globals, fresh fn.toNat dst, st.frame :: st.below⟩) hcallee henter
  have hplain : σ.step p = .next ⟨(Plain.State.enter p callee fn.toNat (args.map (σ.get p)) dst σ.store).1,
      (Plain.State.enter p callee fn.toNat (args.map (σ.get p)) dst σ.store).2,
      { σ.frame with next := σ.frame.next + 1 } :: σ.below⟩ := by
    unfold Plain.State.step
    rw [h.func, hf]
    dsimp only
    rw [h.next, hi]
    dsimp only
    rw [hfunc]
  rw [hnext, hplain]
  have hpos : 0 < callee.body.length := by
    obtain ⟨last, hlast, -⟩ := (Check.func_eq_nil.1 hfit'.passes).2.2.2.2
    exact List.length_pos_of_mem (List.mem_of_getLast? hlast)
  refine .next ⟨h.chain.step hnext, rfl, rfl, rfl, callee, _, hcallee, hpos, hwait', ?_⟩
  rw [State.store_load hδ.flow]
  exact hδ

theorem State.Shows.step_ret (hdepth : st.below.length ≤ maxFrames) {src : Reg}
    (hi : f.body[st.frame.next]? = some (.ret src)) :
    Alike p literals (st.step p literals) (σ.step p) := by
  have hfit := hp.settings (f := f) hf
  have hmem := List.mem_of_getElem? hi
  have hsrc : src.ty = .null ∨ src.ty = f.ret := hfit.typed hmem
  have hiter : src.ty.isIter = false := by
    obtain ⟨-, hret⟩ := (Check.func_eq_nil.1 hfit.passes).2.1
    rcases hsrc with hty | hty
    · rw [hty]; rfl
    · cases hk : src.ty with
      | iter k => exact absurd (hty.symm.trans hk) (hret k)
      | _ => rfl
  obtain ⟨x, s, hresult⟩ : ∃ x s, Plain.State.result p f σ src = (x, s) := ⟨_, _, rfl⟩
  obtain ⟨ws, δ, hresults, hδ⟩ := results_follows hfit (hwait.few hp hdepth hf) hr hsrc
    ((setting p literals st.frame.func f).has hmem (.head _) hiter) hresult
  have hstep := State.step_apply literals hf hi
  have hlower : (Lowering.lower (.ret src) : Direct Unit) (setting p literals st.frame.func f) st.store
      = (.ok (), { δ with flow := .back ws }) := by
    show Direct.ret src _ _ = _
    rw [ret_eq]
    exact bind_ok hresults
  rw [hlower] at hstep
  have hplain := Plain.State.step_ret (h.func ▸ hf) (h.next ▸ hi) hresult
  have hchain := h.chain
  generalize hbelow : st.below = below at hwait hchain
  generalize σ.below = pbelow at hwait hplain
  cases hwait with
  | nil =>
    -- Only the main function has nobody below it.
    obtain hmain : st.frame.func = p.main.toNat := by cases hchain; assumption
    have hend : st.step p literals = .ended (.done ws δ.context) := by
      rw [hstep]
      simp only [State.follow, State.load, hbelow]
    have hisMain : (setting p literals st.frame.func f).scope.isMain = true := by
      obtain ⟨main, hfunc, -⟩ := (Check.check_eq_nil.1 hp.checked).1
      have hpos : 0 ≤ p.main := (Program.place_of_func? hfunc).1
      exact decide_eq_true (by omega)
    rw [hisMain] at hδ
    rw [hend, hplain]
    exact .ended (.done (hmain ▸ hf) hδ)
  | @cons g fr pf frs pfs items hg hfunc hnext hdst hliteral hrest =>
    have hne := hchain.func_ne hp.checked hp.uncalled
    rw [isMain_eq_false literals hne] at hδ
    cases hchain with
    | @call _ _ _ fn args hinstr hcallee hbelow' =>
    have hcall : g.body[fr.next]? = some (.call st.frame.dst fn args) := by rwa [Frame.instr?, hg] at hinstr
    have hfit' := hp.settings (f := g) hg
    have hmem' := List.mem_of_getElem? hcall
    obtain ⟨callee, hfunc?, -, hty⟩ : (Instr.call st.frame.dst fn args).Typed p g.ret := hfit'.typed hmem'
    obtain rfl : callee = f := by
      rw [hcallee, (Program.place_of_func? hfunc?).2] at hf
      exact Option.some.inj hf
    obtain ⟨caller, hcaller⟩ : ∃ caller : State, caller = ⟨δ.context, δ.globals, fr, frs⟩ := ⟨_, rfl⟩
    have hreflects : Reflects (setting p literals fr.func g) ((setting p literals fr.func g).holdings items)
        (Item.result callee.ret x ws) caller.store { store := s, frame := pf, below := pfs } := by
      rw [hcaller]
      refine ⟨hδ.perm (.append_left _ (.cons _ ?_)), fun r hr' hl => hliteral r hr' hl, rfl⟩
      exact List.perm_append_comm_assoc ..
    have hhas : ((setting p literals fr.func g).holdings items).Has st.frame.dst := by
      refine (setting p literals fr.func g).has hmem' (.head _) ?_
      rcases hty with hty | hty
      · rw [hty]; rfl
      · obtain ⟨-, hret⟩ := (Check.func_eq_nil.1 hfit.passes).2.1
        cases hk : st.frame.dst.ty with
        | iter k => exact absurd (hty.symm.trans hk) (hret k)
        | _ => rfl
    obtain ⟨δ', hresume, hδ'⟩ := hreflects.resume hfit' (hfit'.within items) hty hhas
      (Func.holdsLiterals_eq_false hmem' [st.frame.dst] rfl (.head _) rfl)
    have hnext' : st.step p literals = .next (caller.load δ' (fr.next + 1)) := by
      rw [hstep]
      subst hcaller
      simp only [State.follow, State.load, hbelow]
      exact State.perform_apply (s := ⟨δ.context, δ.globals, fr, frs⟩) hg hresume
    rw [hnext', hplain]
    dsimp only
    have hsite := Plain.State.site_set (p := p) (σ := { store := s, frame := pf, below := pfs }) σ.frame.dst x
    simp only [Plain.State.site, Prod.mk.injEq] at hsite
    subst hcaller
    refine .next ⟨h.chain.step hnext', hsite.1.trans hfunc, hsite.2.1.trans hnext, hsite.2.2.1.trans hdst, g, items, hg,
      Func.next_lt (Check.func_eq_nil.1 hfit'.passes).2.2.2.2 hcall rfl, ?_, ?_⟩
    · rw [hsite.2.2.2]
      exact hrest
    · rw [State.store_load hδ'.flow, h.dst]
      exact hδ'

end

theorem State.Shows.step (h : st.Shows p literals σ) (hdepth : st.below.length < maxFrames) :
    Alike p literals (st.step p literals) (σ.step p) := by
  obtain ⟨f, others, hf, hlt, hwait, hr⟩ := h.stands
  obtain ⟨i, hi⟩ : ∃ i, f.body[st.frame.next]? = some i := ⟨_, List.getElem?_eq_getElem hlt⟩
  cases hgo : i.goesOn with
  | true => exact h.step_on hp hf hwait hr (Nat.le_of_lt hdepth) hi hgo
  | false =>
    cases i with
    | jmp => exact h.step_jmp hp hf hwait hr hi
    | jmpIf => exact h.step_jmpIf hp hf hwait hr hi
    | call => exact h.step_call hp hf hwait hr hdepth hi
    | ret => exact h.step_ret hp hf hwait hr (Nat.le_of_lt hdepth) hi
    | _ => cases hgo

/-! ## Whole runs -/

theorem start_shows {main : Func} (hmain : p.func? p.main = some main) {o : Settings} (ho : o.literals = literals)
    (world : World) :
    ∃ st, start p literals (Context.ofSettings o world) = .next st
      ∧ st.Shows p literals (Plain.State.start p main o world) := by
  obtain ⟨main', hmain', hparams⟩ := (Check.check_eq_nil.1 hp.checked).1
  obtain rfl : main = main' := Option.some.inj (hmain.symm.trans hmain')
  obtain ⟨hpos, hf⟩ := Program.place_of_func? hmain
  have hfit := hp.settings hf
  have hcontext : (Context.ofSettings o world).Reflects literals.toArray (.ofSettings o world) [] := ho ▸ .start o world
  have hwait : Waiting p [] [] [] := .nil
  obtain ⟨δ, henter, hδ⟩ := enter_main (e := setting p literals p.main.toNat main) hfit .null p.main.toNat
    (decide_eq_true (by omega)) hparams (hwait.few hp (Nat.zero_le _) hf) rfl hcontext
  have hstart : start p literals (Context.ofSettings o world)
      = .next ((⟨Context.ofSettings o world, blank, fresh p.main.toNat .null, []⟩ : State).load δ 0) :=
    State.perform_apply (s := ⟨Context.ofSettings o world, blank, fresh p.main.toNat .null, []⟩) hf henter
  have hlen : 0 < main.body.length := by
    obtain ⟨last, hlast, -⟩ := (Check.func_eq_nil.1 hfit.passes).2.2.2.2
    exact List.length_pos_of_mem (List.mem_of_getLast? hlast)
  refine ⟨_, hstart, ⟨.main rfl, rfl, rfl, rfl, main, [], hf, hlen, hwait, ?_⟩⟩
  rw [State.store_load (hδ _ _ rfl).flow]
  exact hδ _ _ rfl

end

end Direct

end RecordMill

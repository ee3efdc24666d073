import RecordMill.Proofs.Plain.Compiled
import RecordMill.Proofs.Plain.KeyLists
import RecordMill.Proofs.Samples.Outputs

/-!
# Iteration over a snapshot

Main statement: `Program.iterators_visit_snapshots`. An iterator goes through the keys that its map had when it was
begun, one at each step and in ascending order, whatever becomes of the map meanwhile. The machine does so too, and
releases the keys when the iterator is begun anew.
-/

namespace RecordMill

namespace Plain

/-! ## Cursors -/

namespace Cursor

variable {k : Key} {items : List k.Carrier} {n : Nat}

def after (t : Table) (n : Nat) : Cursor := { ofTable t with position := Int64.ofNat n }

@[simp] theorem after_zero (t : Table) : after t 0 = .ofTable t := rfl

@[simp] theorem advance_after (t : Table) (n : Nat) : (after t n).advance = after t (n + 1) := by
  rw [advance, after, after, Int64.ofNat_add]
  rfl

theorem hasNext_after {t : Table} (hn : n < 2 ^ 63) (hsize : t.entries.keys.length < 2 ^ 63) :
    (after t n).hasNext = decide (n < t.entries.keys.length) := by
  have hposition : (Int64.ofNat n).toInt = n := Int64.toInt_ofNat_of_lt (by omega)
  have hlength : (Int64.ofNat t.entries.keys.length).toInt = t.entries.keys.length := Int64.toInt_ofNat_of_lt hsize
  rw [hasNext, decide_eq_decide, Int64.lt_iff_toInt_lt]
  show (Int64.ofNat n).toInt < (Int64.ofNat t.entries.keys.length).toInt ↔ _
  rw [hposition, hlength, Int.ofNat_lt]

theorem current_after {t : Table} (hn : n < 2 ^ 63) :
    (after t n).current = ofKey t.key ((t.entries.keys[n]?).getD t.key.zero) := by
  have hposition : (Int64.ofNat n).toInt = n := Int64.toInt_ofNat_of_lt (by omega)
  have hnot : ¬Int64.ofNat n < 0 := by
    rw [Int64.lt_iff_toInt_lt, hposition]
    exact Int.not_lt.2 (Int.natCast_nonneg _)
  rw [current]
  show ofKey t.key
    (if Int64.ofNat n < 0 then t.key.zero else (t.entries.keys[(Int64.ofNat n).toNatClampNeg]?).getD t.key.zero) = _
  rw [if_neg hnot, Int64.toNatClampNeg_ofNat_of_lt (by omega)]

end Cursor

/-! ## Activations -/

def Frame.instr? (p : Program) (fr : Frame) : Option Instr := (p.funcs[fr.func]?).bind (·.body[fr.next]?)

namespace State

variable {p : Program} {σ τ υ : State} {it : Reg} {n depth : Nat}

/-- The cursor that an iterator has in the activation with so many others below it. -/
def cursor? (σ : State) (depth : Nat) (it : Reg) :
    Option Cursor := ((σ.frame :: σ.below).reverse[depth]?).bind (·.cursors it)

theorem cursor?_top (σ : State) (it : Reg) : σ.cursor? σ.below.length it = σ.frame.cursors it := by
  simp [cursor?]

theorem cursor?_below (h : depth < σ.below.length) (it : Reg) :
    σ.cursor? depth it = (σ.below.reverse[depth]?).bind (·.cursors it) := by
  rw [cursor?, List.reverse_cons, List.getElem?_append_left (by rwa [List.length_reverse])]

theorem cursor?_congr (hbelow : τ.below = σ.below)
    (htop : depth = σ.below.length → τ.frame.cursors it = σ.frame.cursors it) (hle : depth ≤ σ.below.length) :
    τ.cursor? depth it = σ.cursor? depth it := by
  rcases Nat.lt_or_eq_of_le hle with hlt | rfl
  · rw [cursor?_below hlt, cursor?_below (hbelow ▸ hlt), hbelow]
  · rw [cursor?_top, ← hbelow, cursor?_top, htop rfl]

@[simp] theorem cursors_set (r : Reg) (v : Val) : (σ.set p r v).frame.cursors = σ.frame.cursors := by
  unfold set
  split
  · rfl
  · split <;> rfl

theorem get_set {r : Reg} (hr : r.isNull = false) (v : Val) : (σ.set p r v).get p r = v := by
  unfold set get
  rw [hr]
  split <;> simp_all

theorem cursors_exec {i : Instr} (h : σ.exec p i = .ok τ) (hbegin : ∀ m, i ≠ .iterBegin it m)
    (hnext : ∀ d, i ≠ .iterGetNext d it) :
    τ.frame.cursors it = σ.frame.cursors it := by
  cases i <;> simp only [exec] at h
  case iterBegin u m =>
    cases h
    exact if_neg fun e : it = u => hbegin m (e ▸ rfl)
  case iterGetNext d u =>
    split at h <;> cases h
    rw [cursors_set]
    exact if_neg fun e : it = u => hnext d (e ▸ rfl)
  case arith =>
    split at h
    · cases h
      rw [cursors_set]
    · split at h <;> cases h
      rw [cursors_set]
  all_goals first
    | cases h; simp [withStore]
    | split at h <;> cases h <;> simp [withStore]

theorem step_eq_next_of_goesOn {f : Func} {i : Instr} (hf : p.funcs[σ.frame.func]? = some f)
    (hi : f.body[σ.frame.next]? = some i) (hgo : i.goesOn) (hstep : σ.step p = .next τ) :
    τ.below = σ.below ∧ ∃ υ, σ.exec p i = .ok υ ∧ τ.frame.cursors = υ.frame.cursors := by
  rw [step_exec hf hi hgo] at hstep
  split at hstep
  · next υ hexec =>
    cases hstep
    have hsite := site_exec hexec
    simp only [site, Prod.mk.injEq] at hsite
    exact ⟨hsite.2.2.2, υ, hexec, rfl⟩
  · cases hstep

/-- An iterator of an activation that is still there has the cursor it had, if that activation has not used it. -/
theorem cursor?_step (hstep : σ.step p = .next τ) (hle : depth ≤ σ.below.length) (hstays : depth ≤ τ.below.length)
    (hbegin : σ.below.length = depth → ∀ m, σ.frame.instr? p ≠ some (.iterBegin it m))
    (hnext : σ.below.length = depth → ∀ d, σ.frame.instr? p ≠ some (.iterGetNext d it)) :
    τ.cursor? depth it = σ.cursor? depth it := by
  obtain ⟨f, hf⟩ : ∃ f, p.funcs[σ.frame.func]? = some f := by
    refine Option.ne_none_iff_exists'.1 fun hnone => ?_
    simp [step, hnone] at hstep
  obtain ⟨i, hi⟩ : ∃ i, f.body[σ.frame.next]? = some i := by
    refine Option.ne_none_iff_exists'.1 fun hnone => ?_
    simp [step, hf, hnone] at hstep
  have hinstr : σ.frame.instr? p = some i := Option.bind_eq_some_iff.2 ⟨f, hf, hi⟩
  cases hgo : i.goesOn with
  | true =>
    obtain ⟨hbelow, υ, hexec, hcursors⟩ := step_eq_next_of_goesOn hf hi hgo hstep
    refine cursor?_congr hbelow (fun htop => ?_) hle
    rw [hcursors]
    exact cursors_exec hexec (fun m e => hbegin htop.symm m (e ▸ hinstr)) fun d e => hnext htop.symm d (e ▸ hinstr)
  | false =>
    unfold step at hstep
    rw [hf] at hstep
    dsimp only at hstep
    rewrite [hi] at hstep
    cases i with
    | jmp | jmpIf =>
      cases hstep
      exact cursor?_congr rfl (fun _ => rfl) hle
    | call dst fn args =>
      dsimp only at hstep
      split at hstep <;> cases hstep
      -- The activation that called waits as it was.
      rw [cursor?_below (Nat.lt_succ_of_le hle), cursor?]
      rcases Nat.lt_or_eq_of_le hle with hlt | rfl
      · simp [List.getElem?_append_left, hlt]
      · simp
    | ret r =>
      dsimp only at hstep
      cases hbelow : σ.below with
      | nil =>
        rw [hbelow] at hstep
        cases hstep
      | cons frame below =>
        rw [hbelow] at hstep
        cases hstep
        -- The one that waited goes on.
        have hlength : σ.below.length = below.length + 1 := by rw [hbelow]; rfl
        have hsite := site_set (p := p) (σ := { store := (result p f σ r).2, frame, below }) σ.frame.dst
          (result p f σ r).1
        simp only [site, Prod.mk.injEq] at hsite
        rw [hsite.2.2.2] at hstays
        have hrest : depth < σ.below.length := hlength ▸ Nat.lt_succ_of_le hstays
        rw [cursor?_congr hsite.2.2.2 (fun _ => congrFun (cursors_set ..) it) hstays, cursor?_below hrest, hbelow]
        rfl
    | _ => cases hgo

theorem step_of_exec {i : Instr} (hi : σ.frame.instr? p = some i) (hgo : i.goesOn) (hexec : σ.exec p i = .ok τ) :
    σ.step p = .next (τ.goto (σ.frame.next + 1)) := by
  obtain ⟨f, hf, hbody⟩ := Option.bind_eq_some_iff.1 hi
  rw [step_exec hf hbody hgo, hexec]

theorem step_iterBegin {m : Reg} (hi : σ.frame.instr? p = some (.iterBegin it m)) :
    σ.step p = .next ((σ.setCursor it (.ofTable (σ.store.table (σ.get p m)))).goto (σ.frame.next + 1)) :=
      step_of_exec hi rfl rfl

theorem step_iterGetNext {d : Reg} {c : Cursor} (hi : σ.frame.instr? p = some (.iterGetNext d it))
    (hc : σ.frame.cursors it = some c) :
    σ.step p = .next (((σ.setCursor it c.advance).set p d c.current).goto (σ.frame.next + 1)) :=
  step_of_exec hi rfl (by simp only [exec, hc])

theorem step_iterHasNext {d : Reg} {c : Cursor} (hi : σ.frame.instr? p = some (.iterHasNext d it))
    (hc : σ.frame.cursors it = some c) :
    σ.step p = .next ((σ.set p d (.ofBool c.hasNext)).goto (σ.frame.next + 1)) :=
  step_of_exec hi rfl (by simp only [exec, hc])

/-! ## Steps of an activation -/

/-- From `σ` the run comes to a state in which the activation with `depth` others below it is still there. That
activation has not begun the iterator meanwhile, and has taken so many steps with it. -/
inductive Takes (p : Program) (it : Reg) (depth : Nat) (σ : State) : Nat → State → Prop
  | start : depth ≤ σ.below.length → Takes p it depth σ 0 σ
  | other {n : Nat} {τ υ : State} : Takes p it depth σ n τ → τ.step p = .next υ → depth ≤ υ.below.length →
      (τ.below.length = depth → ∀ m, τ.frame.instr? p ≠ some (.iterBegin it m)) →
      (τ.below.length = depth → ∀ d, τ.frame.instr? p ≠ some (.iterGetNext d it)) → Takes p it depth σ n υ
  | next {n : Nat} {τ υ : State} {d : Reg} : Takes p it depth σ n τ → τ.step p = .next υ → τ.below.length = depth →
      τ.frame.instr? p = some (.iterGetNext d it) → Takes p it depth σ (n + 1) υ

theorem Takes.cursor? (h : Takes p it depth σ n τ) {t : Table} (hc : σ.cursor? depth it = some (.after t 0)) :
    τ.cursor? depth it = some (.after t n) ∧ depth ≤ τ.below.length := by
  induction h with
  | start hle => exact ⟨hc, hle⟩
  | other _ hstep hstays hbegin hnext ih =>
    obtain ⟨hcursor, hle⟩ := ih
    exact ⟨(cursor?_step hstep hle hstays hbegin hnext).trans hcursor, hstays⟩
  | @next n τ υ d _ hstep hdepth hi ih =>
    obtain ⟨hcursor, -⟩ := ih
    rw [← hdepth, cursor?_top] at hcursor
    rw [step_iterGetNext hi hcursor] at hstep
    cases hstep
    have hsite := site_set (p := p) (σ := τ.setCursor it (Cursor.after t n).advance) d (Cursor.after t n).current
    simp only [site, Prod.mk.injEq] at hsite
    have hbelow : (((τ.setCursor it (Cursor.after t n).advance).set p d (Cursor.after t n).current).goto
        (τ.frame.next + 1)).below = τ.below :=
      hsite.2.2.2
    refine ⟨?_, by rw [hbelow, hdepth]⟩
    rw [← hdepth, ← hbelow, cursor?_top, ← Cursor.advance_after]
    refine (congrFun (cursors_set (σ := τ.setCursor it (Cursor.after t n).advance) ..) it).trans ?_
    exact if_pos rfl

/-- An iterator that has taken `n` steps over `keys`: the instructions that take one more step and that ask for one. -/
structure Iterates (p : Program) (it : Reg) {k : Key} (keys : List k.Carrier) (n : Nat) (τ : State) : Prop where
  hasNext : ∀ d, τ.frame.instr? p = some (.iterHasNext d it) → ∃ υ, τ.step p = .next υ
    ∧ υ.get p d = .ofBool (n < keys.length)
  getNext : ∀ d, τ.frame.instr? p = some (.iterGetNext d it) → ∃ υ, τ.step p = .next υ
    ∧ υ.get p d = ofKey k ((keys[n]?).getD k.zero)

theorem Iterates.of_cursor (hp : p.check = []) {t : Table} (hc : τ.frame.cursors it = some (.after t n))
    (hn : n < 2 ^ 63) (hsize : t.entries.keys.length < 2 ^ 63) : Iterates p it t.entries.keys n τ := by
  have htyped : ∀ i, τ.frame.instr? p = some i → ∃ f ∈ p.funcs, i.Typed p f.ret := fun i hi => by
    obtain ⟨f, hf, hbody⟩ := Option.bind_eq_some_iff.1 hi
    have hpasses := (Check.check_eq_nil.1 hp).2.2 f (List.mem_of_getElem? hf)
    exact ⟨f, List.mem_of_getElem? hf,
      (Check.body_eq_nil.1 (Check.func_eq_nil.1 hpasses).2.2.2.1).1 i (List.mem_of_getElem? hbody)⟩
  constructor
  · intro d hi
    obtain ⟨f, -, hd, -⟩ := htyped _ hi
    refine ⟨_, step_iterHasNext hi hc, ?_⟩
    rw [Cursor.hasNext_after hn hsize]
    exact get_set (by rw [Reg.isNull, hd]; rfl) _
  · intro d hi
    obtain ⟨f, -, k, -, hd⟩ := htyped _ hi
    refine ⟨_, step_iterGetNext hi hc, ?_⟩
    rw [Cursor.current_after hn]
    exact get_set (by rw [Reg.isNull, hd]; cases k <;> rfl) _

/-- However the run goes on after an iterator was begun, its steps go through the keys that the map had then. -/
theorem Takes.iterates (hp : p.check = []) {m : Reg} (hi : σ.frame.instr? p = some (.iterBegin it m))
    (hstep : σ.step p = .next τ) (h : Takes p it σ.below.length τ n υ) (hdepth : υ.below.length = σ.below.length)
    (hn : n < 2 ^ 63) (hsize : (σ.store.table (σ.get p m)).entries.keys.length < 2 ^ 63) :
    Iterates p it (σ.store.table (σ.get p m)).entries.keys n υ := by
  rw [step_iterBegin hi] at hstep
  cases hstep
  obtain ⟨hcursor, -⟩ := h.cursor? (t := σ.store.table (σ.get p m)) ((cursor?_top ..).trans (if_pos rfl))
  rw [← hdepth, cursor?_top] at hcursor
  exact .of_cursor hp hcursor hn hsize

end State

theorem keyOf_ofKey (k : Key) (key : k.Carrier) : keyOf k (ofKey k key) = key := by
  cases k <;> rfl

theorem Table.keys_spec (t : Table) : t.entries.keys.Pairwise (compare · · = .lt)
    ∧ ∀ key, t.contains (ofKey t.key key) ↔ key ∈ t.entries.keys := by
  refine ⟨Std.ExtTreeMap.ordered_keys, fun key => ?_⟩
  rw [contains, keyOf_ofKey, Std.ExtTreeMap.mem_keys, Std.ExtTreeMap.mem_iff_contains]

end Plain

/-! ## Runs -/

namespace Direct

variable {p : Program} {literals : List Bytes} {st st' : State} {n : Nat} {main : Func} {o : Settings} {world : World}

/-- While no more activations wait than there is room for, the direct run is where the plain run is. -/
theorem Passes.shows_plain (hp : p.Fit literals) (hmain : p.func? p.main = some main) (ho : o.literals = literals)
    (h : Passes p literals (Context.ofSettings o world) n st)
    (hdepth : ∀ k < n, ∀ t, Passes p literals (Context.ofSettings o world) k t → t.below.length < maxFrames) :
    ∃ σ, Plain.Passes p main o world n σ ∧ st.Shows p literals σ ∧ st.Lone p := by
  induction n generalizing st with
  | zero =>
    obtain ⟨first, hstart, hfirst⟩ := start_shows hp hmain ho world
    have hst := passes_zero.1 h
    rw [hstart] at hst
    cases hst
    refine ⟨_, rfl, hfirst, fun a ha => ?_⟩
    -- Nothing was begun yet.
    obtain ⟨f, δ, hf, henter, rfl⟩ := State.perform_eq_next hstart
    have hzero : δ.keys = fun _ => 0 := funext fun r => (enter_spares henter).keys r List.not_mem_nil
    refine Nat.le_trans (Nat.le_of_eq (List.count_eq_zero.2 fun hmem => ?_)) (Nat.zero_le 1)
    obtain ⟨fr, hfr, hmem⟩ := List.mem_flatMap.1 hmem
    rw [Frame.lists] at hmem
    obtain rfl := List.mem_singleton.1 hfr
    split at hmem
    · obtain ⟨r, -, hr⟩ := List.mem_map.1 hmem
      exact ha (hr.symm.trans (congrFun hzero r))
    · cases hmem
  | succ n ih =>
    obtain ⟨before, hbefore, hstep⟩ := passes_succ.1 h
    obtain ⟨σ, hσ, hshows, hlone⟩ := ih hbefore fun k hk => hdepth k (Nat.lt_succ_of_lt hk)
    have halike := hshows.step hp (hdepth n (Nat.lt_succ_self n) before hbefore)
    rw [hstep] at halike
    generalize hplain : σ.step p = turn at halike
    cases halike with
    | next hτ => exact ⟨_, hσ.step hplain, hτ, hlone.step hshows hstep⟩

/-- A state that begins an iterator anew gives back its old list of keys. -/
def State.Releases (p : Program) (literals : List Bytes) (st : State) (σ : Plain.State) : Prop :=
  ∀ it m c st', σ.frame.instr? p = some (.iterBegin it m) → σ.frame.cursors it = some c →
    st.step p literals = .next st' →
    st.context.heap.count (st.frame.keys it) = 1 ∧ st'.context.heap.count (st.frame.keys it) = 0

theorem State.Shows.releases {σ : Plain.State} (hp : p.Fit literals) (h : st.Shows p literals σ) (hlone : st.Lone p) :
    st.Releases p literals σ := by
  intro it m c st' hi hc hstep
  have hinstr : st.frame.instr? p = some (.iterBegin it m) := by
    rw [← hi, Frame.instr?, Plain.Frame.instr?, h.func, h.next]
  obtain ⟨f, hf, hbody⟩ := Option.bind_eq_some_iff.1 hinstr
  have hfit := hp.settings hf
  obtain ⟨k, v, -, hty⟩ := hfit.typed (List.mem_of_getElem? hbody)
  have hlocal := (setting p literals st.frame.func f).mem_locals_of_iter hfit (List.mem_of_getElem? hbody) (.head _) hty
  exact h.released hlone hf hlocal hty hc hinstr hstep

end Direct

theorem Plan.Stands.host {P : Plan} {st : Direct.State} {mst : Machine.State Context} (h : P.Stands st mst) :
    mst.outside.host = st.context ∧ st.below.length < Direct.maxFrames := by
  obtain ⟨cst, hst, hshows⟩ := h
  have hdepth := hshows.depth
  obtain ⟨area, out, fr, below, rfl, hgo⟩ := hshows
  cases hst
  exact ⟨hgo.sound.host, hdepth⟩

/-- Between instructions the machine is in the states of the direct run, and those have the values of the plain run. -/
theorem Plan.Sound.mirrors_plain {P : Plan} (h : P.Sound) (hfit : P.program.Fit P.code.literals) {main : Func}
    (hmain : P.program.func? P.program.main = some main) {o : Settings} (ho : o.literals = P.code.literals)
    {world : World} {stackWords : Int64} {inst : Machine.Instance Service Context}
    (hinst : Machine.Instance.ofModule P.code.module (Context.ofSettings o world) stackWords = .ok inst) {n : Nat}
    {mst : Machine.State Context} (hn : P.Passes inst.outside n mst) : P.Amid mst ∨ ∃ k st σ,
      Direct.Passes P.program P.code.literals inst.outside.host k st ∧ P.Stands st mst ∧ mst.outside.host = st.context
        ∧ Plain.Passes P.program main o world k σ ∧ st.Shows P.program P.code.literals σ ∧ st.Lone P.program := by
  have hhost : inst.outside.host = Context.ofSettings o world := (h.starts hinst).1
  rcases h.mirrors hinst hn with hamid | ⟨k, st, hst, hstands, hbefore⟩
  · exact .inl hamid
  · rw [hhost] at hst hbefore
    obtain ⟨σ, hσ, hshows, hlone⟩ := hst.shows_plain hfit hmain ho fun j hj t ht => by
      obtain ⟨-, -, mst', -, hstands'⟩ := hbefore j hj t ht
      exact hstands'.host.2
    exact .inr ⟨k, st, σ, hhost ▸ hst, hstands, hstands.host.1, hσ, hshows, hlone⟩

/-- An iterator goes through the keys that its map had when it was begun. Between instructions, the machine has the
values of the plain run. There the steps that an activation takes with an iterator go through those keys, until it is
begun anew; what else the run does, to the map or to other iterators, does not matter. The old list of keys is given
back then. -/
theorem Program.iterators_visit_snapshots {p : Program} (hp : p.check = []) (hr : p.Regular) (hsized : p.Sized)
    {x : Executable} (hx : p.compile = .ok x) (hl : p.LiteralsFit x.literals) {main : Func}
    (hmain : p.func? p.main = some main) {o : Settings} (ho : o.literals = x.literals) {world : World}
    {stackWords : Int64} {inst : Machine.Instance Service Context}
    (hinst : Machine.Instance.ofModule x.module (Context.ofSettings o world) stackWords = .ok inst) :
    (∃ P : Plan, P.Sound ∧ P.program = p ∧ P.code = x ∧ P.Mirrors inst.outside
      ∧ ∀ n mst, P.Passes inst.outside n mst → P.Amid mst ∨ ∃ k st σ, Direct.Passes p x.literals inst.outside.host k st
      ∧ P.Stands st mst
        ∧ mst.outside.host = st.context ∧ Plain.Passes p main o world k σ ∧ st.Shows p x.literals σ
          ∧ st.Releases p x.literals σ)
    ∧ ∀ j σ it m, Plain.Passes p main o world j σ → σ.frame.instr? p = some (.iterBegin it m) →
      let t := σ.store.table (σ.get p m)
      t.entries.keys.Pairwise (compare · · = .lt) ∧ (∀ key, t.contains (Plain.ofKey t.key key) ↔ key ∈ t.entries.keys)
        ∧ ∃ σ', Plain.Passes p main o world (j + 1) σ' ∧ ∀ n τ, Plain.State.Takes p it σ.below.length σ' n τ →
          τ.below.length = σ.below.length → n < 2 ^ 63 → t.entries.keys.length < 2 ^ 63 →
              τ.Iterates p it t.entries.keys n := by
  refine ⟨?_, fun j σ it m hpass hi => ?_⟩
  · obtain ⟨P, hP, rfl, rfl⟩ := Plan.exists_of_compile hp hsized hx
    have hfit := hP.fit hr hl
    refine ⟨P, hP, rfl, rfl, hP.mirrors hinst, fun n mst hn => (hP.mirrors_plain hfit hmain ho hinst hn).imp_right ?_⟩
    rintro ⟨k, st, σ, hst, hstands, hhost, hσ, hshows, hlone⟩
    exact ⟨k, st, σ, hst, hstands, hhost, hσ, hshows, hshows.releases hfit hlone⟩
  · intro t
    have hstep := Plain.State.step_iterBegin hi
    obtain ⟨hsorted, hmem⟩ := t.keys_spec
    exact ⟨hsorted, hmem, _, hpass.step hstep, fun n τ h hdepth hn hsize => h.iterates hp hi hstep hdepth hn hsize⟩

/-- A program that deletes the only key of a map, by its other name, before it takes a step with the iterator. -/
def Program.emptying : Program where
  funcs := [{
    name := "main", ret := .null
    body := [.constInt ⟨1, .int⟩ 5, .store ⟨2, .map .int .int⟩ ⟨1, .int⟩ ⟨1, .int⟩,
      .mov ⟨3, .map .int .int⟩ ⟨2, .map .int .int⟩,
      .iterBegin ⟨4, .iter .int⟩ ⟨2, .map .int .int⟩, .delete ⟨3, .map .int .int⟩ ⟨1, .int⟩,
        .iterGetNext ⟨5, .int⟩ ⟨4, .iter .int⟩,
      .ret ⟨0, .null⟩] }]

theorem Program.keys_five : ((Plain.Table.empty .int .int).insert (.int 5) (.int 5)).entries.keys = [(5 : Int64)] := by
  show ((∅ : Entries .int .int).insert (5 : Int64) (5 : Int64)).keys = [5]
  decide +kernel

/-- The states before the iterator is begun, before the key is deleted and before the step. -/
theorem Program.passes_emptying (literals : List Bytes) : ∃ σ σ₁ τ : Plain.State,
    Plain.Passes emptying (emptying.funcs.head (by decide)) { literals } {} 3 σ
      ∧ Plain.Passes emptying (emptying.funcs.head (by decide)) { literals } {} 4 σ₁ ∧ σ₁.step emptying = .next τ
      ∧ σ.frame.instr? emptying = some (.iterBegin ⟨4, .iter .int⟩ ⟨2, .map .int .int⟩)
      ∧ σ₁.frame.instr? emptying = some (.delete ⟨3, .map .int .int⟩ ⟨1, .int⟩)
      ∧ τ.frame.instr? emptying = some (.iterGetNext ⟨5, .int⟩ ⟨4, .iter .int⟩) ∧ σ.below = [] ∧ τ.below = []
      ∧ σ.store.table (σ.get emptying ⟨2, .map .int .int⟩) = (Plain.Table.empty .int .int).insert (.int 5) (.int 5)
      ∧ (τ.store.table (τ.get emptying ⟨2, .map .int .int⟩)).contains (.int 5) = false := by
  refine ⟨_, _, _, rfl, rfl, rfl, rfl, rfl, rfl, rfl, rfl, rfl, ?_⟩
  show (((∅ : Entries .int .int).insert (5 : Int64) (5 : Int64)).erase (5 : Int64)).contains (5 : Int64) = false
  decide +kernel

/-- The key is there all the same. -/
theorem Program.iterators_visit_snapshots_emptied :
    ∃ x inst main, emptying.check = [] ∧ emptying.Regular ∧ emptying.Sized
    ∧ emptying.compile = .ok x ∧ emptying.LiteralsFit x.literals ∧ emptying.func? emptying.main = some main
    ∧ Machine.Instance.ofModule x.module (Context.ofSettings { literals := x.literals } {}) 0 = .ok inst
    ∧ ∃ τ υ, Plain.Passes emptying main { literals := x.literals } {} 5 τ
      ∧ (τ.store.table (τ.get emptying ⟨2, .map .int .int⟩)).contains (.int 5) = false
      ∧ τ.step emptying = .next υ ∧ υ.get emptying ⟨5, .int⟩ = .int 5 := by
  have hmodest : emptying.Modest (fun _ => 0) 64 := by constructor <;> decide +kernel
  obtain ⟨x, hx⟩ := hmodest.exists_bounded
  obtain ⟨P, hP, hprogram, rfl⟩ := Plan.exists_of_compile hx.checked hx.sized hx.compiles
  obtain ⟨inst, hinst⟩ := hP.exists_instance (by rw [hprogram]; decide +kernel)
    (Context.ofSettings { literals := P.code.literals } {})
  obtain ⟨-, hvisits⟩ := iterators_visit_snapshots hx.checked hx.regular hx.sized hx.compiles hx.literals
    (show emptying.func? emptying.main = some (emptying.funcs.head (by decide)) from rfl) rfl hinst
  obtain ⟨σ, σ₁, τ, hσ, hσ₁, hτ, hbegin, hdelete, hnext, hbelow, hbelow', htable, hgone⟩ :=
    passes_emptying P.code.literals
  obtain ⟨-, -, σ', hσ', hiterates⟩ := hvisits 3 σ _ _ hσ hbegin
  obtain rfl : σ₁ = σ' := Turn.next.inj (hσ₁.symm.trans hσ')
  rw [hbelow, htable, keys_five] at hiterates
  have htakes : Plain.State.Takes emptying ⟨4, .iter .int⟩ 0 σ₁ 0 τ := by
    refine .other (.start (Nat.zero_le _)) hτ (Nat.zero_le _) (fun _ m hm => ?_) fun _ d hd => ?_
    · cases hdelete.symm.trans hm
    · cases hdelete.symm.trans hd
  obtain ⟨υ, hυ, hget⟩ := (hiterates 0 τ htakes (by rw [hbelow']) (by decide) (by decide)).getNext _ hnext
  exact ⟨P.code, inst, _, hx.checked, hx.regular, hx.sized, hx.compiles, hx.literals, rfl, hinst, τ, υ, hσ₁.step hτ,
    hgone, hυ, hget⟩

end RecordMill

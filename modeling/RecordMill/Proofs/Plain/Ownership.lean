import RecordMill.Proofs.Plain.Preservation
import RecordMill.Proofs.Plain.Snapshots
import RecordMill.Proofs.Service.Grants

/-!
# Reference counts are exact

Main statement: `Program.reference_counts_exact`. Between instructions the count of every handle is the number of places
that own it: registers and iterators of all activations, globals, and the variables of the context. -/

namespace RecordMill

open Machine (Instance)

theorem Item.handle_reg_words (ty : Ty) (x : Plain.Val) (ws : List UInt64) :
    (Item.reg ty x ws).handle = ty.handle ws := by
  cases ty <;> rcases ws with _ | ⟨a, _ | ⟨b, _ | ⟨c, ws⟩⟩⟩ <;> rfl

def Context.owned (c : Context) : List UInt64 := [c.fs.handle, c.ofs.handle, c.ors.handle, c.filename.handle, c.argv]

namespace Direct

/-- The handles that an activation owns: those of its strings and maps, but for the registers of literals, and those of
the lists of keys of its iterators. -/
def Frame.owned (p : Program) (fr : Frame) : List UInt64 :=
  match p.funcs[fr.func]? with
  | some f =>
    ((f.locals p.globals).filter fun r => r.ty.isHeap && !f.holdsLiterals r).map
      (fun r => r.ty.handle (fr.locals r)) ++ fr.lists p
  | none => []

def State.ownedByGlobals (p : Program) (st : State) : List UInt64 :=
  (p.globals.filter (·.ty.isHeap)).map fun g => g.ty.handle (st.globals g)

def State.owned (p : Program) (st : State) : List UInt64 :=
  st.context.owned ++ st.ownedByGlobals p ++ (st.frame :: st.below).flatMap (Frame.owned p)

section

variable {p : Program} {literals : List Bytes} {st : State} {σ : Plain.State} {a : UInt64}

theorem count_cons_zero {x : UInt64} (hx : x = 0) (ha : a ≠ 0) (l : List UInt64) : (x :: l).count a = l.count a := by
  rw [hx]
  exact List.count_cons_of_ne ha.symm

theorem count_globals (ha : a ≠ 0) (globals : Reg → List UInt64) (vals : Reg → Plain.Val) (gs : List Reg) :
    ((gs.map (.ofGlobal globals vals)).map Item.handle).count a
      = ((gs.filter (·.ty.isHeap)).map fun g => g.ty.handle (globals g)).count a := by
  induction gs with
  | nil => rfl
  | cons g gs ih =>
    rw [List.map_cons, List.map_cons]
    cases hg : g.ty.isHeap with
    | true =>
      rw [List.filter_cons_of_pos (by simpa using hg), List.map_cons, List.count_cons, List.count_cons, ih,
        Item.ofGlobal,
        Item.handle_reg_words]
    | false =>
      have hzero : (Item.ofGlobal globals vals g).handle = 0 := Item.handle_reg hg ..
      rw [List.filter_cons_of_neg (by simp [hg]), count_cons_zero hzero ha, ih]

theorem Frame.count_owned {fr : Frame} {pf : Plain.Frame} {f : Func} (hf : p.funcs[fr.func]? = some f) (ha : a ≠ 0)
    (hliteral : ∀ r ∈ f.locals p.globals, f.holdsLiterals r →
      (Item.ofLocal fr.locals fr.keys fr.position pf.regs pf.cursors r).handle = 0) :
    ((fr.items p f pf).map Item.handle).count a = (fr.owned p).count a := by
  rw [owned, hf]
  dsimp only
  rw [lists_eq hf, List.count_append, items]
  generalize f.locals p.globals = rs at hliteral
  induction rs with
  | nil => rfl
  | cons r rs ih =>
    have ih := ih fun u hu => hliteral u (.tail _ hu)
    have hfirst := hliteral r (.head _)
    rw [List.map_cons, List.map_cons]
    cases hiter : r.ty.isIter with
    | true =>
      obtain ⟨k, hk⟩ : ∃ k, r.ty = .iter k := by
        cases hty : r.ty with
        | iter k => exact ⟨k, rfl⟩
        | _ => simp [hty, Ty.isIter] at hiter
      have hitem : (Item.ofLocal fr.locals fr.keys fr.position pf.regs pf.cursors r).handle = fr.keys r := by
        simp only [Item.ofLocal, hk, Item.handle]
      rw [List.filter_cons_of_neg (by simp [hk, Ty.isHeap]), List.filter_cons_of_pos (by simpa using hiter),
        List.map_cons, hitem,
        List.count_cons, List.count_cons, ih, Nat.add_assoc]
    | false =>
      rw [Item.ofLocal_of_not_iter hiter] at hfirst ⊢
      rw [List.filter_cons_of_neg (p := fun r : Reg => r.ty.isIter) (by simpa using hiter)]
      by_cases howns : r.ty.isHeap && !f.holdsLiterals r
      · rw [List.filter_cons_of_pos (by simpa using howns), List.map_cons, List.count_cons, List.count_cons, ih,
          Item.handle_reg_words]
        omega
      · rw [List.filter_cons_of_neg (by simpa using howns), count_cons_zero ?_ ha, ih]
        cases hheap : r.ty.isHeap with
        | false => exact Item.handle_reg hheap ..
        | true => exact hfirst (by simpa [hheap] using howns)

theorem Waiting.count_owned {frs : List Frame} {pfs : List Plain.Frame} {items : List Item}
    (h : Waiting p frs pfs items) (ha : a ≠ 0) :
    (items.map Item.handle).count a = (frs.flatMap (Frame.owned p)).count a := by
  induction h with
  | nil => rfl
  | cons hf _ _ _ hliteral _ ih =>
    rw [List.map_append, List.count_append, Frame.count_owned hf ha hliteral, ih, List.flatMap_cons, List.count_append]

/-- Where both runs are at the same instruction, the count of a handle is the number of its owners. -/
theorem State.Shows.count_owned (h : st.Shows p literals σ) (ha : a ≠ 0) :
    st.context.heap.count a = (st.owned p).count a := by
  obtain ⟨f, others, hf, -, hwait, hr⟩ := h.stands
  obtain ⟨-, Γ, ledger, -⟩ := hr.context.backs
  have hframe : ((st.frame.items p f σ.frame).map Item.handle).count a = (st.frame.owned p).count a :=
    Frame.count_owned hf ha hr.literal
  have hglobals : ((p.globals.map (.ofGlobal st.globals σ.store.globals)).map Item.handle).count a
      = (st.ownedByGlobals p).count a :=
    count_globals ha ..
  have hcount : st.context.heap.count a
    = (st.context.owned ++ (Item.null.handle :: ((st.frame.items p f σ.frame).map Item.handle
      ++ ((p.globals.map (.ofGlobal st.globals σ.store.globals)).map Item.handle
          ++ others.map Item.handle)))).count a := by
    refine (ledger.count a ha).trans (congrArg (List.count a) ?_)
    simp only [List.map_append, List.nil_append, Holdings.items, List.map_cons]
    rfl
  rw [hcount, owned, List.flatMap_cons, List.count_append, count_cons_zero (x := Item.null.handle) rfl ha]
  simp only [List.count_append, hframe, hglobals, hwait.count_owned ha]
  omega

end

end Direct

/-! ## Whole runs -/

theorem Machine.Trap.cause_within (t : Machine.Trap) (name : Bytes) : (t.within name).cause = t.cause := by
  unfold within
  split <;> rfl

theorem Plain.Halt.cause_ne_released {halt : Plain.Halt} (hcode : halt.trap.code = .host) (a : UInt64) :
    halt.trap.cause ≠ (HeapFault.releasedHandle a).message? := by
  -- The messages differ in their first ten bytes.
  have hfront : ∀ {t : Bytes}, some t = (HeapFault.releasedHandle a).message? → t.take 10 = text "runtime: u" :=
      fun hmessage => by
    rw [Option.some.inj hmessage]
    exact List.take_append_of_le_length (by decide)
  cases halt with
  | divisionByZero => cases hcode
  | notBegun => exact fun hmessage => absurd (hfront hmessage) (by decide +kernel)
  | tooManyFields => exact fun hmessage => absurd (hfront hmessage) (by decide +kernel)

/-- Between instructions the count of a handle is the number of places that own it. So no handle is used that was
released, and after a run without a trap nothing is left once the context is closed. -/
theorem Program.reference_counts_exact {p : Program} {x : Executable} {main : Func} {o : Settings} {world : World}
    {inst : Instance Service Context} (h : p.Launched x main o world inst) :
    (∃ P : Plan, P.Sound ∧ P.program = p ∧ P.code = x ∧ P.Mirrors inst.outside
      ∧ ∀ n mst, P.Passes inst.outside n mst → P.Amid mst ∨ ∃ k st, Direct.Passes p x.literals inst.outside.host k st
        ∧ P.Stands st mst ∧ ∀ a, a ≠ 0 → mst.outside.host.heap.count a = (st.owned p).count a)
    ∧ (∀ fuel t a, (x.execute fuel inst).ending = .trapped t → t.code = .host →
      t.cause ≠ (HeapFault.releasedHandle a).message?)
    ∧ ∀ fuel, (x.execute fuel inst).ending = .returned → (x.execute fuel inst).context.heap.live = 0 := by
  refine ⟨?_, fun fuel t a ht hcode => ?_, fun fuel hreturned => ?_⟩
  · obtain ⟨stackWords, hinst⟩ := h.machine
    obtain ⟨P, hP, rfl, rfl⟩ := Plan.exists_of_compile h.checked h.sized h.compiles
    have hfit := hP.fit h.regular h.literals
    refine ⟨P, hP, rfl, rfl, hP.mirrors hinst, fun n mst hn =>
      (hP.mirrors_plain hfit h.main h.settings hinst hn).imp_right ?_⟩
    rintro ⟨k, st, σ, hst, hstands, hhost, -, hshows, -⟩
    exact ⟨k, st, hst, hstands, fun a ha => hhost ▸ hshows.count_owned ha⟩
  · obtain hfull | ⟨halt, s, name, -, rfl⟩ := h.trapped ht
    · cases hcode.symm.trans hfull.1
    · rw [Machine.Trap.code_within] at hcode
      rw [Machine.Trap.cause_within]
      exact Plain.Halt.cause_ne_released hcode a
  · obtain ⟨s, -, hleaves⟩ := h.returned hreturned
    exact hleaves.report.live rfl

def Program.sharing : Program where
  funcs := [{
    name := "main", ret := .null
    body := [.mov ⟨2, .map .int .int⟩ ⟨1, .map .int .int⟩, .ret ⟨0, .null⟩] }]

/-- The map has two owners then. -/
theorem Program.reference_counts_exact_sharing :
    ∃ x main inst, sharing.Launched x main { literals := x.literals } {} inst
    ∧ (∃ P : Plan, P.Sound ∧ P.program = sharing ∧ P.code = x ∧ P.Mirrors inst.outside
      ∧ ∀ n mst, P.Passes inst.outside n mst → P.Amid mst ∨ ∃ k st,
        Direct.Passes sharing x.literals inst.outside.host k st
        ∧ P.Stands st mst ∧ ∀ a, a ≠ 0 → mst.outside.host.heap.count a = (st.owned sharing).count a)
    ∧ ∃ st, Direct.Passes sharing x.literals (Context.ofSettings { literals := x.literals } {}) 1 st
      ∧ st.frame.locals ⟨1, .map .int .int⟩ = [3] ∧ st.frame.locals ⟨2, .map .int .int⟩ = [3]
      ∧ st.context.heap.count 3 = 2 := by
  have hmodest : sharing.Modest (fun _ => 0) 64 := by constructor <;> decide +kernel
  obtain ⟨x, hx⟩ := hmodest.exists_bounded
  obtain ⟨inst, hlaunched, -⟩ := hx.exists_launched (by decide +kernel)
    (show sharing.func? sharing.main = some (sharing.funcs.head (by decide)) from rfl)
      (o := { literals := x.literals }) rfl {}
  have hstate : (Direct.stateAt? sharing x.literals (Context.ofSettings { literals := x.literals } {}) 1).map (fun st =>
      (st.frame.locals ⟨1, .map .int .int⟩, st.frame.locals ⟨2, .map .int .int⟩, st.context.heap.count 3))
        = some ([3], [3], 2) := by rfl
  obtain ⟨st, hst, hat⟩ := Option.map_eq_some_iff.1 hstate
  simp only [Prod.mk.injEq] at hat
  exact ⟨x, _, inst, hlaunched, (reference_counts_exact hlaunched).1, st, Direct.stateAt?_eq_some.1 hst, hat⟩

end RecordMill

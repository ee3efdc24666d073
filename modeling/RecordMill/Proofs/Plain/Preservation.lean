import RecordMill.Proofs.Samples.Outputs

/-!
# Compiling preserves meaning

Main statement: `Program.compiled_runs_are_plain_runs`. Unless the plain run comes to where the stack has no room for
one more activation, a run of the compiled program ends if and only if the plain run does, in the same way, with the
same outputs, files, incidents and built-in variables. -/

namespace RecordMill

open Machine (Instance CellState End)

def Ending.Overflows : Ending → Prop
  | .trapped t => t.code = .stackOverflow
  | .returned | .outOfFuel => False

theorem Machine.Trap.code_within (t : Machine.Trap) (name : Bytes) : (t.within name).code = t.code := by
  unfold within
  split <;> rfl

theorem Executable.overflows_told {x : Executable} {d : Machine.FuncDecl Service} {r : End Context} (h : r.GivesUp) :
    (x.told d (.ended r)).1.Overflows := by
  cases r with
  | done => exact h.elim
  | trapped t out => exact (Machine.Trap.code_within t d.name).trans h

namespace Plan.Sound

variable {P : Plan} (h : P.Sound) (hfit : P.program.Fit P.code.literals) {main : Func}
  (hmain : P.program.func? P.program.main = some main) {o : Settings}
  (ho : o.literals = P.code.literals) {world : World}
  {stackWords : Int64} {inst : Instance Service Context}
  (hinst : Instance.ofModule P.code.module (Context.ofSettings o world) stackWords = .ok inst)

include h hfit hmain ho hinst

theorem callMain_cases (fuel : Nat) : (P.code.callMain fuel inst).1 = .outOfFuel
    ∨ (P.code.callMain fuel inst).1.Overflows ∧ P.Exhausted inst.outside.memory.length main o world
    ∨ ∃ e, Ends (Plain.State.step P.program) (.start P.program main o world) e
      ∧ Ending.Shows P.code.literals.toArray (P.code.callMain fuel inst) e := by
  obtain ⟨d, htold, hshows⟩ := h.callMain_told hmain hinst
  have hstarts := h.starts_plain hfit hmain ho hinst
  rw [htold, Executable.cells]
  generalize CellState.call P.code.module Service.perform P.code.main [0] [] inst.outside [] = turn at hstarts ⊢
  cases turn with
  | ended r => exact .inr (.inl ⟨Executable.overflows_told hstarts.1, .inl hstarts.2⟩)
  | next first =>
    dsimp only
    cases hrun : runs (CellState.step P.code.module Service.perform) fuel first with
    | next cst => exact .inl rfl
    | ended r =>
      refine .inr ?_
      obtain ⟨hfull, hcrowded⟩ | ⟨cst, hholding, hends⟩ := hstarts.2.ends_of_ends ⟨fuel, hrun⟩
      · exact .inl ⟨Executable.overflows_told hfull, .inl hcrowded⟩
      have hstart : ∃ n, Plain.Passes P.program main o world n (.start P.program main o world) := ⟨0, rfl⟩
      obtain ⟨hfull, hexhausted⟩ | ⟨e, hplain, hagrees⟩ :=
        (h.follows_plain hfit (h.starts hinst).2.1).ends_of_ends ⟨hstart, hholding⟩ hends
      · exact .inl ⟨Executable.overflows_told hfull, hexhausted⟩
      · exact .inr ⟨e, hplain, hshows e r hagrees⟩

theorem callMain_ends {e : Plain.Ending × Plain.Store}
    (hends : Ends (Plain.State.step P.program) (.start P.program main o world) e) :
    ∃ least, ∀ fuel, least ≤ fuel → (P.code.callMain fuel inst).1 ≠ .outOfFuel := by
  obtain ⟨d, htold, -⟩ := h.callMain_told hmain hinst
  have hstarts := h.starts_plain hfit hmain ho hinst
  suffices ∃ least r, ∀ fuel, least ≤ fuel → P.code.cells fuel inst.outside = .ended r by
    obtain ⟨least, r, hcells⟩ := this
    refine ⟨least, fun fuel hfuel => ?_⟩
    rw [htold, hcells fuel hfuel]
    cases r <;> nofun
  unfold Executable.cells
  generalize CellState.call P.code.module Service.perform P.code.main [0] [] inst.outside [] = turn at hstarts ⊢
  cases turn with
  | ended r => exact ⟨0, r, fun _ _ => rfl⟩
  | next first =>
    suffices ∃ r, Ends (CellState.step P.code.module Service.perform) first r by
      obtain ⟨r, n, hn⟩ := this
      exact ⟨n, r, fun fuel hfuel => runs_of_ended hn hfuel⟩
    obtain ⟨n, -, hn⟩ := hstarts.2
    cases hrun : runs (CellState.step P.code.module Service.perform) (n + 1) first with
    | ended r => exact ⟨r, _, hrun⟩
    | next cst =>
      rw [hrun] at hn
      obtain ⟨r, hends', -⟩ := (h.follows_plain hfit (h.starts hinst).2.1).ends ⟨⟨0, rfl⟩, hn⟩ hends
      exact ⟨r, Visits.ends ⟨_, hrun⟩ hends'⟩

end Plan.Sound

/-! ## What can be seen of a run -/

/-- The context has the records of a store, and its built-in variables have the values of the store. -/
structure Context.Presents (c : Context) (s : Plain.Store) : Prop where
  records : c.toRecords = s.toRecords
  ints : ∀ v ∈ [Variable.argc, .nf, .nr], ∃ n, s.load v = .int n ∧ Act.loadInt v c = (.ok n, c)
  strs : ∀ v ∈ [Variable.fs, .ofs, .ors, .filename], ∃ a p, s.load v = .str a ∧ Act.loadStr v c = (.ok p, c)
    ∧ Act.bytes p c = (.ok a, c)
  argv : ∃ e : Entries .int .str, s.table (s.load .argv) = ⟨.int, .str, e⟩ ∧ c.heap.map .int .str c.argv = .ok e

theorem Context.Reflects.presents {c : Context} {L : Array Bytes} {s : Plain.Store} {items : List Item}
    (h : c.Reflects L s items) :
    c.Presents s where
  records := h.records
  ints _ hv := h.loadInt hv
  strs v hv := by
    have hread : ∀ {a : Bytes} {p : Packed}, s.load v = .str a → Act.loadStr v c = (.ok p, c) →
      .str a p ∈ c.items s ++ items →
        ∃ a p, s.load v = .str a ∧ Act.loadStr v c = (.ok p, c) ∧ Act.bytes p c = (.ok a, c) :=
      fun ha hload hp => ⟨_, _, ha, hload, Act.look_ok (h.backs.string hp)⟩
    simp only [List.mem_cons, List.not_mem_nil, or_false] at hv
    obtain rfl | rfl | rfl | rfl := hv <;> exact hread rfl rfl (by simp [Context.items])
  argv := by
    have hitem : .map .int .str s.argv c.argv ∈ c.items s ++ items := by simp [Context.items]
    obtain ⟨e, htable, hmap⟩ := h.backs.entries hitem
    refine ⟨e, ?_, hmap⟩
    show s.tables.getD s.argv _ = _
    rw [Array.getD_eq_getD_getElem?, htable]
    rfl

/-- A run leaves what the plain run leaves: the built-in variables when the main function is done, and the report after
the context was closed. -/
structure Executable.Leaves (x : Executable) (fuel : Nat) (inst : Instance Service Context)
    (e : Plain.Ending × Plain.Store) : Prop where
  presents : (x.callMain fuel inst).2.Presents e.2
  report : (x.execute fuel inst).Shows e

theorem Ending.Shows.leaves {x : Executable} {fuel : Nat} {inst : Instance Service Context} {L : Array Bytes}
    {e : Plain.Ending × Plain.Store} (h : Ending.Shows L (x.callMain fuel inst) e) : x.Leaves fuel inst e where
  presents := by
    generalize x.callMain fuel inst = r at h
    cases h with
    | returned hc => exact hc.presents
    | trapped name hc => exact hc.presents
  report := h.report rfl

theorem Executable.ending_execute (x : Executable) (fuel : Nat) (inst : Instance Service Context) :
    (x.execute fuel inst).ending = (x.callMain fuel inst).1 := rfl

/-- A compiled program in a machine of its own, before the main function is called. -/
structure Program.Launched (p : Program) (x : Executable) (main : Func) (o : Settings) (world : World)
    (inst : Instance Service Context) :
    Prop where
  checked : p.check = []
  regular : p.Regular
  sized : p.Sized
  compiles : p.compile = .ok x
  literals : p.LiteralsFit x.literals
  main : p.func? p.main = some main
  settings : o.literals = x.literals
  machine : ∃ stackWords, Instance.ofModule x.module (Context.ofSettings o world) stackWords = .ok inst

/-- The code of the program was made by a plan by which the stack was exhausted. -/
def Program.Exhausts (p : Program) (x : Executable) (main : Func) (o : Settings) (world : World)
    (inst : Instance Service Context) : Prop :=
  ∃ P : Plan, P.Sound ∧ P.program = p ∧ P.code = x ∧ P.Exhausted inst.outside.memory.length main o world

theorem Program.Bounded.exists_launched {p : Program} {x : Executable} {rank : Nat → Nat} {words : Nat}
    (h : p.Bounded x rank words) (hspan : Declared.span p.globals < 35184372023295) {main : Func}
    (hmain : p.func? p.main = some main) {o : Settings} (ho : o.literals = x.literals) (world : World) :
    ∃ inst, p.Launched x main o world inst
      ∧ Instance.ofModule x.module (Context.ofSettings o world) 0 = .ok inst := by
  obtain ⟨P, hP, rfl, rfl⟩ := Plan.exists_of_compile h.checked h.sized h.compiles
  obtain ⟨inst, hinst⟩ := hP.exists_instance hspan (Context.ofSettings o world)
  exact ⟨inst, ⟨h.checked, h.regular, h.sized, h.compiles, h.literals, hmain, ho, 0, hinst⟩, hinst⟩

namespace Program.Launched

variable {p : Program} {x : Executable} {main : Func} {o : Settings} {world : World} {inst : Instance Service Context}
  (h : p.Launched x main o world inst)

include h

theorem callMain_cases (fuel : Nat) : (x.callMain fuel inst).1 = .outOfFuel
    ∨ (x.callMain fuel inst).1.Overflows ∧ p.Exhausts x main o world inst
    ∨ ∃ e, Ends (Plain.State.step p) (.start p main o world) e
      ∧ Ending.Shows x.literals.toArray (x.callMain fuel inst) e := by
  obtain ⟨stackWords, hinst⟩ := h.machine
  obtain ⟨P, hP, rfl, rfl⟩ := Plan.exists_of_compile h.checked h.sized h.compiles
  refine (hP.callMain_cases (hP.fit h.regular h.literals) h.main h.settings hinst fuel).imp_right (.imp_left ?_)
  exact fun ⟨hfull, hexhausted⟩ => ⟨hfull, P, hP, rfl, rfl, hexhausted⟩

theorem callMain_ends {e : Plain.Ending × Plain.Store} (hends : Ends (Plain.State.step p) (.start p main o world) e) :
    ∃ least, ∀ fuel, least ≤ fuel → (x.callMain fuel inst).1 ≠ .outOfFuel := by
  obtain ⟨stackWords, hinst⟩ := h.machine
  obtain ⟨P, hP, rfl, rfl⟩ := Plan.exists_of_compile h.checked h.sized h.compiles
  exact hP.callMain_ends (hP.fit h.regular h.literals) h.main h.settings hinst hends

theorem trapped {fuel : Nat} {t : Machine.Trap} (ht : (x.execute fuel inst).ending = .trapped t) :
    t.code = .stackOverflow ∧ p.Exhausts x main o world inst
    ∨ ∃ halt s name, Ends (Plain.State.step p) (.start p main o world) (.halted halt, s)
      ∧ t = halt.trap.within name := by
  rw [Executable.ending_execute] at ht
  have hcases := h.callMain_cases fuel
  generalize x.callMain fuel inst = r at ht hcases
  obtain hunfinished | hfull | ⟨e, hends, hshows⟩ := hcases
  · cases ht.symm.trans hunfinished
  · rw [ht] at hfull
    exact .inl hfull
  · cases hshows with
    | returned => cases ht
    | trapped name =>
      cases ht
      exact .inr ⟨_, _, name, hends, rfl⟩

theorem returned {fuel : Nat} (hreturned : (x.execute fuel inst).ending = .returned) :
    ∃ s, Ends (Plain.State.step p) (.start p main o world) (.returned, s) ∧ x.Leaves fuel inst (.returned, s) := by
  rw [Executable.ending_execute] at hreturned
  obtain hunfinished | hfull | ⟨e, hends, hshows⟩ := h.callMain_cases fuel
  · cases hreturned.symm.trans hunfinished
  · rw [hreturned] at hfull
    exact hfull.1.elim
  · have hleaves := hshows.leaves
    generalize x.callMain fuel inst = r at hreturned hshows
    cases hshows with
    | returned => exact ⟨_, hends, hleaves⟩
    | trapped => cases hreturned

end Program.Launched

/-- A run of a compiled program ends as the plain run does and leaves the same, unless its stack is exhausted; and it
does end when the plain run does. -/
theorem Program.compiled_runs_are_plain_runs {p : Program} {x : Executable} {main : Func} {o : Settings} {world : World}
    {inst : Instance Service Context} (h : p.Launched x main o world inst) :
    (∀ fuel, (x.execute fuel inst).ending = .outOfFuel
      ∨ (x.execute fuel inst).ending.Overflows ∧ p.Exhausts x main o world inst
      ∨ ∃ e, Ends (Plain.State.step p) (.start p main o world) e ∧ x.Leaves fuel inst e)
    ∧ ∀ e, Ends (Plain.State.step p) (.start p main o world) e →
      ∃ least, ∀ fuel, least ≤ fuel →
        (x.execute fuel inst).ending.Overflows ∧ p.Exhausts x main o world inst ∨ x.Leaves fuel inst e := by
  simp only [Executable.ending_execute]
  refine ⟨fun fuel => (h.callMain_cases fuel).imp_right fun h => h.imp_right fun ⟨e, hends, hshows⟩ =>
    ⟨e, hends, hshows.leaves⟩,
    fun e hends => ?_⟩
  obtain ⟨least, hfinished⟩ := h.callMain_ends hends
  refine ⟨least, fun fuel hfuel => ?_⟩
  obtain hunfinished | hfull | ⟨e', hends', hshows⟩ := h.callMain_cases fuel
  · exact absurd hunfinished (hfinished fuel hfuel)
  · exact .inl hfull
  · obtain rfl := hends'.unique hends
    exact .inr hshows.leaves

/-- A program that calls a function which puts a text in front of a global. -/
def Program.doubling : Program where
  funcs := [{
    name := "main", ret := .null
    body := [.constStr ⟨1, .str⟩ "ab", .call ⟨2, .str⟩ 1 [⟨1, .str⟩], .storeVar .ofs ⟨2, .str⟩, .ret ⟨0, .null⟩] }, {
    name := "double", ret := .str, params := [⟨3, .str⟩]
    body := [.concat ⟨4, .str⟩ ⟨3, .str⟩ ⟨1, .str⟩, .ret ⟨4, .str⟩] }]
  globals := [⟨1, .str⟩]

/-- Its stack has room for both functions, and so it returns, with the text in the output separator. -/
theorem Program.compiled_runs_are_plain_runs_doubling :
    ∃ x main inst s, doubling.Launched x main { literals := x.literals } {} inst
    ∧ s.ofs = text "abab" ∧ ∃ least, ∀ fuel, least ≤ fuel →
      (x.execute fuel inst).ending = .returned ∧ x.Leaves fuel inst (.returned, s) := by
  have hmodest : doubling.Modest (1 - ·) 64 := by constructor <;> decide +kernel
  obtain ⟨x, hx⟩ := hmodest.exists_bounded
  have hmain : doubling.func? doubling.main = some (doubling.funcs.head (by decide)) := rfl
  obtain ⟨inst, hlaunched, hinst⟩ :=
    hx.exists_launched (by decide +kernel) hmain (o := { literals := x.literals }) rfl {}
  have hends : ∃ s, s.ofs = text "abab" ∧ runs (Plain.State.step doubling) 6
      (.start doubling (doubling.funcs.head (by decide)) { literals := x.literals } {}) = .ended (.returned, s) :=
        ⟨_, rfl, rfl⟩
  obtain ⟨s, hofs, hends⟩ := hends
  obtain ⟨enough, hshows⟩ := hx.execute hmain rfl ⟨by decide, by decide⟩ hinst ⟨6, hends⟩
  obtain ⟨least, hleaves⟩ := (compiled_runs_are_plain_runs hlaunched).2 _ ⟨6, hends⟩
  refine ⟨x, _, inst, s, hlaunched, hofs, max enough least, fun fuel hfuel => ?_⟩
  have hreturned : (x.execute fuel inst).ending = .returned :=
    (hshows fuel (Nat.le_trans (Nat.le_max_left ..) hfuel)).ending
  refine ⟨hreturned, (hleaves fuel (Nat.le_trans (Nat.le_max_right ..) hfuel)).resolve_left fun hfull => ?_⟩
  rw [hreturned] at hfull
  exact hfull.1

end RecordMill

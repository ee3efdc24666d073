import RecordMill.Proofs.Lowering.ArgumentBlocks
import RecordMill.Proofs.Lowering.Counting
import RecordMill.Proofs.Plain.Reports

/-!
# Skipping reference counts

Main statement: `Program.counting_unnoticed`. The code of a function does not count registers that only ever hold
literals. A program compiled with every register counted runs just the same: between instructions its machine has the
same objects with the same counts, and it comes to the same end. -/

namespace RecordMill

open Machine (Instance CallResult CellState Outside End FuncDecl)

/-! ## Two plans of one program -/

namespace Plan

/-- The plans are of the same program and use the same declarations and literals. -/
structure Twin (P Q : Plan) : Prop where
  program : Q.program = P.program
  declared : Q.declared = P.declared
  literals : Q.code.literals = P.code.literals

theorem Made.room_of_none {P : Plan} {all : Bool} (h : P.Made all) {i : Nat} (hi : P.program.funcs[i]? = none) :
    P.room i = 0 := by
  obtain ⟨m, -, hsound⟩ := h.complete
  have hnone : P.declared.funcs[i]? = none := by
    rw [List.getElem?_eq_none_iff, hsound.length]
    exact List.getElem?_eq_none_iff.1 hi
  rw [room, hnone]
  rfl

namespace Twin

variable {P Q : Plan} {a b : Bool}

theorem symm (t : P.Twin Q) : Q.Twin P := ⟨t.program.symm, t.declared.symm, t.literals.symm⟩

variable (t : P.Twin Q) (hP : P.Made a) (hQ : Q.Made b)

include t

theorem base_eq : Q.base = P.base := congrArg (fun p : Program => 1 + Declared.span p.globals) t.program

include hP hQ

theorem room_eq : Q.room = P.room := by
  funext i
  cases hf : P.program.funcs[i]? with
  | some f => rw [hP.room_eq hf, hQ.room_eq (t.program ▸ hf)]
  | none => rw [hP.room_of_none hf, hQ.room_of_none (t.program ▸ hf)]

theorem full_eq (length : Nat) : Q.full length = P.full length := by
  unfold full top
  rw [t.room_eq hP hQ, t.base_eq]

theorem main_eq : Q.code.main = P.code.main := by
  have hmain := hQ.main
  rw [t.declared, t.program, hP.main] at hmain
  exact (Option.some.inj hmain).symm

theorem mainRet_eq : Q.code.mainRet = P.code.mainRet := by
  have hret := hQ.ret
  rw [t.program, hP.ret] at hret
  exact (Option.some.inj hret).symm

theorem ofModule_eq (context : Context) (stackWords : Int64) : Instance.ofModule Q.code.module context stackWords
    = (Instance.ofModule P.code.module context stackWords).map fun inst => { inst with module := Q.code.module } := by
  obtain ⟨m, hm, -⟩ := hP.complete
  obtain ⟨n, hn, -⟩ := hQ.complete
  have hwords : Q.code.module.dataWords = P.code.module.dataWords := by rw [hP.words, hQ.words, t.program]
  have hfinal : P.code.module.finalized = true := by rw [hm]
  have hfinal' : Q.code.module.finalized = true := by rw [hn]
  simp only [Instance.ofModule, hwords, hfinal, hfinal', if_true]
  split <;> rfl

theorem name_eq {d d' : FuncDecl Service} (hd : P.code.module.funcs[P.code.main]? = some d)
    (hd' : Q.code.module.funcs[Q.code.main]? = some d') : d'.name = d.name := by
  have hnames :=
    hQ.leads.called.trans ((congrArg (·.module.funcs.map FuncDecl.name) t.declared).trans hP.leads.called.symm)
  have hname := congrArg (·[P.code.main]?) hnames
  rw [t.main_eq hP hQ] at hd'
  simp only [Array.getElem?_map, hd, hd', Option.map_some] at hname
  exact Option.some.inj hname

end Twin

end Plan

/-! ## How a call ends -/

theorem Executable.endsIn_of_cells {x : Executable} {fuel : Nat} {out : Outside Context} {e : End Context}
    (h : x.cells fuel out = .ended e) :
    (CellState.call x.module Service.perform x.main [0] [] out []).EndsIn
    (CellState.step x.module Service.perform) e := by
  unfold cells at h
  generalize CellState.call x.module Service.perform x.main [0] [] out [] = turn at h ⊢
  cases turn with
  | next first => exact ⟨fuel, h⟩
  | ended e' =>
    cases h
    exact rfl

theorem Executable.cells_of_endsIn {x : Executable} {out : Outside Context} {e : End Context}
    (h : (CellState.call x.module Service.perform x.main [0] [] out []).EndsIn
      (CellState.step x.module Service.perform) e) :
    ∃ least, ∀ fuel, least ≤ fuel → x.cells fuel out = .ended e := by
  unfold cells
  generalize CellState.call x.module Service.perform x.main [0] [] out [] = turn at h ⊢
  cases turn with
  | next first =>
    obtain ⟨n, hn⟩ := h
    exact ⟨n, fun fuel hfuel => runs_of_ended hn hfuel⟩
  | ended e' =>
    obtain rfl : e' = e := h
    exact ⟨0, fun _ _ => rfl⟩

theorem Direct.Result.Same.tells_eq {r : Direct.Result} {e e' : End Context} (h : r.Same e) (h' : r.Same e')
    {d d' : FuncDecl Service} (hsig : d'.sig = d.sig) (hname : d'.name = d.name) :
    d'.tells (.ended e') = d.tells (.ended e) := by
  cases h with
  | done =>
    cases h'
    simp only [FuncDecl.tells, hsig]
  | trapped =>
    cases h'
    simp only [FuncDecl.tells, hname]

/-! ## Side by side -/

namespace Plan

/-- Where the machine of the first plan is between two instructions it stands for a state of the direct run, and it has
been in the earlier ones before. The machine of the second plan comes to that state too, with the same objects and
counts. -/
def Abreast (P Q : Plan) (out : Outside Context) : Prop :=
  ∀ {n : Nat} {mst : Machine.State Context}, P.Passes out n mst → P.Amid mst ∨ ∃ k st n' mst',
    Direct.Passes P.program P.code.literals out.host k st ∧ P.Stands st mst ∧ P.HasRegisters st mst
      ∧ Q.Passes out n' mst' ∧ Q.Stands st mst' ∧ Q.HasRegisters st mst' ∧ mst'.outside.host = mst.outside.host
      ∧ ∀ j < k, ∀ st', Direct.Passes P.program P.code.literals out.host j st' → ∃ i < n, ∃ u, P.Passes out i u
      ∧ P.Stands st' u

namespace Twin

variable {P Q : Plan} {a b : Bool} (t : P.Twin Q) (hP : P.Made a) (hQ : Q.Made b) {context : Context}
  {stackWords : Int64}
  {inst : Instance Service Context} (hinst : Instance.ofModule P.code.module context stackWords = .ok inst)

include t hP hQ hinst

theorem ofModule_eq_ok :
    Instance.ofModule Q.code.module context stackWords = .ok { inst with module := Q.code.module } := by
  rw [t.ofModule_eq hP hQ, hinst]
  rfl

variable (hfaithful : P.Faithful inst.outside.host) (hfaithful' : Q.Faithful inst.outside.host)

include hfaithful hfaithful'

theorem abreast : P.Abreast Q inst.outside := by
  intro n mst hpass
  obtain hin | ⟨k, st, hst, hstands, hearlier⟩ := hP.mirrors_within hinst hfaithful hpass
  · exact .inl hin
  · have hst' := hst
    rw [← t.full_eq hP hQ, ← t.program, ← t.literals] at hst'
    obtain ⟨n', mst', hpass', hstands'⟩ := hQ.reaches (t.ofModule_eq_ok hP hQ hinst) hfaithful' hst'
    have hregs := hP.hasRegisters hstands
    have hregs' := hQ.hasRegisters hstands'
    exact .inr ⟨k, st, n', mst', hst.passes, hstands, hregs, hpass', hstands', hregs',
      hregs'.host.trans hregs.host.symm,
      fun j hj u hu => hearlier j hj u (hst.earlier (Nat.le_of_lt hj) hu)⟩

/-- What a call of the main function comes to, it comes to with the code of the other plan, given enough steps. -/
theorem mainCall_eq {fuel : Nat} (hdone : (P.code.mainCall fuel inst).1 ≠ .outOfFuel) :
    ∃ least, ∀ fuel', least ≤ fuel' → Q.code.mainCall fuel' { inst with module := Q.code.module }
      = P.code.mainCall fuel inst := by
  obtain ⟨main, hmain, -⟩ := (Check.check_eq_nil.1 hP.checked).1
  have hmodule : inst = ⟨P.code.module, inst.outside⟩ := by
    obtain ⟨_, -, rfl⟩ := Instance.of_ofModule hinst
    rfl
  obtain ⟨d, hd, hsig, htells⟩ := hP.mainCall_told hmain inst.outside
  obtain ⟨d', hd', hsig', htells'⟩ := hQ.mainCall_told (t.program ▸ hmain) inst.outside
  rw [← hmodule] at htells
  rw [htells] at hdone ⊢
  cases hcells : P.code.cells fuel inst.outside with
  | next cst =>
    rw [hcells] at hdone
    exact absurd rfl hdone
  | ended e =>
    obtain ⟨r, hends, hsame⟩ := hP.ends_of_ends hinst hfaithful (Executable.endsIn_of_cells hcells)
    rw [← t.full_eq hP hQ, ← t.program, ← t.literals] at hends
    obtain ⟨e', hends', hsame'⟩ := hQ.ends (t.ofModule_eq_ok hP hQ hinst) hfaithful' hends
    obtain ⟨least, hleast⟩ := Executable.cells_of_endsIn hends'
    refine ⟨least, fun fuel' hfuel => ?_⟩
    rw [htells', hleast fuel' hfuel]
    exact hsame.tells_eq hsame' (hsig'.trans hsig.symm) (t.name_eq hP hQ hd hd')

end Twin

end Plan

/-! ## Whole runs -/

/-- What a run of the first program comes to, a run of the second comes to as well, given enough steps. -/
structure Executable.EchoedBy (x y : Executable) : Prop where
  /-- The results or the trap are the same, and the context that is left. -/
  call : ∀ {o : Settings} {world : World} {stackWords : Int64} {inst : Instance Service Context} {fuel : Nat},
    Instance.ofModule x.module (Context.ofSettings o world) stackWords = .ok inst →
      (x.mainCall fuel inst).1 ≠ .outOfFuel →
    ∃ least, ∀ fuel', least ≤ fuel' → y.mainCall fuel' { inst with module := y.module } = x.mainCall fuel inst
  run : ∀ {fuel : Nat} {config : Config} {env : Environment} {world : World} {input : Option Bytes},
    (∀ r, (x.run fuel config env world input).2 = .ok r → r.ending ≠ .outOfFuel) →
    ∃ least, ∀ fuel', least ≤ fuel' → y.run fuel' config env world input = x.run fuel config env world input

theorem Executable.leaves_congr {x y : Executable} (h : y.mainRet = x.mainRet) : y.leaves = x.leaves := by
  funext ⟨r, c⟩
  cases r with
  | returned words =>
    show (Ending.returned, y.dropResult words c) = (.returned, x.dropResult words c)
    unfold dropResult
    rw [h]
  | _ => rfl

theorem Executable.outOfFuel_of_mainCall {x : Executable} {fuel : Nat} {inst : Instance Service Context}
    (h : (x.mainCall fuel inst).1 = .outOfFuel) : (x.execute fuel inst).ending = .outOfFuel := by
  unfold execute
  rw [callMain_eq]
  rcases hr : x.mainCall fuel inst with ⟨r, c⟩
  rw [hr] at h
  obtain rfl : r = .outOfFuel := h
  rfl

theorem Executable.execute_congr {x y : Executable} {fuel fuel' : Nat} {inst inst' : Instance Service Context}
    (hret : y.mainRet = x.mainRet) (hcall : y.mainCall fuel' inst' = x.mainCall fuel inst) :
    y.execute fuel' inst' = x.execute fuel inst := by
  unfold execute
  rw [callMain_eq, callMain_eq, hcall, leaves_congr hret]

theorem Plan.Twin.echoedBy {P Q : Plan} {a b : Bool} (t : P.Twin Q) (hP : P.Made a) (hQ : Q.Made b)
    (hfaithful : ∀ {c : Context}, c.Affords [] → P.Faithful c)
    (hfaithful' : ∀ {c : Context}, c.Affords [] → Q.Faithful c) :
    P.code.EchoedBy Q.code := by
  have hcall : ∀ {o : Settings} {world : World} {stackWords : Int64} {inst : Instance Service Context} {fuel : Nat},
      Instance.ofModule P.code.module (Context.ofSettings o world) stackWords = .ok inst →
        (P.code.mainCall fuel inst).1 ≠ .outOfFuel →
      ∃ least, ∀ fuel', least ≤ fuel' → Q.code.mainCall fuel' { inst with module := Q.code.module }
          = P.code.mainCall fuel inst := by
    intro o world stackWords inst fuel hinst hdone
    have hcontext : inst.outside.host.Affords [] := by
      rw [(hP.starts hinst).1]
      exact Context.affords_ofSettings o world
    exact t.mainCall_eq hP hQ hinst (hfaithful hcontext) (hfaithful' hcontext) hdone
  refine ⟨hcall, fun {fuel config env world input} hdone => ?_⟩
  unfold Executable.run at hdone ⊢
  generalize config.resolve env = resolved at hdone ⊢
  cases resolved with
  | error e => exact ⟨0, fun _ _ => rfl⟩
  | ok o =>
    dsimp only at hdone ⊢
    generalize o.bufferBytes = buffer at hdone ⊢
    cases buffer with
    | error e => exact ⟨0, fun _ _ => rfl⟩
    | ok capacity =>
      dsimp only at hdone ⊢
      simp only [t.literals, t.ofModule_eq hP hQ]
      cases hinst : Instance.ofModule P.code.module
        (Context.ofSettings (o.settings P.code.literals input capacity) world)
          o.stackSize.toInt64 with
      | error e => exact ⟨0, fun _ _ => rfl⟩
      | ok inst =>
        rw [hinst] at hdone
        dsimp only [Except.map] at hdone ⊢
        by_cases hcapacity : Writer.maxCapacity < capacity
        · exact ⟨0, fun _ _ => by rw [if_pos hcapacity, if_pos hcapacity]⟩
        · rw [if_neg hcapacity] at hdone
          obtain ⟨least, hleast⟩ := hcall hinst fun hfuel => hdone _ rfl (Executable.outOfFuel_of_mainCall hfuel)
          refine ⟨least, fun fuel' hfuel => ?_⟩
          rw [if_neg hcapacity, if_neg hcapacity, Executable.execute_congr (t.mainRet_eq hP hQ) (hleast fuel' hfuel)]

/-- A register of an activation that only ever holds literals never holds a text with a reference count. -/
theorem Direct.Passes.without_handle {p : Program} (hp : p.check = []) (hg : p.globals.Nodup) {literals : List Bytes}
    {context : Context} (hcontext : context.Affords []) {k : Nat} {st : Direct.State}
    (h : Direct.Passes p literals context k st) {fr : Direct.Frame} (hfr : fr ∈ st.frame :: st.below) {f : Func}
    (hf : p.funcs[fr.func]? = some f) {r : Reg} (hr : f.holdsLiterals r) (hglobal : r ∉ p.globals) :
    r.ty.handle (fr.locals r) = 0 := by
  obtain ⟨g, hg', hregular⟩ := (h.solvent hp hg hcontext).frames fr hfr
  obtain rfl : f = g := Option.some.inj (hf.symm.trans hg')
  refine (hregular r (Scope.mem_locals.2 ⟨?_, ?_, hglobal⟩)).2 hr
  all_goals simp only [Func.holdsLiterals, Bool.and_eq_true, beq_iff_eq, Bool.not_eq_true',
    List.isEmpty_eq_false_iff] at hr
  · obtain ⟨i, hi⟩ := List.exists_mem_of_ne_nil _ hr.1.2
    obtain ⟨hi, hdef⟩ := List.mem_filter.1 hi
    exact List.mem_append_right _ (List.mem_flatMap.2 ⟨i, hi, List.mem_append_left _ (List.contains_iff_mem.1 hdef)⟩)
  · rw [hr.1.1.1]
    decide

/-- Counting registers that only ever hold literals changes no run of a compiled program, neither what it comes to nor
the objects and counts between its instructions: no such register ever holds anything that is counted. -/
theorem Program.counting_unnoticed {p : Program} (hs : p.Sized) {x : Executable} (hx : p.compile = .ok x) :
    ∃ y, p.compileCounting true = .ok y ∧ x.EchoedBy y ∧ y.EchoedBy x
      ∧ ∃ P Q : Plan, (P.Sound ∧ P.program = p ∧ P.code = x) ∧ (Q.Made true ∧ Q.program = p ∧ Q.code = y)
        ∧ ∀ {o : Settings} {world : World} {stackWords : Int64} {inst : Instance Service Context},
          Instance.ofModule x.module (Context.ofSettings o world) stackWords = .ok inst →
          Instance.ofModule y.module (Context.ofSettings o world) stackWords = .ok { inst with module := y.module }
            ∧ P.Abreast Q inst.outside ∧ Q.Abreast P inst.outside
            ∧ ∀ {k st fr f r}, Direct.Passes p x.literals inst.outside.host k st → fr ∈ st.frame :: st.below →
              p.funcs[fr.func]? = some f →
              f.holdsLiterals r → r ∉ p.globals → r.ty.handle (fr.locals r) = 0 := by
  have hp := check_of_compile hx
  obtain ⟨d, hall⟩ := compiles_counting hx
  obtain ⟨x', hx', hd⟩ := hall false
  obtain rfl : x = x' := Except.ok.inj (hx.symm.trans (p.compile_eq_counting.trans hx'))
  obtain ⟨y, hy, hd'⟩ := hall true
  obtain ⟨P, hP, hprogram, rfl, hdeclared⟩ := hd.exists_plan hp hs
  obtain ⟨Q, hQ, hprogram', rfl, hdeclared'⟩ := hd'.exists_plan hp hs
  have t : P.Twin Q := ⟨hprogram'.trans hprogram.symm, hdeclared'.trans hdeclared.symm,
    (literals_table hy).trans (literals_table hx').symm⟩
  have hfaithful : ∀ context, P.Faithful context := Plan.Sound.faithful hP
  refine ⟨Q.code, hy, t.echoedBy hP hQ (fun _ => hfaithful _) hQ.faithful,
    t.symm.echoedBy hQ hP hQ.faithful (fun _ => hfaithful _), P, Q,
    ⟨hP, hprogram, rfl⟩, ⟨hQ, hprogram', rfl⟩, fun {o world stackWords inst} hinst => ?_⟩
  have hinst' := t.ofModule_eq_ok hP hQ hinst
  have hcontext : inst.outside.host.Affords [] := by
    rw [(hP.starts hinst).1]
    exact Context.affords_ofSettings o world
  refine ⟨hinst', t.abreast hP hQ hinst (hfaithful _) (hQ.faithful hcontext),
    t.symm.abreast hQ hP hinst' (hQ.faithful hcontext) (hfaithful _), fun {k st fr f r} hst hfr hf hr hglobal => ?_⟩
  subst hprogram
  exact hst.without_handle hp hP.distinct.globals hcontext hfr hf hr hglobal

/-- A program that puts one long text after another into a register and prints them. -/
def Program.refrain : Program where
  funcs := [{
    name := "main", ret := .null
    body := [.constStr ⟨1, .str⟩ "good morning, everyone", .concat ⟨2, .str⟩ ⟨1, .str⟩ ⟨1, .str⟩,
      .constStr ⟨1, .str⟩ "good evening, everyone",
      .print none [⟨2, .str⟩, ⟨1, .str⟩] ⟨0, .null⟩, .ret ⟨0, .null⟩] }]

/-- The register with the literals goes uncounted. After the first instruction it holds a text that is not empty. -/
theorem Program.counting_unnoticed_refrain : refrain.Sized ∧ ∃ x inst y, refrain.compile = .ok x
    ∧ Instance.ofModule x.module (Context.ofSettings {} {}) 0 = .ok inst ∧ refrain.compileCounting true = .ok y
    ∧ x.EchoedBy y ∧ y.EchoedBy x
    ∧ (∃ P Q : Plan, P.Sound ∧ Q.Made true ∧ P.code = x ∧ Q.code = y ∧ P.Abreast Q inst.outside
      ∧ Q.Abreast P inst.outside)
    ∧ ∃ st, Direct.Passes refrain x.literals inst.outside.host 1 st ∧ st.frame.locals ⟨1, .str⟩ ≠ [0, 0]
      ∧ Ty.str.handle (st.frame.locals ⟨1, .str⟩) = 0 := by
  have hs : refrain.Sized := sized_of_slots (by decide +kernel) (by decide +kernel)
  obtain ⟨x, inst, hx, hinst, hhost⟩ :=
    exists_running (p := refrain) (by decide +kernel) (by decide +kernel) (by decide +kernel)
    (by decide +kernel) hs (by decide +kernel) (Context.ofSettings {} {})
  obtain ⟨y, hy, hxy, hyx, P, Q, ⟨hP, -, hcode⟩, ⟨hQ, -, hcode'⟩, hall⟩ := counting_unnoticed hs hx
  obtain ⟨-, hPQ, hQP, hliterals⟩ := hall hinst
  have htable : x.literals = [text "good morning, everyone", text "good evening, everyone"] := by
    rw [literals_table (refrain.compile_eq_counting ▸ hx)]
    decide +kernel
  have hstate : (Direct.stateAt? refrain [text "good morning, everyone", text "good evening, everyone"]
    (Context.ofSettings {} {}) 1).map
      (fun st => (st.frame.func, st.frame.locals ⟨1, .str⟩ != [0, 0])) = some (0, true) := by rfl
  obtain ⟨st, hst, hat⟩ := Option.map_eq_some_iff.1 hstate
  simp only [Prod.mk.injEq, bne_iff_ne] at hat
  rw [Direct.stateAt?_eq_some, ← hhost, ← htable] at hst
  exact ⟨hs, x, inst, y, hx, hinst, hy, hxy, hyx, ⟨P, Q, hP, hQ, hcode, hcode', hPQ, hQP⟩, st, hst, hat.2,
    hliterals hst (.head _) (by rw [hat.1]; rfl) (r := ⟨1, .str⟩) (by decide +kernel) (by decide +kernel)⟩

end RecordMill

import RecordMill.Proofs.Machine.Runs
import RecordMill.Proofs.Machine.Spans
import RecordMill.Proofs.Plain.Compiled
import RecordMill.Run.Basic

/-!
# Reports on plain values

A run of the compiled program is reported to have ended as the plain run does, and leaves the same records.
-/

namespace RecordMill

open Machine (Instance CallResult CellState Outside Memory End Kind FuncDecl)

/-! ## The call of the main function -/

theorem Heap.Backs.length_words {h : Heap} {L : Array Bytes} {T : Array Plain.Table} {items : List Item} {ty : Ty}
    {v : Plain.Val} {ws : List UInt64} (b : h.Backs L T items) (hx : .reg ty v ws ∈ items) :
    ws.length = ty.words.words := by
  obtain ⟨Γ, hs⟩ := b.stands hx
  cases hs <;> rfl

theorem Executable.dropResult_reflects {x : Executable} {c : Context} {L : Array Bytes} {s : Plain.Store}
    {items : List Item} {v : Plain.Val} {ws : List UInt64} (h : c.Reflects L s (Item.result x.mainRet v ws ++ items)) :
    (x.dropResult ws c).Reflects L s items := by
  unfold Item.result at h
  cases hret : x.mainRet with
  | null =>
    rw [hret, if_pos rfl] at h
    simp only [dropResult, hret]
    exact h
  | str =>
    rw [hret, if_neg (by simp)] at h
    obtain ⟨a, p, rfl, rfl⟩ := h.backs.str (Context.Reflects.mem (List.mem_cons_self ..))
    obtain ⟨c', hdrop, hc'⟩ := h.drop
    simp only [dropResult, hret]
    have hdrop : Act.change (·.dropStr ⟨p.lo, p.hi⟩) c = (.ok (), c') := hdrop
    rw [hdrop]
    exact hc'
  | map k w =>
    rw [hret, if_neg (by simp)] at h
    obtain ⟨r, a, rfl, rfl⟩ := h.backs.map (Context.Reflects.mem (List.mem_cons_self ..))
    obtain ⟨c', hdrop, hc'⟩ := h.drop
    simp only [dropResult, hret]
    have hdrop : Act.change (·.drop a) c = (.ok (), c') := hdrop
    rw [hdrop]
    exact hc'
  | int | float | iter | other =>
    rw [hret, if_neg (by simp)] at h
    simp only [dropResult, hret]
    exact h.uncons (Item.handle_reg rfl ..)

/-- A run on cells from the call of the main function, of so many steps at most. -/
def Executable.cells (x : Executable) (fuel : Nat) (out : Outside Context) : Turn (CellState Context) (End Context) :=
  match CellState.call x.module Service.perform x.main [0] [] out [] with
  | .next first => runs (CellState.step x.module Service.perform) fuel first
  | turn => turn

/-- A call of the main function: how it ended, and the context that it left. -/
def Executable.mainCall (x : Executable) (fuel : Nat) (inst : Instance Service Context) : CallResult × Context :=
  let r := inst.call Service.perform fuel x.main [0]
  (r.1, r.2.outside.host)

def Executable.leaves (x : Executable) : CallResult × Context → Ending × Context
  | (.returned words, c) => (.returned, x.dropResult words c)
  | (.trapped t, c) => (.trapped t, c)
  | (.outOfFuel, c) => (.outOfFuel, c)
  | (_, c) => (.trapped { code := .host }, c)

theorem Executable.callMain_eq (x : Executable) (fuel : Nat) (inst : Instance Service Context) :
    x.callMain fuel inst = x.leaves (x.mainCall fuel inst) := by
  unfold callMain mainCall
  rcases inst.call Service.perform fuel x.main [0] with ⟨r, inst'⟩
  cases r <;> rfl

def Machine.FuncDecl.tells (d : FuncDecl Service) : Turn (CellState Context) (End Context) → CallResult × Context
  | .ended (.done rs out) => (.returned (rs ++ List.replicate (Kind.total d.sig.returns - rs.length) 0), out.host)
  | .ended (.trapped t out) => (.trapped (t.within d.name), out.host)
  | .next cst => (.outOfFuel, cst.outside.host)

/-- What the call of the main function is told to have come to after a run on cells. -/
def Executable.told (x : Executable) (d : FuncDecl Service) : Turn (CellState Context) (End Context) → Ending × Context
  | .ended (.done rs out) =>
    (.returned, x.dropResult (rs ++ List.replicate (Kind.total d.sig.returns - rs.length) 0) out.host)
  | .ended (.trapped t out) => (.trapped (t.within d.name), out.host)
  | .next cst => (.outOfFuel, cst.outside.host)

/-- A call of the main function ended as the plain run did, and all that is left is the context. -/
inductive Ending.Shows (L : Array Bytes) : Ending × Context → Plain.Ending × Plain.Store → Prop
  | returned {c : Context} {s : Plain.Store} : c.Reflects L s [.null] → Shows L (.returned, c) (.returned, s)
  | trapped {h : Plain.Halt} (name : Bytes) {c : Context} {s : Plain.Store} {items : List Item} : c.Reflects L s items →
      Shows L (.trapped (h.trap.within name), c) (.halted h, s)

theorem Plan.Agrees.told {P : Plan} {main : Func} (hmain : P.program.func? P.program.main = some main)
    {d : FuncDecl Service} (hout : Kind.total d.sig.returns = (if main.ret = .null then 0 else main.ret.words.words))
    (hret : P.code.mainRet = main.ret) {e : Plain.Ending × Plain.Store} {r : End Context} (h : P.Agrees e r) :
    Ending.Shows P.code.literals.toArray (P.code.told d (.ended r)) e := by
  obtain ⟨result, hshows, hsame⟩ := h
  cases hsame with
  | @done rs mem c =>
    cases hshows with
    | @done f _ _ s x hf hc =>
      obtain rfl : f = main := Option.some.inj (hf.symm.trans (Program.place_of_func? hmain).2)
      refine .returned ?_
      by_cases hnull : f.ret = .null
      · rw [hnull] at hc
        simp only [Executable.dropResult, hret.trans hnull]
        exact hc
      · -- There are as many words as the type of the result takes.
        have hlen : rs.length = f.ret.words.words := by
          rw [Item.result, if_neg hnull] at hc
          exact hc.backs.length_words (Context.Reflects.mem (List.mem_cons_self ..))
        rw [hout, if_neg hnull, hlen, Nat.sub_self, List.replicate_zero, List.append_nil]
        exact Executable.dropResult_reflects (hret.symm ▸ hc)
  | @trapped t mem c =>
    cases hshows with
    | trapped hc => exact .trapped d.name hc

namespace Plan.Made

variable {P : Plan} {all : Bool} (h : P.Made all) {main : Func} (hmain : P.program.func? P.program.main = some main)

include h hmain

theorem main_decl : ∃ d, P.code.module.funcs[P.code.main]? = some d ∧ d.sig = main.sig ∧ Kind.total d.sig.params = 1
    ∧ Kind.total d.sig.returns = (if main.ret = .null then 0 else main.ret.words.words)
    ∧ P.code.mainRet = main.ret := by
  obtain ⟨main', hmain', hparams⟩ := (Check.check_eq_nil.1 h.checked).1
  obtain rfl : main = main' := Option.some.inj (hmain.symm.trans hmain')
  have hf : P.program.funcs[P.program.main.toNat]? = some main := (Program.place_of_func? hmain).2
  obtain ⟨id, d, c, hH⟩ := h.holds hf
  obtain rfl : P.code.main = id := Option.some.inj (h.main.symm.trans hH.func)
  refine ⟨d, hH.decl, hH.sig, ?_, ?_, ?_⟩
  · rw [hH.sig, Func.sig, hparams]
    rfl
  · rw [hH.sig, Func.sig]
    split <;> simp [Kind.total]
  · have hret := h.ret
    rw [hmain] at hret
    exact (Option.some.inj hret).symm

theorem mainCall_told (out : Outside Context) : ∃ d :
    FuncDecl Service, P.code.module.funcs[P.code.main]? = some d ∧ d.sig = main.sig
    ∧ ∀ fuel, P.code.mainCall fuel ⟨P.code.module, out⟩ = d.tells (P.code.cells fuel out) := by
  obtain ⟨d, hd, hsig, hin, -⟩ := h.main_decl hmain
  refine ⟨d, hd, hsig, fun fuel => ?_⟩
  have hargs : ¬([0] : List UInt64).length ≠ Kind.total d.sig.params := by
    rw [hin]
    exact fun hne => hne rfl
  have hlaid : (⟨P.code.module, out⟩ : Instance Service Context).module.Laid := h.laid
  have hcall := Instance.call_eq_callCells hlaid Service.perform fuel P.code.main [0]
  simp only [Instance.callCells, hd, if_neg hargs] at hcall
  unfold Executable.mainCall Executable.cells
  rw [hcall]
  generalize CellState.call P.code.module Service.perform P.code.main [0] [] out [] = turn
  cases turn with
  | next first =>
    dsimp only
    rcases runs (CellState.step P.code.module Service.perform) fuel first with cst | ⟨rs, out'⟩ | ⟨t, out'⟩ <;> rfl
  | ended r => cases r <;> rfl

end Plan.Made

namespace Plan.Sound

variable {P : Plan} (h : P.Sound) (hfit : P.program.Fit P.code.literals) {main : Func}
  (hmain : P.program.func? P.program.main = some main) {o : Settings}
  (ho : o.literals = P.code.literals) {world : World}
  {stackWords : Int64} {inst : Instance Service Context}
  (hinst : Instance.ofModule P.code.module (Context.ofSettings o world) stackWords = .ok inst)

include h hmain hinst

theorem callMain_told : ∃ d :
    FuncDecl Service, (∀ fuel, P.code.callMain fuel inst = P.code.told d (P.code.cells fuel inst.outside))
    ∧ ∀ e r, P.Agrees e r → Ending.Shows P.code.literals.toArray (P.code.told d (.ended r)) e := by
  obtain ⟨d, hd, -, -, hout, hret⟩ := h.main_decl hmain
  have hinst : inst = ⟨P.code.module, inst.outside⟩ := by
    obtain ⟨_, -, rfl⟩ := Instance.of_ofModule hinst
    rfl
  obtain ⟨d', hd', -, htells⟩ := h.mainCall_told hmain inst.outside
  obtain rfl : d = d' := Option.some.inj (hd.symm.trans hd')
  refine ⟨d, fun fuel => ?_, fun e r => Agrees.told hmain hout hret⟩
  rw [Executable.callMain_eq, hinst, htells]
  rcases P.code.cells fuel inst.outside with cst | ⟨rs, out⟩ | ⟨t, out⟩ <;> rfl

include hfit ho

/-- With enough steps the call of the main function comes to what the plain run comes to. -/
theorem callMain_plain (hempty : ¬P.Crowded inst.outside.memory.length [])
    (hspacious : P.Spacious inst.outside.memory.length main o world) {e : Plain.Ending × Plain.Store}
    (hends : Ends (Plain.State.step P.program) (.start P.program main o world) e) :
    ∃ r, Ending.Shows P.code.literals.toArray r e ∧ ∃ least, ∀ fuel, least ≤ fuel → P.code.callMain fuel inst = r := by
  obtain ⟨first, n, r, hcall, hrun, hagrees⟩ := h.ends_plain hfit hmain ho hinst hempty hspacious hends
  obtain ⟨d, htold, hshows⟩ := h.callMain_told hmain hinst
  refine ⟨_, hshows e r hagrees, n, fun fuel hfuel => ?_⟩
  rw [htold, Executable.cells, hcall]
  exact congrArg _ (runs_of_ended hrun hfuel)

end Plan.Sound

/-! ## Closing -/

namespace Context.Reflects

variable {c : Context} {L : Array Bytes} {s : Plain.Store} {items : List Item}

theorem release {α : Type} (slot : Context → Packed) {clear : Context → Context} {heap : Heap}
    (hheap : (clear c).heap = c.heap) (hdrop : c.heap.dropStr (slot c) = .ok heap) (rest : Act α) :
    (do Act.release (slot (← get)) clear; rest) c = rest { clear c with heap } :=
  (Act.bind_ok (Act.get_ok c)).trans (Act.bind_ok ((Act.bind_ok (a := ()) rfl).trans (Act.change_ok (hheap ▸ hdrop))))

theorem giveBack (h : c.heap.Backs L s.tables (c.items s ++ items)) :
    ∃ c', Act.giveBack c = (.ok (), c') ∧ c'.heap.Backs L s.tables items := by
  obtain ⟨h₁, hdrop, b₁⟩ := h.drop
  have hfs : c.heap.dropStr c.fs = .ok h₁ := hdrop
  obtain ⟨h₂, hdrop, b₂⟩ := b₁.drop
  have hofs : h₁.dropStr c.ofs = .ok h₂ := hdrop
  obtain ⟨h₃, hdrop, b₃⟩ := b₂.drop
  have hors : h₂.dropStr c.ors = .ok h₃ := hdrop
  obtain ⟨h₄, hdrop, b₄⟩ := b₃.drop
  have hfilename : h₃.dropStr c.filename = .ok h₄ := hdrop
  obtain ⟨h₅, hdrop, b₅⟩ := b₄.drop
  have hargv : h₄.drop c.argv = .ok h₅ := hdrop
  refine ⟨{ c with fs := .empty, ofs := .empty, ors := .empty, filename := .empty, heap := h₅, argv := 0 }, ?_, b₅⟩
  unfold Act.giveBack
  refine (release (·.fs) rfl hfs _).trans ?_
  refine (release (·.ofs) rfl hofs _).trans ?_
  refine (release (·.ors) rfl hors _).trans ?_
  refine (release (·.filename) rfl hfilename _).trans ?_
  exact (Act.bind_ok (Act.get_ok _)).trans ((Act.bind_ok (Act.change_ok hargv)).trans rfl)

/-- Closing does to the records what it does on plain values, and leaves nothing but what the items own. -/
theorem close (h : c.Reflects L s items) : ∃ c', c.close = ((s.record Records.close).1, c')
    ∧ c'.toRecords = (s.record Records.close).2.toRecords ∧ c'.heap.Backs L s.tables items := by
  have hrecords : Act.onRecords Records.close c
      = (.ok (s.record Records.close).1, { c with toRecords := (s.record Records.close).2.toRecords }) := by
    rw [show Act.onRecords Records.close c = (.ok (Records.close c.toRecords).1,
      { c with toRecords := (Records.close c.toRecords).2 }) from rfl,
      h.records]
    rfl
  obtain ⟨c', hgive, hb⟩ := giveBack (c := { c with toRecords := (s.record Records.close).2.toRecords })
    (s := s) h.backs
  have hclose : Act.close c = (.ok (s.record Records.close).1, c') := by
    rw [Act.close_eq]
    exact (Act.bind_ok hrecords).trans ((Act.bind_ok hgive).trans rfl)
  refine ⟨c', by rw [Context.close, hclose], ?_, hb⟩
  have hsame := Act.toRecords_close c
  rw [hclose, h.records] at hsame
  exact hsame

end Context.Reflects

/-! ## Reports -/

/-- The report tells how the plain run ended. Its records are those of the plain run, closed, and after an end without
a trap nothing is left in the heap. -/
structure Report.Shows (r : Report) (e : Plain.Ending × Plain.Store) : Prop where
  ending : match e.1 with
    | .returned => r.ending = .returned
    | .halted h => ∃ name, r.ending = .trapped (h.trap.within name)
  failures : r.failures = (Records.close e.2.toRecords).1
  records : r.context.toRecords = (Records.close e.2.toRecords).2
  live : e.1 = .returned → r.context.heap.live = 0

theorem Report.Shows.message {r : Report} {s : Plain.Store} (h : r.Shows (.returned, s))
    (hclose : (Records.close s.toRecords).1 = []) :
    r.message? = none := by
  have hending : r.ending = .returned := h.ending
  have hfailures : r.failures = [] := h.failures.trans hclose
  unfold Report.message? Report.problems
  rw [hending, hfailures]
  rfl

theorem Ending.Shows.report {x : Executable} {fuel : Nat} {inst : Instance Service Context} {L : Array Bytes}
    {r : Ending × Context} {e : Plain.Ending × Plain.Store} (h : Ending.Shows L r e)
    (hcall : x.callMain fuel inst = r) : (x.execute fuel inst).Shows e := by
  unfold Executable.execute
  rw [hcall]
  cases h with
  | returned hc =>
    obtain ⟨c', hclose, hrecords, hb⟩ := hc.close
    simp only [hclose]
    exact ⟨rfl, rfl, hrecords, fun _ => (hb.uncons rfl).live_eq_zero⟩
  | trapped name hc =>
    obtain ⟨c', hclose, hrecords, -⟩ := hc.close
    simp only [hclose]
    exact ⟨⟨_, rfl⟩, rfl, hrecords, nofun⟩

/-! ## Whole runs -/

/-- A program that compiles, has no recursion, and asks for so many words of stack in each function. -/
structure Program.Bounded (p : Program) (x : Executable) (rank : Nat → Nat) (words : Nat) : Prop where
  compiles : p.compile = .ok x
  checked : p.check = []
  sized : p.Sized
  regular : p.Regular
  literals : p.LiteralsFit x.literals
  ranked : p.Ranked rank
  words : ∀ f ∈ p.funcs, (f.body.flatMap Instr.slotWords).sum ≤ words

/-- The stack has room for one activation of every rank. -/
structure Program.Affords (p : Program) (rank : Nat → Nat) (words : Nat) (stackWords : Int64) : Prop where
  depth : rank p.main.toNat + 1 < Machine.maxDepth
  room : (rank p.main.toNat + 2) * words ≤ Plan.stackSize stackWords

namespace Program.Bounded

variable {p : Program} {x : Executable} {rank : Nat → Nat} {words : Nat} (h : p.Bounded x rank words) {main : Func}
  (hmain : p.func? p.main = some main) {world : World} {e : Plain.Ending × Plain.Store}

include h hmain

theorem execute {o : Settings} (ho : o.literals = x.literals) {stackWords : Int64}
    (hstack : p.Affords rank words stackWords) {inst : Instance Service Context}
    (hinst : Instance.ofModule x.module (Context.ofSettings o world) stackWords = .ok inst)
    (hends : Ends (Plain.State.step p) (.start p main o world) e) :
    ∃ least, ∀ fuel, least ≤ fuel → (x.execute fuel inst).Shows e := by
  obtain ⟨P, hP, rfl, rfl⟩ := Plan.exists_of_compile h.checked h.sized h.compiles
  have hlength := (hP.starts hinst).2.2.1
  have hroom : P.base + (rank P.program.main.toNat + 2) * words ≤ inst.outside.memory.length := by
    rw [hlength]
    exact Nat.add_le_add_left hstack.room _
  have hempty : ¬P.Crowded inst.outside.memory.length [] := by
    refine hP.not_crowded h.words (Nat.lt_of_le_of_lt (Nat.zero_le _) hstack.depth)
      (Nat.le_trans (Nat.add_le_add_left (Nat.mul_le_mul_right _ ?_) _) hroom)
    exact Nat.le_add_left 1 _
  have hspacious := hP.spacious h.words h.ranked hstack.depth hroom main o world
  obtain ⟨r, hshows, least, hcall⟩ :=
    hP.callMain_plain (hP.fit h.regular h.literals) hmain ho hinst hempty hspacious hends
  exact ⟨least, fun fuel hfuel => hshows.report (hcall fuel hfuel)⟩

theorem runAll {config : Config} {env : Environment} {o : Options} (hconfig : config.resolve env = .ok o)
    {capacity : Nat} (hcapacity : o.bufferBytes = .ok capacity) (hmax : capacity ≤ Writer.maxCapacity)
    (hstack : p.Affords rank words o.stackSize.toInt64) {input : Option Bytes} {inst : Instance Service Context}
    (hinst : Instance.ofModule x.module
      (Context.ofSettings (o.settings x.literals input capacity) world) o.stackSize.toInt64 = .ok inst)
    (hends : Ends (Plain.State.step p) (.start p main (o.settings x.literals input capacity) world) e) :
    ∃ least, ∀ fuel, least ≤ fuel → ∃ s r, p.runAll fuel config env world [input] = .ok s ∧ s.reports = [.ok r]
      ∧ r.Shows e := by
  obtain ⟨least, hshows⟩ := h.execute hmain rfl hstack hinst hends
  refine ⟨least, fun fuel hfuel => ?_⟩
  have hrun : x.run fuel config env world input = ((x.execute fuel inst).events capacity,
      .ok (x.execute fuel inst)) := by
    unfold Executable.run
    rw [hconfig]
    simp only [hcapacity, hinst, if_neg (Nat.not_lt.2 hmax)]
  have hprepare : p.prepare config env = (p.compilation.events p, .ok x) := by
    unfold Program.prepare
    rw [hconfig]
    dsimp only
    rw [show p.compilation.result = .ok x from h.compiles]
    rfl
  refine ⟨⟨p.compilation.events p ++ (x.execute fuel inst).events capacity, [.ok (x.execute fuel inst)],
    (x.execute fuel inst).context.world.disk⟩, x.execute fuel inst, ?_, rfl, hshows fuel hfuel⟩
  unfold Program.runAll
  rw [hprepare]
  simp only [List.foldl_cons, List.foldl_nil, Session.add, hrun, List.nil_append]

end Program.Bounded

end RecordMill

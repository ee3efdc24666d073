import RecordMill.Proofs.Lowering.Placement
import RecordMill.Proofs.Machine.StackArea

/-!
# Compiled programs as sites

A plan tells for every function of a compiled program how it was lowered. With a stack area it gives a site
on which the code of the function can be relied on.
-/

namespace RecordMill

open Machine (Kind FuncId FuncDecl Body Callee Module Memory Value)

/-- The program is not larger than memory and offsets allow for. -/
structure Program.Sized (p : Program) : Prop where
  spills : ∀ f ∈ p.funcs, ∀ i ∈ f.body, i.Spills
  slots : ∀ f ∈ p.funcs, (f.body.flatMap Instr.slotWords).sum < Machine.maxArea
  globals : p.globals.length < Nat.pow 2 58

/-- A program is small enough when the arguments that its functions print take less than 2 GiB. -/
theorem Program.sized_of_slots {p : Program}
    (hslots : ∀ f ∈ p.funcs, 8 * (f.body.flatMap Instr.slotWords).sum < Nat.pow 2 31)
    (hglobals : p.globals.length < Nat.pow 2 58) : p.Sized where
  spills f hf i hi := by
    have hone : i.slotWords.sum ≤ (f.body.flatMap Instr.slotWords).sum := by
      obtain ⟨before, after, hbody⟩ := List.append_of_mem hi
      rw [hbody, List.flatMap_append, List.flatMap_cons, List.sum_append_nat, List.sum_append_nat]
      omega
    have hall := hslots f hf
    have h31 : Nat.pow 2 31 = 2147483648 := rfl
    cases i with
    | print _ args _ | printf _ _ args _ | sprintf _ _ args =>
      simp only [Instr.slotWords, List.sum_cons, List.sum_nil] at hone
      simp only [Instr.Spills]
      omega
    | _ => trivial
  slots f hf := by
    have hall := hslots f hf
    have h31 : Nat.pow 2 31 = 2147483648 := rfl
    have hmax : Machine.maxArea = 576460752303423488 := rfl
    omega
  globals := hglobals

theorem Declared.span_le (gs : List Reg) : Declared.span gs ≤ 2 * gs.length := by
  induction gs with
  | nil => exact Nat.le_refl _
  | cons g gs ih =>
    have hone : g.ty.words.words ≤ 2 := by cases g.ty <;> simp [Ty.words, Kind.words]
    show g.ty.words.words + Declared.span gs ≤ 2 * (gs.length + 1)
    omega

/-- How the functions of a program were lowered. -/
structure Plan where
  program : Program
  code : Executable
  declared : Declared
  given : Nat → Surroundings
  entry : Nat → Progress
  last : Nat → Progress

namespace Plan

def body (P : Plan) (i : Nat) : Body := (P.last i).draft.body

def base (P : Plan) : Nat := 1 + Declared.span P.program.globals

def room (P : Plan) (i : Nat) : Nat :=
  match (P.declared.funcs[i]?.bind (P.code.module.funcs[·]?)).bind (·.compiled) with
  | some c => c.stackArea.toInt.toNat
  | none => 0

/-- Where a function runs with a stack area from `area` on, in a memory of so many words. -/
def site (P : Plan) (length i area : Nat) : Site :=
  { given := P.given i
    module := P.code.module
    body := P.body i
    literals := P.code.literals
    area
    room := P.room i
    length
    base := P.base }

/-- The plan is one of a program that was compiled, with every register counted if so wanted. -/
structure Made (P : Plan) (all : Bool) : Prop where
  checked : P.program.check = []
  sized : P.program.Sized
  distinct : P.program.Distinct
  program : P.declared.program = P.program
  addresses : P.declared.addresses = Declared.addressesFrom 1 P.program.globals
  words : P.code.module.dataWords = (Declared.span P.program.globals).toInt64
  leads : P.declared.module.Leads P.code.module
  complete : ∃ m, P.code.module = { m with finalized := true }
    ∧ Declared.Sound m P.declared.funcs Service.all P.program.globals P.program.funcs P.program.funcs.length
  main : P.declared.funcs[P.program.main.toNat]? = some P.code.main
  ret : (P.program.func? P.program.main).map Func.ret = some P.code.mainRet
  placed : ∀ {i f}, P.program.funcs[i]? = some f →
    P.declared.Placed all P.code.module P.code.literals i f (P.given i) (P.entry i) (P.last i)

abbrev Sound (P : Plan) : Prop := P.Made false

structure Holds (P : Plan) (i : Nat) (f : Func) (id : FuncId) (e : FuncDecl Service) (c : Machine.Compiled) : Prop where
  func : P.declared.funcs[i]? = some id
  decl : P.code.module.funcs[id]? = some e
  host : e.host = none
  sig : e.sig = f.sig
  source : e.source = some (P.body i)
  compiled : e.compiled = some c
  area : c.stackArea = (P.room i).toInt64
  room : P.room i < Machine.maxArea
  slotted : P.room i ≤ (f.body.flatMap Instr.slotWords).sum
  whole : c.machineCode = none → P.room i = (f.body.flatMap Instr.slotWords).sum
  covered : c.machineCode.isSome → ∀ inst ∈ (P.body i).insts, Machine.X86.covers inst.action
  slots : ∀ {s j : Nat} {w : Int64} {k : Kind} {o : Int32} {rs : List Value}, (P.body i).slots[s]? = some w →
    (P.body i).insts[j]? = some ⟨.stackAddr k s o, rs⟩ →
    ∃ off, (P.body i).slotPlace s 0 = UInt64.ofNat (8 * off) ∧ off + w.toInt.toNat ≤ P.room i

namespace Made

variable {P : Plan} {all : Bool} (h : P.Made all) {i : Nat} {f : Func} (hf : P.program.funcs[i]? = some f)
  {length area : Nat}

include h

/-! ## What lowering was given -/

section

include hf

theorem given_eq :
    P.given i = { P.declared.surroundingsCounting all i f with module := (P.given i).module } := (h.placed hf).given

theorem given_program : (P.given i).program = P.program := by
  rw [h.given_eq hf]
  exact h.program

theorem given_funcs : (P.given i).funcs = P.declared.funcs := by
  rw [h.given_eq hf]
  rfl

theorem scope : (P.given i).scope = (Scope.ofFunc P.program f (P.program.main = i)).counting all := by
  rw [h.given_eq hf, ← h.program]
  rfl

theorem alike : (P.given i).scope.Alike (.ofFunc P.program f (P.program.main = i)) := by
  rw [h.scope hf]
  exact Scope.counting_alike ..

theorem func : (P.given i).scope.func = f := (h.alike hf).func

end

theorem isGlobal_iff (hf : P.program.funcs[i]? = some f) {g : Reg} :
    (P.given i).scope.isGlobal g ↔ g ∈ P.program.globals := by
  have hfit := (h.placed hf).fit
  constructor
  · intro hg
    rw [← h.given_program hf, ← hfit.globals_eq]
    exact Site.mem_globals_of_isGlobal (S := P.site 0 i 0) hfit hg
  · intro hg
    obtain ⟨j, hj⟩ := List.mem_iff_getElem?.1 hg
    rw [← h.given_program hf] at hj
    rw [Scope.isGlobal, hfit.global_binding hj]
    rfl

theorem address_eq (hf : P.program.funcs[i]? = some f) {g : Reg} (hg : g ∈ P.program.globals) :
    (P.site length i area).address g = Memory.addressOf (1 + Declared.before P.program.globals g) := by
  have haddr : (P.given i).addresses = Declared.addressesFrom 1 P.program.globals := by
    rw [h.given_eq hf]
    exact h.addresses
  show ((P.given i).addresses.lookup g).getD 0 = _
  rw [haddr, Declared.lookup_addressesFrom hg]
  rfl

theorem base_lt : P.base < Nat.pow 2 59 + 1 := by
  have hspan := Declared.span_le P.program.globals
  have hlen := h.sized.globals
  have h58 : Nat.pow 2 58 = 288230376151711744 := rfl
  have h59 : Nat.pow 2 59 = 576460752303423488 := rfl
  unfold base
  omega

theorem index_eq (hf : P.program.funcs[i]? = some f) {g : Reg} (hg : g ∈ P.program.globals) :
    (P.site length i area).index g = 1 + Declared.before P.program.globals g := by
  have hbase := h.base_lt
  have hspan := Declared.before_add hg
  have h59 : Nat.pow 2 59 = 576460752303423488 := rfl
  have hmax : Memory.maxIndex = 1152921504606846976 := rfl
  unfold base at hbase
  rw [Site.index, h.address_eq hf hg, Memory.toNat_addressOf (by omega)]
  omega

/-! ## The module -/

theorem returns {id : Nat} {e : FuncDecl Service} (he : P.code.module.funcs[id]? = some e) :
    ∀ k ∈ e.sig.returns, k ≠ .invalid := by
  obtain ⟨m, hm, hsound⟩ := h.complete
  have he' : m.funcs[id]? = some e := by rw [← he, hm]
  rcases hsound.others he' with ⟨-, sv, hsig, -⟩ | hmem
  · rw [hsig]
    have hall : ∀ sv ∈ Service.all, ∀ k ∈ sv.sig.returns, k ≠ .invalid := by decide
    exact hall sv sv.mem_all
  · obtain ⟨j, hj⟩ := List.mem_iff_getElem?.1 hmem
    obtain ⟨f, hf⟩ : ∃ f, P.program.funcs[j]? = some f :=
      ⟨_, List.getElem?_eq_getElem (hsound.length ▸ (List.getElem?_eq_some_iff.1 hj).1)⟩
    obtain ⟨id', e', hid, he'', hsig, -⟩ := hsound.funcs hf
    obtain rfl : id = id' := Option.some.inj (hj.symm.trans hid)
    obtain rfl : e = e' := Option.some.inj (he'.symm.trans he'')
    rw [hsig, Func.sig]
    split
    · simp
    · simpa using f.ret.words_ne_invalid

theorem given_returns (hf : P.program.funcs[i]? = some f) : (P.given i).module.Returns := by
  intro id e he
  obtain ⟨e', he', hsig, -⟩ := (h.placed hf).leads.funcs he
  exact hsig ▸ h.returns he'

theorem proper (hf : P.program.funcs[i]? = some f) :
    (P.body i).Proper ∧ (P.body i).slots = ((f.body.flatMap Instr.slotWords).map Nat.toInt64).toArray := by
  have hfit := (h.placed hf).fit
  obtain ⟨ls, hmade⟩ := (h.placed hf).made
  have hreturns : (P.given i).module.Returns := h.given_returns hf
  obtain ⟨hproper, hslots⟩ := Site.enter_proper (S := P.site 0 i 0) hreturns hmade.enter
  have hfunc := h.func hf
  have hstage : ∀ k ≤ f.body.length, ((P.given i).stage (P.entry i) k).draft.body.Proper
      ∧ ((P.given i).stage (P.entry i) k).draft.body.slots
          = (((f.body.take k).flatMap Instr.slotWords).map Nat.toInt64).toArray := by
    intro k
    induction k with
    | zero => exact fun _ => ⟨hproper, hslots⟩
    | succ k ih =>
      intro hk
      obtain ⟨hproper, hslots⟩ := ih (Nat.le_of_succ_le hk)
      obtain ⟨x, hx⟩ : ∃ x, f.body[k]? = some x := ⟨_, List.getElem?_eq_getElem hk⟩
      have hi : (P.given i).scope.func.body[k]? = some x := by rw [hfunc, hx]
      obtain ⟨hproper', hslots'⟩ := (Lowering.takes_lower x).keeps hreturns
        (Surroundings.lower_stage hfit hmade.start hmade.known hi) hproper
      refine ⟨hproper', ?_⟩
      rw [hslots', hslots, List.take_add_one, hx, List.flatMap_append, List.map_append]
      simp [Instr.slots]
  obtain ⟨hproper, hslots⟩ := hstage f.body.length (Nat.le_refl _)
  have hfinish := hmade.finish
  rw [hfunc] at hfinish
  obtain ⟨hproper', hslots'⟩ := (inferInstance : Native.Plain (P.given i) Native.finish).keeps hreturns hfinish hproper
  exact ⟨hproper', by rw [body, hslots', hslots]; simp⟩

theorem laid : P.code.module.Laid := by
  intro id d c hd hhost hc
  obtain ⟨m, hm, hsound⟩ := h.complete
  have hd' : m.funcs[id]? = some d := by rw [← hd, hm]
  rcases hsound.others hd' with ⟨-, sv, -, hnone⟩ | hmem
  · simp [hhost] at hnone
  obtain ⟨i, hi⟩ := List.mem_iff_getElem?.1 hmem
  obtain ⟨f, hf⟩ : ∃ f, P.program.funcs[i]? = some f :=
    ⟨_, List.getElem?_eq_getElem (hsound.length ▸ (List.getElem?_eq_some_iff.1 hi).1)⟩
  obtain ⟨id', e, c', hid, he, -, hsig, hsource, hcompiled, hcode⟩ := (h.placed hf).decl
  obtain rfl : id = id' := Option.some.inj (hi.symm.trans hid)
  obtain rfl : d = e := Option.some.inj (hd.symm.trans he)
  obtain rfl : c = c' := Option.some.inj (hc.symm.trans hcompiled)
  obtain ⟨ls, hmade⟩ := (h.placed hf).made
  obtain ⟨hproper, -⟩ := h.proper hf
  refine ⟨P.body i, hhost, hsource, hc, ?_, ⟨_, hcode⟩, hmade.whole.wellFormed, hproper.values, hproper.jumpsMatch,
    fun hr => ?_⟩
  · rw [hsig, ← h.func hf]
    exact hmade.sig
  · obtain ⟨e, he, hesig⟩ := hmade.callees hr
    obtain ⟨e', he', hsig', -⟩ := (h.placed hf).leads.funcs he
    exact ⟨e', he', hsig'.trans hesig⟩

theorem holds (hf : P.program.funcs[i]? = some f) : ∃ id e c, P.Holds i f id e c := by
  obtain ⟨id, e, c, hid, he, hhost, hsig, hsource, hcompiled, hcode⟩ := (h.placed hf).decl
  obtain ⟨r, harea, hr, hwhole, hcovered⟩ := Body.room_of_compile hcode (h.proper hf).2
  have hr' : r < Machine.maxArea := Nat.lt_of_le_of_lt hr (h.sized.slots f (List.mem_of_getElem? hf))
  have hroom : P.room i = r := by
    have hmax : Machine.maxArea = 576460752303423488 := rfl
    have hto : r.toInt64.toInt = r := Int64.toInt_ofNat_of_lt (by omega)
    simp [room, hid, he, hcompiled, harea, hto]
  subst hroom
  refine ⟨id, e, c, hid, he, hhost, hsig, hsource, hcompiled, harea, hr', hr, hwhole, hcovered,
    fun {s j w k o rs} hs hj => ?_⟩
  have hnone : c.machineCode = none := by
    by_contra hsome
    have hcovers := hcovered (Option.isSome_iff_ne_none.2 hsome) _ (Array.mem_of_getElem? hj)
    simp [Machine.X86.covers] at hcovers
  rw [hwhole hnone]
  exact Body.slotPlace_eq (h.proper hf).2 (h.sized.slots f (List.mem_of_getElem? hf)) hs

/-! ## Sites -/

theorem site_sound (hf : P.program.funcs[i]? = some f) (hbase : P.base ≤ area) (hroom : area + P.room i ≤ length)
    (hlength : length ≤ Memory.maxIndex) : (P.site length i area).Sound := by
  have hP := h.placed hf
  obtain ⟨ls, hmade⟩ := hP.made
  obtain ⟨id, e, c, hholds⟩ := h.holds hf
  obtain ⟨m, hm, hsound⟩ := h.complete
  have hglobal : ∀ {g}, (P.site length i area).scope.isGlobal g → g ∈ P.program.globals :=
    fun hg => (h.isGlobal_iff hf).1 hg
  refine {
    services := fun sv => ?_
    returns := h.given_returns hf
    vars := fun {pl v} hv => ?_
    counted := hP.fit.apt.counted
    apart := fun {pl pl' v} hv hv' => ?_
    address := fun {g} hg => ?_
    disjoint := fun {g g'} hg hg' hne => ?_
    positive := Nat.lt_add_right _ Nat.one_pos
    base := hbase
    area := hroom
    length := hlength
    slots := hholds.slots }
  · obtain ⟨k, e, hk, he, hsig⟩ := hP.fit.apt.services sv
    obtain ⟨k', e', hk', he', hsig', -, hhost⟩ := hsound.services sv.mem_all
    have hlookup : P.code.module.lookup? sv.name = some k' := by
      rw [hm]
      simp [Module.lookup?, hk']
    obtain rfl : k = k' := Option.some.inj (hk.symm.trans ((hP.leads.lookup sv.name).symm.trans hlookup))
    exact ⟨k, e, e', hk, he, hsig, by rw [← he']; exact congrArg (·.funcs[k]?) hm, hhost, hsig'⟩
  · have hvar := (hP.fit.vars hv).1
    show (P.body i).vars[v]? = _
    rw [← Array.getElem?_toList, show (P.body i).vars.toList = _ from hmade.vars]
    exact hvar
  · have hv : (P.given i).scope.var? pl = some v := hv
    have hv' : (P.given i).scope.var? pl' = some v := hv'
    rw [(h.alike hf).var?] at hv hv'
    exact Scope.var?_inj hv hv'
  · have hspan := Declared.before_add (hglobal hg)
    rw [h.address_eq hf (hglobal hg), h.index_eq hf (hglobal hg)]
    refine ⟨rfl, by omega, ?_⟩
    show _ ≤ P.base
    unfold base
    omega
  · have hapart := Declared.before_apart (hglobal hg) (hglobal hg') hne
    rw [h.index_eq hf (hglobal hg), h.index_eq hf (hglobal hg')]
    omega

theorem site_lowered (hf : P.program.funcs[i]? = some f) : (P.site length i area).Lowered (P.entry i) := by
  have hP := h.placed hf
  obtain ⟨ls, hmade⟩ := hP.made
  exact ⟨hP.fit, hmade.known, hmade.start, hmade.grows, hmade.literals.trans hP.literals⟩

end Made

end Plan

/-! ## Compiling goes through -/

structure Declared.Compiles (d : Declared) (all : Bool) (p : Program) (x : Executable) : Prop where
  declared : Declared.ofProgram p = .ok d
  distinct : p.Distinct
  program : d.program = p
  complete : ∃ m, x.module = { m with finalized := true }
    ∧ Declared.Sound m d.funcs Service.all p.globals p.funcs p.funcs.length
  leads : d.module.Leads x.module
  main : d.funcs[p.main.toNat]? = some x.main
  ret : (p.func? p.main).map Func.ret = some x.mainRet
  placed : ∀ {i f}, p.funcs[i]? = some f → ∃ s a b, d.Placed all x.module x.literals i f s a b

theorem Program.check_of_compile {p : Program} {x : Executable} (hx : p.compile = .ok x) : p.check = [] := by
  rw [p.compile_eq_counting] at hx
  unfold compileCounting at hx
  split at hx
  · assumption
  · cases hx

theorem Program.compiles_counting {p : Program} {x : Executable} (hx : p.compile = .ok x) :
    ∃ d : Declared, ∀ all, ∃ y, p.compileCounting all = .ok y ∧ d.Compiles all p y := by
  have hp := check_of_compile hx
  have hr := knownTypes_of_compile hp hx
  rw [compile_eq hp] at hx
  rcases Declared.ofProgram_cases hp with ⟨hn, d, hd, hprogram, h⟩ | ⟨-, name, c, hd⟩
  · rw [hd] at hx
    dsimp only at hx
    have hknown : ∀ f ∈ p.funcs, ∀ i ∈ f.body, i.unknown? = none := by
      rcases Declared.defineAll_cases hp hr hn [] hprogram h List.drop_zero with ⟨hall, -⟩ | ⟨f, hf, j, i,
        op, -, -, hrun⟩
      · exact hall
      · rw [hrun] at hx
        cases hx
    refine ⟨d, fun all => ?_⟩
    obtain ⟨m, ls, hrun, -, hbodies, hsound, hplaced⟩ :=
      Declared.defineAll_placed hp hr hn all [] hknown hprogram h List.drop_zero
    obtain ⟨y, hy, -⟩ := Declared.Sound.complete (d := { d with module := m }) hp hprogram hsound ls
    obtain ⟨hmodule, hliterals, hmain, hret⟩ := Declared.finish_eq_ok hsound.unfinished hy
    have hleads : m.Leads y.module := by
      rw [hmodule]
      exact ⟨rfl, rfl, rfl, rfl, fun he => ⟨_, he, rfl, rfl, fun _ => rfl⟩⟩
    refine ⟨y, ?_, hd, hn, hprogram, ⟨m, hmodule, hsound⟩, hbodies.trans hleads, ?_, ?_, fun {i f} hf => ?_⟩
    · unfold compileCounting
      rw [hp, hd]
      show (d.defineAllCounting all [] 0 p.funcs >>= fun r => r.1.finish r.2) = _
      rw [hrun]
      exact hy
    · rw [← hprogram]
      exact hmain
    · rw [← hprogram]
      exact hret
    · obtain ⟨s, a, b, hP⟩ := hplaced (Nat.zero_le i) hf
      refine ⟨s, a, b, hP.given, hP.fit, hP.made, hliterals ▸ hP.literals, hP.leads.trans hleads, ?_⟩
      rw [hmodule]
      exact hP.decl
  · rw [hd] at hx
    cases hx

theorem Program.compiles_of_compile {p : Program} {x : Executable} (hx : p.compile = .ok x) : ∃ d :
    Declared, d.Compiles false p x := by
  obtain ⟨d, hall⟩ := compiles_counting hx
  obtain ⟨y, hy, h⟩ := hall false
  obtain rfl : x = y := Except.ok.inj (hx.symm.trans (p.compile_eq_counting.trans hy))
  exact ⟨d, h⟩

theorem Declared.Compiles.exists_plan {d : Declared} {all : Bool} {p : Program} {x : Executable}
    (h : d.Compiles all p x) (hp : p.check = []) (hs : p.Sized) : ∃ P :
    Plan, P.Made all ∧ P.program = p ∧ P.code = x ∧ P.declared = d := by
  have hchoice : ∀ i, ∃ t : Surroundings × Progress × Progress, ∀ f, p.funcs[i]? = some f →
      d.Placed all x.module x.literals i f t.1 t.2.1 t.2.2 := by
    obtain ⟨main, hmain, -⟩ := (Check.check_eq_nil.1 hp).1
    obtain ⟨j, hj⟩ := List.mem_iff_getElem?.1 (Program.mem_of_func? hmain)
    intro i
    cases hi : p.funcs[i]? with
    | none =>
      obtain ⟨s, a, b, -⟩ := h.placed hj
      exact ⟨(s, a, b), nofun⟩
    | some f =>
      obtain ⟨s, a, b, hP⟩ := h.placed hi
      refine ⟨(s, a, b), fun g hg => ?_⟩
      cases hg
      exact hP
  obtain ⟨made, hmade⟩ := Classical.axiomOfChoice hchoice
  obtain ⟨haddr, hwords⟩ := Declared.ofProgram_words h.declared
  exact ⟨⟨p, x, d, fun i => (made i).1, fun i => (made i).2.1, fun i => (made i).2.2⟩,
    ⟨hp, hs, h.distinct, h.program, haddr, h.leads.words.trans hwords, h.leads, h.complete, h.main, h.ret, fun hf =>
      hmade _ _ hf⟩, rfl, rfl, rfl⟩

theorem Plan.exists_of_compile {p : Program} (hp : p.check = []) (hs : p.Sized) {x : Executable}
    (hx : p.compile = .ok x) :
    ∃ P : Plan, P.Sound ∧ P.program = p ∧ P.code = x := by
  obtain ⟨d, h⟩ := p.compiles_of_compile hx
  obtain ⟨P, hP, hprogram, hcode, -⟩ := h.exists_plan hp hs
  exact ⟨P, hP, hprogram, hcode⟩

end RecordMill

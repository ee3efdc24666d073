import RecordMill.Program.Samples
import RecordMill.Proofs.Lowering.Declaration

/-!
# Compiling is total

A checked program of registers of known types compiles, but for two things: a name that stands for two
things, and an operator that does not exist.
-/

namespace RecordMill

open Machine (Kind FuncId FuncDecl Entry Body Module ModuleError Linkage)

def Program.KnownTypes (p : Program) : Prop := ∀ f ∈ p.funcs, ∀ i ∈ f.body, ∀ r ∈ i.regs, r.ty.isValid

instance (p : Program) : Decidable p.KnownTypes :=
  inferInstanceAs (Decidable (∀ f ∈ p.funcs, ∀ i ∈ f.body, ∀ r ∈ i.regs, r.ty.isValid))

namespace Declared

variable {p : Program} {d : Declared} {n : Nat}

theorem Sound.fit (hp : p.check = []) (hr : p.KnownTypes) (hn : p.Distinct) (hd : d.program = p)
    (h : Sound d.module d.funcs Service.all p.globals p.funcs n) {f : Func} (hf : f ∈ p.funcs) (i : Nat) :
    (d.surroundings i f).Fit := by
  subst hd
  refine ⟨⟨fun sv => ?_, fun {k g} hg => ?_, fun {r b} hb hglobal => ?_⟩, hp, hf, rfl, hn.globals, hr f hf⟩
  · obtain ⟨id, e, hid, he, hsig, -⟩ := h.services sv.mem_all
    exact ⟨id, e, by rw [surroundings, Module.lookup?, hid], he, hsig⟩
  · have hk : d.program.funcs[k.toNat]? = some g := by
      have hfunc : (if k < 0 then none else d.program.funcs[k.toNat]?) = some g := hg
      split at hfunc
      · cases hfunc
      · exact hfunc
    obtain ⟨id, e, hid, he, hsig, -⟩ := h.funcs hk
    refine ⟨id, e, hid, he, ?_⟩
    rw [hsig]
    exact Func.signature_of_check ((Check.check_eq_nil.1 hp).2.2 g (List.mem_of_getElem? hk))
  · rcases Scope.binding_cases (mem_of_lookup hb) with ⟨j, -, rfl⟩ | hmem
    · rfl
    · simp [(Scope.binding_bindLocals hmem).1] at hglobal

theorem Sound.define {m : Module Service} {ids : List FuncId} {svs : List Service} {gs : List Reg} {fs : List Func}
    (h : Sound m ids svs gs fs n) {f : Func} (hf : fs[n]? = some f) {body : Body} (hbody : body.Whole)
    (hsig : body.sig = f.sig) :
    ∃ id e c, ids[n]? = some id ∧ m.funcs[id]? = some e ∧ e.compiled = none ∧ body.compile m.target = .ok c
      ∧ m.defineFunc id body = .ok (m.withBody id e body c) ∧ Sound (m.withBody id e body c) ids svs gs fs (n + 1) := by
  obtain ⟨id, e, hid, he, hesig, hlink, hhost, hdone⟩ := h.funcs hf
  obtain ⟨c, hc⟩ := hbody.compiles m.target
  have hnew : e.compiled.isSome = false := by simp [hdone]
  have hrun : m.defineFunc id body = .ok (m.withBody id e body c) := by
    rw [Module.defineFunc, if_neg (by simp [h.unfinished]), he]
    dsimp only
    rw [if_neg hlink, if_neg (by simp [hnew]), if_neg (not_not_intro (hesig.trans hsig.symm)), hc]
    rfl
  refine ⟨id, e, c, hid, he, by simpa using hnew, hc, hrun, ⟨h.unfinished, h.imports, h.taken, fun hsv => ?_, h.length,
    fun {k g} hg => ?_, h.nodup, fun {k x} hx => ?_⟩⟩
  · obtain ⟨k, x, hk, hx, hxsig, hxlink, hxhost⟩ := h.services hsv
    have hne : k ≠ id := by
      rintro rfl
      rw [he] at hx
      cases hx
      exact hlink hxlink
    exact ⟨k, x, hk, by rw [Module.funcs_withBody he hx, if_neg hne], hxsig, hxlink, hxhost⟩
  · obtain ⟨j, x, hj, hx, hxsig, hxlink, hxhost, hxdone⟩ := h.funcs hg
    refine ⟨j, _, hj, Module.funcs_withBody he hx, ?_⟩
    by_cases hk : k = n
    · obtain rfl := hk
      obtain rfl : j = id := Option.some.inj (hj.symm.trans hid)
      obtain rfl : g = f := Option.some.inj (hg.symm.trans hf)
      rw [if_pos rfl]
      exact ⟨hesig, hlink, hhost, by simp⟩
    · have hne : j ≠ id := by
        rintro rfl
        have hlt := (List.getElem?_eq_some_iff.1 hj).1
        exact hk ((List.getElem?_inj hlt h.nodup).1 (hj.trans hid.symm))
      rw [if_neg hne]
      refine ⟨hxsig, hxlink, hxhost, hxdone.trans (decide_eq_decide.2 ?_)⟩
      omega
  · by_cases hk : k = id
    · exact .inr (hk ▸ List.mem_of_getElem? hid)
    · rw [Module.withBody, Array.getElem?_setIfInBounds_ne (Ne.symm hk)] at hx
      exact h.others hx

/-- All functions from the next on are defined, or there is an operator that does not exist. -/
theorem defineAll_cases (hp : p.check = []) (hr : p.KnownTypes) (hn : p.Distinct) {fs : List Func}
    (literals : List Bytes) (hd : d.program = p) (h : Sound d.module d.funcs Service.all p.globals p.funcs n)
    (hfs : p.funcs.drop n = fs) :
    (∀ f ∈ fs, ∀ i ∈ f.body, i.unknown? = none)
      ∧ (∃ d' ls, (d.defineAll literals n fs).2 = .ok (d', ls) ∧ d'.program = p
        ∧ Sound d'.module d'.funcs Service.all p.globals p.funcs p.funcs.length)
      ∨ ∃ f ∈ fs, ∃ (j : Nat) (i : Instr) (op : ValueOp), f.body[j]? = some i ∧ i.unknown? = some op
        ∧ (d.defineAll literals n fs).2 = .error (.lowering f.name j (.unsupported op)) := by
  induction fs generalizing d n literals with
  | nil =>
    have hlen : p.funcs.length ≤ n := List.drop_eq_nil_iff.1 hfs
    refine .inl ⟨by simp, d, literals, rfl, hd, { h with funcs := fun {k g} hg => ?_ }⟩
    obtain ⟨id, e, hid, he, hsig, hlink, hhost, hdone⟩ := h.funcs hg
    have hk := (List.getElem?_eq_some_iff.1 hg).1
    exact ⟨id, e, hid, he, hsig, hlink, hhost, hdone.trans (decide_eq_decide.2 (by omega))⟩
  | cons f fs ih =>
    have hf : p.funcs[n]? = some f := by
      rw [← List.head?_drop, hfs]
      rfl
    have hrest : p.funcs.drop (n + 1) = fs := by
      rw [← List.tail_drop, hfs]
      rfl
    rcases lowerFunc_cases (h.fit hp hr hn hd (List.mem_of_getElem? hf) n) literals with
      ⟨hall, q, hlower, hwhole, hsig⟩ | ⟨j, i, op, hi, hop, hlower⟩
    · obtain ⟨id, e, c, hid, -, -, -, hrun, h'⟩ := h.define hf hwhole hsig
      have hdefine : d.defineFunc n f literals = .ok ({ d with module := d.module.withBody id e q.draft.body c },
          q.literals) := by
        rw [defineFunc, hlower]
        simp only [Bind.bind, Except.bind, hid, hrun]
        rfl
      have hstep : d.defineAll literals n (f :: fs)
          = defineAll { d with module := d.module.withBody id e q.draft.body c } q.literals (n + 1) fs := by
        rw [defineAll, hdefine]
      rw [hstep]
      rcases ih (d := { d with module := d.module.withBody id e q.draft.body c }) q.literals hd h' hrest with ⟨hfs,
        hdone⟩ | ⟨g, hg, hfail⟩
      · exact .inl ⟨List.forall_mem_cons.2 ⟨hall, hfs⟩, hdone⟩
      · exact .inr ⟨g, .tail _ hg, hfail⟩
    · refine .inr ⟨f, .head _, j, i, op, hi, hop, ?_⟩
      have hdefine : d.defineFunc n f literals = .error (.lowering f.name j (.unsupported op)) := by
        rw [defineFunc, hlower]
        rfl
      rw [defineAll, hdefine]

theorem Sound.complete (hp : p.check = []) (hd : d.program = p)
    (h : Sound d.module d.funcs Service.all p.globals p.funcs p.funcs.length) (literals : List Bytes) :
    ∃ x, d.finish literals = .ok x ∧ x.module.finalized := by
  obtain ⟨⟨main, hmain, -⟩, -⟩ := Check.check_eq_nil.1 hp
  have hk : p.funcs[p.main.toNat]? = some main := by
    have hfunc : (if p.main < 0 then none else p.funcs[p.main.toNat]?) = some main := hmain
    split at hfunc
    · cases hfunc
    · exact hfunc
  obtain ⟨id, -, hid, -⟩ := h.funcs hk
  have hfinal : d.module.finalize = .ok { d.module with finalized := true } := by
    have hnone : (d.module.funcs.find? fun e => e.linkage ≠ .imported && e.compiled.isNone) = none := by
      refine Array.find?_eq_none.2 fun e he => ?_
      obtain ⟨k, hk⟩ := Array.mem_iff_getElem?.1 he
      rcases h.others hk with ⟨hlink, -⟩ | hmem
      · simp [hlink]
      · obtain ⟨j, hj⟩ := List.mem_iff_getElem?.1 hmem
        have hlt : j < p.funcs.length := h.length ▸ (List.getElem?_eq_some_iff.1 hj).1
        obtain ⟨id', e', hid', he', -, -, -, hdone⟩ := h.funcs (List.getElem?_eq_getElem hlt)
        obtain rfl : k = id' := Option.some.inj (hj.symm.trans hid')
        obtain rfl : e = e' := Option.some.inj (hk.symm.trans he')
        obtain ⟨c, hc⟩ := Option.isSome_iff_exists.1 (hdone.trans (decide_eq_true hlt))
        simp [hc]
    rw [Module.finalize, if_neg (by simp [h.unfinished]), hnone]
  refine ⟨{ module := { d.module with finalized := true }, main := id, literals, mainRet := main.ret }, ?_, rfl⟩
  rw [finish, hfinal, hd, hmain, hid]

end Declared

theorem Program.compile_eq {p : Program} (hp : p.check = []) : p.compile = match Declared.ofProgram p with
    | .error e => .error e
    | .ok d => match (d.defineAll [] 0 p.funcs).2 with
      | .ok (d, literals) => d.finish literals
      | .error e => .error e := by
  unfold compile compilation
  rw [hp]
  -- Declaring the services is a closed computation, which is kept out of sight.
  generalize Declared.ofProgram p = r
  cases r with
  | error e => rfl
  | ok d =>
    dsimp only
    rcases d.defineAll [] 0 p.funcs with ⟨n, _ | ⟨d, ls⟩⟩ <;> rfl

/-- A checked program of registers of known types compiles to a finalized module, unless a name of it stands
for two things or it has an operator that does not exist. -/
theorem Program.compile_total {p : Program} (hp : p.check = []) (hr : p.KnownTypes) :
    ¬p.Distinct ∧ (∃ name c, p.compile = .error (.declaration name c))
      ∨ p.Distinct ∧ (∃ f ∈ p.funcs, ∃ (j : Nat) (i : Instr) (op : ValueOp), f.body[j]? = some i ∧ i.unknown? = some op
        ∧ p.compile = .error (.lowering f.name j (.unsupported op)))
      ∨ p.Distinct ∧ (∀ f ∈ p.funcs, ∀ i ∈ f.body, i.unknown? = none) ∧ ∃ x, p.compile = .ok x
        ∧ x.module.finalized := by
  rw [compile_eq hp]
  rcases Declared.ofProgram_cases hp with ⟨hn, d, hd, hprogram, h⟩ | ⟨hn, name, c, hd⟩
  · refine .inr ?_
    rw [hd]
    dsimp only
    rcases Declared.defineAll_cases hp hr hn [] hprogram h List.drop_zero with
      ⟨hall, d', ls, hrun, hprogram', h'⟩ | ⟨f, hf, j, i, op, hi, hop, hrun⟩
    · obtain ⟨x, hx, hfinal⟩ := h'.complete hp hprogram' ls
      refine .inr ⟨hn, hall, x, ?_, hfinal⟩
      rw [hrun]
      exact hx
    · refine .inl ⟨hn, f, hf, j, i, op, hi, hop, ?_⟩
      rw [hrun]
  · refine .inl ⟨hn, name, c, ?_⟩
    rw [hd]

/-- A program with a global, a call, a loop over the records and a jump within it. -/
theorem Program.compile_total_uniq :
    Samples.uniq.check = [] ∧ Samples.uniq.KnownTypes ∧ ∃ x, Samples.uniq.compile = .ok x ∧ x.module.finalized := by
  have hp : Samples.uniq.check = [] := by decide +kernel
  have hr : Samples.uniq.KnownTypes := by decide +kernel
  refine ⟨hp, hr, ?_⟩
  rcases compile_total hp hr with ⟨hn, -⟩ | ⟨-, f, hf, j, i, op, hi, hop, -⟩ | ⟨-, -, hx⟩
  · refine absurd ⟨by decide +kernel, by decide +kernel, fun f hf sv e => ?_, by decide +kernel⟩ hn
    have hall : ∀ f ∈ Samples.uniq.funcs, ∀ sv ∈ Service.all, f.name ≠ sv.name := by decide +kernel
    exact hall f hf sv sv.mem_all e
  · have hall : ∀ f ∈ Samples.uniq.funcs, ∀ i ∈ f.body, i.unknown? = none := by decide +kernel
    rw [hall f hf i (List.mem_of_getElem? hi)] at hop
    cases hop
  · exact hx

/-! ## Counting every register

A register that only ever holds literals goes uncounted. The same program can be compiled with every register
counted. -/

namespace Declared

section

variable (all : Bool) (d : Declared) (i : Nat) (f : Func) (literals : List Bytes)

/-- The surroundings of a function, with every register counted if so wanted. -/
def surroundingsCounting : Surroundings := { d.surroundings i f with scope := (d.surroundings i f).scope.counting all }

def lowerFuncCounting : Except CompileError Progress := do
  let s := d.surroundingsCounting all i f
  let p ← enter s literals
  let p ← lowerAll s 0 f.body p
  advance s (-1) Native.finish p

theorem surroundingsCounting_false : d.surroundingsCounting false i f = d.surroundings i f := rfl

theorem lowerFuncCounting_false : d.lowerFuncCounting false i f literals = d.lowerFunc i f literals := rfl

def defineFuncCounting : Except CompileError (Declared × List Bytes) := do
  let p ← d.lowerFuncCounting all i f literals
  match d.funcs[i]? with
  | none => throw (.stopped .outOfRange)
  | some id => match d.module.defineFunc id p.draft.body with
    | .ok module => return ({ d with module }, p.literals)
    | .error e => throw (.definition e)

end

def defineAllCounting (all : Bool) (d : Declared) (literals : List Bytes) :
    Nat → List Func → Except CompileError (Declared × List Bytes)
  | _, [] => .ok (d, literals)
  | i, f :: rest => do
    let (d, literals) ← d.defineFuncCounting all i f literals
    defineAllCounting all d literals (i + 1) rest

end Declared

def Program.compileCounting (all : Bool) (p : Program) : Except CompileError Executable :=
  match p.check with
  | [] => do
    let d ← Declared.ofProgram p
    let (d, literals) ← d.defineAllCounting all [] 0 p.funcs
    d.finish literals
  | issues => .error (.invalid issues)

theorem Declared.defineAll_eq_counting (d : Declared) (literals : List Bytes) (i : Nat) (fs : List Func) :
    (d.defineAll literals i fs).2 = d.defineAllCounting false literals i fs := by
  induction fs generalizing d literals i with
  | nil => rfl
  | cons f fs ih =>
    rw [defineAll, defineAllCounting, show d.defineFuncCounting false i f literals = d.defineFunc i f literals from rfl]
    cases d.defineFunc i f literals with
    | error e => rfl
    | ok r => exact ih r.1 r.2 (i + 1)

theorem Program.compile_eq_counting (p : Program) : p.compile = p.compileCounting false := by
  unfold compile compilation compileCounting
  generalize Declared.ofProgram p = r
  cases p.check with
  | cons => rfl
  | nil =>
    cases r with
    | error e => rfl
    | ok d =>
      dsimp only
      show _ = d.defineAllCounting false [] 0 p.funcs >>= fun r => r.1.finish r.2
      rw [← d.defineAll_eq_counting]
      rcases d.defineAll [] 0 p.funcs with ⟨n, _ | ⟨d, literals⟩⟩ <;> rfl

/-! ## What compiles -/

theorem Program.exists_compile {p : Program} (hp : p.check = []) (hr : p.KnownTypes) (hn : p.Distinct)
    (hknown : ∀ f ∈ p.funcs, ∀ i ∈ f.body, i.unknown? = none) : ∃ x, p.compile = .ok x := by
  rw [compile_eq hp]
  rcases Declared.ofProgram_cases hp with ⟨-, d, hd, hprogram, h⟩ | ⟨hnot, -⟩
  · rw [hd]
    dsimp only
    rcases Declared.defineAll_cases hp hr hn [] hprogram h List.drop_zero with
      ⟨-, d', ls, hrun, hprogram', h'⟩ | ⟨f, hf, j, i, op, hi, hop, -⟩
    · obtain ⟨x, hx, -⟩ := h'.complete hp hprogram' ls
      refine ⟨x, ?_⟩
      rw [hrun]
      exact hx
    · rw [hknown f hf i (List.mem_of_getElem? hi)] at hop
      cases hop
  · exact absurd hn hnot

theorem Program.distinct_of_compile {p : Program} (hp : p.check = []) {x : Executable} (hx : p.compile = .ok x) :
    p.Distinct := by
  rw [compile_eq hp] at hx
  rcases Declared.ofProgram_cases hp with ⟨hn, -⟩ | ⟨-, name, c, hd⟩
  · exact hn
  · rw [hd] at hx
    cases hx

namespace Native

variable {s : Surroundings} {q q' : Progress}

theorem forM_eq_ok {α : Type} {xs : List α} {f : α → Native Unit} (h : xs.forM f s q = (.ok (), q')) {x : α}
    (hx : x ∈ xs) :
    ∃ q₁ q₂, f x s q₁ = (.ok (), q₂) := by
  induction xs generalizing q with
  | nil => cases hx
  | cons y ys ih =>
    obtain ⟨_, q₁, hy, hys⟩ := bind_eq_ok h
    rcases List.mem_cons.1 hx with rfl | hx
    · exact ⟨q, q₁, hy⟩
    · exact ih hys hx

theorem valid_of_declareLocal {p : Program} {f : Func} {isMain : Bool} (hscope : s.scope = .ofFunc p f isMain) {r : Reg}
    (hr : r ∈ f.locals p.globals) (h : declareLocal r s q = (.ok (), q')) : r.ty.isValid := by
  cases hi : r.ty.isIter with
  | true => cases ht : r.ty <;> simp_all [Ty.isIter, Ty.isValid]
  | false =>
    have hbinding : ((Scope.ofFunc p f isMain).binding? r).isSome := Scope.binding_isSome hr hi
    obtain ⟨b, hb⟩ := Option.isSome_iff_exists.1 hbinding
    obtain ⟨_, _, hread, h⟩ := bind_eq_ok h
    cases hread
    rw [hscope, Scope.cursor_eq_none hi, hb] at h
    obtain ⟨k, _, hkind, -⟩ := bind_eq_ok h
    cases ht : r.ty with
    | other n =>
      rw [ht] at hkind
      cases hkind
    | _ => rfl

theorem known_of_enter {p : Program} {f : Func} {isMain : Bool} (hscope : s.scope = .ofFunc p f isMain)
    (h : enter s q = (.ok (), q')) {r : Reg} (hr : r ∈ f.locals p.globals) : r.ty.isValid := by
  obtain ⟨_, _, hread, h⟩ := bind_eq_ok h
  cases hread
  obtain ⟨_, _, -, h⟩ := bind_eq_ok h
  obtain ⟨_, _, -, h⟩ := bind_eq_ok h
  obtain ⟨_, _, -, h⟩ := bind_eq_ok h
  obtain ⟨params, _, -, h⟩ := bind_eq_ok h
  obtain ⟨_, _, -, h⟩ := bind_eq_ok h
  cases params with
  | nil => cases h
  | cons ctx params =>
    obtain ⟨_, _, -, h⟩ := bind_eq_ok h
    obtain ⟨_, _, -, h⟩ := bind_eq_ok h
    obtain ⟨_, _, hlocals, -⟩ := bind_eq_ok h
    rw [hscope] at hlocals
    obtain ⟨_, _, hone⟩ := forM_eq_ok hlocals hr
    exact valid_of_declareLocal hscope hr hone

end Native

namespace Declared

theorem bind_eq_ok {α β : Type} {x : Except CompileError α} {f : α → Except CompileError β} {b : β}
    (h : x >>= f = .ok b) :
    ∃ a, x = .ok a ∧ f a = .ok b := by
  cases x with
  | error e => cases h
  | ok a => exact ⟨a, rfl, h⟩

variable {all : Bool} {d d' : Declared} {f : Func} {i : Nat} {ls ls' : List Bytes}

theorem advance_eq_ok {s : Surroundings} {index : Int} {x : Native Unit} {p p' : Progress}
    (h : advance s index x p = .ok p') :
    x s p = (.ok (), p') := by
  unfold advance at h
  split at h
  · next hrun =>
    cases h
    exact hrun
  · cases h
  · cases h

theorem lowerFuncCounting_eq_ok {q : Progress} (h : d.lowerFuncCounting all i f ls = .ok q) : ∃ a b,
    Native.enter (d.surroundingsCounting all i f) ⟨{ body := { name := f.name, sig := f.sig } }, ls⟩ = (.ok (), a)
      ∧ lowerAll (d.surroundingsCounting all i f) 0 f.body a = .ok b ∧ Native.finish (d.surroundingsCounting all i f) b
          = (.ok (), q) := by
  obtain ⟨a, henter, h⟩ := bind_eq_ok h
  obtain ⟨b, hbody, hfinish⟩ := bind_eq_ok h
  obtain ⟨p, hstart, hadvance⟩ := bind_eq_ok henter
  have hfunc : (d.surroundingsCounting all i f).scope.func = f := ((d.surroundings i f).scope.counting_alike all).func
  rw [hfunc] at hstart
  have hstart : kindOf (start f ls) = .ok p := hstart
  cases hs : f.signature with
  | error e =>
    rw [start, hs] at hstart
    cases hstart
  | ok sig =>
    obtain rfl := Func.signature_eq hs
    rw [start, hs] at hstart
    cases hstart
    exact ⟨a, b, advance_eq_ok hadvance, hbody, advance_eq_ok hfinish⟩

theorem defineFuncCounting_eq_ok (h : d.defineFuncCounting all i f ls = .ok (d', ls')) : ∃ q id m,
    d.lowerFuncCounting all i f ls = .ok q ∧ d.funcs[i]? = some id ∧ d.module.defineFunc id q.draft.body = .ok m
      ∧ d' = { d with module := m } ∧ ls' = q.literals := by
  obtain ⟨q, hlower, hdefine⟩ := bind_eq_ok h
  split at hdefine
  · cases hdefine
  · next id hid =>
    split at hdefine
    · next m hm =>
      cases hdefine
      exact ⟨q, id, m, hlower, hid, hm, rfl, rfl⟩
    · cases hdefine

theorem enters_of_defineAll {fs : List Func} {r : Declared × List Bytes} (h : d.defineAllCounting false ls i fs = .ok r)
    (hf : f ∈ fs) :
    ∃ (s : Surroundings) (isMain : Bool) (q q' : Progress), s.scope = .ofFunc d.program f isMain
      ∧ Native.enter s q = (.ok (), q') := by
  induction fs generalizing d ls i with
  | nil => cases hf
  | cons g gs ih =>
    obtain ⟨⟨d', ls'⟩, hdefine, hrest⟩ := bind_eq_ok h
    obtain ⟨q, id, m, hlower, -, -, rfl, rfl⟩ := defineFuncCounting_eq_ok hdefine
    rcases List.mem_cons.1 hf with rfl | hf
    · obtain ⟨a, b, henter, -⟩ := lowerFuncCounting_eq_ok hlower
      exact ⟨d.surroundings i f, _, _, a, rfl, henter⟩
    · exact ih (d := { d with module := m }) hrest hf

end Declared

theorem Program.knownTypes_of_compile {p : Program} (hp : p.check = []) {x : Executable} (hx : p.compile = .ok x) :
    p.KnownTypes := by
  intro f hf i hi r hr
  rw [compile_eq hp] at hx
  rcases Declared.ofProgram_cases hp with ⟨-, d, hd, hprogram, -⟩ | ⟨-, name, c, hd⟩
  · rw [hd] at hx
    dsimp only at hx
    cases hall : (d.defineAll [] 0 p.funcs).2 with
    | error e =>
      rw [hall] at hx
      cases hx
    | ok done =>
      rw [Declared.defineAll_eq_counting] at hall
      obtain ⟨s, isMain, q, q', hscope, henter⟩ := Declared.enters_of_defineAll hall hf
      rw [hprogram] at hscope
      by_cases hnull : r.ty = .null
      · rw [hnull]
        rfl
      by_cases hglobal : r ∈ p.globals
      · exact ((Check.check_eq_nil.1 hp).2.1 r hglobal).1
      · have hmention : r ∈ f.mentions :=
          List.mem_append_right _ (List.mem_flatMap.2 ⟨i, hi, Instr.mem_defs_uses hr hnull⟩)
        exact Native.known_of_enter hscope henter (Scope.mem_locals.2 ⟨hmention, hnull, hglobal⟩)
  · rw [hd] at hx
    cases hx

end RecordMill

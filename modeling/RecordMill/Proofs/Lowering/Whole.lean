import RecordMill.Proofs.Lowering.Passage
import RecordMill.Proofs.Lowering.Plan

/-!
# Whole runs

The code of a compiled program does, step for step, what the direct run of the program does. Every activation
has a frame; those that wait for a result keep their cells, and their stack areas stand one above the other.
-/

/-! ## Calls as the caller sees them

Before a call comes the code that makes its operands, and after it the code that takes the result. -/

namespace RecordMill

open Machine
  (Kind Value VarId BlockId Block Cells CellFrame CellState Outside Memory Body FuncDraft FuncDecl FuncId Build Inst
  Action Callee Trap End execAll)

/-- After a call of `g` in the instruction with index `k`, the caller goes on at place `n` of block `b`. -/
structure Site.Resumes (S : Site) (p : Progress) (k : Nat) (b : BlockId) (n : Nat) (dst : Reg) (g : Func)
    (vs : List Value) (q : Progress) : Prop where
  before : ∃ b', S.given.Before k b' (S.given.stage p k)
  more : k + 1 < S.scope.func.body.length
  typed : dst.ty = .null ∨ dst.ty = g.ret
  appends : ∃ (d : FuncDraft) (a : Action), d.Appends a g.sig.returns vs q.draft
  ongoing : S.Ongoing q b
  next : n = (q.draft.body.code b).length
  later : ((S.given.stage p k).draft.body.code b).length < n
  rest : Native.resume dst g.ret vs S.given q = (.ok (), S.given.stage p (k + 1))

namespace Site.Active

variable {S : Site} {p : Progress} {k n : Nat} {b : BlockId} {fn : Nat} {fr : CellFrame} {below : List CellFrame}
  {st : Direct.State}
  {δ : Direct.Store} {c : Cells} {out : Outside Context} {dst : Reg} {g : Func} {I Q : CellState Context → Prop}
  {E : End Context → Prop} (A : S.Active p fn fr)

include A

theorem calls (hb : S.Starts p k b n) (hm : S.Matches δ c out) {i : Int} {args : List Reg} {id : FuncId}
    {d e : FuncDecl Service} (hi : S.scope.func.body[k]? = some (.call dst i args))
    (hg : S.given.program.func? i = some g) (hid : S.given.funcs[i.toNat]? = some id)
    (he : S.given.module.funcs[id]? = some e) (hsig : e.sig = g.sig) (hd : S.module.funcs[id]? = some d)
    (hhost : d.host = none) (hI : ∀ cst, S.Within p fr below cst → I cst)
    (hdone : ∀ {wss : List (List UInt64)} {δ' : Direct.Store} {c' : Cells} {out' : Outside Context} {m : Nat} {vs :
      List Value} {q : Progress},
      args.mapM Direct.value S.setting δ = (.ok wss, δ') → wss.map List.length = g.params.map (·.ty.words.words) →
      S.Matches δ' c' out' → S.Resumes p k b (m + 1) dst g vs q →
      CellState.step S.module Service.perform ⟨out', fr.to b m c' :: below⟩ = CellState.call S.module Service.perform id
        (Direct.contextWord :: wss).flatten vs out' (fr.to b (m + 1) c' :: below) →
      Proceeds (CellState.step S.module Service.perform) I Q E ⟨out', fr.to b m c' :: below⟩)
    (htrap : ∀ {t : Trap} {δ' : Direct.Store} {out' : Outside Context},
      args.mapM Direct.value S.setting δ = (.error (.trap t), δ') →
      out'.host = δ'.context → E (.trapped t out')) :
    Proceeds (CellState.step S.module Service.perform) I Q E ⟨out, fr.to b n c :: below⟩ := by
  obtain ⟨hlt, hbefore, rfl⟩ := hb
  have hlower : Native.call dst i args S.given (S.given.stage p k) = (.ok (), S.given.stage p (k + 1)) :=
    A.lowered.lower hi
  rw [Native.call_apply hg hid] at hlower
  obtain ⟨⟨r, us⟩, q, hops, hlower⟩ := Native.bind_eq_ok hlower
  obtain ⟨vs, q', hcall, hresume⟩ := Native.bind_eq_ok hlower
  have htyped := A.lowered.fit.typed (List.mem_of_getElem? hi)
  obtain ⟨g', hg', hargs, hdst⟩ := htyped
  obtain rfl : g = g' := Option.some.inj (hg.symm.trans hg')
  have hreal := Realizes.operands (K := Known.nothing S) A.sound he args
  obtain ⟨hq, ⟨seg, hseg, -⟩, -⟩ := hreal.adds hbefore.ongoing hops
  obtain ⟨d', hd', rfl⟩ := Native.build_eq_ok hcall
  obtain ⟨callee, hcallee, happ⟩ := Build.wp_ok (Build.call_wp r us) hd'
  have hext : q.draft.Extends b _ d' := FuncDraft.Extends.of_appends hq.ready happ rfl (by
    obtain ⟨e', he', hsig'⟩ := hq.callees hcallee
    exact hsig' ▸ A.sound.returns he')
  have hq' : S.Ongoing ⟨d', q.literals⟩ b := ⟨hext.ready, fun h => hq.callees (happ.callees ▸ h)⟩
  have hreturn : Realizes S (Known.spread S vs [g.ret.words] []) 0 (Native.resume dst g.ret vs)
    (Direct.resume dst g.ret [])
      fun _ _ => Known.nothing S := .resume A.sound hdst fun _ => .refl
  obtain ⟨-, ⟨seg', hseg', -⟩, hlits⟩ := hreturn.adds hq' hresume
  have hgrows := hseg'.grows.trans (A.lowered.stage_grows hlt)
  have hdoes := hreal.does hbefore.ongoing hops hseg (hext.grows.trans hgrows)
    (hlits.trans (A.lowered.stage_literals hlt)) hm trivial
  have hcode := (hext.grows.trans hgrows).drop_code hq.ready.sound.body hseg.code
  have hlength : ∀ {j}, j ≤ ((S.given.stage p k).draft.body.code b).length + seg.length →
      j < ((S.given.stage p (k + 1)).draft.body.code b).length := by
    intro j hj
    rw [hseg'.code, hext.code, hseg.code, List.length_append, List.length_append, List.length_append,
      List.length_singleton]
    omega
  have hbody : S.module.body? (fr.to b 0 c).func = some S.body := A.body
  have hstack : (fr.to b 0 c).stack = S.stack := A.stack
  refine Machine.Proceeds.through hbody hcode (fun j h₁ h₂ c out => hI _ (A.within hlt h₁ (hlength h₂) c out)) ?_
  rw [hstack, show execAll S.module Service.perform S.body S.stack seg c out = S.exec seg c out from rfl]
  generalize S.exec seg c out = x at hdoes
  generalize hD : args.mapM Direct.value S.setting δ = y at hdoes
  cases hdoes with
  | trapped h => exact htrap hD h
  | @done c' out' wss δ' hm' _ hknown =>
    obtain ⟨hcalleeId, hkinds, hwss, hlens⟩ := hknown
    have hsame : callee = ⟨id, e.sig⟩ := Option.some.inj (hcallee.symm.trans hcalleeId)
    subst hsame
    have hwords : c'.words us = (Direct.contextWord :: wss).flatten := by rw [Cells.words, List.flatMap_def, hwss]
    have hcallCode : (S.body.code b)[(q.draft.body.code b).length]? = some ⟨.call r us, vs⟩ := by
      obtain ⟨rest, hrest⟩ := hgrows.drop_code hext.ready.sound.body hext.code
      rw [← Nat.add_zero (List.length _), ← List.getElem?_drop, ← hrest]
      rfl
    have hcalleeS : S.body.callees[r]? = some ⟨id, e.sig⟩ := (hext.grows.trans hgrows).callees hcallee
    have hplace : ((S.given.stage p k).draft.body.code b).length + seg.length = (q.draft.body.code b).length := by
      rw [hseg.code, List.length_append]
    have hres : S.Resumes p k b ((q.draft.body.code b).length + 1) dst g vs ⟨d', q.literals⟩ := by
      refine ⟨⟨b, hbefore⟩, A.lowered.next_lt hi rfl, hdst, ⟨q.draft, _, hsig ▸ happ⟩, hq', ?_, by omega, hresume⟩
      rw [hext.code, List.length_append, List.length_singleton]
    have hargWords : wss.map List.length = g.params.map (·.ty.words.words) := by
      have htail := (List.cons.inj hlens).2
      rw [htail, List.map_map]
      have := congrArg (List.map fun t : Ty => t.words.words) hargs
      simpa [List.map_map, Function.comp_def] using this
    have hstep : CellState.step S.module Service.perform ⟨out', fr.to b (q.draft.body.code b).length c' :: below⟩
        = CellState.call S.module Service.perform id (Direct.contextWord :: wss).flatten vs out'
          (fr.to b ((q.draft.body.code b).length + 1) c' :: below) := by
      have hbody' : S.module.body? (fr.to b (q.draft.body.code b).length c').func = some S.body := A.body
      rw [CellState.step_of_code hbody' hcallCode, Inst.exec_of_call rfl hcalleeS,
        Machine.Module.perform_of_body hd hhost]
      show CellState.leave S.module Service.perform S.body _ out' _ below = _
      simp only [CellState.leave, hcalleeS]
      rw [← hwords]
      rfl
    dsimp only
    rw [show (fr.to b 0 c).at (((S.given.stage p k).draft.body.code b).length + seg.length) c'
        = fr.to b (q.draft.body.code b).length c' by
      rw [hplace]
      rfl]
    exact hdone hD hargWords hm' hres hstep

theorem resume {q : Progress} (hR : S.Resumes p k b n dst g vs q) {ws : List UInt64}
    (hws : ws.length = Kind.total g.sig.returns) (hm : S.Matches δ c out)
    (hdone : ∀ {δ' : Direct.Store} {c' : Cells} {out' : Outside Context} {n' : Nat},
      Direct.resume dst g.ret ws S.setting δ = (.ok (), δ') → S.Matches δ' c' out' → S.Starts p (k + 1) b n' →
      Q ⟨out', fr.to b n' c' :: below⟩)
    (htrap : ∀ {t : Trap} {δ' : Direct.Store} {out' : Outside Context},
      Direct.resume dst g.ret ws S.setting δ = (.error (.trap t), δ') → out'.host = δ'.context → E (.trapped t out')) :
    Q ⟨out, fr.to b n (c.deal vs ws) :: below⟩ ∨ S.Within p fr below ⟨out, fr.to b n (c.deal vs ws) :: below⟩
      ∧ Proceeds (CellState.step S.module Service.perform) (S.Within p fr below) Q E
        ⟨out, fr.to b n (c.deal vs ws) :: below⟩ := by
  obtain ⟨hbefore, hmore, hdst, ⟨d, a, happ⟩, hq, rfl, hlater, hrest⟩ := hR
  have hlt := Nat.lt_of_succ_lt hmore
  have hreturns : g.sig.returns = [] ∨ ∃ k, g.sig.returns = [k] := by
    rw [Func.sig]
    split
    · exact .inl rfl
    · exact .inr ⟨_, rfl⟩
  have hreal := Realizes.resume (K := Known.spread S vs g.sig.returns ws) A.sound hdst fun hret => by
    rw [show g.sig.returns = [g.ret.words] from if_neg hret]
    exact .refl
  obtain ⟨hnext, ⟨seg, hseg, -⟩, -⟩ := hreal.adds hq hrest
  have hgrows := A.lowered.stage_grows (show k + 1 ≤ S.scope.func.body.length from hlt)
  have hknown : (Known.spread S vs g.sig.returns ws).Holds q.draft (c.deal vs ws) out.memory :=
    .dealt happ hreturns (fun hv => hm.sized (hgrows.values (hseg.grows.values hv))) hws
  have hdoes := hreal.does hq hrest hseg hgrows (A.lowered.stage_literals hlt) (hm.deal vs ws) hknown
  have hlength : ((S.given.stage p (k + 1)).draft.body.code b).length = (q.draft.body.code b).length + seg.length := by
    rw [hseg.code, List.length_append]
  have hstarts : S.Starts p (k + 1) b ((q.draft.body.code b).length + seg.length) :=
    hlength ▸ A.lowered.starts_of_current hmore hnext.ready.current
  have hboundary : ∀ j, (q.draft.body.code b).length ≤ j → j < (q.draft.body.code b).length + seg.length → ∀ c out,
      S.Within p fr below ⟨out, fr.to b j c :: below⟩ := fun j h₁ h₂ => A.within hlt (by omega) (by omega)
  by_cases hne : seg = []
  · subst hne
    refine .inl ?_
    rw [show S.exec [] (c.deal vs ws) out = some (.ok (c.deal vs ws), out) from rfl] at hdoes
    generalize hD : Direct.resume dst g.ret ws S.setting δ = y at hdoes
    cases hdoes with
    | done hm' _ _ => exact hdone hD hm' hstarts
  · have hpos := List.length_pos_iff.2 hne
    refine .inr ⟨hboundary _ (Nat.le_refl _) (by omega) _ _, ?_⟩
    refine A.segment hne (hgrows.drop_code hnext.ready.sound.body hseg.code)
      (fun j h₁ h₂ => hboundary j (Nat.le_of_lt h₁) h₂) ?_
    generalize S.exec seg (c.deal vs ws) out = x at hdoes
    generalize hD : Direct.resume dst g.ret ws S.setting δ = y at hdoes
    cases hdoes with
    | trapped h => exact htrap hD h
    | done hm' _ _ => exact hdone hD hm' hstarts

end Site.Active

end RecordMill

namespace RecordMill

open Machine (Kind Value VarId BlockId Cells CellFrame CellState Outside Memory FuncDecl FuncId Trap End)

def Direct.Frame.store (fr : Direct.Frame) (context : Context) (globals : Reg → List UInt64) : Direct.Store :=
  { context, globals, locals := fr.locals, keys := fr.keys, position := fr.position }

namespace Direct

def Frame.instr? (p : Program) (fr : Frame) : Option Instr := (p.funcs[fr.func]?).bind (·.body[fr.next]?)

def guard (full : Bool) (context : Context) (turn : Turn State Result) : Turn State Result :=
  bif full then .ended (.trapped { code := .stackOverflow } context) else turn

/-- One instruction, on a stack that may have no room for one more activation beside those of some functions. -/
def State.stepWithin (p : Program) (literals : List Bytes) (full : List Nat → Nat → Bool) (st : State) :
    Turn State Result :=
  match st.frame.instr? p with
  | some (.call _ fn _) => guard (full ((st.frame :: st.below).map (·.func)) fn.toNat) st.context (st.step p literals)
  | _ => st.step p literals

theorem value_keeps (r : Reg) (e : Setting) (δ : Store) : ∃ x, value r e δ = (x, δ) ∧ ∀ t, x ≠ .error (.trap t) := by
  unfold value
  split
  · exact ⟨_, rfl, nofun⟩
  · split
    · exact ⟨_, rfl, nofun⟩
    · have hread : (MonadReader.read : Direct Setting) e δ = (.ok e, δ) := rfl
      rw [bind_apply, hread]
      dsimp only
      cases e.scope.binding? r with
      | none => exact ⟨_, rfl, nofun⟩
      | some b => exact ⟨.ok (if b.isGlobal then δ.globals r else δ.locals r), rfl, nofun⟩

theorem values_keep (rs : List Reg) (e : Setting) (δ : Store) :
    ∃ x, rs.mapM value e δ = (x, δ) ∧ ∀ t, x ≠ .error (.trap t) := by
  induction rs with
  | nil => exact ⟨_, rfl, nofun⟩
  | cons r rs ih =>
    obtain ⟨x, hx, hno⟩ := value_keeps r e δ
    obtain ⟨y, hy, hno'⟩ := ih
    rw [List.mapM_cons, bind_apply, hx]
    cases x with
    | error h => exact ⟨_, rfl, fun t ht => hno t (by cases ht; rfl)⟩
    | ok ws =>
      dsimp only
      rw [bind_apply, hy]
      cases y with
      | error h => exact ⟨_, rfl, fun t ht => hno' t (by cases ht; rfl)⟩
      | ok wss => exact ⟨_, rfl, nofun⟩

end Direct

def Machine.End.GivesUp : End Context → Prop
  | .trapped t _ => t.code = .stackOverflow
  | .done .. => False

namespace Plan

section

variable (P : Plan) (length : Nat)

def Carries (m : Memory) (globals : Reg → List UInt64) : Prop :=
  ∀ g ∈ P.program.globals, (globals g).length = g.ty.words.words
    ∧ m.Holds (1 + Declared.before P.program.globals g) (globals g)

/-- The frame is one of the function with index `i`, and has its stack area from `area` on. -/
structure Runs (i area : Nat) (fr : CellFrame) : Prop where
  func : ∃ f, P.program.funcs[i]? = some f
  id : P.declared.funcs[i]? = some fr.func
  stack : fr.stack = Memory.addressOf area
  base : P.base ≤ area
  room : area + P.room i ≤ length

/-- The frame waits for the result of a call of the function with index `callee`, which goes to `dst`. -/
structure Waits (area : Nat) (dfr : Direct.Frame) (fr : CellFrame) (callee : Nat) (dst : Reg) (vs : List Value) :
    Prop where
  runs : P.Runs length dfr.func area fr
  sized : (P.site length dfr.func area).Sized fr.cells
  vars : ∀ (context : Context) (globals : Reg → List UInt64) {pl v}, (P.given dfr.func).scope.var? pl = some v →
    fr.cells.var v = (P.site length dfr.func area).content (dfr.store context globals) pl
  words : ∀ {r}, ((P.given dfr.func).scope.binding? r).isSome → (P.given dfr.func).scope.isGlobal r = false →
    (dfr.locals r).length = r.ty.words.words
  resumes : ∃ g q, P.program.funcs[callee]? = some g
    ∧ (P.site length dfr.func area).Resumes (P.entry dfr.func) dfr.next fr.block fr.next dst g vs q

/-- Activations below one of the function with index `callee`, whose stack area is from `area` on. -/
inductive Awaits : (callee : Nat) → (dst : Reg) → List Value → (area : Nat) → List Direct.Frame → List CellFrame → Prop
  | nil {callee : Nat} {dst : Reg} {vs : List Value} : Awaits callee dst vs P.base [] []
  | cons {callee area : Nat} {dst : Reg} {vs : List Value} {dfr : Direct.Frame} {fr : CellFrame}
    {dfrs : List Direct.Frame}
      {frs : List CellFrame} :
      P.Waits length area dfr fr callee dst vs → Awaits dfr.func dfr.dst fr.results area dfrs frs →
      Awaits callee dst vs (area + P.room dfr.func) (dfr :: dfrs) (fr :: frs)

/-- The innermost frame is where its next instruction starts, and matches what the direct run has. -/
structure Goes (area : Nat) (st : Direct.State) (out : Outside Context) (fr : CellFrame) (below : List CellFrame) :
    Prop where
  runs : P.Runs length st.frame.func area fr
  starts : (P.site length st.frame.func area).Starts (P.entry st.frame.func) st.frame.next fr.block fr.next
  sound : (P.site length st.frame.func area).Matches st.store fr.cells out
  awaits : P.Awaits length st.frame.func st.frame.dst fr.results area st.below below
  depth : below.length < Machine.maxDepth

/-- The frames are those of a state of the direct run. -/
def Shows (st : Direct.State) (cst : CellState Context) : Prop :=
  ∃ area out fr below, cst = ⟨out, fr :: below⟩ ∧ P.Goes length area st out fr below

/-- The innermost frame is within the code of an instruction. -/
def Inside (cst : CellState Context) : Prop :=
  ∃ i fr below, cst.frames = fr :: below ∧ P.declared.funcs[i]? = some fr.func
    ∧ ¬(P.site 0 i 0).Boundary (P.entry i) fr.block fr.next

/-- The direct run comes to a state, and the frames are those of that state. -/
def Reaches (turn : Turn Direct.State Direct.Result) (cst : CellState Context) :
    Prop :=
  ∃ st, turn = .next st ∧ P.Shows length st cst

def top (funcs : List Nat) : Nat := funcs.foldr (fun i n => n + P.room i) P.base

/-- There may be no room for another activation beside those of `funcs`. -/
def Crowded (funcs : List Nat) : Prop :=
  Machine.maxDepth ≤ funcs.length ∨ ∃ i f, P.program.funcs[i]? = some f ∧ length < P.top funcs + P.room i

/-- There is no room for an activation of the function with index `i` beside those of `funcs`. -/
def full (funcs : List Nat) (i : Nat) : Bool := Machine.maxDepth ≤ funcs.length || length < P.top funcs + P.room i

/-- The direct run comes to the same end, unless the stack was full. -/
def Finishes (full : Prop) (turn : Turn Direct.State Direct.Result) (e : End Context) : Prop :=
  (∃ r, turn = .ended r ∧ r.Same e) ∨ e.GivesUp ∧ full

/-- What the direct run comes to, the frames come to as well, unless the stack was full. -/
def Follows (full : Prop) (cst : CellState Context) (turn : Turn Direct.State Direct.Result) : Prop :=
  Proceeds (CellState.step P.code.module Service.perform) P.Inside (P.Reaches length turn) (Finishes full turn) cst

end

def setting (P : Plan) (i : Nat) : Direct.Setting := (P.site 0 i 0).setting

/-- A function is entered as if no more registers were counted than have to be. -/
def EntersAlike (P : Plan) : Prop :=
  ∀ {i : Nat} {f : Func}, P.program.funcs[i]? = some f → ∀ wss δ,
    Direct.enter wss (Direct.setting P.program P.code.literals i f) δ = Direct.enter wss (P.setting i) δ

/-- What the run does next is the same as if no more registers were counted than have to be. -/
structure Concurs (P : Plan) (st : Direct.State) : Prop where
  lower : ∀ {f i}, P.program.funcs[st.frame.func]? = some f → f.body[st.frame.next]? = some i →
    (Lowering.lower i : Direct Unit) (Direct.setting P.program P.code.literals st.frame.func f) st.store
      = (Lowering.lower i : Direct Unit) (P.setting st.frame.func) st.store
  resume : ∀ {f g fr frs}, P.program.funcs[st.frame.func]? = some f → st.below = fr :: frs →
    P.program.funcs[fr.func]? = some g → ∀ ws δ,
    Direct.resume st.frame.dst f.ret ws (Direct.setting P.program P.code.literals fr.func g) δ
      = Direct.resume st.frame.dst f.ret ws (P.setting fr.func) δ

variable {P : Plan} {length i area : Nat} {fr : CellFrame} {below : List CellFrame} {cst : CellState Context}

theorem crowded_of_full {f : Func} (hf : P.program.funcs[i]? = some f) {funcs : List Nat}
    (h : P.full length funcs i = true) :
    P.Crowded length funcs := by
  obtain h | h : Machine.maxDepth ≤ funcs.length ∨ length < P.top funcs + P.room i := by simpa [full] using h
  · exact .inl h
  · exact .inr ⟨i, f, hf, h⟩

/-- A run that goes on where there is room for it ends, on a stack that is not crowded, as one without limits. -/
theorem Follows.of_guard {full : Bool} {context : Context} {turn : Turn Direct.State Direct.Result} {crowded : Prop}
    (h : P.Follows length False cst (Direct.guard full context turn)) (hfull : full = true → crowded) :
    P.Follows length crowded cst turn := by
  cases full with
  | false => exact h.mono (fun _ => id) fun _ he => .inl (he.resolve_right fun hno => hno.2)
  | true =>
    refine h.mono ?_ ?_
    · rintro cst' ⟨st, hst, -⟩
      cases hst
    · rintro e (⟨r, hr, hsame⟩ | ⟨-, hno⟩)
      · cases hr
        cases hsame
        exact .inr ⟨rfl, hfull rfl⟩
      · exact hno.elim

theorem Awaits.top_eq {callee : Nat} {dst : Reg} {vs : List Value} {dfrs : List Direct.Frame} {frs : List CellFrame}
    (h : P.Awaits length callee dst vs area dfrs frs) :
    area = P.top (dfrs.map (·.func)) ∧ frs.length = (dfrs.map (·.func)).length := by
  induction h with
  | nil => exact ⟨rfl, rfl⟩
  | cons _ _ ih => exact ⟨congrArg (· + _) ih.1, congrArg (· + 1) ih.2⟩

theorem boundary_iff {b n : Nat} :
    (P.site length i area).Boundary (P.entry i) b n ↔ (P.site 0 i 0).Boundary (P.entry i) b n :=
  ⟨fun ⟨k, h⟩ => ⟨k, h.lt, h.before, h.next⟩, fun ⟨k, h⟩ => ⟨k, h.lt, h.before, h.next⟩⟩

theorem Runs.inside (h : P.Runs length i area fr) (hw : (P.site length i area).Within (P.entry i) fr below cst) :
    P.Inside cst := by
  obtain ⟨b, n, c, out, rfl, hn⟩ := hw
  exact ⟨i, _, below, rfl, h.id, fun hb => hn (boundary_iff.2 hb)⟩

theorem Runs.widen (h : P.Runs length i area fr) {Q : CellState Context → Prop} {E : End Context → Prop}
    (hrun : Q cst ∨ (P.site length i area).Within (P.entry i) fr below cst
      ∧ Proceeds (CellState.step P.code.module Service.perform)
      ((P.site length i area).Within (P.entry i) fr below) Q E cst) :
    Q cst ∨ P.Inside cst ∧ Proceeds (CellState.step P.code.module Service.perform) P.Inside Q E cst :=
  hrun.imp_right fun ⟨hin, hrun⟩ => ⟨h.inside hin, hrun.widen fun _ => h.inside⟩

theorem Runs.again (h : P.Runs length i area fr) {b n : Nat} {c : Cells} : P.Runs length i area (fr.to b n c) :=
  ⟨h.func, h.id, h.stack, h.base, h.room⟩

theorem perform_eq (length area : Nat) (st : Direct.State) {f : Func} (hf : P.program.funcs[st.frame.func]? = some f)
    (next : Nat) {x : Direct Unit} (hsame : x (Direct.setting P.program P.code.literals st.frame.func f) st.store
      = x (P.setting st.frame.func) st.store) :
    st.perform P.program P.code.literals next x = match x (P.site length st.frame.func area).setting st.store with
      | (.ok (), δ) => .next (st.load δ next)
      | (.error (.trap t), δ) => .ended (.trapped t δ.context)
      | (.error (.stop _), _) => .ended .stuck := by
  rw [show (P.site length st.frame.func area).setting = P.setting st.frame.func from rfl, ← hsame]
  exact Direct.State.perform_of_func hf next x

theorem step_eq (length area : Nat) {st : Direct.State} (hst : P.Concurs st) {f : Func}
    (hf : P.program.funcs[st.frame.func]? = some f) {x : Instr} (hi : f.body[st.frame.next]? = some x) :
    st.step P.program P.code.literals
      = match (Lowering.lower x : Direct Unit) (P.site length st.frame.func area).setting st.store with
      | (.ok (), δ) => (st.load δ st.frame.next).follow P.program P.code.literals f δ.flow
      | (.error (.trap t), δ) => .ended (.trapped t δ.context)
      | (.error (.stop _), _) => .ended .stuck := by
  rw [show (P.site length st.frame.func area).setting = P.setting st.frame.func from rfl, ← hst.lower hf hi]
  exact Direct.State.step_of_instr hf hi

namespace Made

variable {all : Bool} (h : P.Made all) (hlength : length < Memory.maxIndex)

include h

theorem body_eq (hr : P.Runs length i area fr) : P.code.module.body? fr.func = some (P.body i) := by
  obtain ⟨f, hf⟩ := hr.func
  obtain ⟨id, e, c, hholds⟩ := h.holds hf
  obtain rfl : id = fr.func := Option.some.inj (hholds.func.symm.trans hr.id)
  rw [Machine.Module.body?, hholds.decl]
  exact hholds.source

theorem body_getElem? (length area : Nat) {f : Func} (hf : P.program.funcs[i]? = some f) (k : Nat) :
    (P.site length i area).scope.func.body[k]? = f.body[k]? :=
  congrArg (·.body[k]?) (h.func hf)

include hlength

theorem active (hr : P.Runs length i area fr) : (P.site length i area).Active (P.entry i) i fr := by
  obtain ⟨f, hf⟩ := hr.func
  refine ⟨h.site_sound hf hr.base hr.room (Nat.le_of_lt hlength), h.site_lowered hf, ?_, ?_, h.body_eq hr, hr.stack⟩
  · show (P.given i).program.funcs[i]? = some (P.given i).scope.func
    rw [h.given_program hf, h.func hf, hf]
  · show ∀ x ∈ (P.given i).scope.func.body, x.Spills
    rw [h.func hf]
    exact h.sized.spills f (List.mem_of_getElem? hf)

/-! ## Entering a function -/

omit hlength in
theorem carries {f : Func} (hf : P.program.funcs[i]? = some f) {δ : Direct.Store} {c : Cells} {out : Outside Context}
    (hm : (P.site length i area).Matches δ c out) : P.Carries out.memory δ.globals := by
  intro g hg
  have hglobal : (P.site length i area).scope.isGlobal g := (h.isGlobal_iff hf).2 hg
  refine ⟨?_, h.index_eq hf hg ▸ hm.globals hglobal⟩
  have hbound : ((P.site length i area).scope.binding? g).isSome := Option.isSome_of_any hglobal
  have hwords := hm.words hbound
  rwa [Site.words, if_pos hglobal] at hwords

omit hlength in
theorem params_eq {f : Func} (hf : P.program.funcs[i]? = some f) (A : (P.site length i area).Active (P.entry i) i fr) :
    ((P.body i).blocks.getD 0 {}).params = List.range' 0 (P.given i).scope.func.sig.params.length := by
  obtain ⟨ls, hmade⟩ := (h.placed hf).made
  obtain ⟨-, hparams⟩ := Site.entered A.sound A.lowered.fit hmade.enter
  have hgrows : (P.entry i).draft.body.Grows (P.body i) := A.lowered.stage_grows (Nat.zero_le _)
  obtain ⟨hkinds, -⟩ := hmade.whole.entered
  have hlen : ((P.body i).blocks.getD 0 {}).params.length = (P.given i).scope.func.sig.params.length := by
    have := congrArg List.length hkinds
    rw [List.length_map, List.length_map, hmade.sig] at this
    exact this
  rw [show (P.site length i area).scope.func = (P.given i).scope.func from rfl] at hparams
  cases hx : (P.entry i).draft.body.blocks[0]? with
  | none =>
    -- A body without blocks has no parameters, and its function always has the context.
    rw [Array.getD_eq_getD_getElem?, hx] at hparams
    have hctx : (P.given i).scope.func.sig.params.length = (P.given i).scope.func.params.length + 1 := by
      simp [Func.sig]
    have := congrArg List.length hparams
    rw [List.length_range', hctx] at this
    cases this
  | some x =>
    obtain ⟨y, hy, -, hstart, -⟩ := hgrows.blocks hx
    rw [Array.getD_eq_getD_getElem?, hx] at hparams
    rw [Array.getD_eq_getD_getElem?, hy] at hlen ⊢
    dsimp only [Option.getD_some] at hparams hlen ⊢
    rw [← hparams]
    refine (hstart.eq_of_length ?_).symm
    rw [hparams, hlen, List.length_range']

omit hlength in
theorem not_boundary {f : Func} (hf : P.program.funcs[i]? = some f) {n : Nat}
    (hn : n < ((P.entry i).draft.body.code 0).length) :
    ¬(P.site 0 i 0).Boundary (P.entry i) 0 n := by
  rintro ⟨k, hk, -, rfl⟩
  have hL : (P.site 0 i 0).Lowered (P.entry i) := h.site_lowered hf
  obtain ⟨ls, hmade⟩ := (h.placed hf).made
  have hentry : (P.entry i).draft.Sound := by
    obtain ⟨V, hat⟩ := hmade.start
    exact hat.sound
  have := ((hL.stage_le (Nat.zero_le k) (Nat.le_of_lt hk)).code hentry.body 0).length_le
  exact Nat.not_le_of_lt hn this

theorem enters (hsame : P.EntersAlike) {f : Func} (hf : P.program.funcs[i]? = some f) {id : FuncId}
    (hid : P.declared.funcs[i]? = some id) {wss : List (List UInt64)}
    (hwss : wss.map List.length = f.params.map (·.ty.words.words)) {dst : Reg} {vs : List Value}
    {dfrs : List Direct.Frame} {frs : List CellFrame} (hawaits : P.Awaits length i dst vs area dfrs frs)
    (hbase : P.base ≤ area) (harea : area ≤ length) {out : Outside Context} (hsize : out.memory.length = length)
    (hsp : out.memory.sp.toNat = area) {globals : Reg → List UInt64} (hglobals : P.Carries out.memory globals) :
    (CellState.call P.code.module Service.perform id (Direct.contextWord :: wss).flatten vs out frs).Comes
      (fun cst => P.Inside cst ∧ P.Follows length False cst (Direct.guard (P.full length (dfrs.map (·.func)) i) out.host
        (Direct.State.perform P.program P.code.literals ⟨out.host, globals, Direct.fresh i dst, dfrs⟩ 0
          (Direct.enter wss))))
      fun e => P.full length (dfrs.map (·.func)) i = true ∧ e = .trapped { code := .stackOverflow } out := by
  obtain ⟨htop, hframes⟩ := hawaits.top_eq
  obtain ⟨id', e, c, hH⟩ := h.holds hf
  obtain rfl : id = id' := Option.some.inj (hid.symm.trans hH.func)
  have hbody : P.code.module.body? id = some (P.body i) := by
    rw [Machine.Module.body?, hH.decl]
    exact hH.source
  simp only [CellState.call, Machine.Module.perform_of_body hH.decl hH.host, Machine.Module.enter, hH.decl, hbody,
    hH.compiled]
  by_cases hdepth : Machine.maxDepth ≤ frs.length
  · simp only [hdepth, if_true]
    exact ⟨by simp [full, ← hframes, hdepth], rfl⟩
  simp only [hdepth, if_false]
  rcases Memory.push_eq hsp (hsize ▸ harea) (hsize ▸ Nat.le_of_lt hlength) hH.room with ⟨hpush, hfull⟩ | ⟨m, hpush,
    hlen, hsp', hroom, hget⟩
  · rw [← hH.area] at hpush
    rw [hpush]
    exact ⟨by simp [full, ← htop, ← hsize, hfull], rfl⟩
  rw [← hH.area] at hpush
  rw [hpush]
  rw [hsize] at hlen hroom
  have hroomy : P.full length (dfrs.map (·.func)) i = false := by
    have hdepth' := Nat.lt_of_not_le hdepth
    simp only [full, ← hframes, ← htop, Bool.or_eq_false_iff, decide_eq_false_iff_not]
    omega
  rw [hroomy]
  show P.Inside ⟨{ out with memory := m }, _ :: frs⟩ ∧ P.Follows length _ ⟨{ out with memory := m }, _ :: frs⟩ _
  have hruns : ∀ cells : Cells, P.Runs length i area
      { func := id, block := 0, next := 0, cells, stack := Memory.addressOf area, results := vs } :=
    fun _ => ⟨⟨f, hf⟩, hid, rfl, hbase, hroom⟩
  rw [h.params_eq hf (h.active hlength (hruns (Cells.blank (P.body i))))]
  generalize hcells : (Cells.blank (P.body i)).deal _ _ = cells
  have A := h.active hlength (hruns cells)
  have hfresh : (P.site length i area).Fresh
      ((Direct.fresh i dst).store out.host globals) { out with memory := m } := by
    refine ⟨rfl, rfl, rfl, rfl, rfl, fun {g} hg => (hglobals g ((h.isGlobal_iff hf).1 hg)).1, fun {g} hg j w hw =>
      ?_, hlen, hsp'⟩
    have hmem := (h.isGlobal_iff hf).1 hg
    obtain ⟨hwords, hholds⟩ := hglobals g hmem
    have hlt := (List.getElem?_eq_some_iff.1 hw).1
    have hspan := Declared.before_add hmem
    have hlow : 1 + Declared.before P.program.globals g + j < area := by
      have : P.base = 1 + Declared.span P.program.globals := rfl
      have hw' : (globals g).length = g.ty.words.words := hwords
      have hlt' : j < (globals g).length := hlt
      omega
    rw [h.index_eq hf hmem]
    exact (hget _ hlow).trans (hholds j w hw)
  obtain ⟨ls, hmade⟩ := (h.placed hf).made
  have hparams : wss.map List.length = (P.site length i area).scope.func.params.map (·.ty.words.words) := by
    show _ = (P.given i).scope.func.params.map _
    rw [h.func hf, hwss]
  obtain ⟨hne, -⟩ := Site.entered A.sound A.lowered.fit hmade.enter
  have hgrows : (P.entry i).draft.body.Grows (P.body i) := A.lowered.stage_grows (Nat.zero_le _)
  obtain ⟨hq, hagrees⟩ := Site.arrives A.sound A.lowered.fit hmade.enter hgrows
    (A.lowered.stage_literals (Nat.zero_le _)) hfresh hparams
  have hcells' : (Cells.blank (P.site length i area).body).deal
    (List.range' 0 (P.site length i area).scope.func.sig.params.length)
      (Direct.contextWord :: wss).flatten = cells := hcells
  rw [hcells'] at hagrees
  have hin : ∀ j, j < ((P.entry i).draft.body.code 0).length → ∀ c out,
      P.Inside ⟨out,
        { func := id, block := 0, next := j, cells := c, stack := Memory.addressOf area, results := vs } :: frs⟩ :=
    fun j hj c out => ⟨i, _, frs, rfl, hid, h.not_boundary hf hj⟩
  refine ⟨hin 0 (List.length_pos_iff.2 hne) _ _, ?_⟩
  have hperform : Direct.State.perform P.program P.code.literals ⟨out.host, globals, Direct.fresh i dst, dfrs⟩ 0
    (Direct.enter wss)
      = match Direct.enter wss (P.site length i area).setting ((Direct.fresh i dst).store out.host globals) with
        | (.ok (), δ) => .next (Direct.State.load ⟨out.host, globals, Direct.fresh i dst, dfrs⟩ δ 0)
        | (.error (.trap t), δ) => .ended (.trapped t δ.context)
        | (.error (.stop _), _) => .ended .stuck :=
    perform_eq length area ⟨out.host, globals, Direct.fresh i dst, dfrs⟩ hf 0 (hsame hf _ _)
  rw [hperform]
  have hcode : (P.entry i).draft.body.code 0 <+: ((P.body i).code 0).drop 0 := hgrows.code hq.ready.sound.body 0
  refine (A.segment hne hcode (fun j _ hj c out => ⟨0, j, c, out, rfl, fun hb => ?_⟩) ?_).widen fun _ =>
    (hruns cells).inside
  · exact h.not_boundary hf (by rwa [Nat.zero_add] at hj) (boundary_iff.1 hb)
  generalize (P.site length i area).exec ((P.entry i).draft.body.code 0) cells { out with memory := m } = x at hagrees
  generalize Direct.enter wss (P.site length i area).setting ((Direct.fresh i dst).store out.host globals)
    = y at hagrees
  cases hagrees with
  | trapped hhost => exact .inl ⟨_, rfl, hhost ▸ .trapped⟩
  | @done c' out' _ δ hm _ _ =>
    refine ⟨_, rfl, area, out', _, frs, rfl, ⟨⟨f, hf⟩, hid, rfl, hbase, hroom⟩, ?_, Direct.Store.on hm.flow ▸ hm,
      hawaits, Nat.lt_of_not_le hdepth⟩
    have hbody : 0 < (P.site length i area).scope.func.body.length := by
      obtain ⟨-, -, -, -, last, hlast, -⟩ := Check.func_eq_nil.1 A.lowered.fit.passes
      exact List.length_pos_of_mem (List.mem_of_getLast? hlast)
    rw [Nat.zero_add]
    exact A.lowered.starts_of_current hbody hq.ready.current

/-! ## One step -/

section

variable {st : Direct.State} {out : Outside Context} (hgo : P.Goes length area st out fr below)

include hgo

omit h hlength in
theorem shows_site :
    (P.site length st.frame.func area).Shows (P.entry st.frame.func) st.frame.func st.frame.dst st.below fr below st
    ⟨out, fr :: below⟩ :=
  ⟨⟨rfl, rfl, rfl⟩, fr.block, fr.next, fr.cells, out, rfl, hgo.starts, hgo.sound⟩

omit h hlength in
theorem follows_of_site {turn : Turn Direct.State Direct.Result}
    (hf : (P.site length st.frame.func area).Follows
      (P.entry st.frame.func) st.frame.func st.frame.dst st.below fr below
      ⟨out, fr :: below⟩ turn) (full : Prop) : P.Follows length full ⟨out, fr :: below⟩ turn := by
  refine (hf.widen fun _ => hgo.runs.inside).mono ?_ fun _ he => .inl he
  rintro cst ⟨st', hturn, hst, b, n, c, out', rfl, hstarts, hm⟩
  refine ⟨st', hturn, area, out', _, below, rfl, ?_⟩
  obtain ⟨hfunc, hid, hstack, hbase, hroom⟩ := hgo.runs
  have hawaits := hgo.awaits
  rw [← hst.func] at hfunc hid hroom hstarts hm hawaits
  rw [← hst.dst, ← hst.below] at hawaits
  exact ⟨⟨hfunc, hid, hstack, hbase, hroom⟩, hstarts, hm, hawaits, hgo.depth⟩

theorem follows_call (hsame : P.EntersAlike) (hst : P.Concurs st) {f : Func}
    (hf : P.program.funcs[st.frame.func]? = some f) {dst : Reg} {i : Int} {args : List Reg}
    (hi : f.body[st.frame.next]? = some (.call dst i args)) :
    P.Follows length False ⟨out, fr :: below⟩
      (Direct.guard (P.full length ((st.frame :: st.below).map (·.func)) i.toNat) st.context
        (st.step P.program P.code.literals)) := by
  have A := h.active hlength hgo.runs
  have hfit := A.lowered.fit
  have hfunc := h.func hf
  have hprogram := h.given_program hf
  have hi' := (h.body_getElem? length area hf st.frame.next).trans hi
  obtain ⟨g, hg, -, -⟩ := hfit.typed (List.mem_of_getElem? hi')
  have hg' : P.program.funcs[i.toNat]? = some g := by
    have hfunc? : (if i < 0 then none else (P.given st.frame.func).program.funcs[i.toNat]?) = some g := hg
    rw [hprogram] at hfunc?
    split at hfunc?
    · cases hfunc?
    · exact hfunc?
  obtain ⟨id, e, hid, he, hsig⟩ := hfit.apt.funcs hg
  obtain ⟨id', d, c, hH⟩ := h.holds hg'
  have hid' : P.declared.funcs[i.toNat]? = some id := h.given_funcs hf ▸ hid
  obtain rfl : id = id' := Option.some.inj (hid'.symm.trans hH.func)
  have hstep := step_eq length area hst hf hi
  rw [show (Lowering.lower (.call dst i args) : Direct Unit) = (args.mapM Direct.value >>= fun wss =>
    Direct.follow (.call dst i wss)) from rfl,
    Direct.bind_apply] at hstep
  refine A.calls hgo.starts hgo.sound hi' hg hid he (Func.signature_eq hsig) hH.decl hH.host
    (fun _ => hgo.runs.inside) ?_ ?_
  · intro wss δ c' out' m vs q hwss hlens hm hres hcall
    rw [hwss] at hstep
    obtain rfl : st.store = δ := by
      obtain ⟨x, hx, -⟩ := Direct.values_keep args (P.site length st.frame.func area).setting st.store
      exact (Prod.mk.inj (hx.symm.trans hwss)).2
    have hturn : st.step P.program P.code.literals = Direct.State.perform P.program P.code.literals
        ⟨out'.host, st.store.globals, Direct.fresh i.toNat dst, st.frame :: st.below⟩ 0 (Direct.enter wss) := by
      rw [hstep, hm.host]
      rfl
    have hwaits : P.Waits length area st.frame (fr.to fr.block (m + 1) c') i.toNat dst vs := by
      refine ⟨hgo.runs.again, hm.sized, fun context globals {pl v} hv => ?_, fun {r} hr hlocal => ?_, g, q, hg', hres⟩
      · rw [show (fr.to fr.block (m + 1) c').cells.var v = _ from hm.vars hv]
        cases pl <;> rfl
      · have hwords := hm.words hr
        have hlocal : (P.site length st.frame.func area).scope.isGlobal r = false := hlocal
        rwa [Site.words, if_neg (by simp [hlocal])] at hwords
    have henters := h.enters hlength hsame hg' hid' hlens (.cons hwaits hgo.awaits)
      (Nat.le_add_right_of_le hgo.runs.base) hgo.runs.room
      hm.length hm.sp (h.carries hf hm)
    rw [← hturn, hm.host] at henters
    have hcall : CellState.step P.code.module Service.perform _ = CellState.call P.code.module Service.perform id
        (Direct.contextWord :: wss).flatten vs out' (fr.to fr.block (m + 1) c' :: below) := hcall
    generalize CellState.call P.code.module Service.perform id _ vs out' _ = turn at henters hcall
    cases turn with
    | next cst => exact .of_visits hcall henters.1 henters.2
    | ended e =>
      obtain ⟨hfull, rfl⟩ := henters
      have hfull : P.full length ((st.frame :: st.below).map (·.func)) i.toNat = true := hfull
      refine .of_ended hcall (.inl ⟨.trapped { code := .stackOverflow } st.context, ?_, ?_⟩)
      · rw [hfull]
        rfl
      · rw [show st.context = out'.host from hm.host.symm]
        exact .trapped
  · intro t δ out' htrap hhost
    obtain ⟨x, hx, hno⟩ := Direct.values_keep args (P.site length st.frame.func area).setting st.store
    exact absurd (Prod.mk.inj (hx.symm.trans htrap)).1 (hno t)

omit hgo in
theorem resumes_matching {dfr : Direct.Frame} {callee : Nat} {dst : Reg} {vs : List Value}
    (hw : P.Waits length area dfr fr callee dst vs)
    {m : Memory} {globals : Reg → List UInt64} (hglobals : P.Carries m globals) (hsize : m.length = length)
    (context : Context) :
    (P.site length dfr.func area).Matches (dfr.store context globals) fr.cells
      ⟨m.pop (Memory.addressOf (area + P.room dfr.func)), context⟩ := by
  obtain ⟨f, hf⟩ := hw.runs.func
  refine ⟨rfl, rfl, hw.sized, hw.vars context globals, fun {r} hr => ?_, fun {g} hg => ?_, hsize, ?_⟩
  · cases hglobal : (P.site length dfr.func area).scope.isGlobal r with
    | true =>
      rw [Site.words, if_pos hglobal]
      exact (hglobals r ((h.isGlobal_iff hf).1 hglobal)).1
    | false =>
      rw [Site.words, if_neg (by simp [hglobal])]
      exact hw.words hr hglobal
  · have hmem := (h.isGlobal_iff hf).1 hg
    rw [h.index_eq hf hmem]
    exact (hglobals g hmem).2
  · exact Memory.sp_pop _ (Nat.lt_of_le_of_lt hw.runs.room hlength)

omit hgo in
theorem delivers {callee : Nat} {dst : Reg} {vs : List Value} {dfrs : List Direct.Frame} {frs : List CellFrame}
    (hawaits : P.Awaits length callee dst vs area dfrs frs) (hdepth : frs.length < Machine.maxDepth)
    (hst : st.In callee dst dfrs) {f : Func} (hf : P.program.funcs[callee]? = some f) {ws : List UInt64}
    (hws : ws.length = Kind.total f.sig.returns) {m : Memory} (hglobals : P.Carries m st.globals)
    (hsize : m.length = length) {turn : Turn Direct.State Direct.Result}
    (hturn : turn = st.follow P.program P.code.literals f (.back ws))
    (hsame : ∀ {g fr frs}, dfrs = fr :: frs → P.program.funcs[fr.func]? = some g → ∀ ws δ,
      Direct.resume dst f.ret ws (Direct.setting P.program P.code.literals fr.func g) δ
        = Direct.resume dst f.ret ws (P.setting fr.func) δ)
    (full : Prop) :
    (CellState.deliver ws vs ⟨m.pop (Memory.addressOf area), st.context⟩ frs).Comes
      (fun cst => P.Reaches length turn cst ∨ P.Inside cst ∧ P.Follows length full cst turn) (Finishes full turn) := by
  cases hawaits with
  | nil =>
    refine .inl ⟨_, hturn.trans ?_, .done⟩
    simp only [Direct.State.follow, hst.below]
  | @cons _ area _ _ dfr fr dfrs frs hwaits hrest =>
    have hmatch := h.resumes_matching hlength hwaits hglobals hsize st.context
    obtain ⟨fd, hfd⟩ := hwaits.runs.func
    obtain ⟨g, q, hg, hres⟩ := hwaits.resumes
    obtain rfl : f = g := Option.some.inj (hf.symm.trans hg)
    have hperform : turn
      = match Direct.resume dst f.ret ws (P.site length dfr.func area).setting (dfr.store st.context st.globals) with
        | (.ok (), δ) => .next (({ st with frame := dfr, below := dfrs } : Direct.State).load δ (dfr.next + 1))
        | (.error (.trap t), δ) => .ended (.trapped t δ.context)
        | (.error (.stop _), _) => .ended .stuck := by
      rw [hturn]
      simp only [Direct.State.follow, hst.below, hst.dst]
      exact perform_eq length area { st with frame := dfr, below := dfrs } hfd _ (hsame rfl hfd _ _)
    have A := h.active hlength hwaits.runs
    refine hwaits.runs.widen (A.resume hres hws hmatch (fun {δ c' out' n} hresume hm hstarts =>
      ?_) fun {t δ out'} htrap hhost => ?_)
    · rw [hresume] at hperform
      exact ⟨_, hperform, area, out', _, frs, rfl, hwaits.runs.again, hstarts, Direct.Store.on hm.flow ▸ hm, hrest,
        Nat.lt_of_succ_lt hdepth⟩
    · rw [htrap] at hperform
      exact .inl ⟨_, hperform, hhost ▸ .trapped⟩

theorem follows_ret (hst : P.Concurs st) {f : Func} (hf : P.program.funcs[st.frame.func]? = some f) {src : Reg}
    (hi : f.body[st.frame.next]? = some (.ret src)) (full : Prop) :
    P.Follows length full ⟨out, fr :: below⟩ (st.step P.program P.code.literals) := by
  have A := h.active hlength hgo.runs
  have hi' := (h.body_getElem? length area hf st.frame.next).trans hi
  have hstep := step_eq length area hst hf hi
  rw [show (Lowering.lower (.ret src) : Direct Unit) = Direct.ret src from rfl, Direct.ret_eq,
    Direct.bind_apply] at hstep
  refine Proceeds.finish
    ((A.returns hgo.starts hgo.sound hi' (fun {ws δ c' out'} hws hlen hm => ?_) fun {t δ out'} htrap hhost => ?_).widen
    fun _ => hgo.runs.inside)
  · rw [hws] at hstep
    have hin : ∀ δ, (st.load δ st.frame.next).In st.frame.func st.frame.dst st.below := fun _ => ⟨rfl, rfl, rfl⟩
    have hlen : ws.length = Kind.total f.sig.returns := h.func hf ▸ hlen
    have hdelivers := h.delivers hlength hgo.awaits hgo.depth (hin _) hf hlen (h.carries hf hm) hm.length hstep
      (hst.resume hf) full
    rw [hgo.runs.stack]
    have hhost : out' = ⟨out'.memory, δ.context⟩ := by rw [← hm.host]
    rw [hhost]
    exact hdelivers
  · rw [htrap] at hstep
    exact .inl ⟨_, hstep, hhost ▸ .trapped⟩

end

theorem follows_within (hsame : P.EntersAlike) {st : Direct.State} (hst : P.Concurs st)
    (hshows : P.Shows length st cst) :
    P.Follows length False cst (st.stepWithin P.program P.code.literals (P.full length)) := by
  obtain ⟨area, out, fr, below, rfl, hgo⟩ := hshows
  obtain ⟨f, hf⟩ := hgo.runs.func
  have A := h.active hlength hgo.runs
  obtain ⟨x, hx⟩ : ∃ x, f.body[st.frame.next]? = some x := by
    rw [← h.body_getElem? length area hf]
    exact ⟨_, List.getElem?_eq_getElem hgo.starts.lt⟩
  have hinstr : st.frame.instr? P.program = some x := by
    rw [Direct.Frame.instr?, hf]
    exact hx
  have hbody : ∀ y, (P.site length st.frame.func area).scope.func.body[st.frame.next]? = some y → x = y := fun y hy =>
    Option.some.inj (hx.symm.trans ((h.body_getElem? length area hf _).symm.trans hy))
  unfold Direct.State.stepWithin
  rw [hinstr]
  cases htransfer : x.isTransfer with
  | false =>
    have hfollows := A.follows (fun y hy => ?_) (shows_site hgo) fun y hy => hbody y hy ▸ htransfer
    · have hstay := follows_of_site hgo hfollows False
      rw [show (P.site length st.frame.func area).given.program = P.program from h.given_program hf] at hstay
      cases x <;> first | exact hstay | cases htransfer
    · obtain rfl := hbody y hy
      have hprogram : (P.site length st.frame.func area).given.program = P.program := h.given_program hf
      rw [hprogram, show (P.site length st.frame.func area).scope.func = f from h.func hf]
      exact hst.lower hf hx
  | true =>
    cases x with
    | call => exact h.follows_call hlength hgo hsame hst hf hx
    | ret => exact h.follows_ret hlength hgo hst hf hx _
    | _ => cases htransfer

end Made

namespace Sound

variable (h : P.Sound) (hlength : length < Memory.maxIndex)

include h

theorem setting_eq {f : Func} (hf : P.program.funcs[i]? = some f) :
    Direct.setting P.program P.code.literals i f = (P.site length i area).setting := by
  show _ = (⟨(P.given i).program, (P.given i).scope, P.code.literals⟩ : Direct.Setting)
  rw [h.given_program hf, h.scope hf]
  rfl

theorem entersAlike : P.EntersAlike := fun hf wss δ => congrArg (Direct.enter wss · δ) (h.setting_eq hf)

theorem concurs (st : Direct.State) : P.Concurs st where
  lower hf _ := congrArg (Lowering.lower (m := Direct) _ · st.store) (h.setting_eq hf)
  resume _ _ hg ws δ := congrArg (Direct.resume _ _ ws · δ) (h.setting_eq hg)

include hlength

theorem follows {st : Direct.State} (hshows : P.Shows length st cst) :
    P.Follows length (P.Crowded length ((st.frame :: st.below).map (·.func))) cst
      (st.step P.program P.code.literals) := by
  have hwithin := h.follows_within hlength h.entersAlike (h.concurs st) hshows
  unfold Direct.State.stepWithin at hwithin
  split at hwithin
  · next dst fn args hinstr =>
    refine hwithin.of_guard fun hfull => ?_
    obtain ⟨f, hf, hi⟩ := Option.bind_eq_some_iff.1 hinstr
    obtain ⟨g, hg, -, -⟩ : (Instr.call dst fn args).Typed P.program f.ret :=
      (Check.body_eq_nil.1 (Check.func_eq_nil.1
        ((Check.check_eq_nil.1 h.checked).2.2 f (List.mem_of_getElem? hf))).2.2.2.1).1 _ (List.mem_of_getElem? hi)
    exact crowded_of_full (Program.place_of_func? hg).2 hfull
  · exact hwithin.mono (fun _ => id) fun _ he => .inl (he.resolve_right fun hno => hno.2)

end Sound

end Plan

end RecordMill

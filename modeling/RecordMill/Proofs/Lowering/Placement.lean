import Mathlib.Algebra.Ring.Nat
import RecordMill.Proofs.Lowering.Arrival
import RecordMill.Proofs.Lowering.Passage
import RecordMill.Proofs.Lowering.Totality

/-!
# Where the parts of a program stand

Functions are lowered one after another, and each finds its body in the finished module. Every global has
words of its own.
-/

namespace RecordMill

open Machine (Kind FuncId FuncDecl Body Callee Module ModuleError Memory)

/-! ## Modules with more bodies -/

namespace Machine.Module

variable {ι : Type} {m m' m'' : Module ι}

/-- The second module has more bodies than the first. -/
structure Leads (m m' : Module ι) : Prop where
  target : m'.target = m.target
  names : m'.names = m.names
  words : m'.dataWords = m.dataWords
  called : m'.funcs.map FuncDecl.name = m.funcs.map FuncDecl.name
  funcs : ∀ {id : Nat} {e : FuncDecl ι}, m.funcs[id]? = some e →
    ∃ e', m'.funcs[id]? = some e' ∧ e'.sig = e.sig ∧ e'.host = e.host ∧ (e.compiled.isSome → e' = e)

theorem Leads.refl (m : Module ι) : m.Leads m := ⟨rfl, rfl, rfl, rfl, fun h => ⟨_, h, rfl, rfl, fun _ => rfl⟩⟩

theorem Leads.trans (h : m.Leads m') (h' : m'.Leads m'') : m.Leads m'' where
  target := h'.target.trans h.target
  names := h'.names.trans h.names
  words := h'.words.trans h.words
  called := h'.called.trans h.called
  funcs he := by
    obtain ⟨e', he', hsig, hhost, hsame⟩ := h.funcs he
    obtain ⟨e'', he'', hsig', hhost', hsame'⟩ := h'.funcs he'
    refine ⟨e'', he'', hsig'.trans hsig, hhost'.trans hhost, fun hc => ?_⟩
    obtain rfl := hsame hc
    exact hsame' hc

theorem Leads.withBody {id : FuncId} {e : FuncDecl ι} (he : m.funcs[id]? = some e) (hnew : e.compiled = none)
    (body : Body) (c : Compiled) : m.Leads (m.withBody id e body c) where
  target := rfl
  names := rfl
  words := rfl
  called := by
    refine Array.ext_getElem? fun k => ?_
    rw [Module.withBody, Array.getElem?_map, Array.getElem?_map, Array.getElem?_setIfInBounds]
    by_cases hk : id = k
    · obtain rfl := hk
      obtain ⟨hlt, heq⟩ := Array.getElem?_eq_some_iff.1 he
      simp [hlt, heq]
    · simp [hk]
  funcs {k x} hx := by
    refine ⟨_, funcs_withBody he hx, ?_⟩
    by_cases hk : k = id
    · obtain rfl := hk
      obtain rfl : e = x := Option.some.inj (he.symm.trans hx)
      simp [hnew]
    · rw [if_neg hk]
      exact ⟨rfl, rfl, fun _ => rfl⟩

theorem Leads.lookup (h : m.Leads m') (name : Bytes) :
    m'.lookup? name = m.lookup? name := by rw [lookup?, lookup?, h.names]

end Machine.Module

/-! ## Lowered functions -/

/-- The function of `s` was lowered to `q` by way of its entry `p`. -/
structure Surroundings.Made (s : Surroundings) (name : Bytes) (ls : List Bytes) (p q : Progress) : Prop where
  known : ∀ i ∈ s.scope.func.body, i.unknown? = none
  enter : Native.enter s ⟨{ body := { name, sig := s.scope.func.sig } }, ls⟩ = (.ok (), p)
  start : s.Before 0 0 p
  finish : Native.finish s (s.stage p s.scope.func.body.length) = (.ok (), q)
  grows : (s.stage p s.scope.func.body.length).draft.body.Grows q.draft.body
  literals : (s.stage p s.scope.func.body.length).literals <+: q.literals
  begins : ls <+: q.literals
  whole : q.draft.body.Whole
  sig : q.draft.body.sig = s.scope.func.sig
  vars : q.draft.body.vars.toList = Scope.varKinds s.program.globals (s.scope.func.locals s.program.globals)
  callees : ∀ {r : Nat} {c : Callee}, q.draft.body.callees[r]? = some c → ∃ e, s.module.funcs[c.id]? = some e
    ∧ e.sig = c.sig

namespace Surroundings

open Native (Passes)

variable {s : Surroundings}

theorem Fit.made (h : s.Fit) (hknown : ∀ i ∈ s.scope.func.body, i.unknown? = none) (name : Bytes) (ls : List Bytes) :
    ∃ p q, s.Made name ls p q := by
  obtain ⟨_, p, henter, hat, hls⟩ := (Passes.enter h).run
    (p := ⟨{ body := { name, sig := s.scope.func.sig } }, ls⟩) rfl
  have hstart : s.Before 0 0 p := ⟨_, hat⟩
  have hnew : (Native.pending s s.scope.func.body).Nodup := by
    rw [Native.pending_body h]
    exact List.nodup_range'
  have hall := lowerAll_stage h hstart hknown (Nat.zero_le _) 0
  rcases Native.lowerAll_cases h (.fst .refl) .last hat (fun i hi => hi) hnew
    (n := 0) with ⟨-, p', c, hrun, hat'⟩ | ⟨j, i, op, hi, hop, -⟩
  · obtain rfl : p' = s.stage p s.scope.func.body.length := Except.ok.inj (hrun.symm.trans hall)
    obtain ⟨_, q, hfinish, hends, hlits⟩ := (Passes.finish h (.left (.fst .refl))).run hat'.grown
    have hbegins := (stage_grows h hstart hknown (Nat.zero_le _) (Nat.le_refl _)).2
    exact ⟨p, q, hknown, henter, hstart, hfinish, hends.known.2, hlits, hls.trans (hbegins.trans hlits),
      hends.whole, hends.sig,
      hends.vars, hends.callees⟩
  · exact absurd (hknown i (List.mem_of_getElem? hi)) (by simp [hop])

end Surroundings

namespace Declared

/-- The function with index `i` was lowered to the body that it has in the module. -/
structure Placed (d : Declared) (all : Bool) (m : Module Service) (ls : List Bytes) (i : Nat) (f : Func)
    (s : Surroundings) (p q : Progress) : Prop where
  given : s = { d.surroundingsCounting all i f with module := s.module }
  fit : s.Fit
  made : ∃ ls', s.Made f.name ls' p q
  literals : q.literals <+: ls
  leads : s.module.Leads m
  decl : ∃ id e c, d.funcs[i]? = some id ∧ m.funcs[id]? = some e ∧ e.host = none ∧ e.sig = f.sig
    ∧ e.source = some q.draft.body
    ∧ e.compiled = some c ∧ q.draft.body.compile m.target = .ok c

variable {p : Program} {all : Bool} {d : Declared} {n : Nat}

theorem enter_of_made {f : Func} {ls : List Bytes} {a b : Progress} (hf : f.signature = .ok f.sig)
    (hmade : (d.surroundingsCounting all n f).Made f.name ls a b) :
    enter (d.surroundingsCounting all n f) ls = .ok a := by
  have hfunc : (d.surroundingsCounting all n f).scope.func = f := ((d.surroundings n f).scope.counting_alike all).func
  have hstart : start f ls = .ok { draft := { body := { name := f.name, sig := f.sig } }, literals := ls } := by
    rw [start, hf]
    rfl
  have henter := hmade.enter
  rw [hfunc] at henter
  rw [enter, hfunc, hstart]
  show advance _ (-1) Native.enter _ = _
  rw [advance, henter]

theorem lowerFunc_of_made {f : Func} {ls : List Bytes} {a b : Progress} (hf : f.signature = .ok f.sig)
    (h : (d.surroundingsCounting all n f).Fit) (hmade : (d.surroundingsCounting all n f).Made f.name ls a b) :
    d.lowerFuncCounting all n f ls = .ok b := by
  have hfunc : (d.surroundingsCounting all n f).scope.func = f := ((d.surroundings n f).scope.counting_alike all).func
  have hlower := Surroundings.lowerAll_stage h hmade.start hmade.known (Nat.zero_le _) 0
  have hfinish := hmade.finish
  rw [hfunc] at hlower hfinish
  have hlower : lowerAll (d.surroundingsCounting all n f) 0 f.body a = .ok
    ((d.surroundingsCounting all n f).stage a f.body.length) := hlower
  rw [lowerFuncCounting]
  show (enter (d.surroundingsCounting all n f) ls >>= _) = _
  rw [enter_of_made hf hmade]
  show (lowerAll (d.surroundingsCounting all n f) 0 f.body a >>= _) = _
  rw [hlower]
  show advance _ (-1) Native.finish _ = _
  rw [advance, hfinish]

theorem defineAll_placed (hp : p.check = []) (hr : p.KnownTypes) (hn : p.Distinct) {fs : List Func} (all : Bool)
    (ls : List Bytes) (hknown : ∀ f ∈ fs, ∀ i ∈ f.body, i.unknown? = none)
    (hd : d.program = p) (h : Sound d.module d.funcs Service.all p.globals p.funcs n) (hfs : p.funcs.drop n = fs) :
    ∃ m ls', d.defineAllCounting all ls n fs = .ok ({ d with module := m }, ls') ∧ ls <+: ls' ∧ d.module.Leads m
      ∧ Sound m d.funcs Service.all p.globals p.funcs p.funcs.length
      ∧ ∀ {i f}, n ≤ i → p.funcs[i]? = some f → ∃ s a b, d.Placed all m ls' i f s a b := by
  induction fs generalizing d n ls with
  | nil =>
    have hlen : p.funcs.length ≤ n := List.drop_eq_nil_iff.1 hfs
    refine ⟨d.module, ls, rfl, List.prefix_rfl, .refl _, { h with funcs := fun {k g} hg => ?_ }, fun {i f} hi hf => ?_⟩
    · obtain ⟨id, e, hid, he, hsig, hlink, hhost, hdone⟩ := h.funcs hg
      have hk := (List.getElem?_eq_some_iff.1 hg).1
      exact ⟨id, e, hid, he, hsig, hlink, hhost, hdone.trans (decide_eq_decide.2 (by omega))⟩
    · have := (List.getElem?_eq_some_iff.1 hf).1
      omega
  | cons f fs ih =>
    have hf : p.funcs[n]? = some f := by
      rw [← List.head?_drop, hfs]
      rfl
    have hrest : p.funcs.drop (n + 1) = fs := by
      rw [← List.tail_drop, hfs]
      rfl
    have hfit : (d.surroundingsCounting all n f).Fit := (h.fit hp hr hn hd (List.mem_of_getElem? hf) n).counting all
    have hfunc : (d.surroundingsCounting all n f).scope.func = f := ((d.surroundings n f).scope.counting_alike all).func
    have hfsig : f.signature = .ok f.sig :=
      Func.signature_of_check ((Check.check_eq_nil.1 hp).2.2 f (List.mem_of_getElem? hf))
    obtain ⟨a, b, hmade⟩ := hfit.made (hfunc.symm ▸ hknown f (.head _)) f.name ls
    obtain ⟨id, e, c, hid, he, hnew, hc, hrun, h'⟩ :=
      h.define hf hmade.whole (hmade.sig.trans (congrArg Func.sig hfunc))
    have hdefine : d.defineFuncCounting all n f ls = .ok ({ d with module := d.module.withBody id e b.draft.body c },
        b.literals) := by
      rw [defineFuncCounting, lowerFunc_of_made hfsig hfit hmade]
      simp only [Bind.bind, Except.bind, hid, hrun]
      rfl
    obtain ⟨m, ls', hdone, hls, hleads, hsound, hplaced⟩ :=
      ih (d := { d with module := d.module.withBody id e b.draft.body c })
      b.literals (fun g hg => hknown g (.tail _ hg)) hd h' hrest
    have hfirst := Machine.Module.Leads.withBody he hnew b.draft.body c
    refine ⟨m, ls', ?_, hmade.begins.trans hls, hfirst.trans hleads, hsound, fun {i g} hi hg => ?_⟩
    · rw [defineAllCounting, hdefine]
      exact hdone
    · rcases Nat.eq_or_lt_of_le hi with rfl | hlt
      · obtain rfl : f = g := Option.some.inj (hf.symm.trans hg)
        obtain ⟨e', he', -, -, hsame⟩ := hleads.funcs (Machine.Module.funcs_withBody he he)
        rw [if_pos rfl] at hsame
        obtain rfl := hsame rfl
        obtain ⟨id', e₀, hid', he₀, hsig, -, hhost, -⟩ := h.funcs hf
        obtain rfl : id = id' := Option.some.inj (hid.symm.trans hid')
        obtain rfl : e = e₀ := Option.some.inj (he.symm.trans he₀)
        exact ⟨d.surroundingsCounting all n f, a, b, rfl, hfit, ⟨ls, hmade⟩, hls, hfirst.trans hleads, id, _, c, hid,
          he', hhost, hsig,
          rfl, rfl, (hfirst.trans hleads).target ▸ hc⟩
      · obtain ⟨s, a, b, hP⟩ := hplaced hlt hg
        exact ⟨s, a, b, hP.given, hP.fit, hP.made, hP.literals, hP.leads, hP.decl⟩

theorem finish_eq_ok {ls : List Bytes} {x : Executable} (hd : d.module.finalized = false) (h : d.finish ls = .ok x) :
    x.module = { d.module with finalized := true } ∧ x.literals = ls ∧ d.funcs[d.program.main.toNat]? = some x.main
      ∧ (d.program.func? d.program.main).map Func.ret = some x.mainRet := by
  have hfinal : ∀ {m : Module Service}, d.module.finalize = .ok m → m = { d.module with finalized := true } := by
    intro m hm
    rw [Module.finalize, if_neg (by simp [hd])] at hm
    split at hm
    · cases hm
    · exact (Except.ok.inj hm).symm
  unfold finish at h
  split at h
  · next hm hfunc hmain =>
    cases h
    exact ⟨hfinal hm, rfl, hmain, by rw [hfunc]; rfl⟩
  · cases h
  · cases h

/-! ## Words of globals -/

def span (gs : List Reg) : Nat := (gs.map (·.ty.words.words)).sum

def before : List Reg → Reg → Nat
  | [], _ => 0
  | g :: gs, r => if r = g then 0 else g.ty.words.words + before gs r

def addressesFrom : Nat → List Reg → List (Reg × UInt64)
  | _, [] => []
  | n, g :: gs => (g, Memory.addressOf n) :: addressesFrom (n + g.ty.words.words) gs

theorem before_add {gs : List Reg} {r : Reg} (hr : r ∈ gs) : before gs r + r.ty.words.words ≤ span gs := by
  induction gs with
  | nil => cases hr
  | cons g gs ih =>
    show (if r = g then 0 else _) + _ ≤ g.ty.words.words + span gs
    split
    · next h => simp [h]
    · next h =>
      have := ih ((List.mem_cons.1 hr).resolve_left h)
      omega

theorem before_apart {gs : List Reg} {r r' : Reg} (hr : r ∈ gs) (hr' : r' ∈ gs) (hne : r ≠ r') :
    before gs r + r.ty.words.words ≤ before gs r' ∨ before gs r' + r'.ty.words.words ≤ before gs r := by
  induction gs with
  | nil => cases hr
  | cons g gs ih =>
    simp only [before]
    by_cases h : r = g
    · subst h
      rw [if_pos rfl, if_neg (Ne.symm hne)]
      exact .inl (by omega)
    · by_cases h' : r' = g
      · subst h'
        rw [if_neg hne, if_pos rfl]
        exact .inr (by omega)
      · rw [if_neg h, if_neg h']
        have := ih ((List.mem_cons.1 hr).resolve_left h) ((List.mem_cons.1 hr').resolve_left h')
        omega

theorem exists_before {gs : List Reg} (hgs : gs.Nodup) {j : Nat} (hj : j < span gs) :
    ∃ g ∈ gs, before gs g ≤ j ∧ j < before gs g + g.ty.words.words := by
  induction gs generalizing j with
  | nil => cases hj
  | cons g gs ih =>
    obtain ⟨hg, hgs⟩ := List.nodup_cons.1 hgs
    have hspan : span (g :: gs) = g.ty.words.words + span gs := rfl
    rcases Nat.lt_or_ge j g.ty.words.words with hlt | hge
    · exact ⟨g, .head _, by simp [before], by simpa [before] using hlt⟩
    · obtain ⟨r, hr, hlow, hhigh⟩ := ih hgs (show j - g.ty.words.words < span gs by omega)
      have hne : r ≠ g := fun heq => hg (heq ▸ hr)
      have hbefore : before (g :: gs) r = g.ty.words.words + before gs r := if_neg hne
      exact ⟨r, .tail _ hr, by omega, by omega⟩

theorem lookup_addressesFrom {gs : List Reg} {r : Reg} (hr : r ∈ gs) (n : Nat) :
    (addressesFrom n gs).lookup r = some (Memory.addressOf (n + before gs r)) := by
  induction gs generalizing n with
  | nil => cases hr
  | cons g gs ih =>
    simp only [addressesFrom, List.lookup_cons, before]
    by_cases h : r = g
    · simp [h]
    · rw [beq_eq_false_iff_ne.2 h, if_neg h]
      dsimp only
      rw [ih ((List.mem_cons.1 hr).resolve_left h), Nat.add_assoc]

theorem addressOf_next (n : Nat) : (1 + n.toInt64).toUInt64 * 8 = Memory.addressOf (1 + n) := by
  rw [Memory.addressOf, Int64.toUInt64_add, Nat.mul_comm, UInt64.ofNat_mul, UInt64.ofNat_add]
  rfl

theorem orElse_eq_ok {α : Type} {name : Bytes} {x : Except ModuleError α} {a : α} (h : orElse name x = .ok a) :
    x = .ok a := by
  cases x with
  | error e => cases h
  | ok b => exact congrArg Except.ok (Except.ok.inj h)

theorem declareGlobal_eq_ok {d d' : Declared} {g : Reg} (h : declareGlobal d g = .ok d') :
    d' = { d with
      module := d.module.withData (globalName g) g.ty.words.words.toInt64
      addresses := d.addresses ++ [(g, (1 + d.module.dataWords).toUInt64 * 8)] } := by
  obtain ⟨k, hk, h⟩ := bind_eq_ok h
  obtain ⟨⟨id, address, m⟩, hrun, h⟩ := bind_eq_ok h
  have hkind : g.ty.kind = .ok k := by
    cases hty : g.ty.kind with
    | error e =>
      rw [hty] at hk
      cases hk
    | ok k' =>
      rw [hty] at hk
      exact congrArg Except.ok (Except.ok.inj hk)
  obtain rfl := Ty.kind_eq hkind
  replace hrun := orElse_eq_ok hrun
  unfold Module.declareData at hrun
  split at hrun
  · cases hrun
  split at hrun
  · cases hrun
  split at hrun
  · cases hrun
  · cases hrun
    cases h
    rfl

theorem declareGlobals_words {gs : List Reg} {d d' : Declared} {n : Nat} (h : gs.foldlM declareGlobal d = .ok d')
    (hn : d.module.dataWords = n.toInt64) :
    d'.addresses = d.addresses ++ addressesFrom (1 + n) gs ∧ d'.module.dataWords = (n + span gs).toInt64 := by
  induction gs generalizing d n with
  | nil =>
    cases h
    exact ⟨by simp [addressesFrom], by simpa [span] using hn⟩
  | cons g gs ih =>
    rw [List.foldlM_cons] at h
    obtain ⟨d₁, hone, hrest⟩ := bind_eq_ok h
    obtain rfl := declareGlobal_eq_ok hone
    have hwords : (d.module.withData (globalName g) g.ty.words.words.toInt64).dataWords
        = (n + g.ty.words.words).toInt64 := by
      rw [Module.withData, hn]
      exact (Int64.ofNat_add ..).symm
    obtain ⟨haddrs, hspan⟩ := ih hrest hwords
    refine ⟨?_, ?_⟩
    · rw [haddrs, hn, addressOf_next, List.append_assoc, ← Nat.add_assoc]
      rfl
    · rw [hspan, Nat.add_assoc]
      rfl

theorem declareFunc_words {m m' : Module Service} {name : Bytes} {l : Machine.Linkage} {sig : Machine.Signature}
    {id : FuncId} (h : m.declareFunc name l sig = .ok (id, m')) : m'.dataWords = m.dataWords := by
  unfold Module.declareFunc at h
  split at h
  · cases h
  split at h
  · cases h
  · split at h
    · cases h
    split at h
    · cases h
    split at h
    · cases h
    · cases h
      rfl
  · cases hhost : Module.declareFunc.hostOf m name l with
    | error e =>
      rw [hhost] at h
      cases h
    | ok host =>
      rw [hhost] at h
      cases h
      rfl

theorem withServices_words {m : Module Service} (h : withServices = .ok m) : m.dataWords = 0 := by
  have hfold : ∀ (svs : List Service) (m m' : Module Service), svs.foldlM importService m = .ok m' →
      m'.dataWords = m.dataWords := by
    intro svs
    induction svs with
    | nil =>
      intro m m' h
      cases h
      rfl
    | cons sv svs ih =>
      intro m m' h
      rw [List.foldlM_cons] at h
      obtain ⟨m₁, hone, hrest⟩ := bind_eq_ok h
      obtain ⟨⟨id, m₂⟩, hrun, hone⟩ := bind_eq_ok hone
      cases hone
      rw [ih m₂ m' hrest]
      exact declareFunc_words (orElse_eq_ok hrun)
  exact hfold Service.all empty m h

theorem declareFuncs_words {fs : List (Func × Nat)} {d d' : Declared} (h : fs.foldlM declareFunc d = .ok d') :
    d'.addresses = d.addresses ∧ d'.module.dataWords = d.module.dataWords := by
  induction fs generalizing d with
  | nil =>
    cases h
    exact ⟨rfl, rfl⟩
  | cons f fs ih =>
    rw [List.foldlM_cons] at h
    obtain ⟨d₁, hone, hrest⟩ := bind_eq_ok h
    obtain ⟨haddr, hwords⟩ := ih hrest
    suffices hd : d₁.addresses = d.addresses ∧ d₁.module.dataWords = d.module.dataWords from
      ⟨haddr.trans hd.1, hwords.trans hd.2⟩
    unfold declareFunc at hone
    by_cases ht : (d.module.lookup? f.1.name).isSome
    · rw [if_pos ht] at hone
      cases hone
    · rw [if_neg ht] at hone
      obtain ⟨sig, -, hone⟩ := bind_eq_ok hone
      obtain ⟨⟨id, m⟩, hrun, hone⟩ := bind_eq_ok hone
      cases hone
      exact ⟨rfl, declareFunc_words (orElse_eq_ok hrun)⟩

theorem ofProgram_words {p : Program} {d : Declared} (h : ofProgram p = .ok d) :
    d.addresses = addressesFrom 1 p.globals ∧ d.module.dataWords = (span p.globals).toInt64 := by
  obtain ⟨m, hm, h⟩ := bind_eq_ok h
  obtain ⟨d₁, hg, h⟩ := bind_eq_ok h
  obtain ⟨haddr, hwords⟩ := declareFuncs_words h
  obtain ⟨haddr', hwords'⟩ := declareGlobals_words (n := 0) hg (withServices_words hm)
  exact ⟨haddr.trans haddr', hwords.trans (by rw [hwords', Nat.zero_add])⟩

end Declared

end RecordMill

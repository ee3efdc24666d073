import RecordMill.Proofs.Lowering.Primitives
import RecordMill.Proofs.Service.Shape

/-!
# Variables, globals and services

Reading and writing what a register stands for, and calling the host.
-/

namespace RecordMill

open Machine (Kind Value VarId BlockId Cells Outside Memory Body FuncDraft Build Inst Action Trap Callee)

namespace Site

variable {S : Site} {δ : Direct.Store} {c : Cells} {out : Outside Context} {g : Reg}

theorem length_content (h : S.Matches δ c out) {pl : Place} {v : VarId} (hv : S.scope.var? pl = some v) :
    (S.content δ pl).length = (S.scope.kindOf pl).words := by
  cases pl with
  | context => rfl
  | keys r => rfl
  | position r => rfl
  | reg r =>
    have hb : (S.scope.binding? r).isSome := by
      rw [Scope.var?] at hv
      exact Option.isSome_map ▸ Option.isSome_of_mem hv
    have hw := h.words hb
    rw [Site.words] at hw
    rw [content, Scope.kindOf]
    split
    · rfl
    · next hg => rwa [if_neg hg] at hw

theorem isSome_of_isGlobal {s : Scope} (h : s.isGlobal g) : (s.binding? g).isSome := by
  unfold Scope.isGlobal at h
  cases hb : s.binding? g with
  | none => rw [hb] at h; cases h
  | some b => rfl

theorem length_globals (h : S.Matches δ c out) (hg : S.scope.isGlobal g) : (δ.globals g).length = g.ty.words.words := by
  have := h.words (isSome_of_isGlobal hg)
  rwa [Site.words, if_pos hg] at this

/-- What assigning words to a variable does to a store. -/
structure Assigns (S : Site) (pl : Place) (ws : List UInt64) (upd : Direct.Store → Direct.Store) : Prop where
  context : ∀ δ, (upd δ).context = δ.context
  flow : ∀ δ, (upd δ).flow = δ.flow
  globals : ∀ δ, (upd δ).globals = δ.globals
  content : ∀ δ q, S.content (upd δ) q = if q = pl then ws else S.content δ q

end Site

def Known.callee (S : Site) (r : Machine.RefId) (id : Machine.FuncId) (sig : Machine.Signature) : Known S where
  Holds d _ _ := d.body.callees[r]? = some ⟨id, sig⟩
  stable h hg _ _ := hg.callees h

def Known.spread (S : Site) (vs : List Value) (ks : List Kind) (ws : List UInt64) : Known S where
  Holds d c m := ∃ wss, (Known.values S vs ks wss).Holds d c m ∧ wss.flatten = ws
  stable h hg hc hm := by
    obtain ⟨wss, h, e⟩ := h
    exact ⟨wss, (Known.values S vs ks wss).stable h hg hc hm, e⟩

theorem Known.Holds.dealt {S : Site} {d d' : FuncDraft} {a : Action} {ks : List Kind} {vs : List Value} {c : Cells}
    {m : Memory} {ws : List UInt64} (h : d.Appends a ks vs d') (hks : ks = [] ∨ ∃ k, ks = [k])
    (hsized : ∀ {v : Value} {k : Kind}, d'.body.values[v]? = some k → (c.value v).length = k.words)
    (hlen : ws.length = Kind.total ks) : (Known.spread S vs ks ws).Holds d' (c.deal vs ws) m := by
  rcases hks with rfl | ⟨k, rfl⟩
  · obtain rfl : vs = [] := h.results
    exact ⟨[], ⟨rfl, rfl, rfl⟩, (List.length_eq_zero_iff.1 hlen).symm⟩
  · obtain ⟨v, rfl⟩ : ∃ v, vs = [v] := ⟨_, h.results⟩
    have hk : ws.length = k.words := hlen
    exact ⟨[ws], .value h.kind (c.deal_singleton (hk.trans (hsized h.kind).symm)) hk, by simp⟩

structure Imported (d : FuncDraft) (id : Machine.FuncId) (sig : Machine.Signature) (r : Machine.RefId)
    (d' : FuncDraft) :
    Prop where
  current : d'.current = d.current
  body : d'.body = { d.body with callees := d'.body.callees }
  callee : d'.body.callees[r]? = some ⟨id, sig⟩
  others : ∀ {j : Nat} {c : Callee}, d'.body.callees[j]? = some c → d.body.callees[j]? = some c ∨ c = ⟨id, sig⟩

theorem Site.Ongoing.imported {S : Site} {p : Progress} {b : BlockId} (hp : S.Ongoing p b) {id : Machine.FuncId}
    {e : Machine.FuncDecl Service} (he : S.given.module.funcs[id]? = some e) {r : Machine.RefId} {d' : FuncDraft}
    (hb : S.given.module.importInto id p.draft = (.ok r, d')) : Imported p.draft id e.sig r d' := by
  refine Build.wp_ok (Q := fun r d' => Imported p.draft id e.sig r d') (E := fun _ => True) ?_ hb
  simp only [Machine.Module.importInto, he, Build.wp_bind, Build.wp_get]
  split
  · next r hr =>
    obtain ⟨hlt, hid, -⟩ := Array.findIdx?_eq_some_iff_getElem.1 hr
    have hc := Array.getElem?_eq_getElem hlt
    obtain ⟨e', he', hsig⟩ := hp.callees hc
    have hid : p.draft.body.callees[r].id = id := by simpa using hid
    rw [hid, he, Option.some.injEq] at he'
    refine ⟨rfl, rfl, ?_, fun h => .inl h⟩
    rw [hc, ← hid, he', hsig]
  · simp only [Build.wp_bind, Build.wp_modifyBody, Build.wp_pure]
    refine ⟨rfl, rfl, by simp, fun {j c} h => ?_⟩
    rw [Array.getElem?_push] at h
    split at h
    · exact .inr (by simpa using h.symm)
    · exact .inl h

theorem Site.Ongoing.extends_imported {S : Site} {p : Progress} {b : BlockId} (hp : S.Ongoing p b) {id : Machine.FuncId}
    {e : Machine.FuncDecl Service} (he : S.given.module.funcs[id]? = some e) {r : Machine.RefId} {d' : FuncDraft}
    (hb : S.given.module.importInto id p.draft = (.ok r, d')) : p.draft.Extends b [] d' := by
  have hi := hp.imported he hb
  have hblocks : d'.body.blocks = p.draft.body.blocks := by rw [hi.body]
  have hl := Build.wp_ok ((Build.Traced.importInto S.given.module id).safe p.draft hp.ready.sound) hb
  refine .of_same hp.ready hl hi.current (by rw [hi.body]) (by rw [hi.body]) (fun h => hblocks ▸ h) fun hc h => ?_
  rw [hblocks] at h
  have := (Array.getElem?_eq_some_iff.1 h).1
  omega

namespace Realizes

variable {S : Site} {α β γ ε : Type} {K : Known S} {n m : Nat} {x : Native α} {D : Direct β} {R : α → β → Known S}

theorem given {f : Surroundings → Native α} (h : Realizes S K n (f S.given) D R) :
    Realizes S K n (MonadReader.read >>= f) D R :=
  ⟨h.adds, h.does⟩

theorem scope {f : Scope → Native α} (h : Realizes S K n (f S.scope) D R) : Realizes S K n (Native.scope >>= f) D R :=
  ⟨h.adds, h.does⟩

theorem setting {g : Direct.Setting → Direct β} (h : Realizes S K n x (g S.setting) R) :
    Realizes S K n x (MonadReader.read >>= g) R :=
  ⟨h.adds, h.does⟩

theorem swap (h : Realizes S K n x D R) {E : Direct β}
    (hE : ∀ {d : FuncDraft} {c : Cells} {m : Memory}, K.Holds d c m → ∀ δ, E S.setting δ = D S.setting δ) :
    Realizes S K n x E R where
  adds := h.adds
  does hp hx hseg hgrows hlits _ _ _ hmatch hK := by
    rw [hE hK]
    exact h.does hp hx hseg hgrows hlits hmatch hK

theorem kindOf {ty : Ty} {f : Kind → Native α} (h : Realizes S K n (f ty.words) D R) :
    Realizes S K n (Native.kindOf ty >>= f) D R := by
  unfold Native.kindOf
  cases hk : ty.kind with
  | error e => exact ⟨fun _ hx => (nomatch hx), fun _ hx => nomatch hx⟩
  | ok k =>
    obtain rfl := Ty.kind_eq hk
    exact ⟨h.adds, h.does⟩

/-! ## Variables -/

theorem place (hS : S.Sound) (pl : Place) {v : VarId} (hv : S.scope.var? pl = some v) :
    Realizes S K 1 (Native.build (Build.useVar v)) (fun _ δ => (.ok (S.content δ pl), δ))
      fun r ws => Known.value S r (S.scope.kindOf pl) ws := by
  refine compute (fun δ => .ok (S.content δ pl)) (fun _ => rfl) fun _ hb => ?_
  obtain ⟨k, happ⟩ := Build.wp_ok (Build.useVar_wp v) hb
  obtain ⟨-, hk, hvar⟩ := happ.fits
  refine ⟨_, k, happ, rfl, hk, fun hgrows δ c out hmatch hK => ⟨?_, fun ws h => ?_, ?_⟩⟩
  · obtain ⟨b, -, -, rfl⟩ := happ.added
    have := hgrows.vars hk hvar
    rw [hS.vars hv, Option.some.injEq] at this
    exact this.symm
  · cases h
    exact Site.length_content hmatch hv
  · rw [Action.act, hmatch.vars hv]
    rfl

theorem assign (hS : S.Sound) {pl : Place} {v : VarId} (hv : S.scope.var? pl = some v) {x : Value} {k : Kind}
    {ws : List UInt64} (hx : K.Gives (Known.value S x k ws)) {upd : Direct.Store → Direct.Store}
    (hupd : S.Assigns pl ws upd) :
    Realizes S K 1 (Native.build (Build.defVar v x)) (fun _ δ => (.ok (), upd δ)) fun _ _ => Known.nothing S := by
  refine of_inst fun {p d' b _} hp hb => ?_
  obtain ⟨k', happ⟩ := Build.wp_ok (Build.defVar_wp v x) hb
  obtain ⟨-, hk, hvar, hval⟩ := happ.fits
  refine ⟨_, [], [], happ, rfl, by simp, fun hgrows {δ c out} hmatch hK => ?_⟩
  have hgrow := (happ.leads hp.ready.sound).grows
  have hkind : S.scope.kindOf pl = k' := by
    have := (hgrow.trans hgrows).vars hk hvar
    rwa [hS.vars hv, Option.some.injEq] at this
  have hwords : c.value x = ws := Known.value_words (hx.of hK)
  have hlen : ws.length = k'.words := hwords ▸ hmatch.sized ((hgrow.trans hgrows).values hval)
  rw [Machine.Inst.exec_of_act (by simp), Action.act, hwords]
  refine .done ?_ (K.stable hK hgrow (fun _ _ => rfl) fun _ _ => rfl) trivial
  exact
    { host := hmatch.host.trans (hupd.context δ).symm
      flow := (hupd.flow δ).trans hmatch.flow
      sized := hmatch.sized
      vars := fun {q u} hq => by
        rw [hupd.content]
        show (if u = v then ws else c.var u) = _
        by_cases huv : u = v
        · subst huv
          rw [if_pos rfl, if_pos (hS.apart hq hv)]
        · have hne : q ≠ pl := by
            rintro rfl
            rw [hv] at hq
            cases hq
            exact huv rfl
          rw [if_neg huv, if_neg hne, hmatch.vars hq]
      words := fun {r} hr => by
        rw [Site.words, hupd.globals]
        split
        · next hg => exact Site.length_globals hmatch hg
        · next hg =>
          have hreg := hupd.content δ (.reg r)
          rw [Site.content, if_neg hg] at hreg
          rw [hreg]
          split
          · next e =>
            subst e
            rw [hlen, ← hkind, Scope.kindOf, if_neg hg]
          · have := hmatch.words hr
            rw [Site.words, if_neg hg] at this
            rwa [Site.content, if_neg hg]
      globals := fun hg => by
        rw [hupd.globals]
        exact hmatch.globals hg
      length := hmatch.length
      sp := hmatch.sp }

/-! ## Globals -/

theorem load (hS : S.Sound) {g : Reg} (hg : S.scope.isGlobal g) {q : Value}
    (hq : K.Gives (Known.value S q .i64 [S.address g])) :
    Realizes S K 1 (Native.loadFrom g.ty q) (fun _ δ => (.ok (δ.globals g), δ)) fun r ws =>
      Known.value S r g.ty.words ws := by
  refine kindOf (compute (fun δ => .ok (δ.globals g)) (fun _ => rfl) fun _ hb => ?_)
  have happ := Build.wp_ok (Build.load_wp g.ty.words q 0) hb
  refine ⟨_, _, happ, rfl, Ty.words_ne_invalid _, fun hgrows {δ c out} hmatch hK => ⟨rfl, fun ws h => ?_, ?_⟩⟩
  · cases h
    exact Site.length_globals hmatch hg
  · obtain ⟨haddr, hpos, hbase⟩ := hS.address hg
    have hroom : S.index g + g.ty.words.words ≤ out.memory.length := by
      have := hS.base
      have := hS.area
      have := hmatch.length
      omega
    rw [Action.act, Known.value_word (hq.of hK)]
    show some ((out.memory.loadAll (S.address g + 0) _).map _, _) = _
    rw [UInt64.add_zero, haddr, Memory.loadAll_addressOf (hmatch.globals hg) (Site.length_globals hmatch hg) hpos hroom
      (hmatch.length ▸ hS.length)]

theorem store (hS : S.Sound) {g : Reg} (hg : S.scope.isGlobal g) {q v : Value} {k : Kind} {ws : List UInt64}
    (hq : K.Gives (Known.value S q .i64 [S.address g])) (hv : K.Gives (Known.value S v k ws))
    (hk : k.words = g.ty.words.words) :
    Realizes S K 1 (Native.build (Build.store v q 0))
      (fun _ δ => (.ok (), { δ with globals := fun u => if u = g then ws else δ.globals u })) fun _ _ =>
        Known.nothing S := by
  refine of_inst fun {p d' b _} hp hb => ?_
  obtain ⟨k', happ⟩ := Build.wp_ok (Build.store_wp v q 0) hb
  refine ⟨_, [], [], happ, rfl, by simp, fun hgrows {δ c out} hmatch hK => ?_⟩
  have hgrow := (happ.leads hp.ready.sound).grows
  have hwords : c.value v = ws := Known.value_words (hv.of hK)
  have hlen : ws.length = g.ty.words.words := by
    rw [← hk, ← hwords]
    exact hmatch.sized ((hgrow.trans hgrows).values (Known.value_kind (hv.of hK)))
  obtain ⟨haddr, hpos, hbase⟩ := hS.address hg
  have hroom : S.index g + ws.length ≤ out.memory.length := by
    have := hS.base
    have := hS.area
    have := hmatch.length
    omega
  obtain ⟨mem, hstore, hs⟩ := Memory.storeAll_addressOf ws hpos hroom (hmatch.length ▸ hS.length)
  have hexec : Inst.exec S.module Service.perform S.body S.stack ⟨.store k' v q 0, []⟩ c out
      = some (.ok c, { out with memory := mem }) := by
    rw [Machine.Inst.exec_of_act (by simp), Action.act, Known.value_word (hq.of hK), hwords]
    show Option.map _ (some ((out.memory.storeAll (S.address g + 0) ws).1.map _,
      (out.memory.storeAll (S.address g + 0) ws).2)) = _
    rw [UInt64.add_zero, haddr, hstore]
    rfl
  rw [hexec]
  refine .done ?_ (K.stable hK hgrow (fun _ _ => rfl) fun i hi => hs.others i (by omega)) trivial
  exact
    { host := hmatch.host
      flow := hmatch.flow
      sized := hmatch.sized
      vars := fun {pl u} hu => by
        rw [hmatch.vars hu]
        cases pl <;> rfl
      words := fun {r} hr => by
        have := hmatch.words hr
        rw [Site.words] at this ⊢
        split
        · next hgr =>
          rw [if_pos hgr] at this
          dsimp only
          split
          · next e => rw [hlen, e]
          · exact this
        · next hgr => rwa [if_neg hgr] at this
      globals := fun {h} hh => by
        dsimp only
        split
        · next e =>
          subst e
          exact hs.holds
        · next e =>
          refine hs.keeps (hmatch.globals hh) ?_
          rw [hlen, Site.length_globals hmatch hh]
          exact hS.disjoint hh hg e
      length := hs.length.trans hmatch.length
      sp := hs.sp ▸ hmatch.sp }

/-! ## Services -/

theorem importInto {id : Machine.FuncId} {e : Machine.FuncDecl Service} (he : S.given.module.funcs[id]? = some e) :
    Realizes S K 0 (Native.build (S.given.module.importInto id)) (Pure.pure ()) fun r _ =>
      Known.callee S r id e.sig where
  adds {p p' b r} hp hx := by
    obtain ⟨d', hb, rfl⟩ := Native.build_eq_ok hx
    have hext := hp.extends_imported he hb
    refine ⟨⟨hext.ready, fun {j c} h => ?_⟩, ⟨[], hext, Nat.le_refl 0⟩, List.prefix_rfl⟩
    rcases (hp.imported he hb).others h with h | rfl
    · exact hp.callees h
    · exact ⟨e, he, rfl⟩
  does {p p' b r seg} hp hx hseg hgrows _ δ c out hmatch hK := by
    obtain ⟨d', hb, rfl⟩ := Native.build_eq_ok hx
    have hext := hp.extends_imported he hb
    obtain rfl := hseg.unique hext
    exact .done hmatch (K.stable hK hext.grows (fun _ _ => rfl) fun _ _ => rfl) (hp.imported he hb).callee

theorem call (hS : S.Sound) {s : Service} {id : Machine.FuncId} {d : Machine.FuncDecl Service}
    (hd : S.module.funcs[id]? = some d) (hhost : d.host = some s) (hsig : d.sig = s.sig) {r : Machine.RefId}
    (hr : K.Gives (Known.callee S r id s.sig)) {args : List Value} {ks : List Kind} {wss : List (List UInt64)}
    (ha : K.Gives (Known.values S args ks wss)) {D : Direct (List UInt64)}
    (hD : ∀ {f : FuncDraft} {δ : Direct.Store} {c : Cells} {out : Outside Context}, S.Matches δ c out →
      K.Holds f c out.memory →
      match Service.perform s wss.flatten out with
      | (.ok rs, out') => out'.memory = out.memory ∧ D S.setting δ = (.ok rs, { δ with context := out'.host })
      | (.error t, out') => D S.setting δ = (.error (.trap t), { δ with context := out'.host })) :
    Realizes S K 1 (Native.build (Build.call r args)) D fun vs ws => Known.spread S vs s.sig.returns ws := by
  refine of_inst fun {p d' b vs} hp hb => ?_
  obtain ⟨e, he, happ⟩ := Build.wp_ok (Build.call_wp r args) hb
  obtain ⟨decl, hdecl, hes⟩ := hp.callees he
  refine ⟨_, _, _, happ, rfl, hes ▸ hS.returns hdecl, fun hgrows {δ c out} hmatch hK => ?_⟩
  have hgrow := (happ.leads hp.ready.sound).grows
  obtain rfl : e = ⟨id, s.sig⟩ := Option.some.inj (he.symm.trans (hr.of hK))
  have hwords : c.words args = wss.flatten := by rw [Cells.words, List.flatMap_def, (ha.of hK).2.1]
  rw [Machine.Inst.exec_of_call rfl ((hgrow.trans hgrows).callees he), Machine.Module.perform_of_host hd hhost, hwords]
  have hD := hD hmatch hK
  have hrun : (Service.perform s wss.flatten).run.run out = Service.perform s wss.flatten out := rfl
  rw [hrun]
  rcases hperf : Service.perform s wss.flatten out with ⟨t | rs, out'⟩ <;> rw [hperf] at hD
  · rw [hD]
    exact .trapped rfl
  · obtain ⟨hmem, hD⟩ := hD
    have hlen : rs.length = Kind.total s.sig.returns := Service.yields_perform s _ _ _ _ hperf
    rw [hD, hsig]
    dsimp only
    rw [if_neg (by omega)]
    have hmatch' : S.Matches { δ with context := out'.host } (c.deal vs rs) out' :=
      { host := rfl
        flow := hmatch.flow
        sized := (hmatch.deal vs rs).sized
        vars := fun {pl v} hv => by
          rw [(hmatch.deal vs rs).vars hv]
          cases pl <;> rfl
        words := hmatch.words
        globals := hmem ▸ hmatch.globals
        length := hmem ▸ hmatch.length
        sp := hmem ▸ hmatch.sp }
    refine .done hmatch' (hmem ▸ K.deal hK hp.ready.sound happ rs) ?_
    exact .dealt happ (Service.returns_cases s) (fun hk => hmatch.sized (hgrows.values hk)) hlen

end Realizes

end RecordMill

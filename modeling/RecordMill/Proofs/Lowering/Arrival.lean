import RecordMill.Proofs.Lowering.Slots
import RecordMill.Proofs.Lowering.Stages
import RecordMill.Proofs.Machine.Reference

/-!
# The entry of a function

The code at the start of a function points its variables at the globals, takes the parameters and makes the
maps. It does what the direct emitter does when it enters an activation.
-/

namespace RecordMill

open Machine (Kind Value VarId BlockId Block Cells Outside Memory Body FuncDraft Build Inst Action Trap execAll)

theorem Machine.Cells.deal_flatten (c : Cells) {vs : List Value} {wss : List (List UInt64)} (hvs : vs.Nodup)
    (hlen : vs.map (fun v => (c.value v).length) = wss.map List.length) :
    vs.map (c.deal vs wss.flatten).value = wss := by
  induction vs generalizing c wss with
  | nil =>
    cases wss with
    | nil => rfl
    | cons => cases hlen
  | cons v vs ih =>
    cases wss with
    | nil => cases hlen
    | cons ws wss =>
      obtain ⟨hv, hvs⟩ := List.nodup_cons.1 hvs
      obtain ⟨hhead, htail⟩ : (c.value v).length = ws.length ∧ vs.map (fun v => (c.value v).length)
          = wss.map List.length :=
        List.cons.inj hlen
      have hdrop : (ws ++ wss.flatten).drop (c.value v).length = wss.flatten := by rw [hhead, List.drop_left]
      have hrest := ih (c.setValue v (ws ++ wss.flatten)) hvs (by
        rw [← htail]
        exact List.map_congr_left fun u _ => c.length_setValue v u _)
      have hfirst : (c.setValue v (ws ++ wss.flatten)).value v = ws := by
        show (if v = v then Cells.fill (c.value v) (ws ++ wss.flatten) else c.value v) = ws
        rw [if_pos rfl, Cells.fill, hhead, List.take_left, List.drop_eq_nil_of_le, List.append_nil]
        rw [List.length_append, hhead]
        exact Nat.le_add_right ..
      rw [List.flatten_cons, Cells.deal, hdrop, List.map_cons, hrest, Cells.deal_value_of_not_mem _ _ hv, hfirst]

/-! ## Code that only sets variables -/

namespace Machine.FuncDraft

variable {d d' : FuncDraft} {b : BlockId}

theorem Extends.declareVar (hd : d.Ready b) {v : VarId} {k : Kind} (h : Build.declareVar v k d = (.ok (), d')) :
    d.Extends b [] d' := by
  have hwp : (Build.declareVar v k).wp d (fun _ e => e.current = d.current ∧ e.body.values = d.body.values
      ∧ e.body.insts = d.body.insts ∧ e.body.blocks = d.body.blocks) fun _ => True := by
    simp only [Build.declareVar, Build.wp_bind, Build.wp_get, Build.wp_modifyBody]
    split <;> simp
  have hleads := (Build.Traced.declareVar v k).safe.leads hd.sound
  obtain ⟨hcurrent, hvalues, hinsts, hblocks⟩ := Build.wp_ok hwp h
  rw [h] at hleads
  refine .of_same hd hleads hcurrent hinsts hvalues (fun hx => hblocks ▸ hx) fun {c y} hc hy => ?_
  rw [hblocks] at hy
  exact absurd (Array.getElem?_eq_some_iff.1 hy).1 (Nat.not_lt_of_le hc)

theorem Extends.createBlock (hd : d.Ready b) {c : BlockId} (h : Build.createBlock d = (.ok c, d')) :
    d.Extends b [] d' := by
  have hleads := Build.Traced.createBlock.safe.leads hd.sound
  rw [h] at hleads
  cases h
  refine .of_same hd hleads rfl rfl rfl (fun {e x} hx => ?_) fun {e y} he hy => ?_
  · obtain ⟨hlt, rfl⟩ := Array.getElem?_eq_some_iff.1 hx
    exact Array.getElem?_push_lt hlt
  · rw [Array.getElem?_push] at hy
    split at hy
    · exact (Option.some.inj hy).symm
    · exact absurd (Array.getElem?_eq_some_iff.1 hy).1 (Nat.not_lt_of_le he)

end Machine.FuncDraft

namespace Site

def Sized (S : Site) (c : Cells) :
    Prop :=
  ∀ {v : Nat} {k : Kind}, S.body.values[v]? = some k → (c.value v).length = k.words

/-- What was added to the first block sets variables as `T` says, and nothing else. -/
structure Prepares (S : Site) (T : Cells → Cells → Prop) (p p' : Progress) : Prop where
  ongoing : S.Ongoing p' 0
  literals : p'.literals = p.literals
  code : ∃ seg, p.draft.Extends 0 seg p'.draft
    ∧ (p'.draft.body.Grows S.body → ∀ {c : Cells} (out : Outside Context), S.Sized c →
    ∃ c', S.exec seg c out = some (.ok c', out) ∧ T c c')

def Unset (c c' : Cells) : Prop := c' = c

namespace Prepares

variable {S : Site} {T U : Cells → Cells → Prop} {p p' p'' : Progress}

theorem refl (hp : S.Ongoing p 0) : S.Prepares Unset p p :=
  ⟨hp, rfl, [], .refl hp.ready, fun _ c _ _ => ⟨c, rfl, rfl⟩⟩

theorem trans (hp : S.Ongoing p 0) (h : S.Prepares T p p') (h' : S.Prepares U p' p'') :
    S.Prepares (fun c c'' => ∃ c', T c c' ∧ U c' c'') p p'' := by
  obtain ⟨seg, hseg, hdoes⟩ := h.code
  obtain ⟨seg', hseg', hdoes'⟩ := h'.code
  refine ⟨h'.ongoing, h'.literals.trans h.literals, seg ++ seg', hseg.trans hp.ready hseg',
    fun hgrows c out hsized => ?_⟩
  obtain ⟨c', hexec, hT⟩ := hdoes (hseg'.grows.trans hgrows) out hsized
  have hkeeps := (Machine.execAll_keeps hexec (n := 0) fun _ _ _ _ => Nat.zero_le _).1
  obtain ⟨c'', hexec', hU⟩ := hdoes' hgrows out fun hv => (hkeeps _).trans (hsized hv)
  exact ⟨c'', by rw [S.exec_append, hexec]; exact hexec', c', hT, hU⟩

theorem mono (h : S.Prepares T p p') (hTU : ∀ {c c'}, T c c' → U c c') : S.Prepares U p p' := by
  obtain ⟨seg, hseg, hdoes⟩ := h.code
  refine ⟨h.ongoing, h.literals, seg, hseg, fun hgrows c out hsized => ?_⟩
  obtain ⟨c', hexec, hT⟩ := hdoes hgrows out hsized
  exact ⟨c', hexec, hTU hT⟩

theorem of_same (hp : S.Ongoing p 0) {d : FuncDraft} (hext : p.draft.Extends 0 [] d)
    (hc : d.body.callees = p.draft.body.callees) :
    S.Prepares Unset p ⟨d, p.literals⟩ :=
  ⟨⟨hext.ready, fun h => hp.callees (hc ▸ h)⟩, rfl, [], hext, fun _ c _ _ => ⟨c, rfl, rfl⟩⟩

theorem defVar (hp : S.Ongoing p 0) {v : VarId} {x : Value}
    (h : Native.build (Build.defVar v x) S.given p = (.ok (), p')) :
    S.Prepares (fun c c' => c' = c.setVar v (c.value x)) p p' := by
  obtain ⟨d, hd, rfl⟩ := Native.build_eq_ok h
  obtain ⟨k, happ⟩ := Build.wp_ok (Build.defVar_wp v x) hd
  have hext := FuncDraft.Extends.of_appends hp.ready happ rfl (by simp)
  refine ⟨⟨hext.ready, fun h => hp.callees (happ.callees ▸ h)⟩, rfl, _, hext, fun _ c out _ => ⟨_, ?_, rfl⟩⟩
  rw [S.exec_singleton, Machine.Inst.exec_of_act (Machine.Action.not_call rfl)]
  rfl

theorem code_ne_nil (h : S.Prepares T p p') (hp : p.draft.body.code 0 ≠ []) : p'.draft.body.code 0 ≠ [] := by
  obtain ⟨seg, hseg, -⟩ := h.code
  rw [hseg.code]
  exact fun e => hp (List.append_eq_nil_iff.1 e).1

theorem code_defVar (hp : S.Ongoing p 0) {v : VarId} {x : Value}
    (h : Native.build (Build.defVar v x) S.given p = (.ok (), p')) :
    p'.draft.body.code 0 ≠ [] := by
  obtain ⟨d, hd, rfl⟩ := Native.build_eq_ok h
  obtain ⟨k, happ⟩ := Build.wp_ok (Build.defVar_wp v x) hd
  have hext := FuncDraft.Extends.of_appends hp.ready happ rfl (by simp)
  simp [hext.code]

theorem constWord (hp : S.Ongoing p 0) {w : UInt64} {x : Value} (h : Native.constWord w S.given p = (.ok x, p')) :
    S.Prepares (fun c c' => c'.var = c.var ∧ c'.value x = [w]) p p' := by
  obtain ⟨d, hd, rfl⟩ := Native.build_eq_ok (s := S.given) (o := Build.iconst .i64 w.toInt64) h
  have happ := Build.wp_ok (Build.iconst_wp .i64 w.toInt64) hd
  have hext := FuncDraft.Extends.of_appends hp.ready happ rfl (by simp)
  refine ⟨⟨hext.ready, fun h => hp.callees (happ.callees ▸ h)⟩, rfl, _, hext, fun hgrows c out hsized =>
    ⟨c.deal [x] [w], ?_, c.deal_var _ _, c.deal_singleton (hsized (hgrows.values happ.kind)).symm⟩⟩
  rw [S.exec_singleton, Machine.Inst.exec_of_act (Machine.Action.not_call rfl), Build.constant, if_neg (by decide),
    UInt64.toUInt64_toInt64]
  rfl

theorem declareVar (hp : S.Ongoing p 0) {v : VarId} {k : Kind}
    (h : Native.build (Build.declareVar v k) S.given p = (.ok (), p')) :
    S.Prepares Unset p p' := by
  obtain ⟨d, hd, rfl⟩ := Native.build_eq_ok h
  refine of_same hp (.declareVar hp.ready hd) ?_
  have hwp : (Build.declareVar v k).wp p.draft (fun _ e => e.body.callees = p.draft.body.callees) fun _ => True := by
    simp only [Build.declareVar, Build.wp_bind, Build.wp_get, Build.wp_modifyBody]
    split <;> simp
  exact Build.wp_ok hwp hd

theorem createBlock (hp : S.Ongoing p 0) {b : BlockId} (h : Native.build Build.createBlock S.given p = (.ok b, p')) :
    S.Prepares Unset p p' := by
  obtain ⟨d, hd, rfl⟩ := Native.build_eq_ok h
  have hext := FuncDraft.Extends.createBlock hp.ready hd
  cases hd
  exact of_same hp hext rfl

theorem forM {ι : Type} {f : ι → Native Unit} {xs : List ι} (hp : S.Ongoing p 0)
    (hf : ∀ x ∈ xs, ∀ {q q' : Progress}, S.Ongoing q 0 → f x S.given q = (.ok (), q') → S.Prepares Unset q q')
    (h : xs.forM f S.given p = (.ok (), p')) : S.Prepares Unset p p' := by
  induction xs generalizing p with
  | nil =>
    cases h
    exact refl hp
  | cons x xs ih =>
    obtain ⟨_, q, hq, hrest⟩ := Native.bind_eq_ok h
    have hone := hf x (.head _) hp hq
    refine (hone.trans hp (ih hone.ongoing (fun y hy => hf y (.tail _ hy)) hrest)).mono ?_
    rintro c c' ⟨c₁, h₁, h₂⟩
    exact h₂.trans h₁

theorem declareLocal_apply (r : Reg) :
    Native.declareLocal r S.given p = (match S.scope.cursor? r, S.scope.binding? r with
    | some c, _ => do
      Native.build (Build.declareVar c.keys .i64)
      Native.build (Build.declareVar c.position .i64)
    | none, some b => do Native.build (Build.declareVar b.var (← Native.kindOf r.ty))
    | none, none => return : Native Unit) S.given p := rfl

theorem declareLocal (hp : S.Ongoing p 0) {r : Reg} (h : Native.declareLocal r S.given p = (.ok (), p')) :
    S.Prepares Unset p p' := by
  rw [declareLocal_apply] at h
  cases hc : S.scope.cursor? r with
  | some c =>
    rw [hc] at h
    obtain ⟨_, q, hq, hrest⟩ := Native.bind_eq_ok h
    have hone := declareVar hp hq
    refine (hone.trans hp (declareVar hone.ongoing hrest)).mono ?_
    rintro c c' ⟨c₁, h₁, h₂⟩
    exact h₂.trans h₁
  | none =>
    rw [hc] at h
    cases hb : S.scope.binding? r with
    | none =>
      rw [hb] at h
      cases h
      exact refl hp
    | some b =>
      rw [hb] at h
      obtain ⟨k, q, hq, hrest⟩ := Native.bind_eq_ok h
      have hsame : q = p := by
        unfold Native.kindOf at hq
        cases hk : r.ty.kind <;> rw [hk] at hq <;> cases hq
        rfl
      subst hsame
      exact declareVar hp hrest

/-- The variables of globals, and only those, hold their addresses. -/
def Points (S : Site) (gs : List Reg) (c c' : Cells) : Prop :=
  (∀ g ∈ gs, ∀ {b : Binding}, S.scope.binding? g = some b → c'.var b.var = [S.address g])
    ∧ ∀ v, (∀ g ∈ gs, ∀ {b : Binding}, S.scope.binding? g = some b → b.var ≠ v) → c'.var v = c.var v

theorem declareGlobal_apply (g : Reg) : Native.declareGlobal g S.given p = (match S.scope.binding? g with
    | none => return
    | some b => do
      Native.build (Build.declareVar b.var .i64)
      Native.build (Build.defVar b.var (← Native.constWord (S.address g))) : Native Unit) S.given p := rfl

theorem declareGlobal (hp : S.Ongoing p 0) {g : Reg} (h : Native.declareGlobal g S.given p = (.ok (), p')) :
    S.Prepares (Points S [g]) p p' := by
  rw [declareGlobal_apply] at h
  cases hb : S.scope.binding? g with
  | none =>
    rw [hb] at h
    cases h
    exact (refl hp).mono fun hc => ⟨by simp [hb], fun v _ => congrFun (congrArg Cells.var hc) v⟩
  | some b =>
    rw [hb] at h
    obtain ⟨_, q, hq, h⟩ := Native.bind_eq_ok h
    obtain ⟨x, q', hq', h⟩ := Native.bind_eq_ok h
    have hdecl := declareVar hp hq
    have hword := constWord hdecl.ongoing hq'
    refine ((hdecl.trans hp hword).trans hp (defVar hword.ongoing h)).mono ?_
    rintro c c' ⟨c₂, ⟨c₁, h₁, h₂, hx⟩, rfl⟩
    have hvar : c₂.var = c.var := h₂.trans (congrArg Cells.var h₁)
    refine ⟨fun g' hg' {b'} hb' => ?_, fun v hv => ?_⟩
    · obtain rfl := List.mem_singleton.1 hg'
      obtain rfl : b = b' := Option.some.inj (hb.symm.trans hb')
      exact (if_pos rfl).trans hx
    · exact (if_neg fun e => hv g (.head _) hb e.symm).trans (congrFun hvar v)

theorem declareGlobals (hS : S.Sound) {gs : List Reg} (hp : S.Ongoing p 0)
    (h : gs.forM Native.declareGlobal S.given p = (.ok (), p')) :
    S.Prepares (Points S gs) p p' := by
  induction gs generalizing p with
  | nil =>
    cases h
    exact (refl hp).mono fun hc => ⟨by simp, fun v _ => congrFun (congrArg Cells.var hc) v⟩
  | cons g gs ih =>
    obtain ⟨_, q, hq, hrest⟩ := Native.bind_eq_ok h
    have hone := declareGlobal hp hq
    refine (hone.trans hp (ih hone.ongoing hrest)).mono ?_
    rintro c c' ⟨c₁, ⟨hset, hkept⟩, hset', hkept'⟩
    refine ⟨fun g' hg' {b'} hb' => ?_, fun v hv => ?_⟩
    · by_cases hmem : g' ∈ gs
      · exact hset' g' hmem hb'
      · obtain rfl := (List.mem_cons.1 hg').resolve_right hmem
        rw [hkept' b'.var fun u hu {b} hb e => hmem ?_]
        · exact hset g' (.head _) hb'
        · -- No other register has the variable.
          have hplace : ∀ {r : Reg} {b : Binding}, S.scope.binding? r = some b →
              S.scope.var? (.reg r) = some b.var := by
            intro r b hr
            rw [Scope.var?, hr]
            rfl
          cases hS.apart (hplace hb) (e ▸ hplace hb')
          exact hu
    · rw [hkept' v fun u hu => hv u (.tail _ hu), hkept v fun u hu => hv u (List.mem_singleton.1 hu ▸ .head _)]

end Prepares

end Site

/-! ## Parameters and maps -/

namespace Realizes

variable {S : Site} {K : Known S} (hS : S.Sound)

include hS

theorem bindParams {rs : List Reg} {vs : List Value} {wss : List (List UInt64)} (hvs : vs.length = rs.length)
    (hwss : wss.length = rs.length) (h : K.Gives (Known.values S vs (rs.map (·.ty.words)) wss)) :
    Realizes S K 0 (Native.bindParams rs vs) (Direct.bindParams rs wss) fun _ _ => Known.nothing S := by
  induction rs generalizing K vs wss with
  | nil => exact pure .nothing
  | cons r rs ih =>
    obtain ⟨v, vs, rfl⟩ := List.exists_cons_of_length_eq_add_one hvs
    obtain ⟨ws, wss, rfl⟩ := List.exists_cons_of_length_eq_add_one hwss
    have hhead : K.Gives (Known.value S v r.ty.words ws) := ⟨fun hK => by
      obtain ⟨hks, hws, hls⟩ := h.of hK
      exact ⟨congrArg ([·]) (List.cons.inj hks).1, congrArg ([·]) (List.cons.inj hws).1,
        congrArg ([·]) (List.cons.inj hls).1⟩⟩
    have htail : K.Gives (Known.values S vs (rs.map (·.ty.words)) wss) := ⟨fun hK => by
      obtain ⟨hks, hws, hls⟩ := h.of hK
      exact ⟨(List.cons.inj hks).2, (List.cons.inj hws).2, (List.cons.inj hls).2⟩⟩
    exact bind (bindReg hS r hhead rfl) fun _ _ => ih (Nat.succ.inj hvs) (Nat.succ.inj hwss) htail.left

theorem makeMaps (hF : S.given.Fit) : Realizes S K 0 (do
    S.scope.locals.forM fun (r, b) => do
      if r.ty.isMap && !S.scope.func.params.contains r then Native.build (Build.defVar b.var (← Native.zero r.ty))
    if S.scope.isMain then
      S.scope.globals.forM fun g => do
        match g.ty.isMap, S.scope.binding? g with
        | true, some b =>
          let m ← Native.zero g.ty
          Native.build (Build.store m (← Native.build (Build.useVar b.var)) 0)
        | _, _ => return)
    (do
    S.scope.locals.forM fun (r, b) => do
      if r.ty.isMap && !S.scope.func.params.contains r then Direct.write r b (← Direct.zero r.ty)
    if S.scope.isMain then
      S.scope.globals.forM fun g => do
        match g.ty.isMap, S.scope.binding? g with
        | true, some b => Direct.write g b (← Direct.zero g.ty)
        | _, _ => return) fun _ _ => Known.nothing S := by
  refine bind (forM fun x hx {L} => ?_) fun _ _ => ?_
  · obtain ⟨r, b⟩ := x
    obtain ⟨hmem, hlocal⟩ := List.mem_filter.1 hx
    show Realizes S L 0 (if r.ty.isMap && !S.scope.func.params.contains r then _ else _)
      (if r.ty.isMap && !S.scope.func.params.contains r then _ else _) _
    split
    · refine bind (zero hS r.ty).any fun v ws => ?_
      exact (writeLocal hS (hF.binding_of_mem hmem) (by simpa using hlocal) .last).any
    · exact pure .nothing
  · split
    · refine forM fun g hg {L} => ?_
      obtain ⟨i, hi⟩ := List.mem_iff_getElem?.1 (hF.globals_eq ▸ hg)
      have hb : S.scope.binding? g = _ := hF.global_binding hi
      rw [hb]
      cases g.ty.isMap with
      | false => exact pure .nothing
      | true =>
        refine bind (zero hS g.ty).any fun v ws => first (usePointer hS hb rfl) fun q => ?_
        exact (writeGlobal hS hb rfl .last (.left .last) rfl).any
    · exact pure .nothing

end Realizes

/-! ## Arriving -/

namespace Site

variable {S : Site} {q : Progress} {name : Bytes} {ls : List Bytes}

/-- How far lowering is when the first block takes the parameters. -/
def dawn (S : Site) (name : Bytes) (ls : List Bytes) : Progress :=
  { draft := {
      body := { name, sig := S.scope.func.sig, values := S.scope.func.sig.params.toArray
                blocks := #[{ params := List.range' 0 S.scope.func.sig.params.length }] }
      current := some 0 }
    literals := ls }

theorem ongoing_dawn : S.Ongoing (S.dawn name ls) 0 :=
  ⟨(Native.early_of_entry (s := S.given) (p := S.dawn name ls) rfl).opened.ready, by simp [dawn]⟩

def dawning (S : Site) : List Value → Native Unit
  | [] => throw .outOfRange
  | ctx :: params => do
    Native.build (Build.declareVar Scope.contextVar .i64)
    Native.build (Build.defVar Scope.contextVar ctx)
    S.scope.globals.forM Native.declareGlobal
    (S.scope.func.locals S.scope.globals).forM Native.declareLocal
    S.scope.labels.forM fun _ => do let _ ← Native.build Build.createBlock
    Native.bindParams S.scope.func.params params
    S.scope.locals.forM fun (r, b) => do
      if r.ty.isMap && !S.scope.func.params.contains r then Native.build (Build.defVar b.var (← Native.zero r.ty))
    if S.scope.isMain then
      S.scope.globals.forM fun g => do
        match g.ty.isMap, S.scope.binding? g with
        | true, some b =>
          let m ← Native.zero g.ty
          Native.build (Build.store m (← Native.build (Build.useVar b.var)) 0)
        | _, _ => return

theorem enter_eq : Native.enter S.given ⟨{ body := { name, sig := S.scope.func.sig } }, ls⟩
    = S.dawning (0 :: List.range' 1 S.scope.func.params.length) S.given (S.dawn name ls) := by
  have hparams : List.range' 0 S.scope.func.sig.params.length = 0 :: List.range' 1 S.scope.func.params.length := by
    simp [Func.sig, List.range'_succ]
  rw [← hparams]
  unfold Native.enter
  rw [Native.bind_apply]
  show (Native.build Build.createBlock >>= _) S.given _ = _
  rw [Native.bind_apply, Native.build_of_ok Build.createBlock_eq]
  show (Native.build (Build.functionParams 0) >>= _) S.given _ = _
  rw [Native.bind_apply, Native.build_of_ok (Build.functionParams_eq rfl rfl)]
  show (Native.build (Build.switchTo 0) >>= _) S.given _ = _
  rw [Native.bind_apply, Native.build_of_ok (Build.switchTo_eq Nat.one_pos)]
  show (Native.build (Build.blockParams 0) >>= _) S.given _ = _
  rw [Native.bind_apply, Native.build_of_ok (Build.blockParams_eq rfl)]
  rfl

theorem plain_dawning (S : Site) (vs : List Value) : Native.Plain S.given (S.dawning vs) := by
  cases vs with
  | nil => exact inferInstanceAs (Native.Plain S.given (throw _))
  | cons ctx params =>
    refine .after inferInstance fun _ => .after inferInstance fun _ => .after inferInstance fun _ =>
        .after inferInstance fun _ =>
      .after inferInstance fun _ => .after inferInstance fun _ => .after inferInstance fun _ => ?_
    have hmap : ∀ g : Reg, Native.Plain S.given (match g.ty.isMap, S.scope.binding? g with
        | true, some b => do
          let m ← Native.zero g.ty
          Native.build (Build.store m (← Native.build (Build.useVar b.var)) 0)
        | _, _ => return) := fun g => by split <;> infer_instance
    infer_instance

theorem enter_proper (hS : S.given.module.Returns)
    (h : Native.enter S.given ⟨{ body := { name, sig := S.scope.func.sig } }, ls⟩ = (.ok (), q)) :
    q.draft.body.Proper ∧ q.draft.body.slots = #[] := by
  rw [enter_eq] at h
  have hdawn : (S.dawn name ls).draft.body.Proper := by
    refine ⟨fun k hk => ?_, by simp [dawn], by simp [dawn]⟩
    have hsig : S.scope.func.sig.params = .i64 :: S.scope.func.params.map (·.ty.words) := rfl
    simp only [dawn, hsig, List.mem_toArray, List.mem_cons, List.mem_map] at hk
    rcases hk with rfl | ⟨r, -, rfl⟩
    · decide
    · exact r.ty.words_ne_invalid
  simpa [dawn] using (S.plain_dawning _).keeps hS h hdawn

theorem enter_writes (h : Native.enter S.given ⟨{ body := { name, sig := S.scope.func.sig } }, ls⟩ = (.ok (), q)) :
    Native.Writes [] ⟨{ body := { name, sig := S.scope.func.sig } }, ls⟩ q := by
  rw [enter_eq] at h
  obtain ⟨hliterals, hinsts⟩ := (S.plain_dawning _).adds h
  exact ⟨hliterals, hinsts⟩

theorem enter_split (hS : S.Sound)
    (h : Native.enter S.given ⟨{ body := { name, sig := S.scope.func.sig } }, ls⟩ = (.ok (), q)) :
    ∃ p, S.Prepares (fun c c' => Prepares.Points S S.scope.globals (c.setVar Scope.contextVar (c.value 0)) c')
      (S.dawn name ls) p
      ∧ p.draft.body.code 0 ≠ [] ∧ (do
        Native.bindParams S.scope.func.params (List.range' 1 S.scope.func.params.length)
        S.scope.locals.forM fun (r, b) => do
          if r.ty.isMap && !S.scope.func.params.contains r then Native.build (Build.defVar b.var (← Native.zero r.ty))
        if S.scope.isMain then
          S.scope.globals.forM fun g => do
            match g.ty.isMap, S.scope.binding? g with
            | true, some b =>
              let m ← Native.zero g.ty
              Native.build (Build.store m (← Native.build (Build.useVar b.var)) 0)
            | _, _ => return) S.given p = (.ok (), q) := by
  rw [enter_eq] at h
  obtain ⟨_, q₁, h₁, h⟩ := Native.bind_eq_ok h
  obtain ⟨_, q₂, h₂, h⟩ := Native.bind_eq_ok h
  obtain ⟨_, q₃, h₃, h⟩ := Native.bind_eq_ok h
  obtain ⟨_, q₄, h₄, h⟩ := Native.bind_eq_ok h
  obtain ⟨_, q₅, h₅, h⟩ := Native.bind_eq_ok h
  have p₁ := Prepares.declareVar ongoing_dawn h₁
  have p₂ := Prepares.defVar p₁.ongoing h₂
  have p₃ := Prepares.declareGlobals hS p₂.ongoing h₃
  have p₄ := Prepares.forM p₃.ongoing (fun _ _ _ _ hq hrun => Prepares.declareLocal hq hrun) h₄
  have p₅ := Prepares.forM p₄.ongoing (fun _ _ _ _ hq hrun => by
    obtain ⟨_, _, hblock, hpure⟩ := Native.bind_eq_ok hrun
    cases hpure
    exact Prepares.createBlock hq hblock) h₅
  have hcode := p₅.code_ne_nil (p₄.code_ne_nil (p₃.code_ne_nil (Prepares.code_defVar p₁.ongoing h₂)))
  refine ⟨q₅, ((((p₁.trans ongoing_dawn p₂).trans ongoing_dawn p₃).trans ongoing_dawn p₄).trans ongoing_dawn p₅).mono
    ?_, hcode, h⟩
  rintro c c' ⟨_, ⟨_, ⟨_, ⟨_, rfl, rfl⟩, hpoints⟩, rfl⟩, rfl⟩
  exact hpoints

/-- What a store and the memory are like when an activation starts. -/
structure Fresh (S : Site) (δ : Direct.Store) (out : Outside Context) : Prop where
  host : out.host = δ.context
  flow : δ.flow = .on
  locals : δ.locals = Direct.blank
  keys : δ.keys = fun _ => 0
  position : δ.position = fun _ => 0
  words : ∀ {g}, S.scope.isGlobal g → (δ.globals g).length = g.ty.words.words
  globals : ∀ {g}, S.scope.isGlobal g → out.memory.Holds (S.index g) (δ.globals g)
  length : out.memory.length = S.length
  sp : out.memory.sp.toNat = S.area + S.room

theorem mem_globals_of_isGlobal (hF : S.given.Fit) {g : Reg} (hg : S.scope.isGlobal g) : g ∈ S.scope.globals := by
  rw [show S.scope.isGlobal g = _ from hF.scope.isGlobal g] at hg
  rw [show S.scope.globals = S.given.program.globals from hF.globals_eq]
  exact Scope.mem_of_isGlobal hg

theorem length_blank (r : Reg) : (Direct.blank r).length = r.ty.words.words := by
  unfold Direct.blank
  cases r.ty <;> rfl

theorem blank_eq (r : Reg) : List.replicate r.ty.words.words 0 = Direct.blank r := by
  unfold Direct.blank
  cases r.ty <;> rfl

theorem Fresh.matches (hS : S.Sound) (hF : S.given.Fit) {δ : Direct.Store} {out : Outside Context} (h : S.Fresh δ out)
    {c c' : Cells} (hsized : S.Sized c') (hvars : c.var = (Cells.blank S.body).var)
    (hctx : c.value 0 = Direct.contextWord)
    (hpoints : Prepares.Points S S.scope.globals (c.setVar Scope.contextVar (c.value 0)) c') : S.Matches δ c' out := by
  -- A variable that is no global's was set to the context, or is blank.
  have hother : ∀ {pl : Place} {v : VarId}, S.scope.var? pl = some v → (∀ g, pl = .reg g → S.scope.isGlobal g = false) →
      c'.var v = if v = Scope.contextVar then Direct.contextWord else List.replicate (S.scope.kindOf pl).words 0 := by
    intro pl v hv hpl
    rw [hpoints.2 v fun g hg b hb e => ?_]
    · show (if v = Scope.contextVar then c.value 0 else c.var v) = _
      rw [hctx, hvars]
      congr 1
      simp [Cells.blank, Array.getD_eq_getD_getElem?, hS.vars hv]
    · have hplace : S.scope.var? (.reg g) = some v := by
        rw [Scope.var?, hb, ← e]
        rfl
      obtain ⟨i, hi⟩ := List.mem_iff_getElem?.1 (hF.globals_eq ▸ hg)
      have hglobal : S.scope.isGlobal g = true := by
        rw [Scope.isGlobal, show S.scope.binding? g = _ from hF.global_binding hi]
        rfl
      simp [hpl g (hS.apart hv hplace)] at hglobal
  refine ⟨h.host, h.flow, hsized, fun {pl v} hv => ?_, fun {r} hr => ?_, h.globals, h.length, h.sp⟩
  · cases pl with
    | context =>
      rw [hother hv (fun _ e => by cases e), if_pos (Option.some.inj hv).symm]
      rfl
    | reg r =>
      obtain ⟨b, hb, rfl⟩ := Option.map_eq_some_iff.1 hv
      cases hg : S.scope.isGlobal r with
      | true =>
        rw [hpoints.1 r (mem_globals_of_isGlobal hF hg) hb, content, hg]
        rfl
      | false =>
        rw [hother hv (fun g e => by cases e; exact hg), if_neg fun e => ?_, content, hg, h.locals, Scope.kindOf, hg]
        · exact blank_eq r
        · cases hS.apart (e ▸ hv) (show S.scope.var? .context = some Scope.contextVar from rfl)
    | keys r =>
      rw [hother hv (fun _ e => by cases e), if_neg fun e => ?_, content, h.keys]
      · rfl
      · cases hS.apart (e ▸ hv) (show S.scope.var? .context = some Scope.contextVar from rfl)
    | position r =>
      rw [hother hv (fun _ e => by cases e), if_neg fun e => ?_, content, h.position]
      · rfl
      · cases hS.apart (e ▸ hv) (show S.scope.var? .context = some Scope.contextVar from rfl)
  · rw [Site.words]
    split
    · next hg => exact h.words hg
    · rw [h.locals]
      exact length_blank r

theorem entered (hS : S.Sound) (hF : S.given.Fit)
    (henter : Native.enter S.given ⟨{ body := { name, sig := S.scope.func.sig } }, ls⟩ = (.ok (), q)) :
    q.draft.body.code 0 ≠ [] ∧ (q.draft.body.blocks.getD 0 {}).params
        = List.range' 0 S.scope.func.sig.params.length := by
  obtain ⟨p, hprep, hne, hrest⟩ := enter_split hS henter
  obtain ⟨seg, hseg, -⟩ := hprep.code
  have hreal : Realizes S (Known.values S (List.range' 1 S.scope.func.params.length)
    (S.scope.func.params.map (·.ty.words))
      (S.scope.func.params.map fun _ => [])) 0 _ (Direct.enter (S.scope.func.params.map fun _ => [])) fun _ _ =>
          Known.nothing S :=
    .setting (.bind (.bindParams hS (List.length_range' ..) (List.length_map _) .refl) fun _ _ => .makeMaps hS hF)
  obtain ⟨-, ⟨seg', hseg', -⟩, -⟩ := hreal.adds hprep.ongoing hrest
  refine ⟨fun e => hne ?_, (hseg'.params.trans hseg.params).trans rfl⟩
  rw [hseg'.code] at e
  exact (List.append_eq_nil_iff.1 e).1

theorem arrives (hS : S.Sound) (hF : S.given.Fit)
    (henter : Native.enter S.given ⟨{ body := { name, sig := S.scope.func.sig } }, ls⟩ = (.ok (), q))
    (hgrows : q.draft.body.Grows S.body) (hlits : q.literals <+: S.literals) {δ : Direct.Store} {out : Outside Context}
    (h : S.Fresh δ out) {wss : List (List UInt64)}
      (hwss : wss.map List.length = S.scope.func.params.map (·.ty.words.words)) :
    S.Ongoing q 0 ∧ S.Agrees (Known.nothing S) (fun _ => Known.nothing S) q.draft
      (S.exec (q.draft.body.code 0) ((Cells.blank S.body).deal (List.range' 0 S.scope.func.sig.params.length)
        (Direct.contextWord :: wss).flatten) out) (Direct.enter wss S.setting δ) := by
  obtain ⟨p, hprep, -, hrest⟩ := enter_split hS henter
  obtain ⟨seg, hseg, hdoes⟩ := hprep.code
  have hlen : wss.length = S.scope.func.params.length := by simpa using congrArg List.length hwss
  have hreal : Realizes S (Known.values S (List.range' 1 S.scope.func.params.length)
    (S.scope.func.params.map (·.ty.words)) wss) 0 _
      (Direct.enter wss) fun _ _ => Known.nothing S :=
    .setting (.bind (.bindParams hS (List.length_range' ..) hlen .refl) fun _ _ => .makeMaps hS hF)
  obtain ⟨hq, ⟨seg', hseg', -⟩, -⟩ := hreal.adds hprep.ongoing hrest
  refine ⟨hq, ?_⟩
  have hsig : S.scope.func.sig.params = .i64 :: S.scope.func.params.map (·.ty.words) := rfl
  have hrange : List.range' 0 S.scope.func.sig.params.length = 0 :: List.range' 1 S.scope.func.params.length := by
    simp [hsig, List.range'_succ]
  have hvalues : ∀ {v : Nat} {k : Kind}, S.scope.func.sig.params[v]? = some k →
      p.draft.body.values[v]? = some k := fun hk =>
    hseg.grows.values (by simpa [dawn] using hk)
  have hblank : S.Sized (Cells.blank S.body) := fun hv => by simp [Cells.blank, Array.getD_eq_getD_getElem?, hv]
  -- The words of the call are dealt out to the parameters, of which the first is the context.
  generalize hc : (Cells.blank S.body).deal _ _ = c
  have hsized : S.Sized c := fun hv => hc ▸ (Cells.length_deal ..).trans (hblank hv)
  have hdealt : (List.range' 0 S.scope.func.sig.params.length).map c.value = Direct.contextWord :: wss := by
    rw [← hc]
    refine Cells.deal_flatten _ List.nodup_range' ?_
    have hkinds : (Direct.contextWord :: wss).map List.length = S.scope.func.sig.params.map Kind.words := by
      rw [List.map_cons, hwss, hsig, List.map_cons, List.map_map]
      rfl
    rw [hkinds]
    refine List.ext_getElem (by simp) fun j h₁ h₂ => ?_
    simp only [List.length_map, List.length_range'] at h₁
    have hk := List.getElem?_eq_getElem h₁
    simpa using hblank (hgrows.values (hseg'.grows.values (hvalues hk)))
  rw [hrange] at hdealt
  obtain ⟨hctx, hargs⟩ := List.cons.inj hdealt
  obtain ⟨c', hexec, hpoints⟩ := hdoes (hseg'.grows.trans hgrows) out hsized
  obtain ⟨hlengths, hkept⟩ := Machine.execAll_keeps hexec hseg.results
  have hmatch := h.matches hS hF (fun hv => (hlengths _).trans (hsized hv)) (hc ▸ Cells.deal_var ..) hctx hpoints
  have hknown : (Known.values S (List.range' 1 S.scope.func.params.length)
    (S.scope.func.params.map (·.ty.words)) wss).Holds
      p.draft c' out.memory := by
    refine ⟨?_, ?_, by rw [hwss, List.map_map]; rfl⟩
    · refine List.ext_getElem (by simp) fun j h₁ h₂ => ?_
      simp only [List.length_map, List.length_range'] at h₁
      have hk : S.scope.func.sig.params[1 + j]? = some (S.scope.func.params[j].ty.words) := by
        rw [hsig, Nat.add_comm, List.getElem?_cons_succ]
        simp [h₁]
      simpa using hvalues hk
    · rw [← hargs]
      refine List.map_congr_left fun v hv => hkept v ?_
      have hlt := (List.mem_range'_1.1 hv).2
      simpa [dawn, hsig, Nat.add_comm] using hlt
  have hlast := hreal.does hprep.ongoing hrest hseg' hgrows hlits hmatch hknown
  have hcode : q.draft.body.code 0 = seg ++ seg' := by
    rw [hseg'.code, hseg.code]
    rfl
  rw [hcode, S.exec_append, hexec]
  dsimp only
  generalize S.exec seg' c' out = e at hlast ⊢
  generalize Direct.enter wss S.setting δ = r at hlast ⊢
  cases hlast with
  | trapped hhost => exact .trapped hhost
  | done hm _ hnothing => exact .done hm trivial hnothing

end Site

end RecordMill

import RecordMill.Proofs.Lowering.Registers

/-!
# Operations on registers and values

What the emitter asks of machine code, operation by operation: references, reading and binding registers,
and the operations on values.
-/

namespace RecordMill

open Machine (Kind Value VarId BlockId Cells Outside Memory Body FuncDraft Build Inst Action Trap Callee)

namespace Known

variable {S : Site} {K : Known S} {v : Value} {k : Kind} {ws : List UInt64} {vs : List Value} {ks : List Kind}
  {wss : List (List UInt64)}

theorem Gives.nil : K.Gives (values S [] [] []) := ⟨fun _ => ⟨rfl, rfl, rfl⟩⟩

theorem Gives.cons (h : K.Gives (value S v k ws)) (hs : K.Gives (values S vs ks wss)) :
    K.Gives (values S (v :: vs) (k :: ks) (ws :: wss)) where
  of hK := by
    have hk := Known.value_kind (h.of hK)
    have hw := Known.value_words (h.of hK)
    have hl := Known.value_length (h.of hK)
    obtain ⟨hks, hws, hls⟩ := hs.of hK
    exact ⟨by simp only [List.map_cons, hk, hks], by simp only [List.map_cons, hw, hws],
      by simp only [List.map_cons, hl, hls]⟩

theorem Gives.word (h : K.Gives (value S v k ws)) (hk : k.words = 1) : K.Gives (value S v k [Direct.word ws]) where
  of hK := by
    have hl : ws.length = 1 := (Known.value_length (h.of hK)).trans hk
    match ws, hl with
    | [w], _ => exact h.of hK

theorem Gives.two {u : Value} {j : Kind} {us : List UInt64} (h : K.Gives (value S v k ws))
    (h' : K.Gives (value S u j us)) :
    K.Gives (values S [v, u] [k, j] [ws, us]) :=
  h.cons h'

end Known

namespace Realizes

variable {S : Site} {α β γ ε : Type} {K : Known S} {n m : Nat} {x : Native α} {D : Direct β} {R : α → β → Known S}

/-! ## Services -/

theorem serviceWith (hS : S.Sound) (s : Service) {args : List Value} {ks : List Kind} {wss : List (List UInt64)}
    (ha : K.Gives (Known.values S args ks wss)) {D : Direct (List UInt64)}
    (hD : ∀ {f : FuncDraft} {δ : Direct.Store} {c : Cells} {out : Outside Context}, S.Matches δ c out →
      K.Holds f c out.memory →
      match Service.perform s wss.flatten out with
      | (.ok rs, out') => out'.memory = out.memory ∧ D S.setting δ = (.ok rs, { δ with context := out'.host })
      | (.error t, out') => D S.setting δ = (.error (.trap t), { δ with context := out'.host })) :
    Realizes S K 1 (Native.service s args) D fun vs ws => Known.spread S vs s.sig.returns ws := by
  obtain ⟨id, e, d, hl, he, hes, hd, hhost, hsig⟩ := hS.services s
  refine given ?_
  simp only [hl]
  refine first (importInto he) fun r => ?_
  exact call hS hd hhost hsig (hes ▸ .last) ha.left fun hmatch hK => hD hmatch hK.1

theorem service_apply (s : Service) (wss : List (List UInt64)) (e : Direct.Setting) (δ : Direct.Store) :
    Direct.service s wss e δ = match Service.perform s wss.flatten ⟨⟨#[], 0, 0, 0⟩, δ.context⟩ with
      | (.ok rs, out) => (.ok rs, { δ with context := out.host })
      | (.error t, out) => (.error (.trap t), { δ with context := out.host }) := rfl

theorem service (hS : S.Sound) {s : Service} (hs : s.readsMemory = false) {args : List Value} {ks : List Kind}
    {wss : List (List UInt64)} (ha : K.Gives (Known.values S args ks wss)) :
    Realizes S K 1 (Native.service s args) (Direct.service s wss) fun vs ws => Known.spread S vs s.sig.returns ws := by
  refine serviceWith hS s ha fun {f δ c out} hmatch _ => ?_
  have hblind := Service.blind_perform hs wss.flatten out.memory ⟨#[], 0, 0, 0⟩ out.host
  rw [hblind, hmatch.host]
  rw [service_apply]
  rcases Service.perform s wss.flatten ⟨⟨#[], 0, 0, 0⟩, δ.context⟩ with ⟨t | rs, out'⟩
  · rfl
  · exact ⟨rfl, rfl⟩

theorem single {x : Native (List Value)} {D : Direct (List UInt64)} {k : Kind}
    (hx : Realizes S K 1 x D fun vs ws => Known.spread S vs [k] ws) :
    Realizes S K 1 (do match ← x with | [v] => return v | _ => throw .outOfRange : Native Value) D
      fun v ws => Known.value S v k ws := by
  have h := hx.bind (g := Pure.pure) (T := fun v ws => Known.value S v k ws)
    (f := fun vs => match vs with | [v] => return v | _ => throw .outOfRange) ?_
  · rwa [bind_pure] at h
  intro vs ws
  match vs with
  | [v] =>
    refine pure ⟨fun hK => ?_⟩
    obtain ⟨wss, h, rfl⟩ := hK.2
    obtain ⟨us, rfl⟩ : ∃ us, wss = [us] := ⟨_, h.2.1.symm⟩
    rw [List.flatten_cons, List.flatten_nil, List.append_nil]
    exact h
  | [] => exact stop
  | _ :: _ :: _ => exact stop

theorem ask (hS : S.Sound) {s : Service} (hs : s.readsMemory = false) {k : Kind} (hk : s.sig.returns = [k])
    {args : List Value} {ks : List Kind} {wss : List (List UInt64)} (ha : K.Gives (Known.values S args ks wss)) :
    Realizes S K 1 (Native.ask s args) (Direct.service s wss) fun v ws => Known.value S v k ws :=
  single (hk ▸ service hS hs ha)

theorem tell (hS : S.Sound) {s : Service} (hs : s.readsMemory = false) {args : List Value} {ks : List Kind}
    {wss : List (List UInt64)} (ha : K.Gives (Known.values S args ks wss)) :
    Realizes S K 1 (Native.tell s args) (Direct.tell s wss) fun _ _ => Known.nothing S :=
  bind (service hS hs ha) fun _ _ => pure .nothing

theorem context (hS : S.Sound) :
    Realizes S K 1 Native.context (Pure.pure Direct.contextWord) fun v ws => Known.value S v .i64 ws :=
  place hS .context rfl

/-! ## References -/

theorem tellOf (hS : S.Sound) {s : Service} (hs : s.readsMemory = false) {v : Value} {k : Kind} {ws : List UInt64}
    (hv : K.Gives (Known.value S v k ws)) :
    Realizes S K 1 (do Native.tell s [← Native.context, v]) (Direct.tell s [Direct.contextWord, ws]) fun _ _ =>
      Known.nothing S :=
  first (context hS) fun _ => tell hS hs (.two .last hv.left)

theorem ref (hS : S.Sound) (ty : Ty) {v : Value} {k : Kind} {ws : List UInt64} (hv : K.Gives (Known.value S v k ws)) :
    Realizes S K 0 (Native.ref ty v) (Direct.ref ty ws) fun _ _ => Known.nothing S := by
  cases ty with
  | str => exact (tellOf hS (s := .refStr) rfl hv).any
  | map => exact (tellOf hS (s := .ref) rfl hv).any
  | _ => exact pure .nothing

theorem drop (hS : S.Sound) (ty : Ty) {v : Value} {k : Kind} {ws : List UInt64} (hv : K.Gives (Known.value S v k ws)) :
    Realizes S K 0 (Native.drop ty v) (Direct.drop ty ws) fun _ _ => Known.nothing S := by
  cases ty with
  | str => exact (tellOf hS (s := .dropStr) rfl hv).any
  | map => exact (tellOf hS (s := .drop) rfl hv).any
  | _ => exact pure .nothing

/-! ## Constants -/

theorem packed (p : Packed) :
    Realizes S K 1 (Native.packed p) (Pure.pure (Direct.ofPacked p)) fun v ws => Known.value S v .i128 ws := by
  refine first (constWord p.lo) fun lo => ?_
  refine first (constWord p.hi) fun hi => ?_
  exact concat (.left .last) .last

theorem idxOf?_of_prefix {l l' : List Bytes} (h : l <+: l') {s : Bytes} {i : Nat} (hi : l.idxOf? s = some i) :
    l'.idxOf? s = some i := by
  obtain ⟨rest, rfl⟩ := h
  rw [List.idxOf?, List.findIdx?_append]
  rw [List.idxOf?] at hi
  rw [hi]
  rfl

theorem literalIndex (s : Bytes) : Realizes S K 0 (Native.literalIndex s)
    (fun e δ => match e.literals.idxOf? s with
      | some i => (.ok i, δ)
      | none => (.error (.stop .outOfRange), δ)) fun i j => Known.fact S (i = j) := by
  have key : ∀ {p p' : Progress} {i : Nat}, Native.literalIndex s S.given p = (.ok i, p') →
      p'.draft = p.draft ∧ p.literals <+: p'.literals ∧ p'.literals.idxOf? s = some i := by
    intro p p' i h
    have h : (match p.literals.idxOf? s with
        | some i => (Except.ok i, p)
        | none =>
          (.ok p.literals.length, { p with literals := p.literals ++ [s] }))
              = ((.ok i, p') : Except Stop Nat × Progress) := by
      rw [← h]
      unfold Native.literalIndex
      cases hi : p.literals.idxOf? s with
      | none =>
        show _ = (match p.literals.idxOf? s with | some i => _ | none => _ : Native Nat) S.given p
        rw [hi]
        rfl
      | some i =>
        show _ = (match p.literals.idxOf? s with | some i => _ | none => _ : Native Nat) S.given p
        rw [hi]
        rfl
    cases hi : p.literals.idxOf? s with
    | none =>
      rw [hi] at h
      cases h
      refine ⟨rfl, List.prefix_append .., ?_⟩
      rw [List.idxOf?] at hi ⊢
      rw [List.findIdx?_append, hi]
      simp
    | some j =>
      rw [hi] at h
      cases h
      exact ⟨rfl, List.prefix_rfl, hi⟩
  exact
    { adds := fun {p p' b i} hp hx => by
        obtain ⟨hd, hl, -⟩ := key hx
        obtain ⟨d, ls⟩ := p'
        obtain rfl : d = p.draft := hd
        exact ⟨⟨hp.ready, hp.callees⟩, ⟨[], .refl hp.ready, Nat.le_refl 0⟩, hl⟩
      does := fun {p p' b i seg} hp hx hseg hgrows hlits δ c out hmatch hK => by
        obtain ⟨hd, hl, hi⟩ := key hx
        obtain ⟨d, ls⟩ := p'
        obtain rfl : d = p.draft := hd
        obtain rfl := hseg.unique (.refl hp.ready)
        have hall : S.setting.literals.idxOf? s = some i := idxOf?_of_prefix hlits hi
        simp only [hall]
        exact .done hmatch hK rfl }

theorem constStr (s : Bytes) :
    Realizes S K 1 (Native.constStr s) (Direct.constStr s) fun v ws => Known.value S v .i128 ws := by
  unfold Native.constStr Direct.constStr
  cases Packed.inline? s with
  | some p => exact packed p
  | none =>
    have h := next (n := 1) (literalIndex (S := S) (K := K) s) (f := fun i => Native.packed (.literal i s))
      (g := fun i => Pure.pure (Direct.ofPacked (.literal i s))) (T := fun v ws =>
          Known.value S v .i128 ws) fun i j => by
        refine (packed (.literal i s)).swap fun hK δ => ?_
        have e : i = j := hK.2
        rw [e]
    refine h.swap fun _ δ => ?_
    rw [Direct.bind_apply]
    show (match S.setting.literals.idxOf? s with | some i => _ | none => _ : Direct (List UInt64)) S.setting δ = _
    cases S.setting.literals.idxOf? s <;> rfl

theorem zero (hS : S.Sound) (ty : Ty) :
    Realizes S K 1 (Native.zero ty) (Direct.zero ty) fun v ws => Known.value S v ty.words ws := by
  cases ty with
  | float => exact constFloat 0
  | str => exact packed .empty
  | map k v => exact first (context hS) fun _ => ask hS rfl rfl .last
  | _ => exact constInt 0

/-! ## Registers -/

section

variable {r : Reg} {b : Binding}

theorem isGlobal_of_binding {s : Scope} (hb : s.binding? r = some b) : s.isGlobal r = b.isGlobal := by
  rw [Scope.isGlobal, hb]
  rfl

theorem useLocal (hS : S.Sound) (hb : S.scope.binding? r = some b) (hl : b.isGlobal = false) :
    Realizes S K 1 (Native.build (Build.useVar b.var)) (Direct.read r b) fun v ws => Known.value S v r.ty.words ws := by
  have hg : S.scope.isGlobal r = false := (isGlobal_of_binding hb).trans hl
  have hv : S.scope.var? (.reg r) = some b.var := by rw [Scope.var?, hb]; rfl
  have hk : S.scope.kindOf (.reg r) = r.ty.words := by rw [Scope.kindOf, hg]; rfl
  refine hk ▸ (place hS _ hv).swap fun _ δ => ?_
  have hread : Direct.read r b S.setting δ = (.ok (if b.isGlobal then δ.globals r else δ.locals r), δ) := rfl
  rw [hread, hl, Site.content, hg]
  rfl

theorem usePointer (hS : S.Sound) (hb : S.scope.binding? r = some b) (hg : b.isGlobal) :
    Realizes S K 1 (Native.build (Build.useVar b.var)) (Pure.pure [S.address r]) fun v ws =>
      Known.value S v .i64 ws := by
  have hg : S.scope.isGlobal r = true := (isGlobal_of_binding hb).trans hg
  have hv : S.scope.var? (.reg r) = some b.var := by rw [Scope.var?, hb]; rfl
  have hk : S.scope.kindOf (.reg r) = .i64 := by rw [Scope.kindOf, hg]; rfl
  refine hk ▸ (place hS _ hv).swap fun _ δ => ?_
  rw [Site.content, hg]
  rfl

theorem loadGlobal (hS : S.Sound) (hb : S.scope.binding? r = some b) (hg : b.isGlobal) {q : Value}
    (hq : K.Gives (Known.value S q .i64 [S.address r])) :
    Realizes S K 1 (Native.loadFrom r.ty q) (Direct.read r b) fun v ws => Known.value S v r.ty.words ws := by
  have hr : S.scope.isGlobal r = true := (isGlobal_of_binding hb).trans hg
  refine (load hS hr hq).swap fun _ δ => ?_
  have hread : Direct.read r b S.setting δ = (.ok (if b.isGlobal then δ.globals r else δ.locals r), δ) := rfl
  rw [hread, if_pos hg]

theorem writeLocal (hS : S.Sound) (hb : S.scope.binding? r = some b) (hl : b.isGlobal = false) {v : Value} {k : Kind}
    {ws : List UInt64} (hv : K.Gives (Known.value S v k ws)) :
    Realizes S K 1 (Native.build (Build.defVar b.var v)) (Direct.write r b ws) fun _ _ => Known.nothing S := by
  have hg : S.scope.isGlobal r = false := (isGlobal_of_binding hb).trans hl
  have hvar : S.scope.var? (.reg r) = some b.var := by rw [Scope.var?, hb]; rfl
  have hassigns : S.Assigns (.reg r) ws fun δ => { δ with locals := fun u => if u = r then ws else δ.locals u } :=
    { context := fun _ => rfl
      flow := fun _ => rfl
      globals := fun _ => rfl
      content := fun δ q => by
        cases q with
        | reg u =>
          by_cases h : u = r
          · subst h
            simp [Site.content, hg]
          · simp [Site.content, h]
        | _ => rfl }
  refine (assign hS hvar hv hassigns).swap fun _ δ => ?_
  have hwrite : Direct.write r b ws S.setting δ = (.ok (), if b.isGlobal
      then { δ with globals := fun u => if u = r then ws else δ.globals u }
      else { δ with locals := fun u => if u = r then ws else δ.locals u }) := rfl
  rw [hwrite, hl]
  rfl

theorem writeGlobal (hS : S.Sound) (hb : S.scope.binding? r = some b) (hg : b.isGlobal) {q v : Value} {k : Kind}
    {ws : List UInt64} (hq : K.Gives (Known.value S q .i64 [S.address r])) (hv : K.Gives (Known.value S v k ws))
    (hk : k.words = r.ty.words.words) :
    Realizes S K 1 (Native.build (Build.store v q 0)) (Direct.write r b ws) fun _ _ => Known.nothing S := by
  have hr : S.scope.isGlobal r = true := (isGlobal_of_binding hb).trans hg
  refine (store hS hr hq hv hk).swap fun _ δ => ?_
  have hwrite : Direct.write r b ws S.setting δ = (.ok (), if b.isGlobal
      then { δ with globals := fun u => if u = r then ws else δ.globals u }
      else { δ with locals := fun u => if u = r then ws else δ.locals u }) := rfl
  rw [hwrite, if_pos hg]

end

theorem value (hS : S.Sound) (r : Reg) :
    Realizes S K 1 (Native.value r) (Direct.value r) fun v ws => Known.value S v r.ty.words ws := by
  unfold Native.value Direct.value
  split
  · next hn =>
    have hty : r.ty = .null := by simpa [Reg.isNull] using hn
    rw [hty]
    exact constInt 0
  split
  · exact stop
  refine scope (setting ?_)
  have hscope : S.setting.scope = S.scope := rfl
  rw [hscope]
  cases hb : S.scope.binding? r with
  | none => exact stop
  | some b =>
    dsimp only
    by_cases hg : b.isGlobal
    · simp only [if_pos hg]
      exact first (usePointer hS hb hg) fun _ => loadGlobal hS hb hg .last
    · simp only [if_neg hg, bind_pure]
      exact useLocal hS hb (by simpa using hg)

theorem bindReg (hS : S.Sound) (r : Reg) {v : Value} {k : Kind} {ws : List UInt64} (hv : K.Gives (Known.value S v k ws))
    (hk : k.words = r.ty.words.words) :
    Realizes S K 0 (Native.bind r v) (Direct.bind r ws) fun _ _ => Known.nothing S := by
  unfold Native.bind Direct.bind
  split
  · exact pure .nothing
  split
  · exact stop
  refine scope (setting ?_)
  have hscope : S.setting.scope = S.scope := rfl
  rw [hscope]
  cases hb : S.scope.binding? r with
  | none => exact stop
  | some b =>
    dsimp only
    by_cases hheap : (r.ty.isHeap && !b.isLiteral) = true
    · rw [if_pos hheap, if_pos hheap, Native.bindCounted]
      refine bind (ref hS r.ty hv) fun _ _ => ?_
      by_cases hg : b.isGlobal
      · rw [if_pos hg]
        refine first (usePointer hS hb hg) fun q => ?_
        refine bind (loadGlobal hS hb hg .last).any fun old us => ?_
        refine bind (drop hS r.ty .last) fun _ _ => ?_
        exact (writeGlobal hS hb hg (.left (.left .last)) hv.left.left.left.left hk).any
      · rw [if_neg hg]
        have hl : b.isGlobal = false := by simpa using hg
        refine bind (useLocal hS hb hl).any fun old us => ?_
        refine bind (drop hS r.ty .last) fun _ _ => ?_
        exact (writeLocal hS hb hl hv.left.left.left).any
    · rw [if_neg hheap, if_neg hheap]
      by_cases hlit : b.isLiteral
      · have hl : b.isGlobal = false := by
          cases hg : b.isGlobal with
          | false => rfl
          | true => rw [hS.counted hb hg] at hlit; cases hlit
        rw [if_pos hlit]
        exact (writeLocal hS hb hl hv).any
      · rw [if_neg hlit, Native.bindPlain]
        by_cases hg : b.isGlobal
        · rw [if_pos hg]
          exact first (usePointer hS hb hg) fun q => (writeGlobal hS hb hg .last hv.left hk).any
        · rw [if_neg hg]
          exact (writeLocal hS hb (by simpa using hg) hv).any

theorem bindOwned (hS : S.Sound) (r : Reg) {v : Value} {k : Kind} {ws : List UInt64}
    (hv : K.Gives (Known.value S v k ws)) (hk : k.words = r.ty.words.words) :
    Realizes S K 0 (Native.bindOwned r v) (Direct.bindOwned r ws) fun _ _ => Known.nothing S :=
  bind (bindReg hS r hv hk) fun _ _ => drop hS r.ty hv.left

theorem mov (hS : S.Sound) (ty : Ty) (dst src : Nat) :
    Realizes S K 1 (Native.mov ty dst src) (Direct.mov ty dst src) fun _ _ => Known.nothing S :=
  bind (value hS ⟨src, ty⟩) fun _ _ => bindReg hS ⟨dst, ty⟩ .last rfl

theorem loaded (hS : S.Sound) (dst : Reg) :
    Realizes S K 0 (Native.loaded dst) (Direct.loaded dst) fun _ _ => Known.nothing S := by
  unfold Native.loaded Direct.loaded
  split
  · exact bind (value hS dst).any fun _ _ => drop hS dst.ty .last
  · exact pure .nothing

end Realizes

end RecordMill

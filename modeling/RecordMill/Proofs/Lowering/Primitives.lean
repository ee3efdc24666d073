import RecordMill.Proofs.Lowering.Realizes

/-!
# Single instructions

What one machine instruction computes from values, variables and globals, and what it does to them.
-/

namespace RecordMill

open Machine (Kind Value VarId BlockId Cells Outside Memory Body FuncDraft Build Inst Action Trap execAll)

/-! ## One instruction -/

/-- An action that neither leaves its block nor calls anything. -/
def Machine.Action.isLocal : Action → Bool
  | .call .. | .jump .. | .brif .. | .ret _ => false
  | _ => true

theorem Machine.Action.not_terminator {a : Action} (h : a.isLocal) : a.isTerminator = false := by
  cases a <;> first | rfl | cases h

theorem Machine.Action.not_call {a : Action} (h : a.isLocal) (r : Machine.RefId) (args : List Value) :
    a ≠ .call r args := by
  rintro rfl
  cases h

theorem Machine.FuncDraft.Appends.kind {d d' : FuncDraft} {a : Action} {k : Kind} {v : Value}
    (h : d.Appends a [k] [v] d') :
    d'.body.values[v]? = some k := by
  obtain ⟨b, -, -, rfl⟩ := h.added
  obtain rfl : v = d.body.values.size := by simpa using h.results
  simp [FuncDraft.add]

theorem Machine.FuncDraft.Appends.callees {d d' : FuncDraft} {a : Action} {ks : List Kind} {vs : List Value}
    (h : d.Appends a ks vs d') : d'.body.callees = d.body.callees := by
  obtain ⟨b, -, -, rfl⟩ := h.added
  rfl

theorem Site.exec_singleton (S : Site) (i : Inst) (c : Cells) (out : Outside Context) :
    S.exec [i] c out = i.exec S.module Service.perform S.body S.stack c out := by
  unfold Site.exec
  rw [execAll]
  rcases i.exec S.module Service.perform S.body S.stack c out with _ | ⟨_ | c, out⟩ <;> rfl

theorem Site.Matches.deal {S : Site} {δ : Direct.Store} {c : Cells} {out : Outside Context} (h : S.Matches δ c out)
    (vs : List Value) (ws : List UInt64) : S.Matches δ (c.deal vs ws) out where
  host := h.host
  flow := h.flow
  sized hv := (c.length_deal vs ws _).trans (h.sized hv)
  vars hv := (congrFun (c.deal_var vs ws) _).trans (h.vars hv)
  words := h.words
  globals := h.globals
  length := h.length
  sp := h.sp

theorem Known.deal {S : Site} (K : Known S) {d d' : FuncDraft} {a : Action} {ks : List Kind}
    {vs : List Value} {c : Cells} {m : Memory} (hK : K.Holds d c m) (hd : d.Sound) (h : d.Appends a ks vs d')
    (ws : List UInt64) :
    K.Holds d' (c.deal vs ws) m := by
  refine K.stable hK (h.leads hd).grows (fun v hv => c.deal_value_of_not_mem _ fun hm => ?_) fun _ _ => rfl
  rw [h.results] at hm
  have := (List.mem_range'_1.1 hm).1
  omega

section

variable {S : Site} {v : Value} {k : Kind} {ws : List UInt64} {d : FuncDraft} {c : Cells} {mem : Memory}

theorem Known.value_kind (h : (Known.value S v k ws).Holds d c mem) : d.body.values[v]? = some k := by
  simpa using h.1

theorem Known.Holds.value (hk : d.body.values[v]? = some k) (hw : c.value v = ws) (hl : ws.length = k.words) :
    (Known.value S v k ws).Holds d c mem :=
  ⟨congrArg ([·]) hk, congrArg ([·]) hw, congrArg ([·]) hl⟩

theorem Known.value_words (h : (Known.value S v k ws).Holds d c mem) : c.value v = ws := by
  simpa using h.2.1

theorem Known.value_length (h : (Known.value S v k ws).Holds d c mem) : ws.length = k.words := by
  simpa using h.2.2

theorem Known.value_word (h : (Known.value S v k ws).Holds d c mem) : c.word v = Direct.word ws := by
  rw [Cells.word, Known.value_words h, Direct.word]

end

namespace Realizes

variable {S : Site} {α β γ ε : Type} {K : Known S} {n m : Nat} {x : Native α} {D : Direct β} {R : α → β → Known S}

theorem first {b : β} {f : α → Native γ} {E : Direct ε} {T : γ → ε → Known S} (hx : Realizes S K m x (Pure.pure b) R)
    (hf : ∀ a, Realizes S (K.and (R a b)) n (f a) E T) : Realizes S K n (x >>= f) E T := by
  have hb : Realizes S K m x (Pure.pure b) fun a _ => R a b :=
    { adds := hx.adds
      does := fun {p p' _ a seg} hp h hseg hgrows hlits δ c out hmatch hK => by
        have h₁ := hx.does hp h hseg hgrows hlits hmatch hK
        have hpure : (Pure.pure b : Direct β) S.setting δ = (.ok b, δ) := rfl
        rw [hpure] at h₁ ⊢
        generalize S.exec seg c out = e at h₁ ⊢
        cases h₁ with
        | done hmatch' hK' hR => exact .done hmatch' hK' hR }
  have : Nonempty β := ⟨b⟩
  exact Realizes.next hb (g := fun _ => E) fun a _ => hf a

theorem of_inst {o : Build α} (ho : ∀ {p : Progress} {d' : FuncDraft} {b : BlockId} {a : α}, S.Ongoing p b →
      o p.draft = (.ok a, d') → ∃ act ks vs, p.draft.Appends act ks vs d' ∧ act.isTerminator = false
        ∧ (∀ k ∈ ks, k ≠ .invalid) ∧ (d'.body.Grows S.body → ∀ {δ : Direct.Store} {c : Cells} {out : Outside Context},
          S.Matches δ c out → K.Holds p.draft c out.memory → S.Agrees K (R a) d'
            (Inst.exec S.module Service.perform S.body S.stack ⟨act, vs⟩ c out) (D S.setting δ))) :
    Realizes S K 1 (Native.build o) D R where
  adds {p p' b a} hp hx := by
    obtain ⟨d', hb, rfl⟩ := Native.build_eq_ok hx
    obtain ⟨act, ks, vs, happ, ht, hk, -⟩ := ho hp hb
    have hext := FuncDraft.Extends.of_appends hp.ready happ ht hk
    refine ⟨⟨hext.ready, fun {r c} h => hp.callees (r := r) ?_⟩, ⟨_, hext, Nat.le_refl 1⟩, List.prefix_rfl⟩
    rw [← happ.callees]
    exact h
  does {p p' b a seg} hp hx hseg hgrows _ δ c out hmatch hK := by
    obtain ⟨d', hb, rfl⟩ := Native.build_eq_ok hx
    obtain ⟨act, ks, vs, happ, ht, hk, hexec⟩ := ho hp hb
    obtain rfl := hseg.unique (FuncDraft.Extends.of_appends hp.ready happ ht hk)
    rw [Site.exec_singleton]
    exact hexec hgrows hmatch hK

/-! ## Computing a value -/

theorem compute {o : Build Value} {E : Direct (List UInt64)} {k : Kind} (r : Direct.Store → Except Trap (List UInt64))
    (hE : ∀ δ, E S.setting δ = ((r δ).mapError .trap, δ))
    (ho : ∀ {p : Progress} {d' : FuncDraft} {b : BlockId} {v : Value}, S.Ongoing p b → o p.draft = (.ok v, d') →
      ∃ act k', p.draft.Appends act [k'] [v] d' ∧ act.isLocal ∧ k' ≠ .invalid
        ∧ (d'.body.Grows S.body → ∀ {δ : Direct.Store} {c : Cells} {out : Outside Context}, S.Matches δ c out →
          K.Holds p.draft c out.memory → k' = k ∧ (∀ ws, r δ = .ok ws → ws.length = k.words)
            ∧ act.act S.body S.stack c out.memory [v] = some ((r δ).map (c.deal [v] ·), out.memory))) :
    Realizes S K 1 (Native.build o) E fun v ws => Known.value S v k ws := by
  refine of_inst fun {p d' b v} hp hb => ?_
  obtain ⟨act, k', happ, hl, hk, hact⟩ := ho hp hb
  refine ⟨act, [k'], [v], happ, Action.not_terminator hl, by simpa using hk, fun hgrows {δ c out} hmatch hK => ?_⟩
  obtain ⟨rfl, hlen, hact⟩ := hact hgrows hmatch hK
  rw [Machine.Inst.exec_of_act (Action.not_call hl), hact, hE]
  cases hr : r δ with
  | error t => exact .trapped hmatch.host
  | ok ws =>
    refine .done (hmatch.deal _ _) (K.deal hK hp.ready.sound happ ws) (.value happ.kind ?_ (hlen ws hr))
    have hsize := hmatch.sized (hgrows.values happ.kind)
    exact c.deal_singleton ((hlen ws hr).trans hsize.symm)

theorem constant {o : Build Value} {k : Kind} (ws : List UInt64) (hlen : ws.length = k.words)
    (ho : ∀ {p : Progress} {d' : FuncDraft} {b : BlockId} {v : Value}, S.Ongoing p b → o p.draft = (.ok v, d') →
      ∃ act k', p.draft.Appends act [k'] [v] d' ∧ act.isLocal ∧ k' ≠ .invalid
        ∧ (∀ {c : Cells} {m : Memory}, K.Holds p.draft c m → k' = k
            ∧ act.act S.body S.stack c m [v] = some (.ok (c.deal [v] ws), m))) :
    Realizes S K 1 (Native.build o) (Pure.pure ws) fun v ws => Known.value S v k ws := by
  refine compute (fun _ => .ok ws) (fun _ => rfl) fun hp hb => ?_
  obtain ⟨act, k', happ, hl, hk, hact⟩ := ho hp hb
  refine ⟨act, k', happ, hl, hk, fun _ {δ c out} _ hK => ?_⟩
  obtain ⟨hkind, hwords⟩ := hact hK
  exact ⟨hkind, fun _ h => by cases h; exact hlen, hwords⟩

/-! ## Constants -/

theorem constInt (w : Int64) :
    Realizes S K 1 (Native.constInt w) (Pure.pure [w.toUInt64]) fun v ws => Known.value S v .i64 ws := by
  refine constant _ rfl fun _ hb => ?_
  have happ := Build.wp_ok (Build.iconst_wp .i64 w) hb
  exact ⟨_, _, happ, rfl, by decide, fun _ => ⟨rfl, rfl⟩⟩

theorem constFloat (f : Float) :
    Realizes S K 1 (Native.constFloat f) (Pure.pure [f.toBits]) fun v ws => Known.value S v .f64 ws := by
  refine constant _ rfl fun _ hb => ?_
  have happ := Build.wp_ok (Build.fconst_wp f.toBits) hb
  exact ⟨_, _, happ, rfl, by decide, fun _ => ⟨rfl, rfl⟩⟩

theorem constWord (w : UInt64) :
    Realizes S K 1 (Native.constWord w) (Pure.pure [w]) fun v ws => Known.value S v .i64 ws := by
  have h := constInt (S := S) (K := K) w.toInt64
  rwa [UInt64.toUInt64_toInt64] at h

theorem constMode (w : Int64) : Realizes S K 1 (Native.build (Build.iconst .i32 w)) (Pure.pure [Build.constant .i32 w])
    fun v ws => Known.value S v .i32 ws := by
  refine constant _ rfl fun _ hb => ?_
  have happ := Build.wp_ok (Build.iconst_wp .i32 w) hb
  exact ⟨_, _, happ, rfl, by decide, fun _ => ⟨rfl, rfl⟩⟩

/-! ## Arithmetic -/

section

variable {v u : Value} {ws us : List UInt64} (hv : K.Gives (Known.value S v .i64 ws))
  (hu : K.Gives (Known.value S u .i64 us))

include hv

include hu in
theorem concat : Realizes S K 1 (Native.build (Build.iconcat v u)) (Pure.pure [Direct.word ws, Direct.word us])
    fun r ws => Known.value S r .i128 ws := by
  refine constant _ rfl fun _ hb => ?_
  have happ := Build.wp_ok (Build.iconcat_wp v u) hb
  refine ⟨_, _, happ, rfl, by decide, fun hK => ⟨rfl, ?_⟩⟩
  rw [Action.act, Known.value_word (hv.of hK), Known.value_word (hu.of hK)]

include hu in
theorem int (op : Machine.IntOp) : Realizes S K 1 (Native.build (Build.int op v u))
    (Direct.int op (Direct.word ws) (Direct.word us)) fun r ws => Known.value S r .i64 ws := by
  refine compute (fun _ => (Machine.Word.int op (Direct.word ws) (Direct.word us)).map ([·]))
    (fun δ => ?_) fun _ hb => ?_
  · unfold Direct.int
    cases Machine.Word.int op (Direct.word ws) (Direct.word us) <;> rfl
  · obtain ⟨k, happ⟩ := Build.wp_ok (Build.int_wp op v u) hb
    obtain ⟨-, hk, hkind, -⟩ := happ.fits
    refine ⟨_, k, happ, rfl, by rcases hk with rfl | rfl <;> decide, fun _ _ _ _ _ hK => ?_⟩
    obtain rfl : k = .i64 := by simpa [Known.value_kind (hv.of hK)] using hkind.symm
    refine ⟨rfl, fun ws' h => ?_, ?_⟩
    · cases hw : Machine.Word.int op (Direct.word ws) (Direct.word us) <;> rw [hw] at h <;> cases h
      rfl
    · rw [Action.act, Known.value_word (hv.of hK), Known.value_word (hu.of hK)]
      show some ((Machine.Word.int op (Direct.word ws) (Direct.word us)).map _, _) = _
      cases Machine.Word.int op (Direct.word ws) (Direct.word us) <;> rfl

include hu in
theorem shift (op : Machine.ShiftOp) : Realizes S K 1 (Native.build (Build.shift op v u))
    (Pure.pure [Machine.Word.shift op (Direct.word ws) (Direct.word us)]) fun r ws => Known.value S r .i64 ws := by
  refine constant _ rfl fun _ hb => ?_
  have happ := Build.wp_ok (Build.shift_wp op v u) hb
  refine ⟨_, _, happ, rfl, by decide, fun hK => ⟨rfl, ?_⟩⟩
  rw [Action.act, Known.value_word (hv.of hK), Known.value_word (hu.of hK)]

theorem intUnary (op : Machine.IntUnary) : Realizes S K 1 (Native.build (Build.intUnary op v))
    (Pure.pure [Machine.Word.intUnary op (Direct.word ws)]) fun r ws => Known.value S r .i64 ws := by
  refine constant _ rfl fun _ hb => ?_
  obtain ⟨k, happ⟩ := Build.wp_ok (Build.intUnary_wp op v) hb
  obtain ⟨-, hk, hkind⟩ := happ.fits
  refine ⟨_, k, happ, rfl, by rcases hk with rfl | rfl <;> decide, fun hK => ?_⟩
  obtain rfl : k = .i64 := by simpa [Known.value_kind (hv.of hK)] using hkind.symm
  refine ⟨rfl, ?_⟩
  rw [Action.act, Known.value_word (hv.of hK)]
  rfl

theorem ofInt : Realizes S K 1 (Native.build (Build.ofInt .f64 v)) (Pure.pure [Machine.Word.ofInt64 (Direct.word ws)])
    fun r ws => Known.value S r .f64 ws := by
  refine constant _ rfl fun _ hb => ?_
  obtain ⟨narrow, happ⟩ := Build.wp_ok (Build.ofInt_wp .f64 v) hb
  obtain ⟨-, j, -, hkind, hnarrow⟩ := happ.fits
  refine ⟨_, _, happ, rfl, by decide, fun hK => ⟨rfl, ?_⟩⟩
  obtain rfl : j = .i64 := by simpa [Known.value_kind (hv.of hK)] using hkind.symm
  obtain rfl : narrow = false := hnarrow
  rw [Action.act, Known.value_word (hv.of hK)]
  rfl

end

section

variable {v u : Value} {ws us : List UInt64} (hv : K.Gives (Known.value S v .f64 ws))
  (hu : K.Gives (Known.value S u .f64 us))

include hv

include hu in
theorem float (op : Machine.FloatOp) : Realizes S K 1 (Native.build (Build.float op v u))
    (Pure.pure [Machine.Word.float op (Direct.word ws) (Direct.word us)]) fun r ws => Known.value S r .f64 ws := by
  refine constant _ rfl fun _ hb => ?_
  have happ := Build.wp_ok (Build.float_wp op v u) hb
  refine ⟨_, _, happ, rfl, by decide, fun hK => ⟨rfl, ?_⟩⟩
  rw [Action.act, Known.value_word (hv.of hK), Known.value_word (hu.of hK)]

theorem floatUnary (op : Machine.FloatUnary) : Realizes S K 1 (Native.build (Build.floatUnary op v))
    (Pure.pure [Machine.Word.floatUnary op (Direct.word ws)]) fun r ws => Known.value S r .f64 ws := by
  refine constant _ rfl fun _ hb => ?_
  have happ := Build.wp_ok (Build.floatUnary_wp op v) hb
  refine ⟨_, _, happ, rfl, by decide, fun hK => ⟨rfl, ?_⟩⟩
  rw [Action.act, Known.value_word (hv.of hK)]

theorem toInt : Realizes S K 1 (Native.build (Build.toInt .i64 v)) (Pure.pure [Machine.Word.toInt64 (Direct.word ws)])
    fun r ws => Known.value S r .i64 ws := by
  refine constant _ rfl fun _ hb => ?_
  have happ := Build.wp_ok (Build.toInt_wp .i64 v) hb
  refine ⟨_, _, happ, rfl, by decide, fun hK => ⟨rfl, ?_⟩⟩
  rw [Action.act, Known.value_word (hv.of hK)]
  rfl

end

/-! ## Comparisons -/

def outcome : Option Bool → Except Trap (List UInt64)
  | some b => .ok [Machine.Word.ofBool b]
  | none => .error Machine.noCondition

theorem icmp {v u : Value} {ws us : List UInt64} (hv : K.Gives (Known.value S v .i64 ws))
    (hu : K.Gives (Known.value S u .i64 us)) (cond : Machine.IntCond) :
    Realizes S K 1 (Native.build (Build.icmp cond v u))
      (fun _ δ => ((outcome (cond.holds? (Direct.word ws).toInt64 (Direct.word us).toInt64)).mapError .trap, δ))
      fun r ws => Known.value S r .b1 ws := by
  refine compute (fun _ => outcome (cond.holds? (Direct.word ws).toInt64 (Direct.word us).toInt64)) (fun _ => rfl)
    fun _ hb => ?_
  obtain ⟨k, happ⟩ := Build.wp_ok (Build.icmp_wp cond v u) hb
  obtain ⟨-, -, hkind, -⟩ := happ.fits
  refine ⟨_, _, happ, rfl, by decide, fun _ _ _ _ _ hK => ⟨rfl, fun ws' h => ?_, ?_⟩⟩
  · cases hc : cond.holds? (Direct.word ws).toInt64 (Direct.word us).toInt64 <;> rw [hc] at h <;> cases h
    rfl
  · obtain rfl : k = .i64 := by simpa [Known.value_kind (hv.of hK)] using hkind.symm
    rw [Action.act, Known.value_word (hv.of hK), Known.value_word (hu.of hK)]
    show (match cond.holds? (Direct.word ws).toInt64 (Direct.word us).toInt64 with
      | some r => _
      | none => _) = _
    cases cond.holds? (Direct.word ws).toInt64 (Direct.word us).toInt64 <;> rfl

theorem fcmp {v u : Value} {ws us : List UInt64} (hv : K.Gives (Known.value S v .f64 ws))
    (hu : K.Gives (Known.value S u .f64 us)) (cond : Machine.FloatCond) :
    Realizes S K 1 (Native.build (Build.fcmp cond v u))
      (fun _ δ =>
        ((outcome (cond.holds? (Float.ofBits (Direct.word ws)) (Float.ofBits (Direct.word us)))).mapError .trap, δ))
      fun r ws => Known.value S r .b1 ws := by
  refine compute (fun _ => outcome (cond.holds? (Float.ofBits (Direct.word ws)) (Float.ofBits (Direct.word us))))
    (fun _ => rfl) fun _ hb => ?_
  have happ := Build.wp_ok (Build.fcmp_wp cond v u) hb
  refine ⟨_, _, happ, rfl, by decide, fun _ _ _ _ _ hK => ⟨rfl, fun ws' h => ?_, ?_⟩⟩
  · cases hc : cond.holds? (Float.ofBits (Direct.word ws)) (Float.ofBits (Direct.word us)) <;> rw [hc] at h <;> cases h
    rfl
  · rw [Action.act, Known.value_word (hv.of hK), Known.value_word (hu.of hK)]
    cases cond.holds? (Float.ofBits (Direct.word ws)) (Float.ofBits (Direct.word us)) <;> rfl

theorem bint {v : Value} {ws : List UInt64} (hv : K.Gives (Known.value S v .b1 ws)) :
    Realizes S K 1 (Native.build (Build.bint .i64 v)) (Pure.pure [Direct.word ws &&& 1]) fun r ws =>
      Known.value S r .i64 ws := by
  refine constant _ rfl fun _ hb => ?_
  have happ := Build.wp_ok (Build.bint_wp .i64 v) hb
  refine ⟨_, _, happ, rfl, by decide, fun hK => ⟨rfl, ?_⟩⟩
  rw [Action.act, Known.value_word (hv.of hK)]

theorem truth {x : Native Value} {o : Option Bool}
    (hx : Realizes S K 1 x (fun _ δ => ((outcome o).mapError .trap, δ)) fun r ws => Known.value S r .b1 ws) :
    Realizes S K 1 (do Native.build (Build.bint .i64 (← x))) (Direct.truth o) fun r ws => Known.value S r .i64 ws := by
  have h := Realizes.next hx (g := fun ws => Pure.pure [Direct.word ws &&& 1]) fun v ws => bint .last
  have e : ((fun _ δ => ((outcome o).mapError .trap, δ) : Direct (List UInt64)) >>= fun ws =>
    Pure.pure [Direct.word ws &&& 1])
      = Direct.truth o := by
    cases o <;> rfl
  rwa [e] at h

end Realizes

end RecordMill

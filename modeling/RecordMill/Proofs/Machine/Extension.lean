import RecordMill.Proofs.Machine.Building
import RecordMill.Proofs.Machine.Cells

/-!
# What building adds to a block

## Straight-line code

Instructions that stay in their block and call only the host can be run one after another without a
state. Building adds such runs of instructions to the end of a block, and what was built there later
executes from where the block ended.
-/

namespace RecordMill.Machine

variable {ι σ : Type} {m : Module ι} {perform : ι → List UInt64 → HostM σ (List UInt64)} {f : Body} {stack : UInt64}

/-- Instructions one after another, as far as none leaves the block or enters another body. -/
def execAll (m : Module ι) (perform : ι → List UInt64 → HostM σ (List UInt64)) (f : Body) (stack : UInt64) :
    List Inst → Cells → Outside σ → Option (Except Trap Cells × Outside σ)
  | [], c, out => some (.ok c, out)
  | i :: is, c, out => match i.exec m perform f stack c out with
    | some (.ok c, out) => execAll m perform f stack is c out
    | r => r

theorem execAll_append (xs ys : List Inst) (c : Cells) (out : Outside σ) :
    execAll m perform f stack (xs ++ ys) c out = match execAll m perform f stack xs c out with
      | some (.ok c, out) => execAll m perform f stack ys c out
      | r => r := by
  induction xs generalizing c out with
  | nil => rfl
  | cons x xs ih =>
    rw [List.cons_append, execAll, execAll]
    rcases x.exec m perform f stack c out with _ | ⟨_ | c', out'⟩
    · rfl
    · rfl
    · exact ih c' out'

/-! ## What it leaves alone -/

namespace Cells

theorem length_fill (old ws : List UInt64) : (fill old ws).length = old.length := by
  rw [fill, List.length_append, List.length_take, List.length_drop]
  omega

theorem length_setValue (c : Cells) (v u : Value) (ws : List UInt64) :
    ((c.setValue v ws).value u).length = (c.value u).length := by
  simp only [setValue]
  split
  · next h => rw [h, length_fill]
  · rfl

theorem length_deal (c : Cells) (vs : List Value) (ws : List UInt64) (u : Value) :
    ((c.deal vs ws).value u).length = (c.value u).length := by
  induction vs generalizing c ws with
  | nil => rfl
  | cons v vs ih => rw [deal, ih, length_setValue]

theorem deal_value_of_not_mem (c : Cells) {vs : List Value} (ws : List UInt64) {u : Value} (h : u ∉ vs) :
    (c.deal vs ws).value u = c.value u := by
  induction vs generalizing c ws with
  | nil => rfl
  | cons v vs ih =>
    rw [List.mem_cons, not_or] at h
    rw [deal, ih _ _ h.2]
    exact if_neg h.1

theorem deal_var (c : Cells) (vs : List Value) (ws : List UInt64) : (c.deal vs ws).var = c.var := by
  induction vs generalizing c ws with
  | nil => rfl
  | cons v vs ih => exact ih _ _

theorem deal_singleton (c : Cells) {v : Value} {ws : List UInt64} (h : ws.length = (c.value v).length) :
    (c.deal [v] ws).value v = ws := by
  show (if v = v then fill (c.value v) ws else c.value v) = ws
  rw [if_pos rfl, fill, h.symm, List.take_length, h, List.drop_length, List.append_nil]

end Cells

theorem Action.act_cases {a : Action} {c c' : Cells} {mem mem' : Memory} {rs : List Value}
    (h : a.act f stack c mem rs = some (.ok c', mem')) :
    (∃ ws, c' = c.deal rs ws) ∨ (∃ v ws, c' = c.setVar v ws) ∨ c' = c := by
  have map_ok : ∀ {β : Type} {e : Except Trap β} {g : β → Cells}, e.map g = .ok c' → ∃ b, g b = c' := by
    intro β e g he
    cases e with
    | error t => cases he
    | ok b => exact ⟨b, by cases he; rfl⟩
  cases a <;> simp only [Action.act, Option.some.injEq, Prod.mk.injEq, Except.ok.injEq, reduceCtorEq] at h
  case int op k x y =>
    obtain ⟨b, rfl⟩ := map_ok h.1
    exact .inl ⟨_, rfl⟩
  case icmp cond k x y =>
    split at h
    · cases h
      exact .inl ⟨_, rfl⟩
    · simp at h
  case fcmp cond x y =>
    split at h
    · cases h
      exact .inl ⟨_, rfl⟩
    · simp at h
  case load k p off =>
    obtain ⟨b, rfl⟩ := map_ok h.1
    exact .inl ⟨_, rfl⟩
  case store k x p off =>
    obtain ⟨b, rfl⟩ := map_ok h.1
    exact .inr (.inr rfl)
  case defVar k v x => exact .inr (.inl ⟨_, _, h.1.symm⟩)
  all_goals exact .inl ⟨_, h.1.symm⟩

theorem Inst.exec_keeps {i : Inst} {c c' : Cells} {out out' : Outside σ}
    (h : i.exec m perform f stack c out = some (.ok c', out')) :
    (∀ v, (c'.value v).length = (c.value v).length) ∧ ∀ v, v ∉ i.results → c'.value v = c.value v := by
  have deals : ∀ ws, (∀ v, ((c.deal i.results ws).value v).length = (c.value v).length)
      ∧ ∀ v, v ∉ i.results → (c.deal i.results ws).value v = c.value v :=
    fun ws => ⟨c.length_deal _ _, fun v hv => c.deal_value_of_not_mem _ hv⟩
  by_cases hc : ∃ r args, i.action = .call r args
  · obtain ⟨r, args, ha⟩ := hc
    simp only [Inst.exec, ha, Option.bind_eq_bind, Option.bind_eq_some_iff] at h
    obtain ⟨e, -, ⟨rs, out''⟩, -, h⟩ := h
    cases rs with
    | error t => cases h
    | ok rs =>
      cases h
      exact deals rs
  · have hc : ∀ r args, i.action ≠ .call r args := fun r args ha => hc ⟨r, args, ha⟩
    rw [Inst.exec_of_act hc, Option.map_eq_some_iff] at h
    obtain ⟨⟨r, mem⟩, hact, hr⟩ := h
    obtain ⟨rfl, -⟩ := Prod.mk.inj hr
    rcases Action.act_cases hact with ⟨ws, rfl⟩ | ⟨v, ws, rfl⟩ | rfl
    · exact deals ws
    · exact ⟨fun _ => rfl, fun _ _ => rfl⟩
    · exact ⟨fun _ => rfl, fun _ _ => rfl⟩

theorem execAll_keeps {is : List Inst} {c c' : Cells} {out out' : Outside σ} {n : Nat}
    (h : execAll m perform f stack is c out = some (.ok c', out')) (hn : ∀ i ∈ is, ∀ v ∈ i.results, n ≤ v) :
    (∀ v, (c'.value v).length = (c.value v).length) ∧ ∀ v, v < n → c'.value v = c.value v := by
  induction is generalizing c out with
  | nil =>
    cases h
    exact ⟨fun _ => rfl, fun _ _ => rfl⟩
  | cons i is ih =>
    rw [execAll] at h
    cases hi : i.exec m perform f stack c out with
    | none =>
      rw [hi] at h
      cases h
    | some r =>
      rw [hi] at h
      obtain ⟨_ | c₁, out₁⟩ := r
      · cases h
      · obtain ⟨hlen, hval⟩ := Inst.exec_keeps hi
        obtain ⟨hlen', hval'⟩ := ih h fun j hj => hn j (List.mem_cons_of_mem _ hj)
        refine ⟨fun v => (hlen' v).trans (hlen v), fun v hv => (hval' v hv).trans (hval v fun hm => ?_)⟩
        have := hn i (List.mem_cons_self ..) v hm
        omega

/-! ## Running it -/

def CellFrame.at (fr : CellFrame) (n : Nat) (c : Cells) : CellFrame := { fr with next := n, cells := c }

section

variable {fr : CellFrame} {below : List CellFrame} {Inside Q : CellState σ → Prop} {E : End σ → Prop}

theorem Proceeds.segment (hbody : m.body? fr.func = some f) {seg : List Inst} (hne : seg ≠ []) {c : Cells} {n : Nat}
    (hcode : seg <+: (f.code fr.block).drop n) {out : Outside σ}
    (hin : ∀ j, n < j → j < n + seg.length → ∀ c out, Inside ⟨out, fr.at j c :: below⟩)
    (hexec : match execAll m perform f fr.stack seg c out with
      | some (.ok c', out') => Q ⟨out', fr.at (n + seg.length) c' :: below⟩
      | some (.error t, out') => E (.trapped t out')
      | none => False) :
    Proceeds (CellState.step m perform) Inside Q E ⟨out, fr.at n c :: below⟩ := by
  induction seg generalizing n c out with
  | nil => exact absurd rfl hne
  | cons i seg ih =>
    obtain ⟨rest, hrest⟩ := hcode
    have hi : (f.code fr.block)[n]? = some i := by
      have : ((f.code fr.block).drop n)[0]? = some i := by rw [← hrest]; rfl
      simpa using this
    have hthis : m.body? (fr.at n c).func = some f := hbody
    have hstep : CellState.step m perform ⟨out, fr.at n c :: below⟩ = match i.exec m perform f fr.stack c out with
        | some (.ok c, out) => .next ⟨out, fr.at (n + 1) c :: below⟩
        | some (.error t, out) => .ended (.trapped t out)
        | none => CellState.leave m perform f i out (fr.at n c) below :=
      CellState.step_of_code hthis hi out below
    rw [execAll] at hexec
    cases he : i.exec m perform f fr.stack c out with
    | none =>
      rw [he] at hexec
      exact hexec.elim
    | some r =>
      rw [he] at hexec hstep
      obtain ⟨t | c', out'⟩ := r
      · exact .of_ended hstep hexec
      · cases seg with
        | nil => exact .of_next hstep hexec
        | cons j seg =>
          refine .of_visits hstep (hin (n + 1) (by omega) (by simp only [List.length_cons]; omega) _ _) ?_
          have hlen : n + 1 + (j :: seg).length = n + (i :: j :: seg).length := by simp only [List.length_cons]; omega
          have hdrop : (f.code fr.block).drop (n + 1) = j :: seg ++ rest := by
            rw [← List.tail_drop, ← hrest]
            rfl
          refine ih (by simp) ⟨rest, hdrop.symm⟩ (fun k h₁ h₂ => hin k (by omega) (by omega)) ?_
          rw [hlen]
          exact hexec

/-- Straight-line code, if there is any, and what comes after it. -/
theorem Proceeds.through (hbody : m.body? fr.func = some f) {seg : List Inst} {c : Cells} {n : Nat}
    (hcode : seg <+: (f.code fr.block).drop n) {out : Outside σ}
    (hin : ∀ j, n < j → j ≤ n + seg.length → ∀ c out, Inside ⟨out, fr.at j c :: below⟩)
    (hexec : match execAll m perform f fr.stack seg c out with
      | some (.ok c', out') => Proceeds (CellState.step m perform) Inside Q E ⟨out', fr.at (n + seg.length) c' :: below⟩
      | some (.error t, out') => E (.trapped t out')
      | none => False) :
    Proceeds (CellState.step m perform) Inside Q E ⟨out, fr.at n c :: below⟩ := by
  by_cases hne : seg = []
  · subst hne
    exact hexec
  · refine Proceeds.trans (Q := fun st => Inside st ∧ Proceeds (CellState.step m perform) Inside Q E st) ?_ fun _ h => h
    refine Proceeds.segment hbody hne hcode (fun j h₁ h₂ => hin j h₁ (Nat.le_of_lt h₂)) ?_
    have hpos := List.length_pos_iff.2 hne
    generalize execAll m perform f fr.stack seg c out = e at hexec ⊢
    match e with
    | some (.ok _, _) => exact ⟨hin _ (by omega) (Nat.le_refl _) _ _, hexec⟩
    | some (.error _, _) => exact hexec
    | none => exact hexec

/-- A step, and then straight-line code, if there is any. -/
theorem Proceeds.into (hbody : m.body? fr.func = some f) {st : CellState σ} {seg : List Inst} {c : Cells} {n : Nat}
    {out : Outside σ} (hstep : CellState.step m perform st = .next ⟨out, fr.at n c :: below⟩)
    (hcode : seg <+: (f.code fr.block).drop n)
    (hin : ∀ j, n ≤ j → j < n + seg.length → ∀ c out, Inside ⟨out, fr.at j c :: below⟩)
    (hexec : match execAll m perform f fr.stack seg c out with
      | some (.ok c', out') => Q ⟨out', fr.at (n + seg.length) c' :: below⟩
      | some (.error t, out') => E (.trapped t out')
      | none => False) : Proceeds (CellState.step m perform) Inside Q E st := by
  by_cases hne : seg = []
  · subst hne
    exact .of_next hstep hexec
  · have hpos := List.length_pos_iff.2 hne
    refine .of_visits hstep (hin n (Nat.le_refl _) (by omega) _ _) ?_
    exact Proceeds.segment hbody hne hcode (fun j h₁ h₂ => hin j (Nat.le_of_lt h₁) h₂) hexec

end

end RecordMill.Machine

/-!
## Additions

A draft that is ready takes instructions at the end of its current block. Most building only adds
straight-line code there; everything else stays as it was, and the blocks it may make are empty.
-/

namespace RecordMill.Machine

namespace Body

variable {f g : Body}

theorem instsOf_congr {x : Block} (h : ∀ i ∈ x.insts, g.insts[i]? = f.insts[i]?) : g.instsOf x = f.instsOf x := by
  unfold instsOf
  have h : ∀ i ∈ x.insts.toList, g.insts[i]? = f.insts[i]? := fun i hi => h i (Array.mem_toList_iff.1 hi)
  generalize x.insts.toList = is at h
  induction is with
  | nil => rfl
  | cons i is ih =>
    rw [List.filterMap_cons, List.filterMap_cons, h i (List.mem_cons_self ..),
      ih fun j hj => h j (List.mem_cons_of_mem _ hj)]

theorem Grows.instsOf (h : f.Grows g) (hf : f.WellFormed) {b : BlockId} {x : Block} (hb : f.blocks[b]? = some x) :
    g.instsOf x = f.instsOf x := by
  refine instsOf_congr fun i hi => ?_
  have hlt := hf.listed hb i hi
  rw [Array.getElem?_eq_getElem hlt, h.insts (Array.getElem?_eq_getElem hlt)]

theorem code_of_block {b : BlockId} {x : Block} (hb : f.blocks[b]? = some x) : f.code b = f.instsOf x := by
  simp [code, Array.getD_eq_getD_getElem?, hb]

theorem Grows.code (h : f.Grows g) (hf : f.WellFormed) (b : BlockId) : f.code b <+: g.code b := by
  cases hb : f.blocks[b]? with
  | none => simp [Body.code, Array.getD_eq_getD_getElem?, hb, Body.instsOf]
  | some x =>
    obtain ⟨y, hy, ⟨rest, hrest⟩, -⟩ := h.blocks hb
    rw [code_of_block hb, code_of_block hy, ← h.instsOf hf hb]
    refine ⟨rest.filterMap (g.insts[·]?), ?_⟩
    simp only [Body.instsOf]
    rw [← hrest, List.filterMap_append]

end Body

namespace FuncDraft

/-- Instructions can be added to block `b`. -/
structure Ready (d : FuncDraft) (b : BlockId) : Prop where
  sound : d.Sound
  current : d.current = some b
  unfinished : (d.body.blocks.getD b {}).terminated = false

theorem Ready.lt {d : FuncDraft} {b : BlockId} (h : d.Ready b) : b < d.body.blocks.size := h.sound.current h.current

/-- The draft `d'` is `d` with the straight-line code `seg` at the end of block `b`. -/
structure Extends (b : BlockId) (d : FuncDraft) (seg : List Inst) (d' : FuncDraft) : Prop where
  ready : d'.Ready b
  grows : d.body.Grows d'.body
  code : d'.body.code b = d.body.code b ++ seg
  params : (d'.body.blocks.getD b {}).params = (d.body.blocks.getD b {}).params
  others : ∀ {c : Nat} {x : Block}, c ≠ b → d.body.blocks[c]? = some x → d'.body.blocks[c]? = some x
  fresh : ∀ {c : Nat} {y : Block}, d.body.blocks.size ≤ c → d'.body.blocks[c]? = some y → y = {}
  results : ∀ i ∈ seg, ∀ v ∈ i.results, d.body.values.size ≤ v
  straight : ∀ {i : Nat} {x : Inst}, d'.body.insts[i]? = some x →
    d.body.insts[i]? = some x ∨ x.action.isTerminator = false
  kinds : ∀ k ∈ d'.body.values, k ∈ d.body.values ∨ k ≠ .invalid

namespace Extends

variable {b : BlockId} {d d₁ d₂ : FuncDraft} {seg seg' : List Inst}

theorem refl (h : d.Ready b) : d.Extends b [] d where
  ready := h
  grows := .refl _
  code := by simp
  params := rfl
  others _ h := h
  fresh hc e := by
    have := (Array.getElem?_eq_some_iff.1 e).1
    omega
  results := by simp
  straight h := .inl h
  kinds _ h := .inl h

theorem trans (hd : d.Ready b) (h₁ : d.Extends b seg d₁) (h₂ : d₁.Extends b seg' d₂) :
    d.Extends b (seg ++ seg') d₂ where
  ready := h₂.ready
  grows := h₁.grows.trans h₂.grows
  code := by rw [h₂.code, h₁.code, List.append_assoc]
  params := h₂.params.trans h₁.params
  others hc e := h₂.others hc (h₁.others hc e)
  fresh {c y} hc e := by
    rcases Nat.lt_or_ge c d₁.body.blocks.size with hlt | hge
    · have hcb : c ≠ b := Nat.ne_of_gt (Nat.lt_of_lt_of_le hd.lt hc)
      have hx := Array.getElem?_eq_getElem hlt
      have hsame := h₂.others hcb hx
      rw [e, Option.some.injEq] at hsame
      rw [hsame]
      exact h₁.fresh hc hx
    · exact h₂.fresh hge e
  results i hi v hv := by
    rcases List.mem_append.1 hi with hi | hi
    · exact h₁.results i hi v hv
    · exact Nat.le_trans h₁.grows.values_size (h₂.results i hi v hv)
  straight e := by
    rcases h₂.straight e with e | e
    · exact h₁.straight e
    · exact .inr e
  kinds k hk := by
    rcases h₂.kinds k hk with hk | hk
    · exact h₁.kinds k hk
    · exact .inr hk

theorem unique (h : d.Extends b seg d₁) (h' : d.Extends b seg' d₁) : seg = seg' := by
  have := h.code
  rw [h'.code] at this
  exact (List.append_cancel_left this).symm

end Extends

theorem code_add {d : FuncDraft} {b : BlockId} (h : d.Ready b) (a : Action) (ks : List Kind) :
    (d.add b a ks).body.code b
      = d.body.code b ++ [{ action := a, results := List.range' d.body.values.size ks.length }] := by
  obtain ⟨x, hb⟩ : ∃ x, d.body.blocks[b]? = some x := ⟨_, Array.getElem?_eq_getElem h.lt⟩
  have hnew : (d.add b a ks).body.blocks[b]?
      = some { x with insts := x.insts.push d.body.insts.size, terminated := a.isTerminator } := by
    simp [FuncDraft.add, Array.getElem?_modify, hb]
  rw [Body.code_of_block hnew, Body.code_of_block hb, ← (grows_add h.unfinished a ks).instsOf h.sound.body hb]
  simp [Body.instsOf, FuncDraft.add]

theorem Extends.of_appends {b : BlockId} {d d' : FuncDraft} {a : Action} {ks : List Kind} {vs : List Value}
    (hd : d.Ready b) (h : d.Appends a ks vs d') (ha : a.isTerminator = false) (hk : ∀ k ∈ ks, k ≠ .invalid) :
    d.Extends b [{ action := a, results := vs }] d' := by
  have hleads := h.leads hd.sound
  obtain ⟨c, hc, hopen, rfl⟩ := h.added
  obtain rfl : b = c := by simpa [hd.current] using hc
  obtain rfl := h.results
  have hb := Array.getElem?_eq_getElem hd.lt
  exact
    { ready :=
        { sound := hleads.sound
          current := hd.current
          unfinished := by simp [FuncDraft.add, Array.getD_eq_getD_getElem?, Array.getElem?_modify, hb, ha] }
      grows := hleads.grows
      code := code_add hd a ks
      params := by simp [FuncDraft.add, Array.getD_eq_getD_getElem?, Array.getElem?_modify, hb]
      others := fun {c x} hc e => by simp [FuncDraft.add, Array.getElem?_modify, Ne.symm hc, e]
      fresh := fun {c y} hc e => by
        have := (Array.getElem?_eq_some_iff.1 e).1
        simp only [FuncDraft.add, Array.size_modify] at this
        omega
      results := fun i hi v hv => by
        obtain rfl := List.mem_singleton.1 hi
        exact (List.mem_range'_1.1 hv).1
      straight := fun {i x} e => by
        simp only [FuncDraft.add, Array.getElem?_push] at e
        split at e
        · obtain rfl : _ = x := by simpa using e
          exact .inr ha
        · exact .inl e
      kinds := fun k hk' => by
        simp only [FuncDraft.add, Array.mem_append, List.mem_toArray] at hk'
        exact hk'.imp_right (hk k) }

theorem Extends.of_same {b : BlockId} {d d' : FuncDraft} (hd : d.Ready b) (hl : d.Leads d')
    (hc : d'.current = d.current) (hi : d'.body.insts = d.body.insts) (hv : d'.body.values = d.body.values)
    (hold : ∀ {c : Nat} {x : Block}, d.body.blocks[c]? = some x → d'.body.blocks[c]? = some x)
    (hnew : ∀ {c : Nat} {y : Block}, d.body.blocks.size ≤ c → d'.body.blocks[c]? = some y → y = {}) :
    d.Extends b [] d' := by
  have hb := Array.getElem?_eq_getElem hd.lt
  have hb' := hold hb
  exact
    { ready :=
        { sound := hl.sound
          current := hc.trans hd.current
          unfinished := by
            have := hd.unfinished
            rw [Array.getD_eq_getD_getElem?, hb] at this
            rw [Array.getD_eq_getD_getElem?, hb']
            exact this }
      grows := hl.grows
      code := by simp [Body.code, Array.getD_eq_getD_getElem?, hb, hb', Body.instsOf, hi]
      params := by simp [Array.getD_eq_getD_getElem?, hb, hb']
      others := fun _ e => hold e
      fresh := hnew
      results := by simp
      straight := fun e => .inl (hi ▸ e)
      kinds := fun k hk => .inl (hv ▸ hk) }

end FuncDraft

end RecordMill.Machine

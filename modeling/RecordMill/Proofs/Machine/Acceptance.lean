import RecordMill.Proofs.Machine.Extension
import RecordMill.Proofs.Machine.Layout

/-!
# Building that is accepted

An operation on a draft that is ready, with operands of the kinds it asks for, is not refused: it adds its
instruction to the current block.
-/

namespace RecordMill.Machine

namespace Build

variable {α β : Type} {d d' : FuncDraft} {b : BlockId} {k : Kind} {v x y : Value}

theorem bind_of_ok {o : Build α} {f : α → Build β} {a : α} (h : o d = (.ok a, d')) : (o >>= f) d = f a d' := by
  show (match o d with | (r, d') => ExceptT.bindCont f r d') = _
  rw [h]
  rfl

theorem get_bind {f : FuncDraft → Build β} : (get >>= f) d = f d d := rfl

/-! ## Operands -/

theorem kindOf_eq (h : d.body.values[v]? = some k) : kindOf v d = (.ok k, d) := by
  rw [kindOf, get_bind]
  simp only [h]
  rfl

theorem varKind_eq {v : VarId} (h : d.body.vars[v]? = some k) (hk : k ≠ .invalid) : varKind v d = (.ok k, d) := by
  have hget : d.body.vars.getD v .invalid = k := by simp [Array.getD_eq_getD_getElem?, h]
  rw [varKind, get_bind, hget]
  cases k <;> first | rfl | exact absurd rfl hk

theorem forIn_eq {xs : List β} {f : β → PUnit → Build (ForInStep PUnit)}
    (hf : ∀ x ∈ xs, f x ⟨⟩ d = (.ok (.yield ⟨⟩), d)) : forIn xs ⟨⟩ f d = (.ok ⟨⟩, d) := by
  induction xs with
  | nil => rfl
  | cons x xs ih =>
    rw [List.forIn_cons, bind_of_ok (hf x (.head _))]
    exact ih fun y hy => hf y (.tail _ hy)

theorem wantWords_eq {name : Bytes} {rest : List Value} (hk : k.IsWord) (hx : d.body.values[x]? = some k)
    (hrest : ∀ y ∈ rest, d.body.values[y]? = some k) : wantWords name x rest d = (.ok k, d) := by
  have hword : ¬(k ≠ .i32 ∧ k ≠ .i64) := fun h => hk.elim h.1 h.2
  rw [wantWords, bind_of_ok (kindOf_eq hx), if_neg hword, bind_of_ok]
  · rfl
  refine forIn_eq fun y hy => ?_
  rw [bind_of_ok (kindOf_eq (hrest y hy)), if_neg (by simp)]
  rfl

theorem wantFloats_eq {name : Bytes} {xs : List Value} (h : ∀ x ∈ xs, d.body.values[x]? = some .f64) :
    wantFloats name xs d = (.ok (), d) := by
  rw [wantFloats, bind_of_ok]
  · rfl
  refine forIn_eq fun y hy => ?_
  rw [bind_of_ok (kindOf_eq (h y hy)), if_neg (by simp)]
  rfl

theorem wantPair_eq {name : Bytes} (hx : d.body.values[x]? = some .i64) (hy : d.body.values[y]? = some .i64) :
    wantPair name x y d = (.ok (), d) := by
  rw [wantPair, bind_of_ok (kindOf_eq hx), if_neg (by simp)]
  show (kindOf y >>= _) d = _
  rw [bind_of_ok (kindOf_eq hy), if_neg (by simp)]
  rfl

theorem firstMismatch_eq {i : Nat} {vs : List Value} {ks : List Kind} (h : vs.map (d.body.values[·]?) = ks.map some) :
    firstMismatch i vs ks d = (.ok none, d) := by
  induction vs generalizing i ks with
  | nil => rfl
  | cons v vs ih =>
    cases ks with
    | nil => simp at h
    | cons k ks =>
      simp only [List.map_cons, List.cons.injEq] at h
      rw [firstMismatch, bind_of_ok (kindOf_eq h.1), if_neg (by simp)]
      exact ih h.2

/-! ## Instructions -/

section

variable (h : d.Ready b)

include h

theorem append_eq (a : Action) (ks : List Kind) :
    append a ks d = (.ok (List.range' d.body.values.size ks.length), d.add b a ks) := by
  rw [append, get_bind, h.current]
  simp only
  rw [get_bind, h.unfinished]
  rfl

theorem one_eq (a : Action) (k : Kind) : one a k d = (.ok d.body.values.size, d.add b a [k]) := by
  rw [one, bind_of_ok (append_eq h a [k])]
  rfl

theorem emit_eq (a : Action) : emit a d = (.ok (), d.add b a []) := by
  rw [emit, bind_of_ok (append_eq h a [])]
  rfl

theorem iconst_eq (hk : k.IsWord) (n : Int64) :
    iconst k n d = (.ok d.body.values.size, d.add b (.iconst k (constant k n)) [k]) := by
  rcases hk with rfl | rfl
  · exact one_eq h _ _
  · exact one_eq h _ _

theorem iconcat_eq (hx : d.body.values[x]? = some .i64) (hy : d.body.values[y]? = some .i64) :
    iconcat x y d = (.ok d.body.values.size, d.add b (.concat x y) [.i128]) := by
  rw [iconcat, bind_of_ok (wantPair_eq hx hy)]
  exact one_eq h _ _

theorem int_eq (op : IntOp) (hk : k.IsWord) (hx : d.body.values[x]? = some k) (hy : d.body.values[y]? = some k) :
    int op x y d = (.ok d.body.values.size, d.add b (.int op k x y) [k]) := by
  rw [int, bind_of_ok (wantWords_eq hk hx (by simpa using hy))]
  exact one_eq h _ _

theorem shift_eq (op : ShiftOp) (hx : d.body.values[x]? = some .i64) (hy : d.body.values[y]? = some .i64) :
    shift op x y d = (.ok d.body.values.size, d.add b (.shift op x y) [.i64]) := by
  rw [shift, bind_of_ok (wantPair_eq hx hy)]
  exact one_eq h _ _

theorem intUnary_eq (op : IntUnary) (hk : k.IsWord) (hx : d.body.values[x]? = some k) :
    intUnary op x d = (.ok d.body.values.size, d.add b (.intUnary op k x) [k]) := by
  rw [intUnary, bind_of_ok (wantWords_eq hk hx (by simp))]
  exact one_eq h _ _

theorem float_eq (op : FloatOp) (hx : d.body.values[x]? = some .f64) (hy : d.body.values[y]? = some .f64) :
    float op x y d = (.ok d.body.values.size, d.add b (.float op x y) [.f64]) := by
  rw [float, bind_of_ok (wantFloats_eq (by simp [hx, hy]))]
  exact one_eq h _ _

theorem floatUnary_eq (op : FloatUnary) (hx : d.body.values[x]? = some .f64) :
    floatUnary op x d = (.ok d.body.values.size, d.add b (.floatUnary op x) [.f64]) := by
  rw [floatUnary, bind_of_ok (wantFloats_eq (by simp [hx]))]
  exact one_eq h _ _

theorem icmp_eq (c : IntCond) (hk : k.IsWord) (hx : d.body.values[x]? = some k) (hy : d.body.values[y]? = some k) :
    icmp c x y d = (.ok d.body.values.size, d.add b (.icmp c k x y) [.b1]) := by
  rw [icmp, bind_of_ok (wantWords_eq hk hx (by simpa using hy))]
  exact one_eq h _ _

theorem fcmp_eq (c : FloatCond) (hx : d.body.values[x]? = some .f64) (hy : d.body.values[y]? = some .f64) :
    fcmp c x y d = (.ok d.body.values.size, d.add b (.fcmp c x y) [.b1]) := by
  rw [fcmp, bind_of_ok (wantFloats_eq (by simp [hx, hy]))]
  exact one_eq h _ _

theorem bint_eq (k : Kind) (hx : d.body.values[x]? = some .b1) :
    bint k x d = (.ok d.body.values.size, d.add b (.bint k x) [k]) := by
  rw [bint, bind_of_ok (kindOf_eq hx), if_neg (by simp)]
  exact one_eq h _ _

theorem toInt_eq (k : Kind) (hx : d.body.values[x]? = some .f64) :
    toInt k x d = (.ok d.body.values.size, d.add b (.toInt k x) [k]) := by
  rw [toInt, bind_of_ok (wantFloats_eq (by simp [hx]))]
  exact one_eq h _ _

theorem ofInt_eq (k : Kind) {j : Kind} (hj : j.IsWord) (hx : d.body.values[x]? = some j) :
    ofInt k x d = (.ok d.body.values.size, d.add b (.ofInt k (j == .i32) x) [k]) := by
  rw [ofInt, bind_of_ok (wantWords_eq hj hx (by simp))]
  exact one_eq h _ _

theorem store_eq (hx : d.body.values[x]? = some k) (p : Value) (off : Int32) :
    store x p off d = (.ok (), d.add b (.store k x p off) []) := by
  rw [store, bind_of_ok (kindOf_eq hx)]
  exact emit_eq h _

theorem stackAddr_eq (k : Kind) {s : SlotId} (hs : s < d.body.slots.size) (off : Int32) :
    stackAddr k s off d = (.ok d.body.values.size, d.add b (.stackAddr k s off) [k]) := by
  rw [stackAddr, get_bind, if_pos hs]
  exact one_eq h _ _

theorem useVar_eq {v : VarId} (hv : d.body.vars[v]? = some k) (hk : k ≠ .invalid) :
    useVar v d = (.ok d.body.values.size, d.add b (.useVar k v) [k]) := by
  rw [useVar, bind_of_ok (varKind_eq hv hk)]
  exact one_eq h _ _

theorem defVar_eq {v : VarId} (hv : d.body.vars[v]? = some k) (hk : k ≠ .invalid) (hx : d.body.values[x]? = some k) :
    defVar v x d = (.ok (), d.add b (.defVar k v x) []) := by
  rw [defVar, bind_of_ok (varKind_eq hv hk), bind_of_ok (kindOf_eq hx), if_neg (by simp)]
  exact emit_eq h _

theorem call_eq {r : RefId} {c : Callee} {args : List Value} (hr : d.body.callees[r]? = some c)
    (hargs : args.map (d.body.values[·]?) = c.sig.params.map some) :
    call r args d = (.ok (List.range' d.body.values.size c.sig.returns.length),
      d.add b (.call r args) c.sig.returns) := by
  have hlen : args.length = c.sig.params.length := by simpa using congrArg List.length hargs
  rw [call, get_bind, hr]
  simp only
  rw [if_neg (by simpa using hlen), bind_of_ok (firstMismatch_eq hargs)]
  exact append_eq h _ _

theorem ret_eq {vs : List Value} (hvs : vs.map (d.body.values[·]?) = d.body.sig.returns.map some) :
    ret vs d = (.ok (), d.add b (.ret vs) []) := by
  have hlen : vs.length = d.body.sig.returns.length := by simpa using congrArg List.length hvs
  rw [ret, get_bind, if_neg (by simpa using hlen), bind_of_ok (firstMismatch_eq hvs)]
  exact emit_eq h _

theorem isTerminated_eq : isTerminated d = (.ok false, d) := by
  rw [isTerminated, get_bind, h.current]
  simp only [h.unfinished]
  rfl

end

theorem checkEntry_eq {t : BlockId} {x : Block} (ht : d.body.blocks[t]? = some x) (hx : x.params = []) :
    checkEntry t [] d = (.ok (), d) := by
  rw [checkEntry, get_bind, ht]
  simp only [hx, List.length_nil, ne_eq, not_true_eq_false, if_false, List.zip_nil_left, List.zipIdx_nil]
  rfl

theorem jump_eq (h : d.Ready b) {t : BlockId} {x : Block} (ht : d.body.blocks[t]? = some x) (hx : x.params = []) :
    jump t [] d = (.ok (), d.add b (.jump t []) []) := by
  rw [jump, bind_of_ok (checkEntry_eq ht hx)]
  exact emit_eq h _

theorem brif_eq (h : d.Ready b) (c : Value) {t e : BlockId} {x y : Block} (ht : d.body.blocks[t]? = some x)
    (hx : x.params = []) (he : d.body.blocks[e]? = some y) (hy : y.params = []) :
    brif c t e d = (.ok (), d.add b (.brif c t e) []) := by
  rw [brif, bind_of_ok (checkEntry_eq ht hx), bind_of_ok (checkEntry_eq he hy)]
  exact emit_eq h _

theorem switchTo_eq {t : BlockId} (ht : t < d.body.blocks.size) :
    switchTo t d = (.ok (), { d with current := some t }) := by
  rw [switchTo, get_bind, if_pos ht]
  rfl

end Build

/-! ## Tidy bodies -/

/-- Operands exist, and a condition is one that machine code has. -/
structure Action.Known (f : Body) (a : Action) : Prop where
  operands : ∀ v ∈ a.args, v < f.values.size
  condition : ∀ c k x y, a = .icmp c k x y → (X86.condByte? c).isSome

theorem Action.Known.mono {f g : Body} {a : Action} (h : a.Known f) (hg : f.Grows g) : a.Known g :=
  ⟨fun v hv => Nat.lt_of_lt_of_le (h.operands v hv) hg.values_size, h.condition⟩

/-- Every instruction is known, and exactly the blocks that have an end are marked as such, which stands last. -/
structure Body.Tidy (f : Body) : Prop where
  known : ∀ {i : Nat} {x : Inst}, f.insts[i]? = some x → x.action.Known f
  straight : ∀ {b : Nat} {x : Block}, f.blocks[b]? = some x → ∀ i ∈ (f.instsOf x).dropLast,
    i.action.isTerminator = false
  ended : ∀ {b : Nat} {x : Block}, f.blocks[b]? = some x →
    x.terminated = (f.instsOf x).getLast?.any (·.action.isTerminator)

namespace Body.Tidy

variable {f g : Body}

theorem open_straight (h : f.Tidy) {b : Nat} {x : Block} (hb : f.blocks[b]? = some x) (ho : x.terminated = false) :
    ∀ i ∈ f.instsOf x, i.action.isTerminator = false := by
  intro i hi
  have hlast := h.ended hb
  rw [ho] at hlast
  rcases List.eq_nil_or_concat (f.instsOf x) with hnil | ⟨init, last, hcode⟩
  · simp [hnil] at hi
  · rw [List.concat_eq_append] at hcode
    have hinit := h.straight hb
    rw [hcode, List.dropLast_concat] at hinit
    rw [hcode] at hi
    rcases List.mem_append.1 hi with hi | hi
    · exact hinit i hi
    · obtain rfl := List.mem_singleton.1 hi
      simpa [hcode] using hlast.symm

theorem of_same (h : f.Tidy) (hg : f.Grows g) (hi : g.insts = f.insts)
    (hb : ∀ {b : Nat} {y : Block}, g.blocks[b]? = some y →
      y.insts = #[] ∧ y.terminated = false ∨ ∃ x, f.blocks[b]? = some x ∧ x.insts = y.insts
        ∧ x.terminated = y.terminated) :
    g.Tidy where
  known e := (h.known (hi ▸ e)).mono hg
  straight {b y} e := by
    rcases hb e with ⟨hy, -⟩ | ⟨x, hx, hy, -⟩
    · simp [instsOf, hy]
    · have := h.straight hx
      rw [instsOf, hy] at this
      simpa only [instsOf, hi] using this
  ended {b y} e := by
    rcases hb e with ⟨hy, ht⟩ | ⟨x, hx, hy, ht⟩
    · simp [instsOf, hy, ht]
    · have := h.ended hx
      rw [instsOf, hy] at this
      rw [← ht, this]
      simp only [instsOf, hi]

end Body.Tidy

theorem Body.Tidy.add {d : FuncDraft} {b : BlockId} {a : Action} {ks : List Kind} (h : d.body.Tidy) (hd : d.Ready b)
    (ha : a.Known d.body) : (d.add b a ks).body.Tidy := by
  have hgrows := FuncDraft.grows_add hd.unfinished a ks
  have hcode : ∀ {c : Nat} {y : Block}, (d.add b a ks).body.blocks[c]? = some y →
      (c ≠ b ∧ d.body.blocks[c]? = some y ∧ (d.add b a ks).body.instsOf y = d.body.instsOf y)
      ∨ ∃ x, c = b ∧ d.body.blocks[b]? = some x ∧ x.terminated = false ∧ y.terminated = a.isTerminator
        ∧ (d.add b a ks).body.instsOf y = d.body.instsOf x ++ [⟨a, List.range' d.body.values.size ks.length⟩] := by
    intro c y hy
    by_cases hc : c = b
    · subst hc
      obtain ⟨x, hx⟩ : ∃ x, d.body.blocks[c]? = some x := ⟨_, Array.getElem?_eq_getElem hd.lt⟩
      have hopen : x.terminated = false := by simpa [Array.getD_eq_getD_getElem?, hx] using hd.unfinished
      have hcode := FuncDraft.code_add hd a ks
      rw [Body.code_of_block hy, Body.code_of_block hx] at hcode
      refine .inr ⟨x, rfl, hx, hopen, ?_, hcode⟩
      simp only [FuncDraft.add, Array.getElem?_modify, if_true, hx, Option.map_some, Option.some.injEq] at hy
      rw [← hy]
    · have hx : d.body.blocks[c]? = some y := by
        simpa [FuncDraft.add, Array.getElem?_modify, Ne.symm hc] using hy
      exact .inl ⟨hc, hx, hgrows.instsOf hd.sound.body hx⟩
  refine ⟨fun {i x} e => ?_, fun {c y} hy => ?_, fun {c y} hy => ?_⟩
  · simp only [FuncDraft.add, Array.getElem?_push] at e
    split at e
    · obtain rfl := Option.some.inj e
      exact ha.mono hgrows
    · exact (h.known e).mono hgrows
  · rcases hcode hy with ⟨-, hx, he⟩ | ⟨x, -, hx, ho, -, he⟩
    · rw [he]
      exact h.straight hx
    · rw [he, List.dropLast_concat]
      exact h.open_straight hx ho
  · rcases hcode hy with ⟨-, hx, he⟩ | ⟨x, -, hx, -, ht, he⟩
    · rw [he]
      exact h.ended hx
    · rw [he, ht]
      simp

/-! ## Laying out succeeds -/

namespace Lay

/-- However many words are in use, laying out comes to a result. -/
def Works {α : Type} (x : Lay α) : Prop := ∀ n, ∃ a m, x n = some (a, m)

namespace Works

variable {α β : Type} {f : Body}

theorem pure (a : α) : Works (Pure.pure a : Lay α) := fun n => ⟨a, n, rfl⟩

theorem bind {x : Lay α} {g : α → Lay β} (hx : Works x) (hg : ∀ a, Works (g a)) : Works (x >>= g) := by
  intro n
  obtain ⟨a, k, h⟩ := hx n
  obtain ⟨b, m, h'⟩ := hg a k
  exact ⟨b, m, bind_eq.2 ⟨a, k, h, h'⟩⟩

theorem lift {o : Option α} (h : o.isSome) : Works (liftM o : Lay α) := by
  intro n
  obtain ⟨a, rfl⟩ := Option.isSome_iff_exists.1 h
  exact ⟨a, n, rfl⟩

theorem bindSome {o : Option α} {a : α} {g : α → Lay β} (h : o = some a) (hg : Works (g a)) :
    Works ((liftM o : Lay α) >>= g) := by
  subst h
  exact hg

theorem alloc (k : Nat) : Works (Lay.alloc k) := fun n => ⟨n, n + k, rfl⟩

theorem mapM {g : α → Lay β} {xs : List α} (h : ∀ x ∈ xs, Works (g x)) : Works (xs.mapM g) := by
  induction xs with
  | nil => exact pure []
  | cons x xs ih =>
    rw [List.mapM_cons]
    exact bind (h x (.head _)) fun _ => bind (ih fun y hy => h y (.tail _ hy)) fun _ => pure _

theorem span {v : Value} (h : v < f.values.size) : Works (Lay.span (.ofBody f) v) := by
  refine lift ?_
  rw [f.values_ofBody, Option.isSome_map, Array.getElem?_eq_getElem h]
  rfl

theorem spans {vs : List Value} (h : ∀ v ∈ vs, v < f.values.size) : Works (Lay.spans (.ofBody f) vs) :=
  mapM fun v hv => span (h v hv)

theorem place {v : Value} (h : v < f.values.size) : Works (Lay.place (.ofBody f) v) := bind (span h) fun _ => pure _

theorem varPlace {v : VarId} (h : v < f.vars.size) : Works (Lay.varPlace (.ofBody f) v) := by
  refine bind (lift ?_) fun _ => pure _
  rw [f.vars_ofBody, Option.isSome_map, Array.getElem?_eq_getElem h]
  rfl

end Works

end Lay

theorem Layout.length_slotOffsets (at_ : Int64) (ws : List Int64) : (slotOffsets at_ ws).length = ws.length := by
  induction ws generalizing at_ with
  | nil => rfl
  | cons w ws ih => simp [slotOffsets, ih]

section

variable {f : Body} {i : Inst} {k : Kind}

open Lay (Works)

theorem Lay.Works.result {first : Value} (hr : i.results = List.range' first 1) (hk : f.values[first]? = some k) :
    Works (Lay.result (.ofBody f) i) := by
  have hhead : i.results.head? = some first := by simp [hr]
  intro n
  exact ⟨_, n, Lay.result_eq.2 ⟨⟨first, ⟨f.valueAt first, k.words⟩, hhead, by rw [f.values_ofBody, hk]; rfl, rfl⟩, rfl⟩⟩

theorem Lay.Works.step (hf : i.Fits f) (hk : i.action.Known f) (ht : i.action.isTerminator = false) :
    Works (Lay.step f (.ofBody f) i) := by
  obtain ⟨first, ks, hr, hks, ha⟩ := hf
  have hargs := hk.operands
  have one : ∀ k, ks = [k] → Works (Lay.result (.ofBody f) i) := fun k h => by
    subst h
    exact Works.result (by simpa using hr) (hks 0 k rfl)
  unfold Lay.step
  cases hact : i.action <;> rw [hact] at ha hargs ht
    <;> simp only [Action.args, List.mem_cons, List.not_mem_nil, or_false,
    forall_eq_or_imp, forall_eq] at hargs
  case iconst => exact .bind (one _ ha.1) fun _ => .pure _
  case fconst => exact .bind (one _ ha) fun _ => .pure _
  case concat | shift | float | fcmp =>
    exact .bind (one _ ha.1) fun _ => .bind (.place hargs.1) fun _ => .bind (.place hargs.2) fun _ => .pure _
  case int | icmp =>
    exact .bind (one _ ha.1) fun _ => .bind (.place hargs.1) fun _ => .bind (.place hargs.2) fun _ => .pure _
  case intUnary | floatUnary | bint | toInt | ofInt =>
    exact .bind (one _ ha.1) fun _ => .bind (.place hargs) fun _ => .pure _
  case load => exact .bind (one _ ha) fun _ => .bind (.place hargs) fun _ => .pure _
  case store => exact .bind (.place hargs.1) fun _ => .bind (.place hargs.2) fun _ => .pure _
  case stackAddr k s off =>
    refine .bind (one _ ha.1) fun _ => .bind (.lift ?_) fun _ => .pure _
    simpa [Layout.ofBody, Layout.length_slotOffsets] using ha.2
  case call r args =>
    obtain ⟨c, hc, rfl, -⟩ := ha
    unfold Lay.call
    refine .bind (.lift (by simp [hc])) fun _ => .bind (.alloc _) fun _ => .bind (.spans hargs) fun _ => ?_
    split
    · exact .bind (.pure _) fun _ => .pure _
    · next v vs hv =>
      refine .bind (.place ?_) fun _ => .pure _
      rw [hr] at hv
      cases hn : c.sig.returns with
      | nil => simp [hn] at hv
      | cons k ks =>
        obtain ⟨rfl, -⟩ : first = v ∧ _ := by simpa [hn, List.range'_succ] using hv
        exact (Array.getElem?_eq_some_iff.1 (hks 0 k (by rw [hn]; rfl))).1
  case useVar k v =>
    exact .bind (one _ ha.1) fun _ => .bind (.varPlace (Array.getElem?_eq_some_iff.1 ha.2.2).1) fun _ => .pure _
  case defVar k v x =>
    exact .bind (.varPlace (Array.getElem?_eq_some_iff.1 ha.2.2.1).1) fun _ => .bind (.place hargs) fun _ => .pure _
  all_goals simp [Action.isTerminator] at ht

/-- Blocks but the first take no parameters, and those of the first exist. -/
def Body.Entered (f : Body) : Prop :=
  (f.blocks.getD 0 {}).params.map (f.values[·]?) = f.sig.params.map some
    ∧ ∀ {b : Nat} {x : Block}, 0 < b → f.blocks[b]? = some x → x.params = []

theorem Body.Entered.params (h : f.Entered) (b : BlockId) : ∀ v ∈ (f.blocks.getD b {}).params, v < f.values.size := by
  intro v hv
  rcases Nat.eq_zero_or_pos b with rfl | hb
  · have hk : f.values[v]? ∈ f.sig.params.map some := h.1 ▸ List.mem_map_of_mem hv
    obtain ⟨k, -, hk⟩ := List.mem_map.1 hk
    exact (Array.getElem?_eq_some_iff.1 hk.symm).1
  · cases hx : f.blocks[b]? with
    | none => simp [Array.getD_eq_getD_getElem?, hx] at hv
    | some x => simp [Array.getD_eq_getD_getElem?, hx, h.2 hb hx] at hv

variable {a : Action}

theorem Lay.Works.exit (he : f.Entered) (hk : a.Known f) (ht : a.isTerminator) : Works (Lay.exit f (.ofBody f) a) := by
  cases a with
  | jump dest args =>
    cases args with
    | nil => exact .pure _
    | cons v vs =>
      exact .bind (.spans hk.operands) fun _ => .bind (.spans (he.params dest)) fun _ =>
        .bind (.alloc _) fun _ => .pure _
  | brif c dest alt => exact .bind (.place (hk.operands c (.head _))) fun _ => .pure _
  | ret vs => exact .bind (.spans hk.operands) fun _ => .pure _
  | _ => cases ht

theorem Lay.Works.codeExit (he : f.Entered) (hk : a.Known f) (ht : a.isTerminator) :
    Works (X86.exit f (.ofBody f) a) := by
  unfold X86.exit
  split
  · exact .bind (.spans hk.operands) fun _ => .bind (.alloc _) fun _ => .bind (.spans (he.params _)) fun _ => .pure _
  · exact .exit he hk ht

theorem Lay.Works.code (hf : i.Fits f) (hk : i.action.Known f) (ht : i.action.isTerminator = false)
    (hc : X86.covers i.action) : Works (X86.code (.ofBody f) i) := by
  obtain ⟨first, ks, hr, hks, ha⟩ := hf
  have hargs := hk.operands
  have hcond := hk.condition
  have one : ∀ k, ks = [k] → Works (Lay.result (.ofBody f) i) := fun k h => by
    subst h
    exact Works.result (by simpa using hr) (hks 0 k rfl)
  unfold X86.code
  cases hact : i.action <;> rw [hact] at ha hargs ht hc hcond
    <;> simp only [Action.args, List.mem_cons, List.not_mem_nil,
    or_false, forall_eq_or_imp, forall_eq] at hargs
  case iconst => exact .bind (one _ ha.1) fun _ => .pure _
  case fconst => exact .bind (one _ ha) fun _ => .pure _
  case concat | shift =>
    exact .bind (one _ ha.1) fun _ => .bind (.place hargs.1) fun _ => .bind (.place hargs.2) fun _ => .pure _
  case int op k x y =>
    refine .bind (one _ ha.1) fun _ => .bind (.place hargs.1) fun _ => .bind (.place hargs.2) fun _ =>
      .bind (.lift ?_) fun _ => .pure _
    simp only [X86.covers, Bool.and_eq_true] at hc
    exact hc.1
  case icmp c k x y =>
    exact .bind (.place hargs.1) fun _ => .bind (.place hargs.2) fun _ => .bind (.lift (hcond c k x y rfl)) fun _ =>
      .bind (one _ ha.1) fun _ => .pure _
  case intUnary | bint =>
    exact .bind (.place hargs) fun _ => .bind (one _ ha.1) fun _ => .pure _
  case useVar k v =>
    exact .bind (one _ ha.1) fun _ => .bind (.varPlace (Array.getElem?_eq_some_iff.1 ha.2.2).1) fun _ => .pure _
  case defVar k v x =>
    exact .bind (.varPlace (Array.getElem?_eq_some_iff.1 ha.2.2.1).1) fun _ => .bind (.place hargs) fun _ => .pure _
  case jump | brif | ret => simp [Action.isTerminator] at ht
  all_goals simp [X86.covers] at hc

end

/-! ## Compiling is accepted -/

/-- All that a body needs to be compiled. -/
structure Body.Whole (f : Body) : Prop where
  wellFormed : f.WellFormed
  tidy : f.Tidy
  entered : f.Entered
  nonempty : 0 < f.blocks.size
  terminated : ∀ {b : Nat} {x : Block}, f.blocks[b]? = some x → x.terminated = true

namespace Body.Whole

variable {f : Body} {b : Block}

theorem mem_instsOf {i : Inst} (hi : i ∈ f.instsOf b) : ∃ n : Nat, f.insts[n]? = some i := by
  obtain ⟨n, -, hn⟩ := List.mem_filterMap.1 hi
  exact ⟨n, hn⟩

theorem last (h : f.Whole) (hb : b ∈ f.blocks) : ∃ i, (f.instsOf b).getLast? = some i ∧ i.action.isTerminator := by
  obtain ⟨n, hn⟩ := Array.mem_iff_getElem?.1 hb
  have hlast := h.tidy.ended hn
  rw [h.terminated hn] at hlast
  exact (Option.any_eq_true _ _).1 hlast.symm

theorem known_last (h : f.Whole) {i : Inst} (hi : (f.instsOf b).getLast? = some i) : i.action.Known f := by
  obtain ⟨n, hn⟩ := mem_instsOf (List.mem_of_getLast? hi)
  exact h.tidy.known hn

theorem lays (h : f.Whole) (hb : b ∈ f.blocks) : Lay.Works (Lay.block f (.ofBody f) b) := by
  obtain ⟨n, hn⟩ := Array.mem_iff_getElem?.1 hb
  obtain ⟨last, hlast, hterm⟩ := h.last hb
  refine .bind (.mapM fun i hi => ?_) fun _ =>
    .bindSome hlast (.bind (.exit h.entered (h.known_last hlast) hterm) fun _ => .pure _)
  obtain ⟨m, hm⟩ := mem_instsOf (List.dropLast_subset _ hi)
  exact .step (h.wellFormed.insts hm) (h.tidy.known hm) (h.tidy.straight hn i hi)

theorem encodes (h : f.Whole) (hc : f.insts.all (X86.covers ·.action)) (returns : Nat) (hb : b ∈ f.blocks) :
    Lay.Works (X86.block f (.ofBody f) returns b) := by
  obtain ⟨n, hn⟩ := Array.mem_iff_getElem?.1 hb
  obtain ⟨last, hlast, hterm⟩ := h.last hb
  refine .bind (.mapM fun i hi => ?_) fun _ =>
    .bindSome hlast (.bind (.codeExit h.entered (h.known_last hlast) hterm) fun _ => .pure _)
  obtain ⟨m, hm⟩ := mem_instsOf (List.dropLast_subset _ hi)
  exact .code (h.wellFormed.insts hm) (h.tidy.known hm) (h.tidy.straight hn i hi)
    (Array.all_eq_true_iff_forall_mem.1 hc i (Array.mem_of_getElem? hm))

theorem lay (h : f.Whole) (t : Target) : Lay.Works (f.lay t) := by
  have hblock : ∀ b ∈ f.blocks.toList, Lay.Works (Lay.block f (.ofBody f) b) :=
    fun b hb => h.lays (Array.mem_toList_iff.1 hb)
  refine .bind (.spans (h.entered.params 0)) fun _ => .bind (.mapM hblock) fun _ => ?_
  split
  · next hc =>
    refine .bind (.bind (.alloc _) fun returns => .bind (.mapM fun b hb => ?_) fun _ => .pure _) fun _ =>
      .bind (fun n => ⟨n, n, rfl⟩) fun _ => .pure _
    exact h.encodes hc.2 returns (Array.mem_toList_iff.1 hb)
  · exact .bind (fun n => ⟨n, n, rfl⟩) fun _ => .pure _

theorem entryError (h : f.Whole) : f.entryError? = none := by
  have hkinds : (f.blocks.getD 0 {}).params.map (f.values.getD · .invalid) = f.sig.params := by
    have := congrArg (List.map fun k => k.getD Kind.invalid) h.entered.1
    simpa [Function.comp_def, Array.getD_eq_getD_getElem?] using this
  have hzip : ∀ ks : List Kind, ∀ p ∈ (ks.zip ks).zipIdx, p.1.1 = p.1.2 := by
    intro ks p hp
    have := (List.mem_zipIdx' hp).2
    have hmem : p.1 ∈ ks.zip ks := this ▸ List.getElem_mem _
    obtain ⟨k, -, e⟩ : ∃ k ∈ ks, (k, k) = p.1 := by simpa [List.zip_eq_zipWith] using hmem
    rw [← e]
  unfold entryError?
  rw [hkinds, if_neg (by simp), Option.map_eq_none_iff, List.find?_eq_none]
  intro p hp
  simpa using hzip _ p hp

theorem compiles (h : f.Whole) (t : Target) : ∃ c, f.compile t = .ok c := by
  have hempty : f.blocks.isEmpty = false := by
    simpa using Nat.ne_of_gt h.nonempty
  have hunfinished : f.unfinished? = none := by
    have hnone : f.blocks.findIdx? (!·.terminated) = none := by
      refine Array.findIdx?_eq_none_iff.2 fun x hx => ?_
      obtain ⟨n, hn⟩ := Array.mem_iff_getElem?.1 hx
      simp [h.terminated hn]
    simp only [unfinished?, hnone, hempty]
    rfl
  obtain ⟨c, m, hlay⟩ := h.lay t (Layout.size f)
  refine ⟨c, ?_⟩
  unfold compile
  simp only [hempty, hunfinished, h.entryError, StateT.run, hlay]
  rfl

end Body.Whole

end RecordMill.Machine

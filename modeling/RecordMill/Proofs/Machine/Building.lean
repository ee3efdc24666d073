import RecordMill.Proofs.Machine.Draft

/-!
# What building leaves behind

Each operation is either refused, and then it has changed nothing of note, or it adds one instruction of
the right kinds. So a draft goes through few sorts of changes, and a body that comes of building is well
formed.
-/

namespace RecordMill.Machine

/-! ## The operations of building -/

namespace Build

variable {α β : Type} {d : FuncDraft} {Q : α → FuncDraft → Prop} {E : FuncDraft → Prop}

/-- The draft goes through changes, also when the operation is refused. -/
def Traced (b : Build α) : Prop := ∀ d : FuncDraft, b.wp d (fun _ d' => d.Path d') (fun d' => d.Path d')

namespace Traced

theorem pure (a : α) : Traced (Pure.pure a : Build α) := fun _ => .refl

theorem throw (e : BuildFault) : Traced (MonadExcept.throw e : Build α) := fun _ => .refl

theorem get : Traced (MonadState.get : Build FuncDraft) := fun _ => .refl

theorem bind {x : Build β} {f : β → Build α} (hx : Traced x) (hf : ∀ a, Traced (f a)) : Traced (x >>= f) := by
  intro d
  rw [wp_bind]
  exact wp_mono (hx d) (fun a d' l => wp_mono (hf a d') (fun _ _ => l.trans) (fun _ => l.trans)) (fun _ l => l)

theorem forIn {xs : List β} {f : β → PUnit → Build (ForInStep PUnit)} (hf : ∀ x u, Traced (f x u)) (u : PUnit) :
    Traced (ForIn.forIn xs u f) := by
  induction xs generalizing u with
  | nil => exact pure _
  | cons x xs ih =>
    rw [List.forIn_cons]
    refine bind (hf x u) fun r => ?_
    cases r with
    | done u => exact pure u
    | yield u => exact ih u

theorem createBlock : Traced createBlock := fun d => .single (.block d)

theorem blockParam (b : BlockId) (k : Kind) : Traced (blockParam b k) := by
  intro d
  simp only [Build.blockParam, newValue, wp_bind, wp_get, wp_modifyBody, wp_pure]
  split
  · next hb => exact .single (.param d b hb k)
  · exact .single (.value d k)

theorem blockParams (b : BlockId) : Traced (blockParams b) := by
  refine bind get fun d => ?_
  split
  · exact pure _
  · exact throw _

theorem functionParams (b : BlockId) : Traced (functionParams b) :=
  bind get fun _ => bind (forIn (fun k _ => bind (blockParam b k) fun _ => pure _) _) fun _ => pure _

theorem switchTo (b : BlockId) : Traced (switchTo b) := by
  intro d
  simp only [Build.switchTo, wp_bind, wp_get]
  split
  · next hb =>
    refine .single (.aside (.refl _) rfl rfl rfl fun c e => .inr ?_)
    obtain rfl : b = c := by simpa using e
    exact hb
  · exact .refl

theorem isTerminated : Traced isTerminated := bind get fun _ => pure _

theorem createSlot (w : Int64) : Traced (createSlot w) := by
  refine fun d => .single (.aside { Body.Grows.refl d.body with slots := fun e => ?_ } rfl rfl rfl fun _ => .inl)
  obtain ⟨hs, -⟩ := Array.getElem?_eq_some_iff.1 e
  simp only [Array.getElem?_push_lt hs, ← e, Array.getElem?_eq_getElem hs]

theorem declareVar (v : VarId) (k : Kind) : Traced (declareVar v k) := by
  intro d
  simp only [Build.declareVar, wp_bind, wp_get, wp_modifyBody]
  have hv : ∀ {u : Nat} {j : Kind}, d.body.vars[u]? = some j →
      (d.body.vars ++ Array.replicate (v + 1 - d.body.vars.size) .invalid)[u]? = some j := by
    intro u j e
    obtain ⟨hu, -⟩ := Array.getElem?_eq_some_iff.1 e
    rw [Array.getElem?_append_left hu, e]
  split
  · exact .single (.aside { Body.Grows.refl d.body with vars := fun _ e => hv e } rfl rfl rfl fun _ => .inl)
  · next hk =>
    -- Only a variable without a kind gets one.
    refine .single (.aside { Body.Grows.refl d.body with vars := fun {u j} hj e => ?_ } rfl rfl rfl fun _ => .inl)
    have hu := hv e
    by_cases huv : v = u
    · subst huv
      rw [Array.getD_eq_getD_getElem?, hu] at hk
      exact absurd hj hk
    · simpa [Array.getElem?_setIfInBounds, huv] using hu

theorem importInto {ι : Type} (m : Module ι) (id : FuncId) : Traced (m.importInto id) := by
  intro d
  simp only [Module.importInto]
  split
  · exact .refl
  · simp only [wp_bind, wp_get]
    split
    · exact .refl
    · refine .single (.aside { Body.Grows.refl d.body with callees := fun e => ?_ } rfl rfl rfl fun _ => .inl)
      obtain ⟨hr, -⟩ := Array.getElem?_eq_some_iff.1 e
      simp only [Array.getElem?_push_lt hr, ← e, Array.getElem?_eq_getElem hr]

theorem of_some {b : Build α} {a : FuncDraft → β → Action} {ks : FuncDraft → β → List Kind} {r : α → List Value}
    (h : ∀ d, b.wp d (fun v d' => ∃ x, d.Appends (a d x) (ks d x) (r v) d') (fun d' => d' = d))
    (ha : ∀ d x, (a d x).IsMade) : Traced b := by
  intro d
  refine wp_mono (h d) ?_ ?_
  · rintro _ d' ⟨x, h⟩
    exact .single (.append (ha d x) h)
  · rintro d' rfl
    exact .refl

theorem of_appends {b : Build α} {a : Action} {ks : List Kind} {r : α → List Value}
    (h : ∀ d, b.wp d (fun v d' => d.Appends a ks (r v) d') (fun d' => d' = d)) (ha : a.IsMade) : Traced b := by
  intro d
  refine wp_mono (h d) (fun _ _ h => .single (.append ha h)) ?_
  rintro d' rfl
  exact .refl

theorem path {b : Build α} (h : Traced b) (d : FuncDraft) : d.Path (b d).2 := by
  have := h d
  unfold wp at this
  split at this
  · next e => rw [e]; exact this
  · next e => rw [e]; exact this

end Traced

/-- A sound draft stays one, also when the operation is refused. -/
def Safe (b : Build α) : Prop := ∀ d : FuncDraft, d.Sound → b.wp d (fun _ d' => d.Leads d') (fun d' => d.Leads d')

theorem Traced.safe {b : Build α} (h : Traced b) : Safe b :=
  fun d hd => wp_mono (h d) (fun _ _ p => p.leads hd) fun _ p => p.leads hd

/-! ## Adding instructions -/

theorem append_wp {a : Action} {ks : List Kind} (ha : a.Fits d.body ks) :
    (append a ks).wp d (fun vs d' => d.Appends a ks vs d') (fun d' => d' = d) := by
  simp only [append, wp_bind, wp_get]
  split
  · exact rfl
  · next b hb =>
    simp only [wp_bind, wp_get]
    split
    · exact rfl
    · next ht => exact ⟨ha, rfl, b, hb, by simpa using ht, rfl⟩

theorem one_wp {a : Action} {k : Kind} (ha : a.Fits d.body [k]) :
    (one a k).wp d (fun v d' => d.Appends a [k] [v] d') (fun d' => d' = d) := by
  simp only [one, wp_bind]
  refine wp_mono (append_wp ha) (fun vs d' h => ?_) (fun _ h => h)
  obtain rfl := h.results
  exact h

theorem emit_wp {a : Action} (ha : a.Fits d.body []) :
    (emit a).wp d (fun _ d' => d.Appends a [] [] d') (fun d' => d' = d) := by
  simp only [emit, wp_bind]
  refine wp_mono (append_wp ha) (fun vs d' h => ?_) (fun _ h => h)
  obtain rfl := h.results
  exact h

theorem kindOf_wp {v : Value} {Q : Kind → FuncDraft → Prop}
    (h : ∀ k, d.body.values[v]? = some k → Q k d) (hE : E d) : (kindOf v).wp d Q E := by
  simp only [kindOf, wp_bind, wp_get]
  split
  · next k hk => exact h k hk
  · exact hE

theorem varKind_wp {v : VarId} {Q : Kind → FuncDraft → Prop}
    (h : ∀ k, k ≠ .invalid → d.body.vars[v]? = some k → Q k d) (hE : E d) : (varKind v).wp d Q E := by
  simp only [varKind, wp_bind, wp_get]
  split
  · exact hE
  · next hk =>
    refine h _ hk ?_
    rw [Array.getD_eq_getD_getElem?] at hk ⊢
    cases e : d.body.vars[v]? with
    | none => simp [e] at hk
    | some k => rfl

theorem forIn_wp {xs : List β} {f : β → PUnit → Build (ForInStep PUnit)} {P : β → Prop}
    (hf : ∀ x u, (f x u).wp d (fun r d' => d' = d ∧ r = .yield u ∧ P x) E) (u : PUnit) :
    (forIn xs u f).wp d (fun _ d' => d' = d ∧ ∀ x ∈ xs, P x) E := by
  induction xs with
  | nil => exact ⟨rfl, by simp⟩
  | cons x xs ih =>
    rw [List.forIn_cons, wp_bind]
    refine wp_mono (hf x u) ?_ (fun _ h => h)
    rintro _ d' ⟨rfl, rfl, hx⟩
    refine wp_mono ih ?_ (fun _ h => h)
    rintro _ d' ⟨rfl, hxs⟩
    exact ⟨rfl, by simpa using ⟨hx, hxs⟩⟩

theorem wantWords_wp {name : Bytes} {x : Value} {rest : List Value} {Q : Kind → FuncDraft → Prop}
    (h : ∀ k : Kind, k.IsWord → d.body.values[x]? = some k → (∀ y ∈ rest, d.body.values[y]? = some k) → Q k d)
    (hE : E d) : (wantWords name x rest).wp d Q E := by
  simp only [wantWords, wp_bind]
  refine kindOf_wp (fun k hx => ?_) hE
  split
  · exact hE
  · next hk =>
    have hk : k.IsWord := by
      unfold Kind.IsWord
      by_cases h32 : k = .i32
      · exact .inl h32
      · exact .inr (Classical.byContradiction fun h64 => hk ⟨h32, h64⟩)
    rw [wp_bind]
    refine wp_mono (forIn_wp (P := fun y => d.body.values[y]? = some k) (E := E) (fun y u => ?_) _) ?_ (fun _ h => h)
    · rw [wp_bind]
      refine kindOf_wp (fun j hj => ?_) hE
      split
      · exact hE
      · next e =>
        obtain rfl : j = k := by simpa using e
        exact ⟨rfl, rfl, hj⟩
    · rintro _ d' ⟨rfl, hr⟩
      exact h k hk hx hr

theorem wantFloats_wp {name : Bytes} {xs : List Value} {Q : Unit → FuncDraft → Prop}
    (h : (∀ x ∈ xs, d.body.values[x]? = some .f64) → Q () d) (hE : E d) : (wantFloats name xs).wp d Q E := by
  rw [wantFloats, wp_bind]
  refine wp_mono (forIn_wp (P := fun y => d.body.values[y]? = some .f64) (E := E) (fun y u => ?_) _) ?_ (fun _ h => h)
  · rw [wp_bind]
    refine kindOf_wp (fun j hj => ?_) hE
    split
    · exact hE
    · next e =>
      obtain rfl : j = .f64 := by simpa using e
      exact ⟨rfl, rfl, hj⟩
  · rintro _ d' ⟨rfl, hx⟩
    exact h hx

theorem wantPair_wp {name : Bytes} {x y : Value} {Q : Unit → FuncDraft → Prop}
    (h : d.body.values[x]? = some .i64 → d.body.values[y]? = some .i64 → Q () d) (hE : E d) :
    (wantPair name x y).wp d Q E := by
  simp only [wantPair, wp_bind]
  refine kindOf_wp (fun j hj => ?_) hE
  split
  · exact hE
  · next e =>
    obtain rfl : j = .i64 := by simpa using e
    rw [wp_bind]
    refine kindOf_wp (fun k hk => ?_) hE
    split
    · exact hE
    · next e =>
      obtain rfl : k = .i64 := by simpa using e
      exact h hj hk

theorem firstMismatch_wp {i : Nat} {vs : List Value} {ks : List Kind} {Q : Option (Nat × Kind) → FuncDraft → Prop}
    (hl : vs.length = ks.length) (h : vs.map (d.body.values[·]?) = ks.map some → Q none d)
    (hs : ∀ r, Q (some r) d) (hE : E d) : (firstMismatch i vs ks).wp d Q E := by
  induction vs generalizing i ks with
  | nil =>
    obtain rfl : ks = [] := List.length_eq_zero_iff.1 hl.symm
    exact h rfl
  | cons v vs ih =>
    cases ks with
    | nil => simp at hl
    | cons k ks =>
      simp only [firstMismatch, wp_bind]
      refine kindOf_wp (fun j hj => ?_) hE
      split
      · exact hs _
      · next e =>
        obtain rfl : j = k := by simpa using e
        exact ih (by simpa using hl) fun hvs => h (by simp [hj, hvs])

theorem checkEntry_wp {b : BlockId} {args : List Value} {Q : Unit → FuncDraft → Prop}
    (h : b < d.body.blocks.size → Q () d) (hE : E d) : (checkEntry b args).wp d Q E := by
  simp only [checkEntry, wp_bind, wp_get]
  split
  · exact hE
  · next x hx =>
    split
    · exact hE
    · rw [wp_bind]
      refine wp_mono (forIn_wp (P := fun _ => True) (E := E) (fun y u => ?_) _) ?_ (fun _ h => h)
      · obtain ⟨⟨a, p⟩, i⟩ := y
        simp only [wp_bind]
        refine kindOf_wp (fun j _ => ?_) hE
        refine kindOf_wp (fun k _ => ?_) hE
        split
        · exact hE
        · exact ⟨rfl, rfl, trivial⟩
      · rintro _ d' ⟨rfl, -⟩
        exact h (Array.getElem?_eq_some_iff.1 hx).1

/-! ## What each operation adds -/

theorem iconst_wp (k : Kind) (n : Int64) :
    (iconst k n).wp d (fun v d' => d.Appends (.iconst k (constant k n)) [k] [v] d') (fun d' => d' = d) := by
  unfold iconst
  split
  · exact one_wp ⟨rfl, .inl rfl⟩
  · exact one_wp ⟨rfl, .inr rfl⟩
  · exact rfl

theorem fconst_wp (w : UInt64) :
    (fconst w).wp d (fun v d' => d.Appends (.fconst w) [.f64] [v] d') (fun d' => d' = d) := one_wp rfl

theorem iconcat_wp (x y : Value) :
    (iconcat x y).wp d (fun v d' => d.Appends (.concat x y) [.i128] [v] d') (fun d' => d' = d) := by
  rw [iconcat, wp_bind]
  exact wantPair_wp (fun hx hy => one_wp ⟨rfl, hx, hy⟩) rfl

theorem int_wp (op : IntOp) (x y : Value) :
    (int op x y).wp d (fun v d' => ∃ k, d.Appends (.int op k x y) [k] [v] d') (fun d' => d' = d) := by
  rw [int, wp_bind]
  refine wantWords_wp (fun k hk hx hy => ?_) rfl
  exact wp_mono (one_wp ⟨rfl, hk, hx, hy y (by simp)⟩) (fun _ _ h => ⟨k, h⟩) (fun _ h => h)

theorem shift_wp (op : ShiftOp) (x y : Value) :
    (shift op x y).wp d (fun v d' => d.Appends (.shift op x y) [.i64] [v] d') (fun d' => d' = d) := by
  rw [shift, wp_bind]
  exact wantPair_wp (fun hx hy => one_wp ⟨rfl, hx, hy⟩) rfl

theorem intUnary_wp (op : IntUnary) (x : Value) :
    (intUnary op x).wp d (fun v d' => ∃ k, d.Appends (.intUnary op k x) [k] [v] d') (fun d' => d' = d) := by
  rw [intUnary, wp_bind]
  refine wantWords_wp (fun k hk hx _ => ?_) rfl
  exact wp_mono (one_wp ⟨rfl, hk, hx⟩) (fun _ _ h => ⟨k, h⟩) (fun _ h => h)

theorem float_wp (op : FloatOp) (x y : Value) :
    (float op x y).wp d (fun v d' => d.Appends (.float op x y) [.f64] [v] d') (fun d' => d' = d) := by
  rw [float, wp_bind]
  exact wantFloats_wp (fun h => one_wp ⟨rfl, h x (by simp), h y (by simp)⟩) rfl

theorem floatUnary_wp (op : FloatUnary) (x : Value) :
    (floatUnary op x).wp d (fun v d' => d.Appends (.floatUnary op x) [.f64] [v] d') (fun d' => d' = d) := by
  rw [floatUnary, wp_bind]
  exact wantFloats_wp (fun h => one_wp ⟨rfl, h x (by simp)⟩) rfl

theorem icmp_wp (c : IntCond) (x y : Value) :
    (icmp c x y).wp d (fun v d' => ∃ k, d.Appends (.icmp c k x y) [.b1] [v] d') (fun d' => d' = d) := by
  rw [icmp, wp_bind]
  refine wantWords_wp (fun k hk hx hy => ?_) rfl
  exact wp_mono (one_wp ⟨rfl, hk, hx, hy y (by simp)⟩) (fun _ _ h => ⟨k, h⟩) (fun _ h => h)

theorem fcmp_wp (c : FloatCond) (x y : Value) :
    (fcmp c x y).wp d (fun v d' => d.Appends (.fcmp c x y) [.b1] [v] d') (fun d' => d' = d) := by
  rw [fcmp, wp_bind]
  exact wantFloats_wp (fun h => one_wp ⟨rfl, h x (by simp), h y (by simp)⟩) rfl

theorem bint_wp (k : Kind) (x : Value) :
    (bint k x).wp d (fun v d' => d.Appends (.bint k x) [k] [v] d') (fun d' => d' = d) := by
  rw [bint, wp_bind]
  refine kindOf_wp (fun j hj => ?_) rfl
  split
  · exact rfl
  · next e => exact one_wp ⟨rfl, by simpa [hj] using e⟩

theorem toInt_wp (k : Kind) (x : Value) :
    (toInt k x).wp d (fun v d' => d.Appends (.toInt k x) [k] [v] d') (fun d' => d' = d) := by
  rw [toInt, wp_bind]
  exact wantFloats_wp (fun h => one_wp ⟨rfl, h x (by simp)⟩) rfl

theorem ofInt_wp (k : Kind) (x : Value) :
    (ofInt k x).wp d (fun v d' => ∃ narrow, d.Appends (.ofInt k narrow x) [k] [v] d') (fun d' => d' = d) := by
  rw [ofInt, wp_bind]
  refine wantWords_wp (fun j hj hx _ => ?_) rfl
  exact wp_mono (one_wp ⟨rfl, j, hj, hx, rfl⟩) (fun _ _ h => ⟨_, h⟩) (fun _ h => h)

theorem load_wp (k : Kind) (p : Value) (off : Int32) :
    (load k p off).wp d (fun v d' => d.Appends (.load k p off) [k] [v] d') (fun d' => d' = d) := one_wp rfl

theorem store_wp (x p : Value) (off : Int32) :
    (store x p off).wp d (fun _ d' => ∃ k, d.Appends (.store k x p off) [] [] d') (fun d' => d' = d) := by
  rw [store, wp_bind]
  refine kindOf_wp (fun k hk => ?_) rfl
  exact wp_mono (emit_wp ⟨rfl, hk⟩) (fun _ _ h => ⟨k, h⟩) (fun _ h => h)

theorem stackAddr_wp (k : Kind) (s : SlotId) (off : Int32) :
    (stackAddr k s off).wp d (fun v d' => d.Appends (.stackAddr k s off) [k] [v] d') (fun d' => d' = d) := by
  simp only [stackAddr, wp_bind, wp_get]
  split
  · next hs => exact one_wp ⟨rfl, hs⟩
  · exact rfl

theorem useVar_wp (v : VarId) :
    (useVar v).wp d (fun x d' => ∃ k, d.Appends (.useVar k v) [k] [x] d') (fun d' => d' = d) := by
  rw [useVar, wp_bind]
  refine varKind_wp (fun k hk hv => ?_) rfl
  exact wp_mono (one_wp ⟨rfl, hk, hv⟩) (fun _ _ h => ⟨k, h⟩) (fun _ h => h)

theorem defVar_wp (v : VarId) (x : Value) :
    (defVar v x).wp d (fun _ d' => ∃ k, d.Appends (.defVar k v x) [] [] d') (fun d' => d' = d) := by
  rw [defVar, wp_bind]
  refine varKind_wp (fun k hk hv => ?_) rfl
  rw [wp_bind]
  refine kindOf_wp (fun j hj => ?_) rfl
  split
  · exact rfl
  · next e =>
    obtain rfl : j = k := by simpa using e
    exact wp_mono (emit_wp ⟨rfl, hk, hv, hj⟩) (fun _ _ h => ⟨j, h⟩) (fun _ h => h)

theorem call_wp (r : RefId) (args : List Value) :
    (call r args).wp d (fun vs d' => ∃ c, d.body.callees[r]? = some c ∧ d.Appends (.call r args) c.sig.returns vs d')
      (fun d' => d' = d) := by
  simp only [call, wp_bind, wp_get]
  split
  · exact rfl
  · next c hc =>
    split
    · exact rfl
    · next hl =>
      rw [wp_bind]
      refine firstMismatch_wp (by simpa using hl) (fun h => ?_) (fun _ => rfl) rfl
      exact wp_mono (append_wp ⟨c, hc, rfl, h⟩) (fun _ _ h => ⟨c, hc, h⟩) (fun _ h => h)

theorem jump_wp (b : BlockId) (args : List Value) :
    (jump b args).wp d (fun _ d' => d.Appends (.jump b args) [] [] d') (fun d' => d' = d) := by
  rw [jump, wp_bind]
  exact checkEntry_wp (fun h => emit_wp ⟨rfl, h⟩) rfl

theorem brif_wp (c : Value) (b e : BlockId) :
    (brif c b e).wp d (fun _ d' => d.Appends (.brif c b e) [] [] d') (fun d' => d' = d) := by
  simp only [brif, wp_bind]
  exact checkEntry_wp (fun h => checkEntry_wp (fun h' => emit_wp ⟨rfl, h, h'⟩) rfl) rfl

theorem ret_wp (vs : List Value) :
    (ret vs).wp d (fun _ d' => d.Appends (.ret vs) [] [] d') (fun d' => d' = d) := by
  simp only [ret, wp_bind, wp_get]
  split
  · exact rfl
  · next hl =>
    rw [wp_bind]
    exact firstMismatch_wp (by simpa using hl) (fun h => emit_wp ⟨rfl, h⟩) (fun _ => rfl) rfl

/-! ## Bodies made by building -/

/-- Building that uses only the operations meant for it. -/
inductive Recipe : {α : Type} → Build α → Prop
  | pure {α : Type} (a : α) : Recipe (Pure.pure a)
  | throw {α : Type} (e : BuildFault) : Recipe (MonadExcept.throw e : Build α)
  | bind {α β : Type} {x : Build β} {f : β → Build α} : Recipe x → (∀ a, Recipe (f a)) → Recipe (x >>= f)
  | createBlock : Recipe createBlock
  | blockParam (b : BlockId) (k : Kind) : Recipe (blockParam b k)
  | blockParams (b : BlockId) : Recipe (blockParams b)
  | functionParams (b : BlockId) : Recipe (functionParams b)
  | switchTo (b : BlockId) : Recipe (switchTo b)
  | isTerminated : Recipe isTerminated
  | declareVar (v : VarId) (k : Kind) : Recipe (declareVar v k)
  | defVar (v : VarId) (x : Value) : Recipe (defVar v x)
  | useVar (v : VarId) : Recipe (useVar v)
  | createSlot (words : Int64) : Recipe (createSlot words)
  | importInto {ι : Type} (m : Module ι) (id : FuncId) : Recipe (m.importInto id)
  | iconst (k : Kind) (n : Int64) : Recipe (iconst k n)
  | fconst (bits : UInt64) : Recipe (fconst bits)
  | iconcat (lo hi : Value) : Recipe (iconcat lo hi)
  | int (op : IntOp) (x y : Value) : Recipe (int op x y)
  | shift (op : ShiftOp) (x y : Value) : Recipe (shift op x y)
  | intUnary (op : IntUnary) (x : Value) : Recipe (intUnary op x)
  | float (op : FloatOp) (x y : Value) : Recipe (float op x y)
  | floatUnary (op : FloatUnary) (x : Value) : Recipe (floatUnary op x)
  | icmp (c : IntCond) (x y : Value) : Recipe (icmp c x y)
  | fcmp (c : FloatCond) (x y : Value) : Recipe (fcmp c x y)
  | bint (k : Kind) (x : Value) : Recipe (bint k x)
  | toInt (k : Kind) (x : Value) : Recipe (toInt k x)
  | ofInt (k : Kind) (x : Value) : Recipe (ofInt k x)
  | load (k : Kind) (pointer : Value) (offset : Int32) : Recipe (load k pointer offset)
  | store (x pointer : Value) (offset : Int32) : Recipe (store x pointer offset)
  | stackAddr (k : Kind) (s : SlotId) (offset : Int32) : Recipe (stackAddr k s offset)
  | call (r : RefId) (args : List Value) : Recipe (call r args)
  | jump (b : BlockId) (args : List Value) : Recipe (jump b args)
  | brif (cond : Value) (dest alt : BlockId) : Recipe (brif cond dest alt)
  | ret (vals : List Value) : Recipe (ret vals)

theorem Recipe.traced {b : Build α} (h : Recipe b) : Traced b := by
  induction h with
  | pure a => exact .pure a
  | throw e => exact .throw e
  | bind _ _ hx hf => exact .bind hx hf
  | createBlock => exact .createBlock
  | blockParam b k => exact .blockParam b k
  | blockParams b => exact .blockParams b
  | functionParams b => exact .functionParams b
  | switchTo b => exact .switchTo b
  | isTerminated => exact .isTerminated
  | declareVar v k => exact .declareVar v k
  | createSlot w => exact .createSlot w
  | importInto m id => exact .importInto m id
  | iconst k n => exact .of_appends (fun _ => iconst_wp k n) ⟨n, rfl⟩
  | defVar v x => exact .of_some (fun _ => defVar_wp v x) fun _ _ => trivial
  | useVar v => exact .of_some (fun _ => useVar_wp v) fun _ _ => trivial
  | fconst w => exact .of_appends (fun _ => fconst_wp w) trivial
  | iconcat x y => exact .of_appends (fun _ => iconcat_wp x y) trivial
  | int op x y => exact .of_some (fun _ => int_wp op x y) fun _ _ => trivial
  | shift op x y => exact .of_appends (fun _ => shift_wp op x y) trivial
  | intUnary op x => exact .of_some (fun _ => intUnary_wp op x) fun _ _ => trivial
  | float op x y => exact .of_appends (fun _ => float_wp op x y) trivial
  | floatUnary op x => exact .of_appends (fun _ => floatUnary_wp op x) trivial
  | icmp c x y => exact .of_some (fun _ => icmp_wp c x y) fun _ _ => trivial
  | fcmp c x y => exact .of_appends (fun _ => fcmp_wp c x y) trivial
  | bint k x => exact .of_appends (fun _ => bint_wp k x) trivial
  | toInt k x => exact .of_appends (fun _ => toInt_wp k x) trivial
  | ofInt k x => exact .of_some (fun _ => ofInt_wp k x) fun _ _ => trivial
  | load k p off => exact .of_appends (fun _ => load_wp k p off) trivial
  | store x p off => exact .of_some (fun _ => store_wp x p off) fun _ _ => trivial
  | stackAddr k s off => exact .of_appends (fun _ => stackAddr_wp k s off) trivial
  | call r args =>
    exact .of_some (fun _ => wp_mono (call_wp r args) (fun _ _ ⟨c, _, h⟩ => ⟨c, h⟩) (fun _ h => h)) fun _ _ => trivial
  | jump b args => exact .of_appends (fun _ => jump_wp b args) trivial
  | brif c b e => exact .of_appends (fun _ => brif_wp c b e) trivial
  | ret vs => exact .of_appends (fun _ => ret_wp vs) trivial

theorem Recipe.safe {b : Build α} (h : Recipe b) : Safe b := h.traced.safe

theorem Safe.leads {b : Build α} (h : Safe b) (hd : d.Sound) : d.Leads (b d).2 := by
  have := h d hd
  unfold wp at this
  split at this
  · next e => rw [e]; exact this
  · next e => rw [e]; exact this

end Build

/-- The body is what some building leaves behind, finished or refused on the way. -/
def Body.Built (f : Body) : Prop :=
  ∃ (name : Bytes) (sig : Signature) (α : Type) (b : Build α),
    Build.Recipe b ∧ (b { body := { name, sig } }).2.body = f

theorem Body.Built.path {f : Body} (h : f.Built) :
    ∃ name sig d, FuncDraft.Path { body := { name, sig } } d ∧ d.body = f := by
  obtain ⟨name, sig, α, b, hb, rfl⟩ := h
  exact ⟨name, sig, _, hb.traced.path _, rfl⟩

theorem Body.Built.wellFormed {f : Body} (h : f.Built) : f.WellFormed := by
  obtain ⟨name, sig, d, hp, rfl⟩ := h.path
  exact (hp.leads (.start name sig)).sound.body

end RecordMill.Machine

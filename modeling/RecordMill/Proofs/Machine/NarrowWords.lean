import RecordMill.Proofs.Machine.Spans
import RecordMill.Proofs.Lowering.Start

/-!
# Values of 32 bits

A value of 32 bits has a whole word of its frame. Branches, returns and calls read all of that word, so it
should be below 2^32. Constants and arithmetic cut their results to 32 bits; loads, addresses of slots and
conversions from whole numbers do not. As long as those three and the host yield words below 2^32, all values
of 32 bits hold such words.
-/

namespace RecordMill.Machine

/-! ## Words below 2^32 -/

def Word.Narrow (w : UInt64) : Prop := w.toNat < 2 ^ 32

namespace Word

instance (w : UInt64) : Decidable (Narrow w) := inferInstanceAs (Decidable (w.toNat < 2 ^ 32))

theorem narrow_zero : Narrow 0 := by decide

theorem narrow_and (x : UInt64) {y : UInt64} (hy : Narrow y) : Narrow (x &&& y) := by
  unfold Narrow
  rw [UInt64.toNat_and]
  exact Nat.lt_of_le_of_lt Nat.and_le_right hy

theorem narrow_low (x : UInt64) : Narrow (low x) := narrow_and x (by decide)

theorem narrow_int32 {op : IntOp} {x y w : UInt64} (h : int32 op x y = .ok w) : Narrow w := by
  unfold int32 at h
  cases hw : int op (signed32 x) (signed32 y) with
  | error t =>
    rw [hw] at h
    cases h
  | ok v =>
    rw [hw] at h
    cases h
    exact narrow_low v

theorem narrow_toInt32 (x : UInt64) : Narrow (toInt32 x) := narrow_low _

end Word

/-- Dealt out to values of these kinds, the words leave in each value of 32 bits a word below 2^32. -/
def Narrow : List Kind → List UInt64 → Prop
  | [], _ => True
  | k :: ks, ws => (k = .i32 → Word.Narrow (ws.headD 0)) ∧ Narrow ks (ws.drop k.words)

namespace Narrow

theorem nil (ks : List Kind) : Narrow ks [] := by
  induction ks with
  | nil => trivial
  | cons k ks ih => exact ⟨fun _ => Word.narrow_zero, by simpa using ih⟩

theorem append_zeros {ks : List Kind} {ws : List UInt64} (h : Narrow ks ws) (n : Nat) :
    Narrow ks (ws ++ List.replicate n 0) := by
  induction ks generalizing ws n with
  | nil => trivial
  | cons k ks ih =>
    obtain ⟨hhead, hrest⟩ := h
    refine ⟨fun hk => ?_, ?_⟩
    · cases ws with
      | nil => cases n <;> exact Word.narrow_zero
      | cons w ws => exact hhead hk
    · rw [List.drop_append, List.drop_replicate]
      exact ih hrest _

theorem single {k : Kind} {w : UInt64} (h : k = .i32 → Word.Narrow w) : Narrow [k] [w] := ⟨h, trivial⟩

end Narrow

/-! ## Cells -/

/-- The kinds of values; `invalid` for one that does not exist. -/
def Body.kindsOf (f : Body) (vs : List Value) : List Kind := vs.map fun v => f.values.getD v .invalid

theorem Body.getD_eq_i32 {f : Body} {v : Value} : f.values.getD v .invalid = .i32 ↔ f.values[v]? = some .i32 := by
  rw [Array.getD_eq_getD_getElem?]
  cases f.values[v]? <;> simp

theorem Body.kindsOf_eq {f : Body} {vs : List Value} {ks : List Kind} (h : vs.map (f.values[·]?) = ks.map some) :
    f.kindsOf vs = ks := by
  have hmap := congrArg (List.map (·.getD Kind.invalid)) h
  simpa [kindsOf, Function.comp_def, Array.getD_eq_getD_getElem?] using hmap

/-- Every value and variable of 32 bits holds a word below 2^32. -/
structure Cells.Canonical (f : Body) (c : Cells) : Prop where
  size : ∀ v, (c.value v).length = (f.values.getD v .invalid).words
  value : ∀ {v : Value}, f.values[v]? = some .i32 → Word.Narrow (c.word v)
  var : ∀ {v : VarId}, f.vars[v]? = some .i32 → Word.Narrow ((c.var v).headD 0)

namespace Cells

variable {f : Body} {c : Cells}

theorem headD_fill (old ws : List UInt64) :
    (fill old ws).headD 0 = if old = [] ∨ ws = [] then old.headD 0 else ws.headD 0 := by
  cases old <;> cases ws <;> simp [fill]

namespace Canonical

theorem blank (f : Body) : (Cells.blank f).Canonical f where
  size v := List.length_replicate
  value {v} h := by
    show Word.Narrow ((List.replicate (f.values.getD v .invalid).words 0).headD 0)
    rw [Array.getD_eq_getD_getElem?, h]
    exact Word.narrow_zero
  var {v} h := by
    show Word.Narrow ((List.replicate (f.vars.getD v .invalid).words 0).headD 0)
    rw [Array.getD_eq_getD_getElem?, h]
    exact Word.narrow_zero

theorem setValue (h : c.Canonical f) {v : Value} {ws : List UInt64}
    (hw : f.values[v]? = some .i32 → Word.Narrow (ws.headD 0)) :
    (c.setValue v ws).Canonical f where
  size u := (c.length_setValue v u ws).trans (h.size u)
  value {u} hu := by
    show Word.Narrow ((if u = v then fill (c.value v) ws else c.value u).headD 0)
    split
    · next huv =>
      subst huv
      rw [headD_fill]
      split
      · exact h.value hu
      · exact hw hu
    · exact h.value hu
  var := h.var

theorem setVar (h : c.Canonical f) {v : VarId} {ws : List UInt64}
    (hw : f.vars[v]? = some .i32 → Word.Narrow (ws.headD 0)) :
    (c.setVar v ws).Canonical f where
  size := h.size
  value := h.value
  var {u} hu := by
    show Word.Narrow ((if u = v then ws else c.var u).headD 0)
    split
    · next huv => exact hw (huv ▸ hu)
    · exact h.var hu

theorem deal (h : c.Canonical f) {vs : List Value} {ws : List UInt64} (hw : Narrow (f.kindsOf vs) ws) :
    (c.deal vs ws).Canonical f := by
  induction vs generalizing c ws with
  | nil => exact h
  | cons v vs ih =>
    obtain ⟨hhead, hrest⟩ := hw
    refine ih (h.setValue fun hv => hhead (Body.getD_eq_i32.2 hv)) ?_
    rw [h.size]
    exact hrest

theorem dealWord (h : c.Canonical f) {v : Value} {k : Kind} {w : UInt64} (hv : f.values[v]? = some k)
    (hw : k = .i32 → Word.Narrow w) : (c.deal [v] [w]).Canonical f := by
  refine h.deal ?_
  rw [show f.kindsOf [v] = [k] from Body.kindsOf_eq (by simpa using hv)]
  exact .single hw

theorem deal_results (h : c.Canonical f) {vs : List Value} {ws : List UInt64}
    (hw : ∀ v ∈ vs, f.values[v]? = some .i32 → Word.Narrow ((c.deal vs ws).word v)) : (c.deal vs ws).Canonical f where
  size u := (c.length_deal vs ws u).trans (h.size u)
  value {u} hu := by
    by_cases hmem : u ∈ vs
    · exact hw u hmem hu
    · unfold Cells.word
      rw [c.deal_value_of_not_mem ws hmem]
      exact h.value hu
  var {u} hu := by
    rw [c.deal_var]
    exact h.var hu

theorem words (h : c.Canonical f) (vs : List Value) : Narrow (f.kindsOf vs) (c.words vs) := by
  induction vs with
  | nil => trivial
  | cons v vs ih =>
    have hsize := h.size v
    refine ⟨fun hk => ?_, ?_⟩
    · have hk : f.values.getD v .invalid = .i32 := hk
      obtain ⟨w, hw⟩ : ∃ w, c.value v = [w] := List.length_eq_one_iff.1 (by rw [hsize, hk]; rfl)
      have hword := h.value (Body.getD_eq_i32.1 hk)
      simp only [Cells.word, hw] at hword
      simpa [Cells.words, hw] using hword
    · show Narrow (f.kindsOf vs) ((c.value v ++ c.words vs).drop _)
      rw [← hsize, List.drop_left]
      exact ih

end Canonical

end Cells

/-! ## Constants -/

def Action.IsCut : Action → Prop
  | .iconst k imm => k = .i32 → Word.Narrow imm
  | _ => True

theorem Action.IsMade.isCut {a : Action} (h : a.IsMade) : a.IsCut := by
  cases a
  case iconst k imm =>
    obtain ⟨n, rfl⟩ := h
    intro hk
    rw [Build.constant, if_pos hk]
    exact Word.narrow_low _
  all_goals trivial

theorem Body.Built.isCut {f : Body} (h : f.Built) {i : Inst} (hi : i ∈ f.insts) : i.action.IsCut := by
  obtain ⟨name, sig, d, hp, rfl⟩ := h.path
  exact (hp.isMade (fun i hi => absurd hi (Array.not_mem_empty i)) i hi).isCut

/-! ## Instructions -/

/-- The actions that yield a whole word for a value of 32 bits: it is as it lies in memory, an address, or a
double. -/
def Action.yieldsWhole : Action → Bool
  | .load .. | .stackAddr .. | .ofInt .. => true
  | _ => false

section

variable {f : Body} {stack : UInt64} {c c' : Cells} {mem mem' : Memory}

theorem Cells.Canonical.act (h : c.Canonical f) {i : Inst} (hi : i.Fits f) (hcut : i.action.IsCut)
    (hwhole : i.action.yieldsWhole = false) (hact : i.action.act f stack c mem i.results = some (.ok c', mem')) :
    c'.Canonical f := by
  obtain ⟨first, ks, hres, hks, hfit⟩ := hi
  rw [hres] at hact
  -- The only result, of kind `k`, gets the word `w`.
  have one : ∀ {k : Kind} {w : UInt64}, ks = [k] → (k = .i32 → Word.Narrow w) → c' = c.deal [first] [w] →
      c'.Canonical f := by
    rintro k w rfl hw rfl
    exact h.dealWord (hks 0 k rfl) hw
  have wide : ∀ {k : Kind} {ws : List UInt64}, ks = [k] → k ≠ .i32 → c' = c.deal [first] ws → c'.Canonical f := by
    rintro k ws rfl hk rfl
    refine h.deal ?_
    rw [show f.kindsOf [first] = [k] from Body.kindsOf_eq (by simpa using hks 0 k rfl)]
    exact ⟨fun e => absurd e hk, trivial⟩
  cases ha : i.action <;> rw [ha] at hfit hact hcut hwhole
  case iconst k imm =>
    obtain ⟨rfl, -⟩ := hfit
    cases hact
    exact one rfl hcut rfl
  case fconst imm =>
    obtain rfl : ks = _ := hfit
    cases hact
    exact wide rfl (by decide) rfl
  case concat x y =>
    obtain ⟨rfl, -⟩ := hfit
    cases hact
    exact wide rfl (by decide) rfl
  case int op k x y =>
    obtain ⟨rfl, -⟩ := hfit
    simp only [Action.act, Option.some.injEq, Prod.mk.injEq] at hact
    cases hw : (if k == .i32 then Word.int32 op else Word.int op) (c.word x) (c.word y) with
    | error t =>
      rw [hw] at hact
      cases hact.1
    | ok w =>
      rw [hw] at hact
      cases hact.1
      refine one rfl (fun hk => ?_) rfl
      subst hk
      exact Word.narrow_int32 hw
  case shift op x y =>
    obtain ⟨rfl, -⟩ := hfit
    cases hact
    exact wide rfl (by decide) rfl
  case intUnary op k x =>
    obtain ⟨rfl, -⟩ := hfit
    cases hact
    refine one rfl (fun hk => ?_) rfl
    subst hk
    exact Word.narrow_low _
  case float op x y =>
    obtain ⟨rfl, -⟩ := hfit
    cases hact
    exact wide rfl (by decide) rfl
  case floatUnary op x =>
    obtain ⟨rfl, -⟩ := hfit
    cases hact
    exact wide rfl (by decide) rfl
  case icmp cond k x y =>
    obtain ⟨rfl, -⟩ := hfit
    simp only [Action.act] at hact
    split at hact
    · cases hact
      exact wide rfl (by decide) rfl
    · cases hact
  case fcmp cond x y =>
    obtain ⟨rfl, -⟩ := hfit
    simp only [Action.act] at hact
    split at hact
    · cases hact
      exact wide rfl (by decide) rfl
    · cases hact
  case bint k x =>
    obtain ⟨rfl, -⟩ := hfit
    cases hact
    exact one rfl (fun _ => Word.narrow_and _ (by decide)) rfl
  case toInt k x =>
    obtain ⟨rfl, -⟩ := hfit
    cases hact
    refine one rfl (fun hk => ?_) rfl
    subst hk
    exact Word.narrow_toInt32 _
  case store k x p off =>
    simp only [Action.act, Option.some.injEq, Prod.mk.injEq] at hact
    cases hs : (mem.storeAll (c.word p + off.toInt64.toUInt64) (c.value x)).1 with
    | error t =>
      rw [hs] at hact
      cases hact.1
    | ok u =>
      rw [hs] at hact
      cases hact.1
      exact h
  case useVar k v =>
    obtain ⟨rfl, -, hv⟩ := hfit
    cases hact
    refine h.deal ?_
    rw [show f.kindsOf (List.range' first [k].length) = [k] from Body.kindsOf_eq (by simpa using hks 0 k rfl)]
    refine ⟨fun hk => ?_, trivial⟩
    subst hk
    exact h.var hv
  case defVar k v x =>
    obtain ⟨-, -, hv, hx⟩ := hfit
    cases hact
    refine h.setVar fun hk => ?_
    obtain rfl : k = .i32 := Option.some.inj (hv.symm.trans hk)
    exact h.value hx
  case load | stackAddr | ofInt => cases hwhole
  case call | jump | brif | ret => cases hact

end

theorem Action.act_yieldsWhole {f : Body} {stack : UInt64} {c c' : Cells} {mem mem' : Memory} {a : Action}
    {rs : List Value} (ha : a.yieldsWhole) (h : a.act f stack c mem rs = some (.ok c', mem')) :
    ∃ ws, c' = c.deal rs ws := by
  cases a
  case load k p off =>
    simp only [Action.act, Option.some.injEq, Prod.mk.injEq] at h
    cases hl : mem.loadAll (c.word p + off.toInt64.toUInt64) k.words with
    | error t =>
      rw [hl] at h
      cases h.1
    | ok ws =>
      rw [hl] at h
      cases h.1
      exact ⟨ws, rfl⟩
  case ofInt k narrow x =>
    cases h
    exact ⟨_, rfl⟩
  case stackAddr k slot off =>
    cases h
    exact ⟨_, rfl⟩
  all_goals cases ha

theorem Body.kindsOf_entry {f : Body} {t : Target} {c : Compiled} (h : f.compile t = .ok c) :
    f.kindsOf (f.blocks.getD 0 {}).params = f.sig.params := by
  have hnone : f.entryError? = none := by
    unfold compile at h
    dsimp only at h
    split at h
    · cases h
    · cases h
    · assumption
  unfold entryError? at hnone
  dsimp only at hnone
  split at hnone
  · cases hnone
  · next hlen =>
    rw [Option.map_eq_none_iff, List.find?_eq_none] at hnone
    refine List.ext_getElem (not_not.1 hlen) fun i hi hi' => not_not.1 fun hne => ?_
    refine hnone ((_, f.sig.params[i]), i) (List.mk_mem_zipIdx_iff_getElem?.2 ?_) (decide_eq_true hne)
    exact List.getElem?_zip_eq_some.2 ⟨List.getElem?_eq_getElem hi, List.getElem?_eq_getElem hi'⟩

/-! ## Frames -/

/-- Every value and variable of 32 bits of a frame is a word below 2^32. -/
structure Frame.Canonical (f : Body) (fr : Frame) : Prop where
  value : ∀ {v : Value}, f.values[v]? = some .i32 → Word.Narrow (Frame.read fr.words (f.valueAt v))
  var : ∀ {v : VarId}, f.vars[v]? = some .i32 → Word.Narrow (Frame.read fr.words (f.varAt v))

variable {ι σ : Type} {m : Module ι}

def Frame.instruction? (m : Module ι) (fr : Frame) : Option Inst := do
  let f ← m.body? fr.func
  (f.code fr.block)[(f.code fr.block).length - 1 - fr.steps.length]?

def Inst.CallsHost (m : Module ι) (f : Body) (i : Inst) : Prop :=
  ∃ r args e d h, i.action = .call r args ∧ f.callees[r]? = some e ∧ m.funcs[e.id]? = some d ∧ d.host = some h

/-- If the innermost frame does such an instruction, it leaves words below 2^32 in the results of 32 bits. -/
def State.Yields (m : Module ι) (p : Body → Inst → Prop) (st st' : State σ) : Prop :=
  ∀ fr ∈ st.frames.head?, ∀ fr' ∈ st'.frames.head?, ∀ f i, m.body? fr.func = some f →
    fr.instruction? m = some i → p f i →
    ∀ v ∈ i.results, f.values[v]? = some .i32 → Word.Narrow (Frame.read fr'.words (f.valueAt v))

/-- Such instructions leave words below 2^32 in the first `n` steps of a call. -/
def Module.Yields (m : Module ι) (perform : ι → List UInt64 → HostM σ (List UInt64)) (id : FuncId) (args : List UInt64)
    (out : Outside σ) (n : Nat) (p : Body → Inst → Prop) : Prop :=
  ∀ k < n, ∀ st st', m.Passes perform id args out k st → m.Passes perform id args out (k + 1) st' → st.Yields m p st'

theorem FrameOf.instruction {f : Body} {fr : Frame} {cf : CellFrame} (h : FrameOf m f fr cf) :
    fr.instruction? m = (f.code cf.block)[cf.next]? := by
  have hbody := h.body
  rw [h.func] at hbody
  obtain ⟨d, c, cb, hd, hf, hblocks, hcb, hsteps, hle, hexit, hsize⟩ := h.code
  obtain ⟨t, ht⟩ := hf.code
  obtain ⟨cb', hcb', ⟨last, hinsts, hlen, -⟩, -⟩ := (Body.laid_of_compile ht).2.2.2 h.within
  obtain rfl : cb = cb' := Option.some.inj (hcb.symm.trans hcb')
  have hnext : (f.code fr.block).length - 1 - fr.steps.length = cf.next := by
    rw [hsteps, List.length_drop]
    rw [List.length_dropLast] at hlen
    omega
  simp only [Frame.instruction?, hbody, Option.bind_eq_bind, Option.bind_some, hnext, h.block]

theorem FrameOf.isCut (hm : m.Compiles) {f : Body} {fr : Frame} {cf : CellFrame} (h : FrameOf m f fr cf) {b : BlockId}
    {i : Inst} (hi : i ∈ f.code b) : i.action.IsCut := by
  obtain ⟨d, c, cb, hd, hf, -⟩ := h.code
  obtain ⟨f', t, hsource, -, -, hbuilt, -⟩ := hm hd hf.host hf.compiled
  obtain rfl : f' = f := Option.some.inj (hsource.symm.trans hf.source)
  exact hbuilt.isCut (Body.mem_code hi)

theorem Lands.kinds {f : Body} {ks : List Kind} {at_ : Nat} {vs : List Value} (h : Lands f ks at_ vs) :
    vs.map (f.values[·]?) = ks.map some := by
  obtain ⟨first, rfl, hv, -⟩ := h
  refine List.ext_getElem (by simp) fun n hn hn' => ?_
  have hks : n < ks.length := by simpa using hn'
  simpa using hv n _ (List.getElem?_eq_getElem hks)

theorem Shows.canonical {f : Body} {fr : Frame} {c : Cells} (h : Shows f fr.words c) (hc : c.Canonical f) :
    fr.Canonical f where
  value {v} hv := by
    rw [h.word hv (by decide)]
    exact hc.value hv
  var {v} hv := by
    have hw := hc.var hv
    rwa [← h.var hv] at hw

/-! ## Runs -/

/-- All values of 32 bits are below 2^32 in a call of the function `id`. -/
structure CellState.Canonical (m : Module ι) (id : FuncId) (cst : CellState σ) : Prop where
  cells : ∀ cf ∈ cst.frames, ∀ f, m.body? cf.func = some f → cf.cells.Canonical f
  first : ∀ cf ∈ cst.frames.getLast?, cf.func = id

section

variable {perform : ι → List UInt64 → HostM σ (List UInt64)} {id : FuncId} {args : List UInt64} {out : Outside σ}

theorem Module.enter_canonical (hm : m.Laid) {depth : Nat} {vs : List Value} {mem mem' : Memory} {cf : CellFrame}
    {d : FuncDecl ι} (hd : m.funcs[id]? = some d) (hhost : d.host = none) (hargs : Narrow d.sig.params args)
    (h : m.enter id depth args vs mem = .ok (cf, mem')) :
    cf.func = id ∧ ∀ f, m.body? cf.func = some f → cf.cells.Canonical f := by
  unfold enter at h
  cases hbody : m.body? id with
  | none =>
    simp only [hd, hbody] at h
    cases h
  | some f =>
    cases hc : d.compiled with
    | none =>
      simp only [hd, hbody, hc] at h
      cases h
    | some c =>
      simp only [hd, hbody, hc] at h
      split at h
      · cases h
      · obtain ⟨f', hf⟩ := hm hd hhost hc
        obtain ⟨t, ht⟩ := hf.code
        obtain rfl : f' = f := by
          rw [body?, hd, Option.bind_some, hf.source] at hbody
          exact Option.some.inj hbody
        cases hp : mem.push c.stackArea with
        | error t =>
          rw [hp] at h
          cases h
        | ok p =>
          rw [hp] at h
          cases h
          refine ⟨rfl, fun g hg => ?_⟩
          obtain rfl : f' = g := Option.some.inj (hbody.symm.trans hg)
          refine (Cells.Canonical.blank f').deal ?_
          rw [Body.kindsOf_entry ht, hf.sig]
          exact hargs

namespace CellState.Canonical

variable {f : Body} {cf cf' : CellFrame} {cfs : List CellFrame} {out' : Outside σ}

theorem innermost (h : CellState.Canonical m id ⟨out, cf :: cfs⟩) (hbody : m.body? cf.func = some f) :
    cf.cells.Canonical f :=
  h.cells cf List.mem_cons_self f hbody

theorem below (h : CellState.Canonical m id ⟨out, cf :: cf' :: cfs⟩) : CellState.Canonical m id ⟨out', cf' :: cfs⟩ :=
  ⟨fun x hx => h.cells x (List.mem_cons_of_mem _ hx), fun x hx => h.first x (by simpa using hx)⟩

theorem replace (h : CellState.Canonical m id ⟨out, cf :: cfs⟩) (hbody : m.body? cf.func = some f)
    (hfunc : cf'.func = cf.func) (hc : cf'.cells.Canonical f) : CellState.Canonical m id ⟨out', cf' :: cfs⟩ where
  cells x hx g hg := by
    rcases List.mem_cons.1 hx with rfl | hx
    · rw [hfunc] at hg
      obtain rfl : f = g := Option.some.inj (hbody.symm.trans hg)
      exact hc
    · exact h.cells x (List.mem_cons_of_mem _ hx) g hg
  first x hx := by
    cases cfs with
    | nil =>
      obtain rfl : cf' = x := by simpa using hx
      exact hfunc.trans (h.first cf (by simp))
    | cons y ys => exact h.first x (by simpa using hx)

theorem push (h : CellState.Canonical m id ⟨out, cf :: cfs⟩)
    (hc : ∀ f, m.body? cf'.func = some f → cf'.cells.Canonical f) :
    CellState.Canonical m id ⟨out', cf' :: cf :: cfs⟩ where
  cells x hx := by
    rcases List.mem_cons.1 hx with rfl | hx
    · exact hc
    · exact h.cells x hx
  first x hx := h.first x (by simpa using hx)

theorem results (h : CellState.Canonical m id ⟨out, cf :: cfs⟩) {st st' : State σ} {p : Body → Inst → Prop}
    (hst : StateOf m st ⟨out, cf :: cfs⟩) (hbody : m.body? cf.func = some f) {i : Inst}
    (hi : (f.code cf.block)[cf.next]? = some i) (hp : p f i) (hy : st.Yields m p st') {ws : List UInt64} {n : Nat}
    (hst' : StateOf m st' ⟨out', { cf with next := n, cells := cf.cells.deal i.results ws } :: cfs⟩) :
    (cf.cells.deal i.results ws).Canonical f := by
  refine (h.innermost hbody).deal_results fun v hv hk => ?_
  cases hst with
  | @cons _ g fr _ _ _ hfr =>
    cases hst' with
    | @cons _ g' fr' _ _ _ hfr' =>
      obtain rfl : g' = f := Option.some.inj (hfr'.body.symm.trans hbody)
      have hinst := hfr.instruction
      obtain rfl : g = g' := Option.some.inj (hfr.body.symm.trans hbody)
      have hw := hy fr rfl fr' rfl g i (hfr.func ▸ hbody) (hinst.trans hi) hp v hv hk
      rwa [hfr'.shows.word hk (by decide)] at hw

theorem exec (hm : m.Compiles) (h : CellState.Canonical m id ⟨out, cf :: cfs⟩) {st st' : State σ}
    (hst : StateOf m st ⟨out, cf :: cfs⟩) (hbody : m.body? cf.func = some f) {i : Inst}
    (hi : (f.code cf.block)[cf.next]? = some i) {c : Cells}
    (hexec : i.exec m perform f cf.stack cf.cells out = some (.ok c, out'))
    (hst' : StateOf m st' ⟨out', { cf with next := cf.next + 1, cells := c } :: cfs⟩)
    (hhost : st.Yields m (Inst.CallsHost m) st') (hwhole : st.Yields m (fun _ i => i.action.yieldsWhole) st') :
    c.Canonical f := by
  by_cases hcall : ∃ r args, i.action = .call r args
  · obtain ⟨r, args, ha⟩ := hcall
    simp only [Inst.exec, ha, Option.bind_eq_bind, Option.bind_eq_some_iff] at hexec
    obtain ⟨e, he, ⟨rs, _⟩, hp, hr⟩ := hexec
    obtain ⟨d, hd, hf⟩ := Option.bind_eq_some_iff.1 hp
    obtain ⟨g, hg, -⟩ := Option.bind_eq_some_iff.1 hf
    cases rs with
    | error t => cases hr
    | ok rs =>
      cases hr
      exact h.results hst hbody hi ⟨r, args, e, d, g, ha, he, hd, hg⟩ hhost hst'
  · have hcall : ∀ r args, i.action ≠ .call r args := fun r args ha => hcall ⟨r, args, ha⟩
    rw [Inst.exec_of_act hcall, Option.map_eq_some_iff] at hexec
    obtain ⟨⟨r, mem⟩, hact, hr⟩ := hexec
    obtain ⟨rfl, -⟩ := Prod.mk.inj hr
    cases hw : i.action.yieldsWhole with
    | true =>
      obtain ⟨ws, rfl⟩ := Action.act_yieldsWhole hw hact
      exact h.results hst hbody hi hw hwhole hst'
    | false =>
      cases hst with
      | cons hfr =>
        obtain rfl := Option.some.inj (hfr.body.symm.trans hbody)
        have hmem := List.mem_of_getElem? hi
        obtain ⟨d, c', cb, hd, hf, -⟩ := hfr.code
        exact (h.innermost hbody).act (hf.wellFormed.fits hmem) (hfr.isCut hm hmem) hw hact

theorem leave (hm : m.Compiles) (h : CellState.Canonical m id ⟨out, cf :: cfs⟩) {st : State σ}
    (hst : StateOf m st ⟨out, cf :: cfs⟩) (hbody : m.body? cf.func = some f) {i : Inst}
    (hi : (f.code cf.block)[cf.next]? = some i) (hexec : i.exec m perform f cf.stack cf.cells out = none) :
    (CellState.leave m perform f i out cf cfs).Comes (CellState.Canonical m id)
      fun e => ∀ rs out', e = .done rs out' → cfs = [] ∧ Narrow f.sig.returns rs := by
  cases hst with
  | @cons _ g fr _ frs _ hfr hstk =>
    obtain rfl := Option.some.inj (hfr.body.symm.trans hbody)
    have hmem := List.mem_of_getElem? hi
    obtain ⟨d, c, cb, hd, hf, -⟩ := hfr.code
    obtain ⟨first, ks, hres, hks, hfit⟩ := hf.wellFormed.fits hmem
    have hc := h.innermost hbody
    cases ha : i.action <;> rw [ha] at hfit
    case jump dest args =>
      have hj := hf.jumps i (Body.mem_code hmem)
      simp only [ha, Action.matchesEntry, decide_eq_true_eq] at hj
      simp only [CellState.leave, ha]
      refine h.replace hbody rfl (hc.deal ?_)
      have hkinds : g.kindsOf args = g.kindsOf (g.blocks.getD dest {}).params := by
        have hmap := congrArg (List.map (·.getD Kind.invalid)) hj
        simpa [Body.kindsOf, Function.comp_def, Array.getD_eq_getD_getElem?] using hmap
      rw [← hkinds]
      exact hc.words args
    case brif cond dest alt =>
      simp only [CellState.leave, ha]
      exact h.replace hbody rfl hc
    case ret vs =>
      simp only [CellState.leave, ha]
      have hrs := hc.words vs
      rw [Body.kindsOf_eq hfit.2] at hrs
      cases hstk with
      | nil =>
        intro rs out' e
        cases e
        exact ⟨rfl, hrs⟩
      | @cons _ _ _ g' fr' cf' frs' cfs' hfr' hlands hstk' =>
        have hb : CellState.Canonical m id ⟨out, cf' :: cfs'⟩ := h.below
        refine hb.replace hfr'.body rfl ((hb.innermost hfr'.body).deal ?_)
        rw [Body.kindsOf_eq hlands.kinds]
        exact hrs
    case call r args =>
      obtain ⟨e, he, rfl, hargs⟩ := hfit
      obtain ⟨d', hd', hsig⟩ := hf.callees he
      rw [Inst.exec_of_call ha he, Option.map_eq_none_iff] at hexec
      simp only [CellState.leave, ha, he, CellState.call, hexec]
      cases henter : m.enter e.id (({ cf with next := cf.next + 1 } : CellFrame) :: cfs).length
        (cf.cells.words args) i.results
          out.memory with
      | error t =>
        intro rs out' e
        cases e
      | ok p =>
        have hhost : d'.host = none := by
          cases hh : d'.host with
          | none => rfl
          | some x =>
            rw [Module.perform_of_host hd' hh] at hexec
            split at hexec <;> cases hexec
        have hargs : Narrow d'.sig.params (cf.cells.words args) := by
          rw [hsig, ← Body.kindsOf_eq hargs]
          exact hc.words args
        obtain ⟨-, hcanonical⟩ := Module.enter_canonical hm.laid hd' hhost hargs henter
        have hnext : CellState.Canonical m id ⟨out, { cf with next := cf.next + 1 } :: cfs⟩ := h.replace hbody rfl hc
        exact hnext.push hcanonical
    all_goals
      simp only [CellState.leave, ha]
      intro rs out' e
      cases e

theorem step (hm : m.Compiles) {st st' : State σ} {cst cst' : CellState σ} (h : CellState.Canonical m id cst)
    (hst : StateOf m st cst) (hst' : StateOf m st' cst') (hstep : CellState.step m perform cst = .next cst')
    (hhost : st.Yields m (Inst.CallsHost m) st') (hwhole : st.Yields m (fun _ i => i.action.yieldsWhole) st') :
    CellState.Canonical m id cst' := by
  cases hst with
  | nil => cases hstep
  | @cons out f fr cf frs cfs hfr hstk =>
    obtain ⟨i, hi⟩ := hfr.exists_inst
    rw [CellState.step_of_code hfr.body hi] at hstep
    cases hexec : i.exec m perform f cf.stack cf.cells out with
    | none =>
      have hleave := h.leave hm (.cons hfr hstk) hfr.body hi hexec
      rw [hexec] at hstep
      dsimp only at hstep
      rw [hstep] at hleave
      exact hleave
    | some r =>
      rw [hexec] at hstep
      obtain ⟨_ | c, out'⟩ := r
      · cases hstep
      · cases hstep
        exact h.replace hfr.body rfl (h.exec hm (.cons hfr hstk) hfr.body hi hexec hst' hhost hwhole)

theorem done (hm : m.Compiles) {st : State σ} {cst : CellState σ} (h : CellState.Canonical m id cst)
    (hst : StateOf m st cst) {rs : List UInt64} {out' : Outside σ}
    (hstep : CellState.step m perform cst = .ended (.done rs out')) {d : FuncDecl ι} (hd : m.funcs[id]? = some d) :
    Narrow d.sig.returns rs := by
  cases hst with
  | nil =>
    cases hstep
    exact .nil _
  | @cons out f fr cf frs cfs hfr hstk =>
    obtain ⟨i, hi⟩ := hfr.exists_inst
    rw [CellState.step_of_code hfr.body hi] at hstep
    cases hexec : i.exec m perform f cf.stack cf.cells out with
    | none =>
      have hleave := h.leave hm (.cons hfr hstk) hfr.body hi hexec
      rw [hexec] at hstep
      dsimp only at hstep
      rw [hstep] at hleave
      obtain ⟨rfl, hrs⟩ := hleave rs out' rfl
      obtain ⟨d', c, cb, hd', hf, -⟩ := hfr.code
      have hid : fr.func = id := hfr.func ▸ h.first cf (by simp)
      obtain rfl : d = d' := Option.some.inj (hd.symm.trans (hid ▸ hd'))
      rw [← hf.sig]
      exact hrs
    | some r =>
      rw [hexec] at hstep
      obtain ⟨_ | c, out'⟩ := r <;> cases hstep

end CellState.Canonical

theorem CellState.canonical_of_call (hm : m.Laid) {d : FuncDecl ι} (hd : m.funcs[id]? = some d) (hhost : d.host = none)
    (hargs : Narrow d.sig.params args) {first : CellState σ}
    (hcall : CellState.call m perform id args [] out [] = .next first) :
    first.Canonical m id := by
  simp only [CellState.call, Module.perform_of_body hd hhost] at hcall
  cases henter : m.enter id ([] : List CellFrame).length args [] out.memory with
  | error t =>
    rw [henter] at hcall
    cases hcall
  | ok p =>
    rw [henter] at hcall
    cases hcall
    obtain ⟨hfunc, hcells⟩ := Module.enter_canonical hm hd hhost hargs henter
    exact ⟨by simpa using hcells, by simpa using hfunc⟩

theorem CellState.canonical_of_runs (hm : m.Compiles) {d : FuncDecl ι} (hd : m.funcs[id]? = some d)
    (hbody : d.host = none) (hargs : Narrow d.sig.params args) {first : CellState σ}
    (hcall : CellState.call m perform id args [] out [] = .next first) {n : Nat}
    (hhost : m.Yields perform id args out n (Inst.CallsHost m))
    (hwhole : m.Yields perform id args out n fun _ i => i.action.yieldsWhole) {cst : CellState σ}
    (hrun : runs (CellState.step m perform) n first = .next cst) : cst.Canonical m id := by
  induction n generalizing cst with
  | zero =>
    cases hrun
    exact canonical_of_call hm.laid hd hbody hargs hcall
  | succ n ih =>
    have hrun' := hrun
    rw [runs_add] at hrun
    split at hrun
    · next before hbefore =>
      obtain ⟨st, hpass, hst⟩ := Module.passes_of_cells hm.laid hcall hbefore
      obtain ⟨st', hpass', hst'⟩ := Module.passes_of_cells hm.laid hcall hrun'
      have hstep : CellState.step m perform before = .next cst := by
        rw [runs] at hrun
        split at hrun
        · next hs =>
          cases hrun
          exact hs
        · cases hrun
      have hlast := n.lt_succ_self
      exact (ih (fun k hk => hhost k (Nat.lt_succ_of_lt hk)) (fun k hk =>
        hwhole k (Nat.lt_succ_of_lt hk)) hbefore).step hm hst hst'
        hstep (hhost n hlast st st' hpass hpass') (hwhole n hlast st st' hpass hpass')
    · cases hrun

end

/-! ## Values of 32 bits -/

theorem Stacked.exists_cells {ks : List Kind} {at_ : Nat} {vs : List Value} {frs : List Frame} {cfs : List CellFrame}
    (h : Stacked m ks at_ vs frs cfs) {fr : Frame} (hfr : fr ∈ frs) : ∃ f, ∃ cf ∈ cfs, FrameOf m f fr cf := by
  induction h with
  | nil => cases hfr
  | cons hof _ _ ih =>
    rcases List.mem_cons.1 hfr with rfl | hfr
    · exact ⟨_, _, List.mem_cons_self, hof⟩
    · obtain ⟨f, cf, hmem, hof⟩ := ih hfr
      exact ⟨f, cf, List.mem_cons_of_mem _ hmem, hof⟩

theorem StateOf.exists_cells {st : State σ} {cst : CellState σ} (h : StateOf m st cst) {fr : Frame}
    (hfr : fr ∈ st.frames) :
    ∃ f, ∃ cf ∈ cst.frames, FrameOf m f fr cf := by
  cases h with
  | nil => cases hfr
  | cons hof hstk =>
    rcases List.mem_cons.1 hfr with rfl | hfr
    · exact ⟨_, _, List.mem_cons_self, hof⟩
    · obtain ⟨f, cf, hmem, hof⟩ := hstk.exists_cells hfr
      exact ⟨f, cf, List.mem_cons_of_mem _ hmem, hof⟩

theorem FrameOf.arguments {f : Body} {fr : Frame} {cf : CellFrame} (h : FrameOf m f fr cf) (hc : cf.cells.Canonical f)
    {callee : FuncId} {scratch : Nat} {moves : List Span} {words dest : Nat} {rest : List Step}
    (hs : fr.steps = .call callee scratch moves words dest :: rest) {d : FuncDecl ι} (hd : m.funcs[callee]? = some d) :
    Narrow d.sig.params (Frame.readSpans fr.words moves) := by
  obtain ⟨d', c, cb, hd', hf, -⟩ := h.code
  obtain ⟨i, hi⟩ := h.exists_inst
  have hfits := hf.wellFormed.fits (List.mem_of_getElem? hi)
  rcases h.at_code hi with ⟨s, rest', n, n', hrest, hlaid, hn, hn'⟩ | ⟨hnil, -⟩
  · obtain ⟨rfl, rfl⟩ := List.cons.inj (hs.symm.trans hrest)
    by_cases hcall : ∃ r args, i.action = .call r args
    · obtain ⟨r, args, ha⟩ := hcall
      obtain ⟨e, moves', dest', he, hstep, -, hmoves, -⟩ := h.gathers hfits ha hlaid hn'
      cases hstep
      obtain ⟨d'', hd'', hsig⟩ := hf.callees he
      obtain rfl : d = d'' := Option.some.inj (hd.symm.trans hd'')
      obtain ⟨first, ks, -, -, hfit⟩ := hfits
      rw [ha] at hfit
      obtain ⟨e', he', -, hargs⟩ := hfit
      obtain rfl : e = e' := Option.some.inj (he.symm.trans he')
      rw [hmoves, hsig, ← Body.kindsOf_eq hargs]
      exact hc.words args
    · have hno := (tracks_step hfits hf.valid hlaid fun r args ha => hcall ⟨r, args, ha⟩).1
      cases hno
  · rw [hs] at hnil
    cases hnil

theorem Instance.narrow_of_done (hm : m.Compiles) {perform : ι → List UInt64 → HostM σ (List UInt64)} {id : FuncId}
    {d : FuncDecl ι} (hd : m.funcs[id]? = some d) (hbody : d.host = none) {args : List UInt64}
    (hargs : Narrow d.sig.params args) {out out' : Outside σ} {n : Nat}
    (hhost : m.Yields perform id args out n (Inst.CallsHost m))
    (hwhole : m.Yields perform id args out n fun _ i => i.action.yieldsWhole) {rs : List UInt64}
    (h : Instance.outcome perform n ⟨m, out⟩ id args = .done rs out') : Narrow d.sig.returns rs := by
  have hfirst : OutcomeOf m (State.call m perform id args 0 out []) (CellState.call m perform id args [] out []) :=
    OutcomeOf.call hm.laid perform args out (fun _ _ => .nil) rfl
  unfold outcome at h
  dsimp only at h
  generalize State.call m perform id args 0 out [] = o at hfirst h
  generalize hcall : CellState.call m perform id args [] out [] = t at hfirst
  cases hfirst with
  | trapped => cases h
  | done =>
    simp only [CellState.call, Module.perform_of_body hd hbody] at hcall
    split at hcall <;> cases hcall
  | @next _ first hst =>
    have hlast := OutcomeOf.run perform hm.laid hst n
    dsimp only at h
    rw [h] at hlast
    generalize hrun : runs (CellState.step m perform) n first = t at hlast
    cases hlast with
    | done =>
      obtain ⟨k, cst, hk, hend⟩ := Ends.exists_last ⟨n, hrun⟩
      have hlt : k < n := Nat.lt_of_not_le fun hle => by
        rw [runs_of_ended hrun hle] at hk
        cases hk
      obtain ⟨st, -, hst⟩ := Module.passes_of_cells hm.laid hcall hk
      have hcst := CellState.canonical_of_runs hm hd hbody hargs hcall (fun i hi => hhost i (Nat.lt_trans hi hlt))
        (fun i hi => hwhole i (Nat.lt_trans hi hlt)) hk
      exact hcst.done hm hst hend hd

/-- As long as functions of the host, loads, addresses of slots and conversions leave words below 2^32 in values
of 32 bits, every value of 32 bits is below 2^32: in all frames, in the arguments that callees get, and in the
results. -/
theorem Module.values_narrow (hm : m.Compiles) {perform : ι → List UInt64 → HostM σ (List UInt64)} {id : FuncId}
    {d : FuncDecl ι} (hd : m.funcs[id]? = some d) (hbody : d.host = none) {args : List UInt64}
    (hargs : Narrow d.sig.params args) {out : Outside σ} {n : Nat}
    (hhost : m.Yields perform id args out n (Inst.CallsHost m))
    (hwhole : m.Yields perform id args out n fun _ i => i.action.yieldsWhole) :
    (∀ st, m.Passes perform id args out n st →
      (∀ fr ∈ st.frames, ∀ f, m.body? fr.func = some f → fr.Canonical f)
      ∧ ∀ fr ∈ st.frames.head?, ∀ callee scratch moves words dest rest,
        fr.steps = .call callee scratch moves words dest :: rest → ∀ e, m.funcs[callee]? = some e →
          Narrow e.sig.params (Frame.readSpans fr.words moves))
    ∧ ∀ ws later, Instance.call perform n ⟨m, out⟩ id args = (.returned ws, later) → Narrow d.sig.returns ws := by
  refine ⟨fun st hpass => ?_, fun ws later hcall => ?_⟩
  · obtain ⟨first, cst, hcall, hrun, hst⟩ := hpass.cells hm.laid
    have hcst := CellState.canonical_of_runs hm hd hbody hargs hcall hhost hwhole hrun
    refine ⟨fun fr hfr f hf => ?_, fun fr hfr callee scratch moves words dest rest hs e he => ?_⟩
    · obtain ⟨f', cf, hmem, hof⟩ := hst.exists_cells hfr
      obtain rfl : f' = f := Option.some.inj ((hof.func ▸ hof.body).symm.trans hf)
      exact hof.shows.canonical (hcst.cells cf hmem f' hof.body)
    · obtain ⟨f, cf, hmem, hof⟩ := hst.exists_cells (List.mem_of_mem_head? hfr)
      exact hof.arguments (hcst.cells cf hmem f hof.body) hs he
  · obtain ⟨-, hno, -⟩ | ⟨d', hd', -, ⟨rs, out', hdone, hws, -⟩ | ⟨t, out', -, hno, -⟩⟩ :=
      Instance.call_cases hcall (fun e => by cases e)
    · exact absurd rfl (hno ws)
    · obtain rfl : d = d' := Option.some.inj (hd.symm.trans hd')
      obtain rfl := CallResult.returned.inj hws
      exact (Instance.narrow_of_done hm hd hbody hargs hhost hwhole hdone).append_zeros _
    · cases hno

/-! ## A value by way of memory -/

/-- Stores the parameter in a slot, loads it as a value of 32 bits, and returns that and its double. -/
def Build.throughSlot : Build Unit := do
  let entry ← createBlock
  functionParams entry
  switchTo entry
  let slot ← createSlot 1
  let address ← stackAddr .i64 slot 0
  store 0 address 0
  let loaded ← load .i32 address 0
  let double ← int .add loaded loaded
  ret [loaded, double]

theorem Build.recipe_throughSlot : Recipe throughSlot :=
  .bind .createBlock fun _ => .bind (.functionParams _) fun _ => .bind (.switchTo _) fun _ =>
      .bind (.createSlot _) fun _ =>
  .bind (.stackAddr _ _ _) fun _ => .bind (.store _ _ _) fun _ => .bind (.load _ _ _) fun _ =>
      .bind (.int _ _ _) fun _ =>
  .ret _

/-- The parameter is of kind `k`. -/
def Body.throughSlot (k : Kind) :
    Body := (Build.throughSlot { body := { name := [116], sig := ⟨[k], [.i32, .i32]⟩ } }).2.body

theorem Body.built_throughSlot (k : Kind) : (throughSlot k).Built :=
  ⟨[116], ⟨[k], [.i32, .i32]⟩, Unit, _, Build.recipe_throughSlot, rfl⟩

/-- A memory with room for three words of stack, and nothing that a host keeps. -/
def Outside.small : Outside Unit := ⟨⟨#[], 4, 1, 1⟩, ()⟩

def Body.called (f : Body) (c : Compiled) (args : List UInt64) : CallResult :=
  (Instance.call (fun _ _ => pure []) 10 ⟨.single f c, .small⟩ 0 args).1

/-- All words of its frame are below 2^32 after so many steps. -/
def Body.narrowAfter (f : Body) (c : Compiled) (args : List UInt64) (n : Nat) : Bool :=
  match State.call (.single f c) (fun _ _ => pure []) 0 args 0 .small [] with
  | .next first => match State.run (.single f c) (fun _ _ => pure []) n first with
    | .next st => st.frames.all fun fr => fr.words.all fun w => Word.Narrow w
    | _ => true
  | _ => true

theorem Body.yields_of_narrowAfter {f : Body} {c : Compiled} {args : List UInt64} {n : Nat}
    (h : ∀ k < n + 1, f.narrowAfter c args k) (p : Body → Inst → Prop) :
    (Module.single f c).Yields (fun _ _ => pure []) 0 args .small n p := by
  intro k hk st st' _ ⟨first, hcall, hrun⟩ fr _ fr' hfr' g i _ _ _ v _ _
  have hnarrow := h (k + 1) (Nat.succ_lt_succ hk)
  simp only [narrowAfter, hcall, hrun, List.all_eq_true, Array.all_eq_true_iff_forall_mem, decide_eq_true_eq] at hnarrow
  have hwords := hnarrow fr' (List.mem_of_mem_head? hfr')
  rw [Frame.read, Array.getD_eq_getD_getElem?]
  cases hw : fr'.words[g.valueAt v]? with
  | none => exact Word.narrow_zero
  | some w => exact hwords w (Array.mem_of_getElem? hw)

theorem Module.yields_single {f : Body} {c : Compiled} {args : List UInt64} {n : Nat} :
    (single f c).Yields (fun _ _ => pure []) 0 args .small n (Inst.CallsHost (single f c)) := by
  rintro k - st st' - - fr - fr' - g i - - ⟨r, xs, e, d, h, -, -, hd, hh⟩
  obtain ⟨hid, rfl⟩ := Array.getElem?_eq_some_iff.1 hd
  have : e.id = 0 := by simpa [single] using hid
  simp [single, this] at hh

theorem Body.compiles_throughSlot {k : Kind} {c : Compiled} (hk : k = .i32 ∨ k = .i64)
    (hc : (throughSlot k).compile .native = .ok c) :
    (Module.single (throughSlot k) c).Compiles := by
  rcases hk with rfl | rfl
  all_goals
    exact Module.compiles_single hc (built_throughSlot _) (by decide +kernel) (by decide +kernel) (by decide +kernel)

/-- A value of 32 bits comes back from memory, and its double is cut to 32 bits. -/
theorem Module.values_narrow_throughSlot : ∃ c, (Body.throughSlot .i32).compile .native = .ok c
    ∧ (single (Body.throughSlot .i32) c).Compiles ∧ Narrow [.i32] [4294967295]
    ∧ (∀ p, (single (Body.throughSlot .i32) c).Yields (fun _ _ => pure []) 0 [4294967295] .small 10 p)
    ∧ (Body.throughSlot .i32).called c [4294967295] = .returned [4294967295, 4294967294]
    ∧ Narrow [.i32, .i32] [4294967295, 4294967294] := by
  have hcalled : ((Body.throughSlot .i32).compile .native).toOption.map (fun c =>
      ((Body.throughSlot .i32).called c [4294967295],
        (List.range 11).all ((Body.throughSlot .i32).narrowAfter c [4294967295])))
      = some (.returned [4294967295, 4294967294], true) := by decide +kernel
  cases hc : (Body.throughSlot .i32).compile .native with
  | error e =>
    rw [hc] at hcalled
    cases hcalled
  | ok c =>
    rw [hc] at hcalled
    obtain ⟨hreturned, hnarrow⟩ := Prod.mk.inj (Option.some.inj hcalled)
    have hm : (single (Body.throughSlot .i32) c).Compiles := Body.compiles_throughSlot (.inl rfl) hc
    have hargs : Narrow [.i32] [4294967295] := .single fun _ => by decide
    have hyields : ∀ p, (single (Body.throughSlot .i32) c).Yields (fun _ _ => pure []) 0 [4294967295] .small 10 p :=
      fun p => Body.yields_of_narrowAfter (fun k hk => List.all_eq_true.1 hnarrow k (List.mem_range.2 hk)) p
    refine ⟨c, rfl, hm, hargs, hyields, hreturned, ?_⟩
    have hdecl : (single (Body.throughSlot .i32) c).funcs[0]? = some _ := rfl
    obtain ⟨-, hresults⟩ := values_narrow hm hdecl rfl hargs (hyields _) (hyields _)
    exact hresults _ _ (Prod.ext hreturned rfl)

/-- A load of 32 bits yields all of a word that is not below 2^32. -/
theorem Module.whole_word_loaded : ∃ c, (Body.throughSlot .i64).compile .native = .ok c
    ∧ (single (Body.throughSlot .i64) c).Compiles ∧ Narrow [.i64] [4294967301]
    ∧ (∀ n, (single (Body.throughSlot .i64) c).Yields (fun _ _ => pure []) 0 [4294967301] .small n
        (Inst.CallsHost (single (Body.throughSlot .i64) c)))
    ∧ (Body.throughSlot .i64).called c [4294967301] = .returned [4294967301, 10]
    ∧ ¬ Narrow [.i32, .i32] [4294967301, 10] := by
  have hcalled : ((Body.throughSlot .i64).compile .native).toOption.map ((Body.throughSlot .i64).called · [4294967301])
      = some (.returned [4294967301, 10]) := by decide +kernel
  cases hc : (Body.throughSlot .i64).compile .native with
  | error e =>
    rw [hc] at hcalled
    cases hcalled
  | ok c =>
    rw [hc] at hcalled
    refine ⟨c, rfl, Body.compiles_throughSlot (.inr rfl) hc,
      .single fun h => absurd h (by decide), fun n => yields_single, Option.some.inj hcalled, ?_⟩
    exact fun h => absurd (h.1 rfl) (by decide)

end RecordMill.Machine

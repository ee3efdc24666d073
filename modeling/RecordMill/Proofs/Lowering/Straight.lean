import RecordMill.Proofs.Lowering.Emission
import RecordMill.Proofs.Program.WellFormed

/-!
# Straight-line instructions are lowered

Every instruction that keeps its contract and stays in its block is lowered without a stop, where its
registers have variables and its operator is one that exists.
-/

namespace RecordMill

open Machine (Kind Value VarId RefId BlockId FuncId Body FuncDraft Build Action Signature)

theorem Ty.kind_words {t : Ty} (hv : t.isValid) (hi : t.isIter = false) : t.kind = .ok t.words := by
  cases t <;> simp_all [Ty.kind, Ty.words, Ty.isValid, Ty.isIter]

theorem Ty.isIter_eq_false {t : Ty} : t.isIter = false ↔ ∀ k, t ≠ .iter k := by cases t <;> simp [Ty.isIter]

/-- A register that code can read and bind: none at all, or one that has a variable. -/
def Surroundings.Usable (s : Surroundings) (r : Reg) : Prop :=
  r.ty.isValid ∧ (r.ty = .null ∨ r.ty.isIter = false ∧ (s.scope.binding? r).isSome)

def Surroundings.Iterates (s : Surroundings) (r : Reg) (k : Key) (c : Cursor) : Prop :=
  r.ty = .iter k ∧ s.scope.cursor? r = some c

def Func.sig (f : Func) : Signature :=
  ⟨.i64 :: f.params.map (·.ty.words), if f.ret = .null then [] else [f.ret.words]⟩

theorem Func.signature_eq {f : Func} {sig : Signature} (h : f.signature = .ok sig) : sig = f.sig := by
  have hparams : ∀ {rs : List Reg} {ks : List Kind}, rs.mapM (fun r => r.ty.kind) = .ok ks →
      ks = rs.map (·.ty.words) := by
    intro rs
    induction rs with
    | nil =>
      intro ks hks
      cases hks
      rfl
    | cons r rs ih =>
      intro ks hks
      rw [List.mapM_cons] at hks
      cases hr : r.ty.kind with
      | error e => simp [hr, Bind.bind, Except.bind] at hks
      | ok k =>
        cases hrs : rs.mapM (fun r => r.ty.kind) with
        | error e => simp [hr, hrs, Bind.bind, Except.bind] at hks
        | ok js =>
          simp only [hr, hrs, Bind.bind, Except.bind, Pure.pure, Except.pure, Except.ok.injEq] at hks
          rw [← hks, ih hrs, Ty.kind_eq hr]
          rfl
  unfold Func.signature at h
  cases hp : f.params.mapM (fun r => r.ty.kind) with
  | error e => simp [hp, Bind.bind, Except.bind] at h
  | ok ks =>
    rw [hparams hp] at hp
    by_cases hn : f.ret = .null
    · simp only [hp, hn, Bind.bind, Except.bind, Pure.pure, Except.pure, if_true, Except.ok.injEq] at h
      simp [← h, hn, Func.sig]
    · cases hr : f.ret.kind with
      | error e => simp [hp, hn, hr, Bind.bind, Except.bind] at h
      | ok k =>
        simp only [hp, hn, hr, Bind.bind, Except.bind, Pure.pure, Except.pure, if_false, Except.ok.injEq] at h
        simp [← h, hn, Ty.kind_eq hr, Func.sig]

theorem Func.signature_of_check {p : Program} {f : Func} (h : Check.func p f = []) : f.signature = .ok f.sig := by
  obtain ⟨hparams, ⟨hvalid, hret⟩, -⟩ := Check.func_eq_nil.1 h
  have hkinds : ∀ {rs : List Reg}, (∀ r ∈ rs, r.ty.Storable) → rs.mapM (fun r => r.ty.kind)
      = .ok (rs.map (·.ty.words)) := by
    intro rs hrs
    induction rs with
    | nil => rfl
    | cons r rs ih =>
      obtain ⟨hr, -, hi⟩ := hrs r (.head _)
      rw [List.mapM_cons, Ty.kind_words hr (Ty.isIter_eq_false.2 hi), ih fun r hr => hrs r (.tail _ hr)]
      rfl
  unfold Func.signature Func.sig
  rw [hkinds hparams]
  by_cases hn : f.ret = .null
  · simp only [hn, if_true]
    rfl
  · simp only [hn, if_false, Ty.kind_words hvalid (Ty.isIter_eq_false.2 hret)]
    rfl

namespace Native.Emits

open Native.Fact (Gives)

variable {s : Surroundings} {K : Fact}

/-! ## Constants -/

theorem constInt (n : Int64) : Emits s K (Native.constInt n) fun v => .kind v .i64 := iconst (.inr rfl)

theorem constWord (w : UInt64) : Emits s K (Native.constWord w) fun v => .kind v .i64 := constInt _

theorem constFloat (f : Float) : Emits s K (Native.constFloat f) fun v => .kind v .f64 := fconst _

theorem packed (w : Packed) : Emits s K (Native.packed w) fun v => .kind v .i128 :=
  bind (constWord _) fun _ => bind (constWord _) fun _ => iconcat (.left .last) .last

theorem get_bind_apply (f : Progress → Native α) (s : Surroundings) (p : Progress) :
    (get >>= f : Native α) s p = f p s p := rfl

theorem literalIndex_apply (t : Bytes) (s : Surroundings) (p : Progress) :
    Native.literalIndex t s p = match p.literals.idxOf? t with
      | some i => (.ok i, p)
      | none => (.ok p.literals.length, { p with literals := p.literals ++ [t] }) := by
  unfold Native.literalIndex
  rw [get_bind_apply]
  cases p.literals.idxOf? t <;> rfl

theorem literalIndex (t : Bytes) : Emits s K (Native.literalIndex t) fun _ => .nothing := by
  refine ⟨fun {p b} hp _ => ?_⟩
  rw [literalIndex_apply]
  cases p.literals.idxOf? t with
  | some i => exact ⟨i, p, rfl, .refl hp, trivial⟩
  | none =>
    exact ⟨_, _, rfl, ⟨⟨hp.ready, hp.tidy, hp.callees⟩, .refl _, rfl, fun _ => rfl, rfl,
      List.prefix_append ..⟩, trivial⟩

theorem constStr (t : Bytes) : Emits s K (Native.constStr t) fun v => .kind v .i128 := by
  unfold Native.constStr
  split
  · exact packed _
  · exact bind (literalIndex t) fun _ => packed _

section

variable (hs : s.Apt) (hK : K.Gives (.vars s))

include hK in
theorem context : Emits s K Native.context fun v => .kind v .i64 := useVar (hK.of_vars .context rfl)

include hs hK

/-! ## References -/

theorem tellOf {sv : Service} {v : Value} {k : Kind} (hsig : sv.sig = ⟨[.i64, k], []⟩) (hv : K.Gives (.kind v k)) :
    Emits s K (do Native.tell sv [← Native.context, v]) fun _ => .nothing := by
  refine bind (context hK) fun _ => tell hs ?_
  rw [hsig]
  exact Gives.last.kinds_cons hv.left.kinds_one

theorem ref {ty : Ty} {v : Value} (hv : K.Gives (.kind v ty.words)) :
    Emits s K (Native.ref ty v) fun _ => .nothing := by
  unfold Native.ref
  split
  · exact tellOf hs hK rfl hv
  · exact tellOf hs hK rfl hv
  · exact pure .nothing

theorem drop {ty : Ty} {v : Value} (hv : K.Gives (.kind v ty.words)) :
    Emits s K (Native.drop ty v) fun _ => .nothing := by
  unfold Native.drop
  split
  · exact tellOf hs hK rfl hv
  · exact tellOf hs hK rfl hv
  · exact pure .nothing

theorem zero (ty : Ty) : Emits s K (Native.zero ty) fun v => .kind v ty.words := by
  unfold Native.zero
  split
  · exact constFloat 0
  · exact packed .empty
  · exact bind (context hK) fun _ => ask hs Gives.last.kinds_one rfl
  · next h₁ h₂ h₃ =>
    have : ty.words = .i64 := by cases ty <;> simp_all [Ty.words]
    rw [this]
    exact constInt 0

/-! ## Registers -/

omit hs in
theorem varOf {r : Reg} {b : Binding} (hb : s.scope.binding? r = some b) :
    K.Gives (.var b.var (if b.isGlobal then .i64 else r.ty.words)) := by
  have h := hK.of_vars (.reg r) (v := b.var) (by rw [Scope.var?, hb]; rfl)
  have hg : s.scope.isGlobal r = b.isGlobal := by rw [Scope.isGlobal, hb]; rfl
  rwa [Scope.kindOf, hg] at h

omit hs hK in
theorem loadFrom {ty : Ty} {v : Value} (hv : ty.isValid) (hi : ty.isIter = false) (hp : K.Gives (.kind v .i64)) :
    Emits s K (Native.loadFrom ty v) fun r => .kind r ty.words := by
  have hkind : Native.kindOf ty = (Pure.pure ty.words : Native Kind) := by
    unfold Native.kindOf
    rw [Ty.kind_words hv hi]
  unfold Native.loadFrom
  rw [hkind, pure_bind]
  exact load _ _ hp

theorem bindCounted {r : Reg} {b : Binding} {v : Value} (hb : s.scope.binding? r = some b) (hr : r.ty.isValid)
    (hi : r.ty.isIter = false) (hv : K.Gives (.kind v r.ty.words)) :
    Emits s K (Native.bindCounted r.ty b v) fun _ => .nothing := by
  have hvar := varOf hK hb
  unfold Native.bindCounted
  refine bind (ref hs hK hv) fun _ => ?_
  cases hg : b.isGlobal <;> rw [hg] at hvar
  · refine bind (useVar hvar.left) fun _ => bind (drop hs hK.left.left .last) fun _ => ?_
    exact defVar hvar.left.left.left hv.left.left.left
  · refine bind (useVar hvar.left) fun _ => bind (loadFrom hr hi .last) fun _ =>
      bind (drop hs hK.left.left.left .last) fun _ => ?_
    exact store 0 hv.left.left.left.left (Gives.last.left.left)

omit hs in
theorem bindPlain {r : Reg} {b : Binding} {v : Value} (hb : s.scope.binding? r = some b)
    (hv : K.Gives (.kind v r.ty.words)) :
    Emits s K (Native.bindPlain b v) fun _ => .nothing := by
  have hvar := varOf hK hb
  unfold Native.bindPlain
  cases hg : b.isGlobal <;> rw [hg] at hvar
  · exact defVar hvar hv
  · exact bind (useVar hvar) fun _ => store 0 hv.left .last

theorem bindReg {r : Reg} {v : Value} (hu : s.Usable r) (hv : K.Gives (.kind v r.ty.words)) :
    Emits s K (Native.bind r v) fun _ => .nothing := by
  unfold Native.bind
  rcases hu with ⟨hr, hnull | ⟨hi, hb⟩⟩
  · rw [if_pos (by simp [Reg.isNull, hnull])]
    exact pure .nothing
  · split
    · exact pure .nothing
    rw [if_neg (by simp [hi])]
    refine scope ?_
    obtain ⟨b, hb⟩ := Option.isSome_iff_exists.1 hb
    rw [hb]
    dsimp only
    split
    · exact bindCounted hs hK hb hr hi hv
    · split
      · next hl =>
        have hg : b.isGlobal = false := by
          cases hg : b.isGlobal with
          | false => rfl
          | true => exact absurd hl (by simp [hs.counted hb hg])
        have hvar := varOf hK hb
        rw [hg] at hvar
        exact defVar hvar hv
      · exact bindPlain hK hb hv

omit hs in
theorem value {r : Reg} (hu : s.Usable r) : Emits s K (Native.value r) fun v => .kind v r.ty.words := by
  unfold Native.value
  rcases hu with ⟨hr, hnull | ⟨hi, hb⟩⟩
  · rw [if_pos (by simp [Reg.isNull, hnull]), hnull]
    exact constInt 0
  · split
    · next h =>
      have : r.ty = .null := by simpa [Reg.isNull] using h
      rw [this]
      exact constInt 0
    rw [if_neg (by simp [hi])]
    refine scope ?_
    obtain ⟨b, hb⟩ := Option.isSome_iff_exists.1 hb
    have hvar := varOf hK hb
    rw [hb]
    dsimp only
    cases hg : b.isGlobal <;> rw [hg] at hvar
    · exact bind (useVar hvar) fun _ => pure .last
    · exact bind (useVar hvar) fun _ => loadFrom hr hi .last

omit hs in
theorem values {rs : List Reg} (hu : ∀ r ∈ rs, s.Usable r) :
    Emits s K (rs.mapM Native.value) fun vs => .kinds vs (rs.map (·.ty.words)) := by
  induction rs generalizing K with
  | nil => exact pure .kinds_nil
  | cons r rs ih =>
    rw [List.mapM_cons]
    refine bind (value hK (hu r (.head _))) fun _ => bind (ih hK.left fun r hr => hu r (.tail _ hr)) fun _ => ?_
    exact pure (Gives.last.left.kinds_cons .last)

theorem bindOwned {r : Reg} {v : Value} (hu : s.Usable r) (hv : K.Gives (.kind v r.ty.words)) :
    Emits s K (Native.bindOwned r v) fun _ => .nothing :=
  bind (bindReg hs hK hu hv) fun _ => drop hs hK.left hv.left

theorem loaded {r : Reg} (hu : s.Usable r) : Emits s K (Native.loaded r) fun _ => .nothing := by
  unfold Native.loaded
  split
  · exact bind (value hK hu) fun _ => drop hs hK.left .last
  · exact pure .nothing

/-! ## Operations -/

omit hs hK in
theorem condByte_intCond (c : Cmp) : (Machine.X86.condByte? (Native.intCond c)).isSome := by cases c <;> rfl

omit hs hK in
theorem compare (float : Bool) (c : Cmp) {x y : Value} {k : Kind} (hk : k = if float then .f64 else .i64)
    (hx : K.Gives (.kind x k)) (hy : K.Gives (.kind y k)) :
    Emits s K (Native.apply (.compare float c) [x, y]) fun v => .kind v .i64 := by
  subst hk
  cases float
  · exact bind (icmp (condByte_intCond c) hx hy) fun _ => bint .last
  · exact bind (fcmp _ hx hy) fun _ => bint .last

omit hK in
theorem arith {float : Bool} {op : Arith} (hop : ∀ n, op ≠ .unknown n) {vs : List Value} {k : Kind}
    (hk : k = if float then .f64 else .i64) (hvs : K.Gives (.kinds vs (List.replicate op.arity k))) :
    Emits s K (Native.apply (.arith float op) vs) fun v => .kind v k := by
  subst hk
  cases op with
  | neg =>
    refine of_single hvs fun x hx hk => ?_
    subst hx
    cases float
    · exact intUnary _ hk
    · exact floatUnary _ hk
  | unknown n => exact absurd rfl (hop n)
  | mod =>
    refine of_pair hvs fun x y hxy hx hy => ?_
    subst hxy
    cases float
    · exact int _ hx hy
    · exact ask hs hvs rfl
  | mul | add | minus =>
    refine of_pair hvs fun x y hxy hx hy => ?_
    subst hxy
    cases float
    · exact int _ hx hy
    · exact Emits.float _ hx hy

omit hs hK in
theorem bit {op : Bitwise} (hop : ∀ n, op ≠ .unknown n) {vs : List Value}
    (hvs : K.Gives (.kinds vs (List.replicate op.arity .i64))) :
    Emits s K (Native.apply (.bit op) vs) fun v => .kind v .i64 := by
  cases op with
  | complement =>
    refine of_single hvs fun x hx hk => ?_
    subst hx
    exact intUnary _ hk
  | unknown n => exact absurd rfl (hop n)
  | and | or | xor =>
    refine of_pair hvs fun x y hxy hx hy => ?_
    subst hxy
    exact int _ hx hy
  | leftShift | logicalRightShift | arithmeticRightShift =>
    refine of_pair hvs fun x y hxy hx hy => ?_
    subst hxy
    exact shift _ hx hy

omit hK in
theorem math {fn : MathFn} (hop : ∀ n, fn ≠ .unknown n) {vs : List Value}
    (hvs : K.Gives (.kinds vs (List.replicate fn.arity .f64))) :
    Emits s K (Native.apply (.math fn) vs) fun v => .kind v .f64 := by
  cases fn with
  | unknown n => exact absurd rfl (hop n)
  | atan2 =>
    refine of_pair hvs fun x y hxy _ _ => ?_
    subst hxy
    exact ask hs hvs rfl
  | sqrt =>
    refine of_single hvs fun x hx hk => ?_
    subst hx
    exact floatUnary _ hk
  | sin | cos | atan | log | log2 | log10 | exp =>
    refine of_single hvs fun x hx _ => ?_
    subst hx
    exact ask hs hvs rfl

/-! ## Services -/

theorem callService {sv : Service} {args : List Value} {ks : List Kind} {k : Kind} (hsig : sv.sig = ⟨.i64 :: ks, [k]⟩)
    (hargs : K.Gives (.kinds args ks)) :
    Emits s K (Lowering.callService sv args : Native Value) fun v => .kind v k :=
  bind (context hK) fun _ => ask hs (by rw [hsig]; exact Gives.last.kinds_cons hargs.left) (by rw [hsig])

theorem performService {sv : Service} {args : List Value} {ks : List Kind} (hsig : sv.sig = ⟨.i64 :: ks, []⟩)
    (hargs : K.Gives (.kinds args ks)) :
    Emits s K (Lowering.performService sv args : Native Unit) fun _ => .nothing :=
  bind (context hK) fun _ => tell hs (by rw [hsig]; exact Gives.last.kinds_cons hargs.left)

theorem bindResult {r : Reg} {sv : Service} {args : List Value} {ks : List Kind} (hu : s.Usable r)
    (hsig : sv.sig = ⟨.i64 :: ks, [r.ty.words]⟩) (hargs : K.Gives (.kinds args ks)) :
    Emits s K (Lowering.bindResult r sv args : Native Unit) fun _ => .nothing := by
  refine bind (callService hs hK hsig hargs) fun _ => ?_
  split
  · exact bindOwned hs hK.left hu .last
  · exact bindReg hs hK.left hu .last

theorem bindService {r : Reg} {sv : Service} {args : List Reg} (hu : s.Usable r) (ha : ∀ a ∈ args, s.Usable a)
    (hsig : sv.sig = ⟨.i64 :: args.map (·.ty.words), [r.ty.words]⟩) :
    Emits s K (Lowering.bindService r sv args : Native Unit) fun _ => .nothing :=
  bind (values hK ha) fun _ => bindResult hs hK.left hu hsig .last

theorem performOn {sv : Service} {args : List Reg} (ha : ∀ a ∈ args, s.Usable a)
    (hsig : sv.sig = ⟨.i64 :: args.map (·.ty.words), []⟩) :
    Emits s K (Lowering.performOn sv args : Native Unit) fun _ => .nothing :=
  bind (values hK ha) fun _ => performService hs hK.left hsig .last

theorem bindOp {r : Reg} {op : ValueOp} {args : List Reg} (hu : s.Usable r) (ha : ∀ a ∈ args, s.Usable a)
    (hop : ∀ {L : Fact} {vs : List Value}, L.Gives (.kinds vs (args.map (·.ty.words))) →
      Emits s L (Native.apply op vs) fun v => .kind v r.ty.words) :
    Emits s K (Lowering.bindOp r op args : Native Unit) fun _ => .nothing :=
  bind (values hK ha) fun _ => bind (hop .last) fun _ => bindReg hs hK.left.left hu .last

omit hs hK in
theorem toFloats {rs : List Reg} {vs : List Value} (hr : ∀ r ∈ rs, r.ty = .int ∨ r.ty = .float)
    (hvs : K.Gives (.kinds vs (rs.map (·.ty.words)))) :
    Emits s K (Lowering.toFloats rs vs : Native (List Value)) fun us => .kinds us (rs.map fun _ => .f64) := by
  induction rs generalizing K vs with
  | nil =>
    refine of_length hvs fun hlen => ?_
    obtain rfl := List.length_eq_zero_iff.1 hlen
    exact pure .kinds_nil
  | cons r rs ih =>
    refine of_length hvs fun hlen => ?_
    cases vs with
    | nil => simp at hlen
    | cons v vs =>
      have hv : K.Gives (.kind v r.ty.words) := hvs.kinds_head
      unfold Lowering.toFloats
      have finish : ∀ u, Emits s (K.and (.kind u .f64))
        (do return u :: (← Lowering.toFloats rs vs) : Native (List Value))
          fun us => .kinds us ((r :: rs).map fun _ => .f64) := fun u =>
        bind (ih (fun r h => hr r (.tail _ h)) hvs.kinds_tail.left) fun _ => pure (Gives.last.left.kinds_cons .last)
      rcases hr r (.head _) with hty | hty
      · rw [if_pos hty]
        rw [hty] at hv
        exact bind (ofInt hv) finish
      · rw [if_neg (by simp [hty])]
        rw [hty] at hv
        exact bind (pure hv) finish

theorem bindFloatOp {r : Reg} {op : ValueOp} {x y : Reg} (hu : s.Usable r) (hx : s.Usable x) (hy : s.Usable y)
    (hnum : x.ty = .int ∧ y.ty = .int ∨ x.ty = .float ∧ y.ty = .float)
    (hop : ∀ {L : Fact} {vs : List Value}, L.Gives (.kinds vs [.f64, .f64]) →
      Emits s L (Native.apply op vs) fun v => .kind v r.ty.words) :
    Emits s K (Lowering.bindFloatOp r op [x, y] : Native Unit) fun _ => .nothing := by
  refine bind (values hK (by simp [hx, hy])) fun _ => bind (toFloats ?_ .last) fun _ => bind (hop .last) fun _ =>
    bindReg hs hK.left.left.left hu .last
  rcases hnum with ⟨h₁, h₂⟩ | ⟨h₁, h₂⟩ <;> simp [h₁, h₂]

theorem compareRegs {dst l r : Reg} (c : Cmp) (hd : s.Usable dst) (hl : s.Usable l) (hr : s.Usable r)
    (hint : dst.ty = .int) {t : Scalar} (htl : l.ty = t.ty) (htr : r.ty = t.ty) :
    Emits s K (Lowering.compare dst c l r : Native Unit) fun _ => .nothing := by
  obtain ⟨dst, _⟩ := dst
  obtain ⟨l, _⟩ := l
  obtain ⟨r, _⟩ := r
  obtain rfl : _ = Ty.int := hint
  obtain rfl : _ = t.ty := htl
  obtain rfl : _ = t.ty := htr
  have hargs : ∀ a ∈ [(⟨l, t.ty⟩ : Reg), ⟨r, t.ty⟩], s.Usable a := by simp [hl, hr]
  cases t with
  | str =>
    exact bind (values hK hargs) fun _ => bind (callService hs hK.left rfl .last) fun _ => bind (constInt 0) fun _ =>
      bind (compare false c rfl Gives.last.left .last) fun _ => bindReg hs hK.left.left.left.left hd .last
  | int =>
    refine bindOp hs hK hd hargs fun hvs => of_pair hvs fun x y hxy hx hy => ?_
    subst hxy
    exact compare false c rfl hx hy
  | float =>
    refine bindOp hs hK hd hargs fun hvs => of_pair hvs fun x y hxy hx hy => ?_
    subst hxy
    exact compare true c rfl hx hy

theorem convert {dst src : Reg} (hd : s.Usable dst) (hsrc : s.Usable src) {t u : Scalar} (ht : dst.ty = t.ty)
    (hu : src.ty = u.ty) :
    Emits s K (Lowering.convert dst src : Native Unit) fun _ => .nothing := by
  obtain ⟨dst, _⟩ := dst
  obtain ⟨src, _⟩ := src
  obtain rfl : _ = t.ty := ht
  obtain rfl : _ = u.ty := hu
  unfold Lowering.convert
  refine bind (value hK hsrc) fun v => ?_
  cases u <;> cases t
  case int.int | float.float | str.str => exact bindReg hs hK.left hd .last
  case int.float => exact bind (ofInt .last) fun _ => bindReg hs hK.left.left hd .last
  case float.int => exact bind (toInt .last) fun _ => bindReg hs hK.left.left hd .last
  all_goals exact bindResult hs hK.left hd rfl Gives.last.kinds_one

/-! ## Variables and maps -/

theorem loadVar {dst : Reg} {var : Variable} (hd : s.Usable dst) (hty : dst.ty = var.ty) :
    Emits s K (Lowering.loadVar dst var : Native Unit) fun _ => .nothing := by
  have hsig : (Lowering.loadService dst.ty).sig = ⟨[.i64, .i64], [dst.ty.words]⟩ := by
    rw [hty]
    cases var <;> rfl
  exact bind (constInt _) fun _ => bind (callService hs hK.left hsig Gives.last.kinds_one) fun _ =>
    bind (bindReg hs hK.left.left hd .last) fun _ => loaded hs hK.left.left.left hd

theorem storeVar {src : Reg} {var : Variable} (hu : s.Usable src) (hty : src.ty = var.ty) :
    Emits s K (Lowering.storeVar var src : Native Unit) fun _ => .nothing := by
  have hsig : (Lowering.storeService src.ty).sig = ⟨[.i64, .i64, src.ty.words], []⟩ := by
    rw [hty]
    cases var <;> rfl
  exact bind (value hK hu) fun _ => bind (constInt _) fun _ =>
    performService hs hK.left.left hsig (Gives.last.kinds_cons Gives.last.left.kinds_one)

omit hs hK in
theorem words_key (k : Key) : k.ty.words = Service.keyKind k := by cases k <;> rfl

omit hs hK in
theorem mapService {α : Type} {m : Reg} {k : Key} {v : Scalar} (hm : m.ty = .map k v) (what : MapService)
    {f : Service → Native α}
    {T : α → Fact} (h : Emits s K (f (.map k v what)) T) : Emits s K (Lowering.mapService m what >>= f) T := by
  unfold Lowering.mapService
  rw [hm]
  exact h

theorem bindMapService {dst m : Reg} {k : Key} {v : Scalar} {what : MapService} {rest : List Reg} (hm : m.ty = .map k v)
    (hd : s.Usable dst) (hargs : ∀ a ∈ m :: rest, s.Usable a)
    (hsig : (Service.map k v what).sig = ⟨.i64 :: (m :: rest).map (·.ty.words), [dst.ty.words]⟩) :
    Emits s K (Lowering.bindMapService dst m what rest : Native Unit) fun _ => .nothing :=
  mapService hm what (bindService hs hK hd hargs hsig)

theorem performMapService {m : Reg} {k : Key} {v : Scalar} {what : MapService} {rest : List Reg}
    (hm : m.ty = .map k v) (hargs : ∀ a ∈ m :: rest, s.Usable a)
    (hsig : (Service.map k v what).sig = ⟨.i64 :: (m :: rest).map (·.ty.words), []⟩) :
    Emits s K (do
      let vs ← (m :: rest).mapM Emitter.value
      Lowering.performService (← Lowering.mapService m what) vs : Native Unit) fun _ => .nothing :=
  bind (values hK hargs) fun _ => mapService hm what (performService hs hK.left hsig .last)

/-! ## Iterators -/

section

variable {r : Reg} {k : Key} {c : Cursor}

omit hs hK in
theorem cursor {α : Type} (hr : s.Iterates r k c) {f : Cursor × Key → Native α} {T : α → Fact}
    (h : Emits s K (f (c, k)) T) :
    Emits s K (Native.cursor r >>= f) T := by
  unfold Native.cursor
  rw [bind_assoc]
  refine scope ?_
  rw [hr.2, hr.1]
  exact h

omit hs in
theorem keysVar (hr : s.Iterates r k c) : K.Gives (.var c.keys .i64) :=
  hK.of_vars (.keys r) (by rw [Scope.var?, hr.2]; rfl)

omit hs in
theorem positionVar (hr : s.Iterates r k c) : K.Gives (.var c.position .i64) :=
  hK.of_vars (.position r) (by rw [Scope.var?, hr.2]; rfl)

theorem dropKeys (hc : K.Gives (.var c.keys .i64)) : Emits s K (Native.dropKeys c) fun _ => .nothing :=
  bind (context hK) fun _ => bind (useVar hc.left) fun _ => tell hs (Gives.last.left.kinds_cons Gives.last.kinds_one)

theorem iterBegin {m : Reg} {v : Scalar} (hr : s.Iterates r k c) (hm : m.ty = .map k v) (hu : s.Usable m) :
    Emits s K (Native.iterBegin r m) fun _ => .nothing := by
  have hkeys := keysVar hK hr
  have hpos := positionVar hK hr
  have hw : m.ty.words = .i64 := by rw [hm]; rfl
  refine cursor hr (bind (value hK hu) fun _ => bind (context hK.left) fun _ => mapService hm .iterBegin ?_)
  refine bind (ask hs (Gives.last.kinds_cons (hw ▸ Gives.last.left.kinds_one)) rfl) fun _ =>
    bind (dropKeys hs hK.left.left.left hkeys.left.left.left) fun _ =>
    bind (defVar hkeys.left.left.left.left Gives.last.left) fun _ => bind (constInt 0) fun _ => ?_
  exact defVar hpos.left.left.left.left.left.left .last

theorem iterHasNext {dst : Reg} (hr : s.Iterates r k c) (hd : s.Usable dst) (hint : dst.ty = .int) :
    Emits s K (Native.iterHasNext dst r) fun _ => .nothing := by
  have hkeys := keysVar hK hr
  have hpos := positionVar hK hr
  refine cursor hr (bind (context hK) fun _ => bind (useVar hkeys.left) fun _ =>
    bind (ask hs (Gives.last.left.kinds_cons Gives.last.kinds_one) rfl) fun _ =>
        bind (useVar hpos.left.left.left) fun _ =>
    bind (icmp rfl .last Gives.last.left) fun _ => bind (bint .last) fun _ => ?_)
  refine bindReg hs hK.left.left.left.left.left.left hd ?_
  rw [hint]
  exact .last

theorem iterGetNext {dst : Reg} (hr : s.Iterates r k c) (hd : s.Usable dst) (hkey : dst.ty = k.ty) :
    Emits s K (Native.iterGetNext dst r) fun _ => .nothing := by
  have hkeys := keysVar hK hr
  have hpos := positionVar hK hr
  refine cursor hr (bind (useVar hpos) fun _ => bind (context hK.left) fun _ => bind (useVar hkeys.left.left) fun _ =>
    bind (ask hs (Gives.last.left.kinds_cons (Gives.last.kinds_cons Gives.last.left.left.kinds_one)) rfl) fun _ =>
    bind (constInt 1) fun _ => bind (int .add Gives.last.left.left.left.left .last) fun _ =>
    bind (defVar hpos.left.left.left.left.left.left .last) fun _ => ?_)
  refine bindOwned hs hK.left.left.left.left.left.left.left hd ?_
  rw [hkey, words_key]
  exact Gives.last.left.left.left

end

/-! ## Printing -/

omit hs in
theorem output {out : Option Output} (hout : ∀ o ∈ out, s.Usable o.path ∧ o.path.ty = .str) :
    Emits s K (Native.output out) fun p => (Fact.kind p.1 .i32).and (.kind p.2 .i128) := by
  cases out with
  | none => exact bind (iconst (.inl rfl)) fun _ => bind (constStr []) fun _ => pure ⟨fun h => ⟨h.1.2, h.2⟩⟩
  | some o =>
    obtain ⟨hu, hty⟩ := hout o rfl
    have hvalue := value hK hu
    rw [hty] at hvalue
    exact bind hvalue fun _ => bind (iconst (.inl rfl)) fun _ => pure ⟨fun h => ⟨h.2, h.1.2⟩⟩

omit hs hK in
theorem argumentBlock (words : Nat) : Emits s K (Native.argumentBlock words) fun v => .kind v .i64 :=
  bind (createSlot _) fun _ => stackAddr .last 0

omit hs in
theorem spillStrings {base : Value} {args : List Reg} (hargs : ∀ a ∈ args, s.Usable a) (hb : K.Gives (.kind base .i64))
    (off : Nat) :
    Emits s K (Native.spillStrings base off args) fun _ => .nothing := by
  induction args generalizing K off with
  | nil => exact pure .nothing
  | cons a args ih =>
    exact bind (value hK (hargs a (.head _))) fun _ => bind (store _ .last hb.left) fun _ =>
      ih hK.left.left (fun r hr => hargs r (.tail _ hr)) hb.left.left _

omit hs in
theorem spillArgs {base : Value} {args : List Reg} (hargs : ∀ a ∈ args, s.Usable a) (hb : K.Gives (.kind base .i64))
    (off : Nat) :
    Emits s K (Native.spillArgs base off args) fun _ => .nothing := by
  induction args generalizing K off with
  | nil => exact pure .nothing
  | cons a args ih =>
    exact bind (value hK (hargs a (.head _))) fun _ => bind (constInt _) fun _ =>
        bind (store _ .last hb.left.left) fun _ =>
      bind (store _ Gives.last.left.left hb.left.left.left) fun _ =>
      ih hK.left.left.left.left (fun r hr => hargs r (.tail _ hr)) hb.left.left.left.left _

omit hs in
theorem formatBlock {args : List Reg} (hargs : ∀ a ∈ args, s.Usable a) :
    Emits s K (Native.formatBlock args) fun v => .kind v .i64 :=
  bind (argumentBlock _) fun _ => bind (spillArgs hK.left hargs .last 0) fun _ => pure Gives.last.left

theorem printAll {status : Reg} {out : Option Output} {args : List Reg} (hstatus : s.Usable status)
    (hw : status.ty.words = .i64) (hout : ∀ o ∈ out, s.Usable o.path ∧ o.path.ty = .str)
    (hargs : ∀ a ∈ args, s.Usable a) :
    Emits s K (Native.printAll status out args) fun _ => .nothing := by
  refine bind (output hK hout) fun p => bind (argumentBlock _) fun _ =>
      bind (spillStrings hK.left.left hargs .last 0) fun _ =>
    bind (context hK.left.left.left) fun _ => bind (constInt _) fun _ => bind (ask hs ?_ rfl) fun _ => ?_
  · have hout := Gives.last (K := K) (L := (Fact.kind p.1 .i32).and (.kind p.2 .i128))
    exact Gives.last.left.kinds_cons (hout.fst.left.left.left.left.kinds_cons (hout.snd.left.left.left.left.kinds_cons
      (Gives.last.left.left.left.kinds_cons Gives.last.kinds_one)))
  · exact bindReg hs hK.left.left.left.left.left.left hstatus (hw ▸ .last)

theorem printf {status format : Reg} {out : Option Output} {args : List Reg} (hstatus : s.Usable status)
    (hw : status.ty.words = .i64) (hout : ∀ o ∈ out, s.Usable o.path ∧ o.path.ty = .str) (hf : s.Usable format)
    (hstr : format.ty = .str) (hargs : ∀ a ∈ args, s.Usable a) :
    Emits s K (Native.printf status out format args) fun _ => .nothing := by
  refine bind (output hK hout) fun p => bind (value hK.left hf) fun _ => bind (formatBlock hK.left.left hargs) fun _ =>
    bind (context hK.left.left.left) fun _ => bind (constInt _) fun _ => bind (ask hs ?_ rfl) fun _ => ?_
  · have hout := Gives.last (K := K) (L := (Fact.kind p.1 .i32).and (.kind p.2 .i128))
    rw [hstr]
    exact Gives.last.left.kinds_cons (hout.fst.left.left.left.left.kinds_cons (hout.snd.left.left.left.left.kinds_cons
      (Gives.last.left.left.left.kinds_cons (Gives.last.left.left.kinds_cons Gives.last.kinds_one))))
  · exact bindReg hs hK.left.left.left.left.left.left hstatus (hw ▸ .last)

theorem sprintf {dst format : Reg} {args : List Reg} (hd : s.Usable dst) (hdst : dst.ty = .str) (hf : s.Usable format)
    (hstr : format.ty = .str) (hargs : ∀ a ∈ args, s.Usable a) :
    Emits s K (Native.sprintf dst format args) fun _ => .nothing := by
  refine bind (value hK hf) fun _ => bind (formatBlock hK.left hargs) fun _ => bind (context hK.left.left) fun _ =>
    bind (constInt _) fun _ => bind (ask hs ?_ rfl) fun _ => ?_
  · rw [hstr]
    exact Gives.last.left.kinds_cons
      (Gives.last.left.left.left.kinds_cons (Gives.last.left.left.kinds_cons Gives.last.kinds_one))
  · refine bindOwned hs hK.left.left.left.left.left hd ?_
    rw [hdst]
    exact .last

/-! ## Calls -/

theorem call {dst : Reg} {fn : Int} {args : List Reg} {callee : Func} (hcallee : s.program.func? fn = some callee)
    (hkinds : args.map (·.ty) = callee.params.map (·.ty)) (hret : dst.ty = .null ∨ dst.ty = callee.ret)
    (hd : s.Usable dst) (hargs : ∀ a ∈ args, s.Usable a) : Emits s K (Native.call dst fn args) fun _ => .nothing := by
  obtain ⟨id, e, hid, he, hsig⟩ := hs.funcs hcallee
  have hsig := Func.signature_eq hsig
  have hwords : args.map (·.ty.words) = callee.params.map (·.ty.words) := by
    simpa [Function.comp_def] using congrArg (List.map Ty.words) hkinds
  unfold Native.call
  refine read ?_
  rw [hcallee, hid]
  refine bind (context hK) fun _ => bind (values hK.left hargs) fun _ => bind (importInto he) fun _ => ?_
  rw [hsig, Func.sig]
  refine bind (callRef .last (Gives.last.left.left.kinds_cons (hwords ▸ Gives.last.left))) fun vs => ?_
  by_cases hn : callee.ret = .null
  · cases vs <;> simp only [hn, if_true] <;> exact pure .nothing
  · rw [if_neg hn]
    refine of_single .last fun v hv hk => ?_
    subst hv
    simp only [hn, if_false]
    split
    · exact drop hs hK.left.left.left.left hk
    · next hdst =>
      have hty : dst.ty = callee.ret := hret.resolve_left fun h => hdst (by simp [Reg.isNull, h])
      exact bindOwned hs hK.left.left.left.left hd (hty ▸ hk)

end

end Native.Emits

/-! ## Instructions -/

theorem Key.isIter_ty (k : Key) : k.ty.isIter = false := by cases k <;> rfl

theorem Scalar.isIter_ty (v : Scalar) : v.ty.isIter = false := by cases v <;> rfl

namespace Surroundings

def Covers (s : Surroundings) (i : Instr) : Prop := ∀ r ∈ i.regs, s.Usable r ∨ ∃ k c, s.Iterates r k c

theorem Covers.usable {s : Surroundings} {i : Instr} {r : Reg} (h : s.Covers i) (hr : r ∈ i.regs)
    (hi : r.ty.isIter = false) :
    s.Usable r := by
  rcases h r hr with h | ⟨k, c, hk, -⟩
  · exact h
  · simp [hk, Ty.isIter] at hi

theorem Covers.has {s : Surroundings} {i : Instr} {r : Reg} {t : Ty} (h : s.Covers i) (hr : r ∈ i.regs) (ht : r.ty = t)
    (hi : t.isIter = false) : s.Usable r :=
  h.usable hr (ht ▸ hi)

theorem Covers.all {s : Surroundings} {i : Instr} {rs : List Reg} (h : s.Covers i) (hrs : rs ⊆ i.regs)
    (hi : ∀ r ∈ rs, r.ty.isIter = false) : ∀ r ∈ rs, s.Usable r :=
  fun r hr => h.usable (hrs hr) (hi r hr)

theorem Covers.iterates {s : Surroundings} {i : Instr} {r : Reg} {k : Key} (h : s.Covers i) (hr : r ∈ i.regs)
    (hk : r.ty = .iter k) :
    ∃ c, s.Iterates r k c := by
  rcases h r hr with ⟨-, h | ⟨h, -⟩⟩ | ⟨j, c, hj, hc⟩
  · simp [hk] at h
  · simp [hk, Ty.isIter] at h
  · exact ⟨c, hk, hc⟩

end Surroundings

namespace Instr

def unknown? : Instr → Option ValueOp
  | .arith d (.unknown n) _ => some (.arith (d.ty = .float) (.unknown n))
  | .bit _ (.unknown n) _ => some (.bit (.unknown n))
  | .math _ (.unknown n) _ => some (.math (.unknown n))
  | _ => none

def isControl : Instr → Bool
  | .label _ | .jmp _ | .jmpIf .. | .ret _ => true
  | _ => false

end Instr

open Native (Emits Fact)
open Native.Fact (Gives)

theorem Native.kinds_replicate {args : List Reg} {t : Ty} {n : Nat} (hn : args.length = n) (ha : ∀ a ∈ args, a.ty = t) :
    args.map (·.ty.words) = List.replicate n t.words := by
  refine List.eq_replicate_iff.2 ⟨by simp [hn], fun k hk => ?_⟩
  obtain ⟨a, hmem, rfl⟩ := List.mem_map.1 hk
  rw [ha a hmem]

section

variable {s : Surroundings} (hs : s.Apt) {K : Fact} (hK : K.Gives (.vars s)) {i : Instr}

include hs hK

theorem Native.Emits.lowerArith {d : Reg} {op : Arith} {args : List Reg} (hd : s.Usable d) (ha : ∀ a ∈ args, s.Usable a)
    (hty : d.ty = .int ∨ d.ty = .float) (hn : args.length = op.arity) (hargs : ∀ a ∈ args, a.ty = d.ty)
    (hop : ∀ n, op ≠ .unknown n) : Emits s K (Lowering.lower (.arith d op args) : Native Unit) fun _ => .nothing := by
  refine .bindOp hs hK hd ha fun hvs => .arith hs hop ?_ (kinds_replicate hn hargs ▸ hvs)
  rcases hty with h | h <;> rw [h] <;> rfl

theorem Native.Emits.bindServiceOf {d : Reg} {args : List Reg} {sv : Service} (hc : s.Covers i)
    (hregs : d :: args ⊆ i.regs) (hd : d.ty.isIter = false) (ha : ∀ a ∈ args, a.ty.isIter = false)
    (hsig : sv.sig = ⟨.i64 :: args.map (·.ty.words), [d.ty.words]⟩) :
    Emits s K (Lowering.bindService d sv args : Native Unit) fun _ => .nothing :=
  .bindService hs hK (hc.usable (hregs (.head _)) hd) (fun a h => hc.usable (hregs (.tail _ h)) (ha a h)) hsig

theorem Native.Emits.performOnOf {args : List Reg} {sv : Service} (hc : s.Covers i) (hregs : args ⊆ i.regs)
    (ha : ∀ a ∈ args, a.ty.isIter = false) (hsig : sv.sig = ⟨.i64 :: args.map (·.ty.words), []⟩) :
    Emits s K (Lowering.performOn sv args : Native Unit) fun _ => .nothing :=
  .performOn hs hK (fun a h => hc.usable (hregs h) (ha a h)) hsig

theorem Native.Emits.lowerFloat {d l r : Reg} {op : ValueOp} (hc : s.Covers i) (hregs : [d, l, r] ⊆ i.regs)
    (hd : d.ty = .float) (hnum : l.ty = .int ∧ r.ty = .int ∨ l.ty = .float ∧ r.ty = .float)
    (hop : ∀ {L : Fact} {x y : Value}, L.Gives (.kind x .f64) → L.Gives (.kind y .f64) →
      Emits s L (Native.apply op [x, y]) fun v => .kind v .f64) :
    Emits s K (Lowering.bindFloatOp d op [l, r] : Native Unit) fun _ => .nothing := by
  have hargs : ∀ a ∈ [l, r], s.Usable a := by
    refine hc.all (List.subset_of_cons_subset hregs) ?_
    rcases hnum with ⟨hl, hr⟩ | ⟨hl, hr⟩ <;> simp [hl, hr, Ty.isIter]
  refine .bindFloatOp hs hK (hc.has (hregs (.head _)) hd rfl) (hargs l (.head _)) (hargs r (.tail _ (.head _))) hnum
    fun hvs => .of_pair hvs fun x y hxy hx hy => ?_
  subst hxy
  rw [hd]
  exact hop hx hy

omit hs hK in
theorem Native.status_words {t : Ty} (h : t = .null ∨ t = .int) : t.isIter = false ∧ t.words = .i64 := by
  rcases h with rfl | rfl <;> exact ⟨rfl, rfl⟩

theorem Native.Emits.lowerPrint {out : Option Output} {args : List Reg} {status : Reg} {ret : Ty}
    (ht : (Instr.print out args status).Typed s.program ret) (hc : s.Covers (.print out args status)) :
    Emits s K (Lowering.lower (.print out args status) : Native Unit) fun _ => .nothing := by
  obtain ⟨hstatus, hout, hargs⟩ := ht
  obtain ⟨hiter, hw⟩ := Native.status_words hstatus
  refine .printAll hs hK (hc.usable (.head _) hiter) hw (fun o ho => ⟨hc.has ?_ (hout o ho) rfl, hout o ho⟩)
    fun a ha => hc.has ?_ (hargs a ha) rfl
  · exact .tail _ (List.mem_append_left _ (Instr.mem_outputRegs.2 ⟨o, ho, rfl⟩))
  · exact .tail _ (List.mem_append_right _ ha)

theorem Native.Emits.lowerPrintf {out : Option Output} {format status : Reg} {args : List Reg} {ret : Ty}
    (ht : (Instr.printf out format args status).Typed s.program ret) (hc : s.Covers (.printf out format args status)) :
    Emits s K (Lowering.lower (.printf out format args status) : Native Unit) fun _ => .nothing := by
  obtain ⟨hstatus, hout, hformat, hargs⟩ := ht
  obtain ⟨hiter, hw⟩ := Native.status_words hstatus
  refine .printf hs hK (hc.usable (.head _) hiter) hw (fun o ho => ⟨hc.has ?_ (hout o ho) rfl, hout o ho⟩)
    (hc.has (.tail _ (.head _)) hformat rfl) hformat fun a ha => ?_
  · exact .tail _ (.tail _ (List.mem_append_left _ (Instr.mem_outputRegs.2 ⟨o, ho, rfl⟩)))
  · obtain ⟨t, h⟩ := hargs a ha
    exact hc.has (.tail _ (.tail _ (List.mem_append_right _ ha))) h t.isIter_ty

theorem Native.Emits.lowerSprintf {d format : Reg} {args : List Reg} {ret : Ty}
    (ht : (Instr.sprintf d format args).Typed s.program ret) (hc : s.Covers (.sprintf d format args)) :
    Emits s K (Lowering.lower (.sprintf d format args) : Native Unit) fun _ => .nothing := by
  obtain ⟨hd, hformat, hargs⟩ := ht
  refine .sprintf hs hK (hc.has (.head _) hd rfl) hd (hc.has (.tail _ (.head _)) hformat rfl) hformat fun a ha => ?_
  obtain ⟨t, h⟩ := hargs a ha
  exact hc.has (.tail _ (.tail _ ha)) h t.isIter_ty

theorem Native.Emits.lowerCall {d : Reg} {fn : Int} {args : List Reg} {ret : Ty} (hp : s.program.check = [])
    (ht : (Instr.call d fn args).Typed s.program ret) (hc : s.Covers (.call d fn args)) :
    Emits s K (Lowering.lower (.call d fn args) : Native Unit) fun _ => .nothing := by
  obtain ⟨callee, hcallee, hargs, hret⟩ := ht
  have hfunc := (Check.check_eq_nil.1 hp).2.2 callee (Program.mem_of_func? hcallee)
  obtain ⟨hparams, ⟨-, hcret⟩, -⟩ := Check.func_eq_nil.1 hfunc
  refine .call hs hK hcallee hargs hret ?_ fun a ha => ?_
  · rcases hret with h | h
    · exact hc.has (.head _) h rfl
    · exact hc.has (.head _) h (Ty.isIter_eq_false.2 hcret)
  · obtain ⟨r, hr, e⟩ := List.mem_map.1 (hargs ▸ List.mem_map_of_mem ha)
    exact hc.has (.tail _ ha) e.symm (Ty.isIter_eq_false.2 (hparams r hr).2.2)

theorem Native.Emits.lower {ret : Ty} (hp : s.program.check = []) (ht : i.Typed s.program ret) (hc : s.Covers i)
    (hop : i.unknown? = none) (hstay : i.isControl = false) :
    Emits s K (Lowering.lower i : Native Unit) fun _ => .nothing := by
  cases i
  case print out args status => exact .lowerPrint hs hK ht hc
  case printf out format args status => exact .lowerPrintf hs hK ht hc
  case sprintf d format args => exact .lowerSprintf hs hK ht hc
  case call d fn args => exact .lowerCall hs hK hp ht hc
  all_goals simp only [Instr.Typed] at ht
  case constInt d n =>
    exact .bind (.constInt n) fun _ => .bindReg hs hK.left (hc.has (.head _) ht rfl) (by rw [ht]; exact .last)
  case constFloat d x =>
    exact .bind (.constFloat x) fun _ => .bindReg hs hK.left (hc.has (.head _) ht rfl) (by rw [ht]; exact .last)
  case constStr d t =>
    exact .bind (.constStr t) fun _ => .bindReg hs hK.left (hc.has (.head _) ht rfl) (by rw [ht]; exact .last)
  case mov d src =>
    have hiter := Ty.isIter_eq_false.2 ht.2
    have hd := hc.usable (r := d) (.head _) hiter
    have hsrc := hc.has (r := src) (.tail _ (.head _)) ht.1 hiter
    obtain ⟨d, t⟩ := d
    obtain ⟨src, _⟩ := src
    obtain rfl : _ = t := ht.1
    exact .bind (.value hK hsrc) fun _ => .bindReg hs hK.left hd .last
  case compare d c l r =>
    obtain ⟨hd, t, hl, hr⟩ := ht
    exact .compareRegs hs hK c (hc.has (.head _) hd rfl) (hc.has (.tail _ (.head _)) hl t.isIter_ty)
      (hc.has (.tail _ (.tail _ (.head _))) hr t.isIter_ty) hd hl hr
  case arith d op args =>
    obtain ⟨hd, hn, ha⟩ := ht
    have hiter : d.ty.isIter = false := by rcases hd with h | h <;> simp [h, Ty.isIter]
    exact .lowerArith hs hK (hc.usable (.head _) hiter) (fun a h => hc.has (.tail _ h) (ha a h) hiter) hd hn ha
      fun n e => by simp [e, Instr.unknown?] at hop
  case bit d op args =>
    obtain ⟨hd, hn, ha⟩ := ht
    exact .bindOp hs hK (hc.has (.head _) hd rfl) (fun a h => hc.has (.tail _ h) (ha a h) rfl)
      fun hvs => hd ▸ .bit (fun n e => by simp [e, Instr.unknown?] at hop) (kinds_replicate hn ha ▸ hvs)
  case math d fn args =>
    obtain ⟨hd, hn, ha⟩ := ht
    exact .bindOp hs hK (hc.has (.head _) hd rfl) (fun a h => hc.has (.tail _ h) (ha a h) rfl)
      fun hvs => hd ▸ .math hs (fun n e => by simp [e, Instr.unknown?] at hop) (kinds_replicate hn ha ▸ hvs)
  case div d l r =>
    exact .lowerFloat hs hK hc (List.Subset.refl _) ht.1 ht.2 fun hx hy => .float _ hx hy
  case pow d l r =>
    exact .lowerFloat hs hK hc (List.Subset.refl _) ht.1 ht.2 fun hx hy => .ask hs (hx.kinds_cons hy.kinds_one) rfl
  case convert d src =>
    obtain ⟨t, u, hd, hsrc⟩ := ht
    exact .convert hs hK (hc.has (.head _) hd t.isIter_ty) (hc.has (.tail _ (.head _)) hsrc u.isIter_ty) hd hsrc
  case concat d l r =>
    exact .bindServiceOf hs hK hc (by simp [Instr.regs]) (by simp [ht, Ty.isIter]) (by simp [ht, Ty.isIter])
      (by simp [ht, Service.sig, Ty.words])
  case strLen d src =>
    exact .bindServiceOf hs hK hc (by simp [Instr.regs]) (by simp [ht, Ty.isIter]) (by simp [ht, Ty.isIter])
      (by simp [ht, Service.sig, Ty.words])
  case matchPattern d src pat =>
    exact .bindServiceOf hs hK hc (by simp [Instr.regs]) (by simp [ht, Ty.isIter]) (by simp [ht, Ty.isIter])
      (by simp [ht, Service.sig, Ty.words])
  case split d src m pat =>
    obtain ⟨hd, hsrc, hpat, k, hm⟩ := ht
    exact .bindServiceOf hs hK hc (by simp [Instr.regs]) (by simp [hd, Ty.isIter]) (by simp [hsrc, hm, hpat, Ty.isIter])
      (by simp [hd, hsrc, hm, hpat, Service.sig, Ty.words])
  case lookup d m key =>
    obtain ⟨k, v, hm, hk, hd⟩ := ht
    refine .bindMapService hs hK hm (hc.has (.head _) hd v.isIter_ty) (hc.all (by simp [Instr.regs]) ?_) ?_
    · cases k <;> simp [hm, hk, Key.ty, Ty.isIter]
    · cases k <;> cases v <;> simp [hm, hk, hd, Key.ty, Scalar.ty, Service.sig, Service.mapSig, Service.keyKind,
        Service.scalarKind, Ty.words]
  case store m key val =>
    obtain ⟨k, v, hm, hk, hv⟩ := ht
    refine .performMapService hs hK hm (hc.all (List.Subset.refl _) ?_) ?_
    · cases k <;> cases v <;> simp [hm, hk, hv, Key.ty, Scalar.ty, Ty.isIter]
    · cases k <;> cases v <;> simp [hm, hk, hv, Key.ty, Scalar.ty, Service.sig, Service.mapSig, Service.keyKind,
        Service.scalarKind, Ty.words]
  case contains d m key =>
    obtain ⟨hd, k, v, hm, hk⟩ := ht
    refine .bindMapService hs hK hm (hc.has (.head _) hd rfl) (hc.all (by simp [Instr.regs]) ?_) ?_
    · cases k <;> simp [hm, hk, Key.ty, Ty.isIter]
    · cases k <;> simp [hm, hk, hd, Key.ty, Service.sig, Service.mapSig, Service.keyKind, Ty.words]
  case delete m key =>
    obtain ⟨k, v, hm, hk⟩ := ht
    refine .performMapService hs hK hm (hc.all (List.Subset.refl _) ?_) ?_
    · cases k <;> simp [hm, hk, Key.ty, Ty.isIter]
    · cases k <;> simp [hm, hk, Key.ty, Service.sig, Service.mapSig, Service.keyKind, Ty.words]
  case len d m =>
    obtain ⟨hd, k, v, hm⟩ := ht
    exact .bindMapService hs hK hm (hc.has (.head _) hd rfl) (hc.all (by simp [Instr.regs]) (by simp [hm, Ty.isIter]))
      (by simp [hm, hd, Service.sig, Service.mapSig, Ty.words])
  case iterBegin d m =>
    obtain ⟨k, v, hm, hd⟩ := ht
    obtain ⟨c, hiter⟩ := hc.iterates (.head _) hd
    exact .iterBegin hs hK hiter hm (hc.has (.tail _ (.head _)) hm rfl)
  case iterHasNext d it =>
    obtain ⟨hd, k, hit⟩ := ht
    obtain ⟨c, hiter⟩ := hc.iterates (.tail _ (.head _)) hit
    exact .iterHasNext hs hK hiter (hc.has (.head _) hd rfl) hd
  case iterGetNext d it =>
    obtain ⟨k, hit, hd⟩ := ht
    obtain ⟨c, hiter⟩ := hc.iterates (.tail _ (.head _)) hit
    exact .iterGetNext hs hK hiter (hc.has (.head _) hd k.isIter_ty) hd
  case nextLine d =>
    exact .bindResult hs hK (hc.has (.head _) ht rfl) (by simp [ht, Service.sig, Ty.words]) .kinds_nil
  case getColumn d index =>
    exact .bindServiceOf hs hK hc (by simp [Instr.regs]) (by simp [ht, Ty.isIter]) (by simp [ht, Ty.isIter])
      (by simp [ht, Service.sig, Ty.words])
  case setColumn index src =>
    exact .performOnOf hs hK hc (by simp [Instr.regs]) (by simp [ht, Ty.isIter]) (by simp [ht, Service.sig, Ty.words])
  case readFileLine d status path =>
    obtain ⟨hd, hstatus, hpath⟩ := ht
    refine .bind (.bindServiceOf hs hK hc (by simp [Instr.regs]) (by simp [hd, Ty.isIter]) (by simp [hpath, Ty.isIter])
      (by simp [hd, hpath, Service.sig, Ty.words])) fun _ => ?_
    exact .bindResult hs hK.left (hc.has (.tail _ (.head _)) hstatus rfl) (by rw [hstatus]; rfl) .kinds_nil
  case loadVar d v =>
    exact .loadVar hs hK (hc.usable (.head _) (by rw [ht]; cases v <;> rfl)) ht
  case storeVar v src =>
    exact .storeVar hs hK (hc.usable (.head _) (by rw [ht]; cases v <;> rfl)) ht
  all_goals simp [Instr.isControl] at hstay

end

/-! ## Operators that do not exist -/

theorem Native.apply_unknown {s : Surroundings} {q : Progress} {op : ValueOp} {vs : List Value}
    (hn : op.arity? = some vs.length)
    (hop : (∃ float n, op = .arith float (.unknown n)) ∨ (∃ n, op = .bit (.unknown n)) ∨ ∃ n, op = .math (.unknown n)) :
    Native.apply op vs s q = (.error (.error (.unsupported op)), q) := by
  have harity : Lowering.checkArity op vs.length = none := by simp [Lowering.checkArity, hn]
  unfold Native.apply
  rw [harity]
  rcases hop with ⟨_ | _, n, rfl⟩ | ⟨n, rfl⟩ | ⟨n, rfl⟩
  · match vs, hn with
    | [x, y], _ => rfl
  · match vs, hn with
    | [x, y], _ => rfl
  · match vs, hn with
    | [x, y], _ => rfl
  · match vs, hn with
    | [x], _ => rfl

theorem Native.lower_unknown {s : Surroundings} {i : Instr} {q : Progress} {b : BlockId} {ret : Ty} {op : ValueOp}
    (ht : i.Typed s.program ret) (hc : s.Covers i) (hop : i.unknown? = some op) (hq : Open s q b)
    (hvars : (Fact.vars s).Holds q.draft.body) :
    ∃ q', (Lowering.lower i : Native Unit) s q = (.error (.error (.unsupported op)), q') := by
  have refused : ∀ {d : Reg} {args : List Reg}, (∀ a ∈ args, s.Usable a) → op.arity? = some args.length →
      ((∃ float n, op = .arith float (.unknown n)) ∨ (∃ n, op = .bit (.unknown n)) ∨ ∃ n, op = .math (.unknown n)) →
      ∃ q', (Lowering.bindOp d op args : Native Unit) s q = (.error (.error (.unsupported op)), q') := by
    intro d args ha hn hun
    obtain ⟨vs, q', hrun, -, hkinds⟩ := (Emits.values .refl ha).run hq hvars
    have hlen : vs.length = args.length := by simpa using congrArg List.length hkinds
    refine ⟨q', ?_⟩
    show (args.mapM Native.value >>= fun vs => Native.apply op vs >>= Native.bind d) s q = _
    rw [bind_apply, hrun]
    dsimp only
    rw [bind_apply, apply_unknown (hlen ▸ hn) hun]
  unfold Instr.unknown? at hop
  split at hop
  · next d n args =>
    obtain rfl := Option.some.inj hop
    obtain ⟨hd, hn, ha⟩ := ht
    refine refused (fun a h => hc.usable (.tail _ h) ?_) (by rw [hn]; rfl) (.inl ⟨_, n, rfl⟩)
    rcases hd with h' | h' <;> simp [ha a h, h', Ty.isIter]
  · next d n args =>
    obtain rfl := Option.some.inj hop
    obtain ⟨hd, hn, ha⟩ := ht
    exact refused (fun a h => hc.usable (.tail _ h) (by simp [ha a h, Ty.isIter])) (by rw [hn]; rfl)
      (.inr (.inl ⟨n, rfl⟩))
  · next d n args =>
    obtain rfl := Option.some.inj hop
    obtain ⟨hd, hn, ha⟩ := ht
    exact refused (fun a h => hc.usable (.tail _ h) (by simp [ha a h, Ty.isIter])) (by rw [hn]; rfl)
      (.inr (.inr ⟨n, rfl⟩))
  · cases hop

end RecordMill

import RecordMill.Proofs.Lowering.Operations

/-!
# Straight-line instructions

The code of an instruction that neither jumps nor calls does what the direct emitter does.
-/

namespace RecordMill

open Machine (Kind Value VarId BlockId Cells Outside Memory Body FuncDraft Build Inst Action Trap Callee)

/-- Operands of these kinds give a result of that kind. -/
inductive ValueOp.Typed : ValueOp → List Kind → Kind → Prop
  | compareInt (c : Cmp) : Typed (.compare false c) [.i64, .i64] .i64
  | compareFloat (c : Cmp) : Typed (.compare true c) [.f64, .f64] .i64
  | negInt : Typed (.arith false .neg) [.i64] .i64
  | negFloat : Typed (.arith true .neg) [.f64] .f64
  | arithInt {op : Arith} (h : op ≠ .neg) : Typed (.arith false op) [.i64, .i64] .i64
  | arithFloat {op : Arith} (h : op ≠ .neg) : Typed (.arith true op) [.f64, .f64] .f64
  | complement : Typed (.bit .complement) [.i64] .i64
  | bit {op : Bitwise} (h : op ≠ .complement) : Typed (.bit op) [.i64, .i64] .i64
  | atan2 : Typed (.math .atan2) [.f64, .f64] .f64
  | math {fn : MathFn} (h : fn ≠ .atan2) : Typed (.math fn) [.f64] .f64
  | div : Typed .div [.f64, .f64] .f64
  | pow : Typed .pow [.f64, .f64] .f64
  | floatToInt : Typed .floatToInt [.f64] .i64
  | intToFloat : Typed .intToFloat [.i64] .f64
  | service {s : Service} {k : Kind} (hs : s.readsMemory = false) (hk : s.sig.returns = [k]) (ks : List Kind) :
      Typed (.service s) ks k

namespace Realizes

variable {S : Site} {α β γ ε : Type} {K : Known S} {n m : Nat} {x : Native α} {D : Direct β} {R : α → β → Known S}

/-! ## Operations on values -/

theorem applyOne (hS : S.Sound) {op : ValueOp} {j k : Kind} (hop : op.Typed [j] k) {v : Value} {ws : List UInt64}
    (hv : K.Gives (Known.value S v j ws)) :
    Realizes S K 1 (Native.apply op [v]) (Direct.apply op [ws]) fun v ws => Known.value S v k ws := by
  cases hop with
  | negInt => exact intUnary hv .neg
  | negFloat => exact floatUnary hv .neg
  | complement => exact intUnary hv .not
  | @math fn h =>
    have asked : ∀ {s : Service}, s.readsMemory = false → s.sig.returns = [.f64] →
        Realizes S K 1 (Native.ask s [v]) (Direct.service s [ws]) fun v ws => Known.value S v .f64 ws :=
      fun hs hk => ask hS hs hk hv
    cases fn with
    | sqrt => exact floatUnary hv .sqrt
    | atan2 => exact absurd rfl h
    | unknown => exact stop
    | _ => exact asked rfl rfl
  | floatToInt => exact toInt hv
  | intToFloat => exact ofInt hv
  | service hs hk => exact ask hS hs hk hv

theorem applyTwo (hS : S.Sound) {op : ValueOp} {i j k : Kind} (hop : op.Typed [i, j] k) {v u : Value}
    {ws us : List UInt64} (hv : K.Gives (Known.value S v i ws)) (hu : K.Gives (Known.value S u j us)) :
    Realizes S K 1 (Native.apply op [v, u]) (Direct.apply op [ws, us]) fun v ws => Known.value S v k ws := by
  cases hop with
  | compareInt c => exact truth (icmp hv hu _)
  | compareFloat c => exact truth (fcmp hv hu _)
  | @arithInt op h =>
    cases op with
    | neg => exact absurd rfl h
    | unknown => exact stop
    | _ => exact int hv hu _
  | @arithFloat op h =>
    cases op with
    | neg => exact absurd rfl h
    | unknown => exact stop
    | mod => exact ask hS (s := .remainder) rfl rfl (.two hv hu)
    | _ => exact float hv hu _
  | @bit op h =>
    cases op with
    | complement => exact absurd rfl h
    | unknown => exact stop
    | and => exact int hv hu .and
    | or => exact int hv hu .or
    | xor => exact int hv hu .xor
    | leftShift => exact shift hv hu .left
    | logicalRightShift => exact shift hv hu .right
    | arithmeticRightShift => exact shift hv hu .signedRight
  | atan2 => exact ask hS (s := .atan2) rfl rfl (.two hv hu)
  | div => exact float hv hu .div
  | pow => exact ask hS (s := .power) rfl rfl (.two hv hu)
  | service hs hk => exact ask hS hs hk (.two hv hu)

/-! ## Several registers -/

theorem valuesOf (hS : S.Sound) (rs : List Reg) : Realizes S K 0 (rs.mapM Native.value) (rs.mapM Direct.value)
    fun vs wss => Known.values S vs (rs.map (·.ty.words)) wss := by
  induction rs generalizing K with
  | nil => exact pure .nil
  | cons r rs ih =>
    rw [List.mapM_cons, List.mapM_cons]
    refine bind (value hS r).any fun v ws => ?_
    refine bind ih fun vs wss => ?_
    exact pure (.cons (.left .last) .last)

/-! ## Results of services -/

theorem callService (hS : S.Sound) {s : Service} (hs : s.readsMemory = false) {k : Kind} (hk : s.sig.returns = [k])
    {args : List Value} {ks : List Kind} {wss : List (List UInt64)} (ha : K.Gives (Known.values S args ks wss)) :
    Realizes S K 1 (Lowering.callService s args : Native Value) (Lowering.callService s wss : Direct (List UInt64))
      fun v ws => Known.value S v k ws :=
  next (context hS) fun _ _ => ask hS hs hk (.cons .last ha.left)

theorem performService (hS : S.Sound) {s : Service} (hs : s.readsMemory = false) {args : List Value} {ks : List Kind}
    {wss : List (List UInt64)} (ha : K.Gives (Known.values S args ks wss)) :
    Realizes S K 1 (Lowering.performService s args : Native Unit) (Lowering.performService s wss : Direct Unit)
      fun _ _ => Known.nothing S :=
  next (context hS) fun _ _ => tell hS hs (.cons .last ha.left)

theorem bindResult (hS : S.Sound) {r : Reg} {s : Service} (hs : s.readsMemory = false)
    (hk : s.sig.returns = [r.ty.words]) {args : List Value} {ks : List Kind} {wss : List (List UInt64)}
    (ha : K.Gives (Known.values S args ks wss)) :
    Realizes S K 1 (Lowering.bindResult r s args : Native Unit) (Lowering.bindResult r s wss : Direct Unit)
      fun _ _ => Known.nothing S := by
  refine bind (callService hS hs hk ha) fun v ws => ?_
  split
  · exact bindOwned hS r .last rfl
  · exact bindReg hS r .last rfl

theorem bindService (hS : S.Sound) {r : Reg} {s : Service} (hs : s.readsMemory = false)
    (hk : s.sig.returns = [r.ty.words]) (args : List Reg) :
    Realizes S K 1 (Lowering.bindService r s args : Native Unit) (Lowering.bindService r s args : Direct Unit)
      fun _ _ => Known.nothing S :=
  next (valuesOf hS args) fun _ _ => bindResult hS hs hk .last

theorem performOn (hS : S.Sound) {s : Service} (hs : s.readsMemory = false) (args : List Reg) :
    Realizes S K 1 (Lowering.performOn s args : Native Unit) (Lowering.performOn s args : Direct Unit)
      fun _ _ => Known.nothing S :=
  next (valuesOf hS args) fun _ _ => performService hS hs .last

/-! ## Operations on registers -/

theorem bindOp (hS : S.Sound) {dst : Reg} {op : ValueOp} {args : List Reg} {k : Kind}
    (hop : op.Typed (args.map (·.ty.words)) k) (hlen : args.length = 1 ∨ args.length = 2)
    (hk : k.words = dst.ty.words.words) :
    Realizes S K 1 (Lowering.bindOp dst op args : Native Unit) (Lowering.bindOp dst op args : Direct Unit)
      fun _ _ => Known.nothing S := by
  unfold Lowering.bindOp
  match args, hlen with
  | [r], _ =>
    simp only [List.mapM_cons, List.mapM_nil, bind_assoc, pure_bind]
    refine next (value hS r) fun v ws => ?_
    refine bind (applyOne hS hop .last) fun _ _ => ?_
    exact bindReg hS dst .last hk
  | [l, r], _ =>
    simp only [List.mapM_cons, List.mapM_nil, bind_assoc, pure_bind]
    refine next (value hS l) fun v ws => ?_
    refine next (value hS r) fun u us => ?_
    refine bind (applyTwo hS hop (.left .last) .last) fun _ _ => ?_
    exact bindReg hS dst .last hk

theorem bindFloatOp (hS : S.Sound) {dst : Reg} {op : ValueOp} {l r : Reg} (hop : op.Typed [.f64, .f64] .f64)
    (h : l.ty = .int ∨ l.ty = .float) (hr : r.ty = l.ty) (hdst : dst.ty = .float) :
    Realizes S K 1 (Lowering.bindFloatOp dst op [l, r] : Native Unit) (Lowering.bindFloatOp dst op [l, r] : Direct Unit)
      fun _ _ => Known.nothing S := by
  have hk : Kind.f64.words = dst.ty.words.words := by rw [hdst]; rfl
  unfold Lowering.bindFloatOp Lowering.toFloats Lowering.toFloats Lowering.toFloats
  simp only [List.mapM_cons, List.mapM_nil, bind_assoc, pure_bind]
  refine next (value hS l) fun v ws => ?_
  refine next (value hS r) fun u us => ?_
  rw [hr]
  rcases h with hl | hl <;> simp only [hl, reduceCtorEq, if_true, if_false, bind_assoc, pure_bind, Ty.words]
  · refine next (applyOne hS .intToFloat (.left .last)) fun v' ws' => ?_
    refine next (applyOne hS .intToFloat (.left .last)) fun u' us' => ?_
    refine bind (applyTwo hS hop (.left .last) .last) fun _ _ => ?_
    exact bindReg hS dst .last hk
  · refine bind (applyTwo hS hop (.left .last) .last) fun _ _ => ?_
    exact bindReg hS dst .last hk

theorem compare (hS : S.Sound) {dst : Reg} (op : Cmp) {l r : Reg} (hl : l.ty = .int ∨ l.ty = .float ∨ l.ty = .str)
    (hr : r.ty = l.ty) (hdst : dst.ty = .int) :
    Realizes S K 1 (Lowering.compare dst op l r : Native Unit) (Lowering.compare dst op l r : Direct Unit)
      fun _ _ => Known.nothing S := by
  have hk : Kind.i64.words = dst.ty.words.words := by rw [hdst]; rfl
  unfold Lowering.compare
  rcases hl with hl | hl | hl
  · simp only [hl, reduceCtorEq, if_false, decide_false]
    exact bindOp hS (by simp only [List.map_cons, List.map_nil, hl, hr]; exact .compareInt op) (.inr rfl) hk
  · simp only [hl, reduceCtorEq, if_false, decide_true]
    exact bindOp hS (by simp only [List.map_cons, List.map_nil, hl, hr]; exact .compareFloat op) (.inr rfl) hk
  · simp only [hl, if_true]
    refine next (valuesOf hS [l, r]) fun vs wss => ?_
    refine next (callService hS (s := .compareStr) rfl rfl .last) fun v ws => ?_
    refine next (constInt 0) fun z zs => ?_
    refine bind (applyTwo hS (.compareInt op) (.left .last) .last) fun _ _ => ?_
    exact bindReg hS dst .last hk

theorem convert (hS : S.Sound) (dst src : Reg) :
    Realizes S K 1 (Lowering.convert dst src : Native Unit) (Lowering.convert dst src : Direct Unit)
      fun _ _ => Known.nothing S := by
  unfold Lowering.convert
  refine bind (value hS src) fun v ws => ?_
  split
  · next h => exact bindReg hS dst .last (by rw [h])
  · split
    · next hs hd =>
      rw [hs]
      refine bind (applyOne hS .intToFloat .last).any fun _ _ => ?_
      exact bindReg hS dst .last (by rw [hd]; rfl)
    · next hs hd =>
      rw [hs]
      refine bind (applyOne hS .floatToInt .last).any fun _ _ => ?_
      exact bindReg hS dst .last (by rw [hd]; rfl)
    · next hs hd => exact (bindResult hS (s := .intToStr) rfl (by rw [hd]; rfl) (.last)).any
    · next hs hd => exact (bindResult hS (s := .floatToStr) rfl (by rw [hd]; rfl) .last).any
    · next hs hd => exact (bindResult hS (s := .strToInt) rfl (by rw [hd]; rfl) .last).any
    · next hs hd => exact (bindResult hS (s := .strToFloat) rfl (by rw [hd]; rfl) .last).any
    · exact stop

/-! ## Variables -/

theorem loadVar (hS : S.Sound) (dst : Reg) (var : Variable) :
    Realizes S K 1 (Lowering.loadVar dst var : Native Unit) (Lowering.loadVar dst var : Direct Unit)
      fun _ _ => Known.nothing S := by
  have bound : ∀ {s : Service} {k : Kind}, s.readsMemory = false → s.sig.returns = [k] → k.words = dst.ty.words.words →
      Realizes S K 1 (do
          let id ← Native.constInt (Int64.ofNat var.code)
          Native.bind dst (← Lowering.callService s [id])
          Native.loaded dst)
        (do
          let id ← (Pure.pure [(Int64.ofNat var.code).toUInt64] : Direct (List UInt64))
          Direct.bind dst (← Lowering.callService s [id])
          Direct.loaded dst) fun _ _ => Known.nothing S := by
    intro s k hs hk hw
    refine next (constInt _) fun id ws => ?_
    refine bind (callService hS hs hk .last) fun v us => ?_
    refine bind (bindReg hS dst .last hw) fun _ _ => ?_
    exact loaded hS dst
  unfold Lowering.loadVar
  cases hty : dst.ty with
  | str => exact bound (s := .loadStr) rfl rfl (by rw [hty]; rfl)
  | map => exact bound (s := .loadMap) rfl rfl (by rw [hty]; rfl)
  | _ => exact bound (s := .loadInt) rfl rfl (by rw [hty]; rfl)

theorem storeVar (hS : S.Sound) (var : Variable) (src : Reg) :
    Realizes S K 1 (Lowering.storeVar var src : Native Unit) (Lowering.storeVar var src : Direct Unit)
      fun _ _ => Known.nothing S := by
  have hs : (Lowering.storeService src.ty).readsMemory = false := by cases src.ty <;> rfl
  refine next (value hS src) fun v ws => ?_
  refine next (constInt _) fun id us => ?_
  exact performService hS hs (.two .last (.left .last))

/-! ## Iterators -/

section

variable {r : Reg} {c : Cursor}

theorem cursor {f : Cursor × Key → Native α} {g : Key → Direct β}
    (h : ∀ c k, S.scope.cursor? r = some c → r.ty = .iter k → Realizes S K n (f (c, k)) (g k) R) :
    Realizes S K n (Native.cursor r >>= f) (Direct.iterKey r >>= g) R := by
  obtain ⟨i, ty⟩ := r
  unfold Native.cursor Direct.iterKey
  simp only [bind_assoc]
  refine scope (setting ?_)
  have hscope : S.setting.scope = S.scope := rfl
  rw [hscope]
  cases hc : S.scope.cursor? ⟨i, ty⟩ with
  | none => exact ⟨fun _ hx => (by cases hx), fun _ hx => (by cases hx)⟩
  | some c =>
    cases ty with
    | iter k => exact h c k hc rfl
    | _ => exact ⟨fun _ hx => (by cases hx), fun _ hx => (by cases hx)⟩

variable (hS : S.Sound) (hc : S.scope.cursor? r = some c)

include hS hc

theorem useKeys : Realizes S K 1 (Native.build (Build.useVar c.keys)) (Direct.keysOf r)
    fun v ws => Known.value S v .i64 ws :=
  place hS (.keys r) (by rw [Scope.var?, hc]; rfl)

theorem usePosition : Realizes S K 1 (Native.build (Build.useVar c.position)) (Direct.positionOf r)
    fun v ws => Known.value S v .i64 ws :=
  place hS (.position r) (by rw [Scope.var?, hc]; rfl)

theorem setKeys {v : Value} {ws : List UInt64} (hv : K.Gives (Known.value S v .i64 ws)) :
    Realizes S K 1 (Native.build (Build.defVar c.keys v)) (Direct.setKeys r (Direct.word ws)) fun _ _ =>
      Known.nothing S := by
  have hvar : S.scope.var? (.keys r) = some c.keys := by rw [Scope.var?, hc]; rfl
  refine assign hS hvar (hv.word rfl) ⟨fun _ => rfl, fun _ => rfl, fun _ => rfl, fun δ q => ?_⟩
  cases q with
  | keys u =>
    show [if u = r then Direct.word ws else δ.keys u] = _
    by_cases h : u = r <;> simp [h, Site.content]
  | _ => rfl

theorem setPosition {v : Value} {ws : List UInt64} (hv : K.Gives (Known.value S v .i64 ws)) :
    Realizes S K 1 (Native.build (Build.defVar c.position v)) (Direct.setPosition r (Direct.word ws))
      fun _ _ => Known.nothing S := by
  have hvar : S.scope.var? (.position r) = some c.position := by rw [Scope.var?, hc]; rfl
  refine assign hS hvar (hv.word rfl) ⟨fun _ => rfl, fun _ => rfl, fun _ => rfl, fun δ q => ?_⟩
  cases q with
  | position u =>
    show [if u = r then Direct.word ws else δ.position u] = _
    by_cases h : u = r <;> simp [h, Site.content]
  | _ => rfl

theorem dropKeys : Realizes S K 1 (Native.dropKeys c) (Direct.dropKeys r) fun _ _ => Known.nothing S := by
  unfold Native.dropKeys Direct.dropKeys
  refine first (context hS) fun ctx => ?_
  exact next (useKeys hS hc) fun v ws => tell hS (s := .drop) rfl (.two (.left .last) .last)

end

theorem mapService {map : Reg} {what : MapService} {f : Service → Native α} {g : Service → Direct β}
    (h : ∀ k v, map.ty = .map k v → Realizes S K n (f (.map k v what)) (g (.map k v what)) R) :
    Realizes S K n (Lowering.mapService map what >>= f) (Lowering.mapService map what >>= g) R := by
  obtain ⟨i, ty⟩ := map
  unfold Lowering.mapService
  cases ty with
  | map k v => exact h k v rfl
  | _ => exact ⟨fun _ hx => (nomatch hx), fun _ hx => nomatch hx⟩

theorem iterBegin (hS : S.Sound) (dst map : Reg) :
    Realizes S K 1 (Native.iterBegin dst map) (Direct.iterBegin dst map) fun _ _ => Known.nothing S := by
  refine cursor fun c _ hc _ => ?_
  refine bind (value hS map) fun m ws => ?_
  refine first (context hS) fun ctx => ?_
  refine mapService fun k v hty => ?_
  rw [hty]
  refine bind (ask hS (s := .map k v .iterBegin) rfl rfl (.two .last (.left .last))).any fun keys us => ?_
  refine bind (dropKeys hS hc).any fun _ _ => ?_
  refine bind (setKeys hS hc (.left .last)).any fun _ _ => ?_
  exact first (constInt 0) fun z => (setPosition hS hc .last).any

theorem iterHasNext (hS : S.Sound) {dst : Reg} (iter : Reg) (hdst : dst.ty = .int) :
    Realizes S K 1 (Native.iterHasNext dst iter) (Direct.iterHasNext dst iter) fun _ _ => Known.nothing S := by
  refine cursor fun c k hc _ => ?_
  refine first (context hS) fun ctx => ?_
  refine next (useKeys hS hc) fun keys ws => ?_
  refine next (ask hS (s := .iterLen k) rfl rfl (.two (.left .last) .last)) fun len us => ?_
  refine next (usePosition hS hc) fun pos ps => ?_
  rw [← bind_assoc (x := Native.build (Build.icmp .lt pos len))]
  refine bind (truth (icmp .last (.left .last) .lt)) fun t ts => ?_
  exact bindReg hS dst .last (by rw [hdst]; rfl)

theorem iterGetNext (hS : S.Sound) {dst iter : Reg} (hdst : dst.ty = iter.ty.key) :
    Realizes S K 1 (Native.iterGetNext dst iter) (Direct.iterGetNext dst iter) fun _ _ => Known.nothing S := by
  refine cursor fun c k hc hty => ?_
  refine next (usePosition hS hc) fun pos ps => ?_
  refine first (context hS) fun ctx => ?_
  refine next (useKeys hS hc) fun keys ws => ?_
  refine bind (ask hS (s := .iterGet k) rfl rfl (.cons (.left .last) (.two .last (.left (.left .last))))) fun key us =>
    ?_
  refine first (constInt 1) fun one => ?_
  refine bind (int (.left (.left (.left (.left .last)))) .last .add).any fun sum ss => ?_
  refine bind (setPosition hS hc .last).any fun _ _ => ?_
  refine bindOwned hS dst (.left (.left (.left .last))) ?_
  rw [hdst, hty]
  cases k <;> rfl

end Realizes

end RecordMill

import RecordMill.Proofs.Lowering.Bindings
import RecordMill.Proofs.Lowering.Printing

/-!
# Calls and returns up to the transfer

What comes before a call or a return leaves its function is straight-line code, and so is what comes after
a call has returned. It does what the direct emitter does.
-/

namespace RecordMill

open Machine (Kind Value VarId BlockId Cells Outside Memory Body FuncDraft Build Inst Action Trap Callee RefId FuncId)

namespace Native

def operands (id : FuncId) (args : List Reg) : Native (RefId × List Value) := do
  let s ← read
  let ctx ← context
  let vs ← args.mapM value
  return (← build (s.module.importInto id), ctx :: vs)

def resume (dst : Reg) (ret : Ty) : List Value → Native Unit
  | v :: _ => if ret = .null then return else if dst.isNull then drop ret v else bindOwned dst v
  | [] => if ret = .null then return else throw .outOfRange

/-- What a return hands over once all else was given back. -/
def results (src : Reg) : Native (List Value) := do
  let ty := (← scope).func.ret
  let vs ←
    if ty = .null then pure []
    else if src.isNull then do pure [← zero ty]
    else do
      let v ← value src
      ref ty v
      pure [v]
  release
  return vs

theorem ret_eq (src : Reg) : ret src = (results src >>= fun vs => build (Build.ret vs) >>= fun _ => unreachable) := by
  unfold ret results
  rw [bind_assoc]
  congr 1
  funext s
  by_cases hnull : s.func.ret = .null
  · simp only [if_pos hnull, bind_assoc, pure_bind]
  · by_cases hsrc : src.isNull <;> simp only [if_neg hnull, hsrc, Bool.false_eq_true, if_true, if_false,
      bind_assoc, pure_bind]

theorem call_eq (dst : Reg) (fn : Int) (args : List Reg) (s : Surroundings) (p : Progress) :
    call dst fn args s p = (match s.program.func? fn, s.funcs[fn.toNat]? with
      | some callee, some id => do
        let ctx ← context
        let vs ← args.mapM value
        let ref ← build (s.module.importInto id)
        match ← build (Build.call ref (ctx :: vs)) with
        | v :: _ =>
          if callee.ret = .null then return
          else if dst.isNull then drop callee.ret v
          else bindOwned dst v
        | [] => if callee.ret = .null then return else throw .outOfRange
      | _, _ => throw .outOfRange : Native Unit) s p := rfl

theorem call_apply {s : Surroundings} {fn : Int} {callee : Func} {id : FuncId} (hf : s.program.func? fn = some callee)
    (hid : s.funcs[fn.toNat]? = some id) (dst : Reg) (args : List Reg) (p : Progress) :
    call dst fn args s p
      = (operands id args >>= fun x => build (Build.call x.1 x.2) >>= resume dst callee.ret) s p := by
  rw [call_eq, hf, hid]
  have hoperands : ∀ (k : RefId × List Value → Native Unit), (operands id args >>= k) s p = (do
      let ctx ← context
      let vs ← args.mapM value
      let ref ← build (s.module.importInto id)
      k (ref, ctx :: vs)) s p := by
    intro k
    simp only [operands, bind_assoc, pure_bind]
    rfl
  rw [hoperands]
  dsimp only
  congr 3

end Native

/-- What a return hands over once all else was given back. -/
def Direct.results (src : Reg) : Direct (List UInt64) := do
  let ty := (← MonadReader.read).scope.func.ret
  let ws ←
    if ty = .null then pure []
    else if src.isNull then zero ty
    else do
      let ws ← value src
      ref ty ws
      pure ws
  release
  return ws

theorem Direct.ret_eq (src : Reg) : ret src = (results src >>= fun ws => follow (.back ws)) := by
  unfold ret results
  rw [bind_assoc]
  congr 1
  funext e
  by_cases hnull : e.scope.func.ret = .null
  · simp only [if_pos hnull, bind_assoc, pure_bind]
  · by_cases hsrc : src.isNull <;> simp only [if_neg hnull, hsrc, Bool.false_eq_true, if_true, if_false,
      bind_assoc, pure_bind]

namespace Realizes

variable {S : Site} {α β γ ε : Type} {K : Known S} {n m : Nat} {x : Native α} {D : Direct β} {R : α → β → Known S}

theorem forM {ι : Type} {xs : List ι} {f : ι → Native Unit} {g : ι → Direct Unit}
    (h : ∀ y ∈ xs, ∀ {K : Known S}, Realizes S K 0 (f y) (g y) fun _ _ => Known.nothing S) :
    Realizes S K 0 (xs.forM f) (xs.forM g) fun _ _ => Known.nothing S := by
  induction xs generalizing K with
  | nil => exact pure .nothing
  | cons y ys ih => exact bind (h y (.head _)) fun _ _ => ih fun z hz => h z (.tail _ hz)

/-! ## Before a return -/

section

variable (hS : S.Sound) (hF : S.given.Fit)

include hS hF

theorem releaseGlobal (g : Reg) (hg : g ∈ S.given.program.globals) :
    Realizes S K 0 (Native.releaseGlobal g) (Direct.releaseGlobal g) fun _ _ => Known.nothing S := by
  unfold Native.releaseGlobal Direct.releaseGlobal
  split
  · refine scope (setting ?_)
    obtain ⟨i, hi⟩ := List.mem_iff_getElem?.1 hg
    have hb := hF.global_binding hi
    have hnative : S.scope.binding? g = _ := hb
    have hdirect : S.setting.scope.binding? g = _ := hb
    rw [hnative, hdirect]
    refine first (usePointer hS hb rfl) fun q => ?_
    refine bind (loadGlobal hS hb rfl .last).any fun old us => ?_
    refine bind (drop hS g.ty .last) fun _ _ => ?_
    by_cases hstr : g.ty = .str
    · simp only [hstr, if_true]
      refine first (packed .empty) fun v => ?_
      exact (writeGlobal hS hb rfl (.left (.left (.left .last))) .last (by rw [hstr]; rfl)).any
    · simp only [hstr, if_false]
      refine first (constInt 0) fun v => ?_
      refine (writeGlobal hS hb rfl (.left (.left (.left .last))) .last ?_).any
      cases hty : g.ty <;> simp_all [Ty.isHeap, Ty.words]
  · exact pure .nothing

theorem release : Realizes S K 0 Native.release Direct.release fun _ _ => Known.nothing S := by
  unfold Native.release Direct.release
  refine scope (setting ?_)
  refine bind (forM fun x hx {L} => ?_) fun _ _ => bind (forM fun x hx {L} => ?_) fun _ _ => ?_
  · obtain ⟨r, b⟩ := x
    obtain ⟨hmem, hlocal⟩ := List.mem_filter.1 hx
    show Realizes S L 0 (if r.ty.isHeap && !b.isLiteral then _ else _) (if r.ty.isHeap && !b.isLiteral then _ else _) _
    split
    · refine bind (useLocal hS (hF.binding_of_mem hmem) (by simpa using hlocal)).any fun v ws => ?_
      exact drop hS r.ty .last
    · exact pure .nothing
  · exact (dropKeys hS (hF.cursor_of_mem hx)).any
  · show Realizes S _ 0 (if S.scope.isMain then _ else _) (if S.scope.isMain then _ else _) _
    split
    · exact forM fun g hg => releaseGlobal hS hF g (hF.globals_eq ▸ hg)
    · exact pure .nothing

theorem results {src : Reg} (hsrc : src.ty = .null ∨ src.ty = S.scope.func.ret) :
    Realizes S K 0 (Native.results src) (Direct.results src)
      fun vs ws => Known.spread S vs S.scope.func.sig.returns ws := by
  -- The values to return are at hand: the rest is the same for all of them.
  have hrest : ∀ {L : Known S} {vs : List Value} {ws : List UInt64},
    L.Gives (Known.spread S vs S.scope.func.sig.returns ws) →
      Realizes S L 0 (do Native.release; return vs) (do Direct.release; return ws)
        fun vs ws => Known.spread S vs S.scope.func.sig.returns ws :=
    fun h => bind (release hS hF) fun _ _ => pure h.left
  unfold Native.results Direct.results
  refine scope (setting ?_)
  have hret : S.setting.scope.func.ret = S.scope.func.ret := rfl
  rw [hret]
  by_cases hnull : S.scope.func.ret = .null
  · simp only [if_pos hnull, pure_bind]
    refine hrest ⟨fun _ => ⟨[], ?_, rfl⟩⟩
    rw [Func.sig, if_pos hnull]
    exact ⟨rfl, rfl, rfl⟩
  · have hreturns : S.scope.func.sig.returns = [S.scope.func.ret.words] := if_neg hnull
    have hone : ∀ {L : Known S} {v : Value} {ws : List UInt64}, L.Gives (Known.value S v S.scope.func.ret.words ws) →
        L.Gives (Known.spread S [v] S.scope.func.sig.returns ws) := by
      refine fun h => ⟨fun hL => ⟨[_], ?_, by rw [List.flatten_cons, List.flatten_nil, List.append_nil]⟩⟩
      rw [hreturns]
      exact h.of hL
    by_cases hnone : src.isNull
    · simp only [if_neg hnull, hnone, if_true, pure_bind]
      exact bind (zero hS _).any fun v ws => hrest (hone .last)
    · have hty : src.ty = S.scope.func.ret := hsrc.resolve_left fun e => hnone (by simp [Reg.isNull, e])
      simp only [if_neg hnull, hnone, Bool.false_eq_true, if_false, pure_bind]
      refine bind (value hS src).any fun v ws => bind (ref hS _ .last) fun _ _ => hrest (hone (.left ?_))
      rw [hty]
      exact .last

end

/-! ## Around a call -/

theorem operands (hS : S.Sound) {id : FuncId} {e : Machine.FuncDecl Service} (he : S.given.module.funcs[id]? = some e)
    (args : List Reg) :
    Realizes S K 0 (Native.operands id args) (args.mapM Direct.value) fun x wss => (Known.callee S x.1 id e.sig).and
      (Known.values S x.2 (.i64 :: args.map (·.ty.words)) (Direct.contextWord :: wss)) := by
  unfold Native.operands
  refine given ?_
  rw [← bind_pure (args.mapM Direct.value)]
  refine first (context hS) fun ctx => ?_
  refine bind (valuesOf hS args) fun vs wss => ?_
  refine first (importInto he) fun r => ?_
  exact pure ⟨fun h => ⟨h.2, (Known.Gives.cons (.left (.left .last)) (.left .last)).of h⟩⟩

theorem spread_head {v : Value} {vs : List Value} {k : Kind} {ws : List UInt64}
    (h : K.Gives (Known.spread S (v :: vs) [k] ws)) :
    K.Gives (Known.value S v k ws) := by
  refine ⟨fun hK => ?_⟩
  obtain ⟨wss, ⟨hks, hws, hls⟩, rfl⟩ := h.of hK
  obtain rfl : vs = [] := by simpa using congrArg List.length hks
  obtain ⟨us, rfl⟩ : ∃ us, wss = [us] := ⟨_, hws.symm⟩
  rw [List.flatten_cons, List.flatten_nil, List.append_nil]
  exact ⟨hks, hws, hls⟩

theorem resume (hS : S.Sound) {dst : Reg} {ret : Ty} {vs : List Value} {ws : List UInt64}
    (hdst : dst.ty = .null ∨ dst.ty = ret) (hvs : ret ≠ .null → K.Gives (Known.spread S vs [ret.words] ws)) :
    Realizes S K 0 (Native.resume dst ret vs) (Direct.resume dst ret ws) fun _ _ => Known.nothing S := by
  unfold Direct.resume
  by_cases hret : ret = .null
  · rw [if_pos hret]
    cases vs <;> simp only [Native.resume, hret, if_true] <;> exact pure .nothing
  · rw [if_neg hret]
    cases vs with
    | nil =>
      simp only [Native.resume, hret, if_false]
      exact stop
    | cons v vs =>
      simp only [Native.resume, hret, if_false]
      split
      · exact drop hS ret (spread_head (hvs hret))
      · next hsome =>
        have hty : dst.ty = ret := hdst.resolve_left fun e => hsome (by simp [Reg.isNull, e])
        exact bindOwned hS dst (spread_head (hvs hret)) (by rw [hty])

end Realizes

end RecordMill

import RecordMill.Proofs.Lowering.Straight
import RecordMill.Proofs.Plain.Registers

/-!
# Instructions on plain values

Performing an instruction at once and executing it on plain values come to the same: the store reflects the
state before and after, or both halt.
-/

namespace RecordMill

open Plain (Val Table)

/-!
## Operations

What the direct run computes from words is what the plain interpreter computes from the values that they
hold. Only a remainder can fail, and then both do.
-/

namespace Direct

section

variable {e : Setting} {δ : Store}

def ints (xs : List Int64) : List (List UInt64) := xs.map fun n => [n.toUInt64]

def floats (xs : List UInt64) : List (List UInt64) := xs.map fun w => [w]

theorem truth_apply (b : Bool) : truth (some b) e δ = (.ok [(Val.ofBool b).toInt.toUInt64], δ) := by cases b <;> rfl

theorem compareInts_apply (c : Cmp) (x y : Int64) : applyFitting (.compare false c) (ints [x, y]) e δ
    = (.ok [(Val.ofBool (Plain.compareInts c x y)).toInt.toUInt64], δ) := by
  have hholds : (Native.intCond c).holds? x y = some (Plain.compareInts c x y) := by cases c <;> rfl
  rw [← truth_apply, ← hholds]
  rfl

theorem compareFloats_apply (c : Cmp) (x y : UInt64) : applyFitting (.compare true c) (floats [x, y]) e δ
    = (.ok [(Val.ofBool (Plain.compareFloats c (Float.ofBits x) (Float.ofBits y))).toInt.toUInt64], δ) := by
  have hholds : (Native.floatCond c).holds? (Float.ofBits x) (Float.ofBits y)
      = some (Plain.compareFloats c (Float.ofBits x) (Float.ofBits y)) := by cases c <;> rfl
  rw [← truth_apply, ← hholds]
  rfl

theorem arithInts_apply {op : Arith} (hop : ∀ n, op ≠ .unknown n) {xs : List Int64} (hxs : xs.length = op.arity) :
    applyFitting (.arith false op) (ints xs) e δ = match Plain.arithInts op xs with
      | some n => (.ok [n.toUInt64], δ)
      | none => (.error (.trap { code := .divisionByZero }), δ) := by
  cases op with
  | unknown n => exact absurd rfl (hop n)
  | neg =>
    obtain ⟨x, rfl⟩ := List.length_eq_one_iff.1 hxs
    have h : Machine.Word.intUnary .neg x.toUInt64 = (-x).toUInt64 := by simp [Machine.Word.intUnary]
    show (Except.ok [Machine.Word.intUnary .neg x.toUInt64], δ) = _
    rw [h]
    rfl
  | mul =>
    obtain ⟨x, y, rfl⟩ := List.length_eq_two.1 hxs
    simp [Plain.arithInts]
    rfl
  | add =>
    obtain ⟨x, y, rfl⟩ := List.length_eq_two.1 hxs
    simp [Plain.arithInts]
    rfl
  | minus =>
    obtain ⟨x, y, rfl⟩ := List.length_eq_two.1 hxs
    simp [Plain.arithInts]
    rfl
  | mod =>
    obtain ⟨x, y, rfl⟩ := List.length_eq_two.1 hxs
    by_cases hy : y = 0
    · subst hy
      rfl
    · have hy' : y.toUInt64 ≠ 0 := fun h => hy (by simpa using congrArg UInt64.toInt64 h)
      have hrem : Machine.Word.int .rem x.toUInt64 y.toUInt64 = .ok (x % y).toUInt64 := by simp [Machine.Word.int, hy']
      show int .rem x.toUInt64 y.toUInt64 e δ = _
      simp only [int, hrem, Plain.arithInts, hy, if_false]
      rfl

theorem arithFloats_apply {op : Arith} (hop : ∀ n, op ≠ .unknown n) {xs : List UInt64} (hxs : xs.length = op.arity) :
    applyFitting (.arith true op) (floats xs) e δ = (.ok [Plain.arithFloats op xs], δ) := by
  cases op with
  | unknown n => exact absurd rfl (hop n)
  | neg =>
    obtain ⟨x, rfl⟩ := List.length_eq_one_iff.1 hxs
    rfl
  | mul | add | minus | mod =>
    obtain ⟨x, y, rfl⟩ := List.length_eq_two.1 hxs
    rfl

theorem bitwise_apply {op : Bitwise} (hop : ∀ n, op ≠ .unknown n) {xs : List Int64} (hxs : xs.length = op.arity) :
    applyFitting (.bit op) (ints xs) e δ = (.ok [(Plain.bitwise op xs).toUInt64], δ) := by
  cases op with
  | unknown n => exact absurd rfl (hop n)
  | complement =>
    obtain ⟨x, rfl⟩ := List.length_eq_one_iff.1 hxs
    simp [Plain.bitwise]
    rfl
  | and | or | xor | leftShift | logicalRightShift | arithmeticRightShift =>
    obtain ⟨x, y, rfl⟩ := List.length_eq_two.1 hxs
    simp [Plain.bitwise]
    rfl

theorem math_apply {fn : MathFn} (hfn : ∀ n, fn ≠ .unknown n) {xs : List UInt64} (hxs : xs.length = fn.arity) :
    applyFitting (.math fn) (floats xs) e δ = (.ok [Plain.math fn xs], δ) := by
  cases fn with
  | unknown n => exact absurd rfl (hfn n)
  | atan2 =>
    obtain ⟨x, y, rfl⟩ := List.length_eq_two.1 hxs
    rfl
  | sin | cos | atan | log | log2 | log10 | sqrt | exp =>
    obtain ⟨x, rfl⟩ := List.length_eq_one_iff.1 hxs
    rfl

theorem apply_eq {op : ValueOp} {wss : List (List UInt64)} (h : ∀ n, op.arity? = some n → wss.length = n) :
    apply op wss e δ = applyFitting op wss e δ := by
  unfold apply Lowering.checkArity
  cases hop : op.arity? with
  | none => rfl
  | some n =>
    simp only [(h n hop).symm, if_true]

end

end Direct

/-! ## Halts and variables -/

def Plain.Halt.trap : Plain.Halt → Machine.Trap
  | .divisionByZero => { code := .divisionByZero }
  | .notBegun => Service.trapOf (.heap (.invalidHandle 0))
  | .tooManyFields => Service.trapOf .tooManyFields

theorem Records.status_fileLine (c : Records) (name : Bytes) : (fileLine name c).2.status = (fileLine name c).1.2 := by
  rcases hline : c.reads.line c.world.disk name with ⟨_ | _ | _, _⟩ <;>
    simp only [fileLine, bind, StateT.bind, get, getThe, MonadStateOf.get, StateT.get, pure, hline] <;> rfl

theorem Plain.State.toRecords_set (p : Program) (σ : State) (r : Reg) (v : Val) :
    (σ.set p r v).store.toRecords = σ.store.toRecords := by
  unfold set
  split
  · rfl
  split <;> rfl

theorem Variable.cases_of_builtIn {v : Variable} (hv : v ∈ builtIn) : v.ty = .int ∧ v ∈ [.argc, .nf, .nr]
    ∨ v.ty = .str ∧ v ∈ [.fs, .ofs, .ors, .filename] ∨ v = .argv := by
  revert v
  decide

theorem Plain.Store.globals_assign {s s' : Store} {v : Variable} {x : Val} (h : s.assign v x = .ok s') :
    s'.globals = s.globals := by
  cases v with
  | nf =>
    simp only [assign, setCount] at h
    split at h
    · cases h
      rfl
    split at h
    · cases h
    · cases h
      rfl
  | _ =>
    cases h
    rfl

theorem Ty.isIter_of_isHeap {t : Ty} (h : t.isHeap = true) : t.isIter = false := by cases t <;> first | rfl | cases h

theorem Instr.mem_nonNull {r : Reg} {rs : List Reg} :
    r ∈ nonNull rs ↔ r ∈ rs ∧ r.ty ≠ .null := by simp [nonNull, Reg.isNull]

theorem Func.holdsLiterals_eq_false {f : Func} {i : Instr} {r : Reg} (hi : i ∈ f.body) (rs : List Reg)
    (hdefs : i.defs = Instr.nonNull rs) (hr : r ∈ rs) (hl : i.isLiteral = false) : f.holdsLiterals r = false := by
  by_cases hn : r.ty = .null
  · simp [holdsLiterals, hn]
  · refine Bool.eq_false_iff.2 fun h => ?_
    simp only [holdsLiterals, Bool.and_eq_true, List.all_eq_true, List.mem_filter] at h
    have := h.2 i ⟨hi, by simpa [hdefs] using Instr.mem_nonNull.2 ⟨hr, hn⟩⟩
    rw [hl] at this
    cases this

namespace Direct

def Setting.holdings (e : Setting) (others : List Item) : Holdings where
  locals := e.scope.func.locals e.program.globals
  globals := e.program.globals
  others := others

theorem Setting.Fit.within {e : Setting} (hf : e.Fit) (others : List Item) : (e.holdings others).Within e where
  locals _ hr := hr
  globals _ hg := hg
  nodup := ⟨nodup_eraseDups _, hf.globals⟩

theorem Setting.mem_locals {e : Setting} {i : Instr} {r : Reg} (hi : i ∈ e.scope.func.body) (hr : r ∈ i.regs)
    (hn : r.ty ≠ .null) (hg : r ∉ e.program.globals) : r ∈ e.scope.func.locals e.program.globals := by
  refine Scope.mem_locals.2 ⟨List.mem_append_right _ (List.mem_flatMap.2 ⟨i, hi, Instr.mem_defs_uses hr hn⟩), hn, hg⟩

theorem Setting.has {e : Setting} {others : List Item} {i : Instr} {r : Reg} (hi : i ∈ e.scope.func.body)
    (hr : r ∈ i.regs) (hiter : r.ty.isIter = false) : (e.holdings others).Has r := by
  by_cases hn : r.ty = .null
  · exact .null hn
  by_cases hg : r ∈ e.program.globals
  · exact .global hg
  · exact .local (e.mem_locals hi hr hn hg) hiter

def Follows (x : Direct Unit) (e : Setting) (δ : Store) (H : Holdings) : Except Plain.Halt Plain.State → Prop
  | .ok τ => Gives x e δ () H [] τ
  | .error h => x e δ = (.error (.trap h.trap), δ)

theorem Holdings.Few.items {H : Holdings} (hfew : H.Few) (δ : Store) (σ : Plain.State) (held : List Item)
    (hheld : held.length ≤ 8) :
    Item.Few (held ++ H.items δ σ) := by
  unfold Holdings.Few at hfew
  simp only [Item.Few, Holdings.items, List.length_append, List.length_cons, List.length_map]
  omega

namespace Reflects

variable {e : Setting} {H : Holdings} {held : List Item} {δ : Store} {σ : Plain.State} (h : Reflects e H held δ σ)
  {r : Reg} {v : Val}
  {ws : List UInt64} (hx : .reg r.ty v ws ∈ H.items δ σ)

include h hx

/-! ## The words of a register -/

theorem intWords (hr : r.ty = .int) : ws = [v.toInt.toUInt64] := by
  rw [hr] at hx
  obtain ⟨n, rfl, rfl⟩ := h.context.backs.int (Context.Reflects.mem (List.mem_append_right held hx))
  rfl

theorem floatWords (hr : r.ty = .float) : ws = [v.toFloat] := by
  rw [hr] at hx
  obtain ⟨n, rfl, rfl⟩ := h.context.backs.float (Context.Reflects.mem (List.mem_append_right held hx))
  rfl

theorem strWords (hr : r.ty = .str) : ∃ p : Packed, ws = [p.lo, p.hi] ∧ .str v.toStr p ∈ held ++ H.items δ σ := by
  rw [hr] at hx
  obtain ⟨s, p, rfl, rfl⟩ := h.context.backs.str (Context.Reflects.mem (List.mem_append_right held hx))
  exact ⟨p, rfl, List.mem_append_right held hx⟩

theorem mapWords {k : Key} {w : Scalar} (hr : r.ty = .map k w) :
    ∃ a, ws = [a] ∧ .map k w v.toRef a ∈ held ++ H.items δ σ := by
  rw [hr] at hx
  obtain ⟨ref, a, rfl, rfl⟩ := h.context.backs.map (Context.Reflects.mem (List.mem_append_right held hx))
  exact ⟨a, rfl, List.mem_append_right held hx⟩

end Reflects

namespace Holdings.Reads

variable {e : Setting} {H : Holdings} {held : List Item} {δ : Store} {σ : Plain.State}

theorem ints (h : Reflects e H held δ σ) {args : List Reg} {wss : List (List UInt64)} (hr : H.Reads e δ σ args wss)
    (hargs : ∀ a ∈ args, a.ty = .int) : wss = Direct.ints (args.map fun r => (σ.get e.program r).toInt) := by
  induction hr with
  | nil => rfl
  | cons hx _ ih =>
    rw [ih fun a ha => hargs a (.tail _ ha), h.intWords hx (hargs _ (.head _))]
    rfl

theorem floats (h : Reflects e H held δ σ) {args : List Reg} {wss : List (List UInt64)} (hr : H.Reads e δ σ args wss)
    (hargs : ∀ a ∈ args, a.ty = .float) : wss = Direct.floats (args.map fun r => (σ.get e.program r).toFloat) := by
  induction hr with
  | nil => rfl
  | cons hx _ ih =>
    rw [ih fun a ha => hargs a (.tail _ ha), h.floatWords hx (hargs _ (.head _))]
    rfl

theorem strs (h : Reflects e H held δ σ) {args : List Reg} {wss : List (List UInt64)} (hr : H.Reads e δ σ args wss)
    (hargs : ∀ a ∈ args, a.ty = .str) : ∃ xs :
    List (Bytes × Packed), xs.map (·.1) = args.map (fun r => (σ.get e.program r).toStr)
      ∧ xs.map (·.2) = wss.map packed ∧ ∀ x ∈ xs, .str x.1 x.2 ∈ held ++ H.items δ σ := by
  induction hr with
  | nil => exact ⟨[], rfl, rfl, by simp⟩
  | @cons r ws args wss hx _ ih =>
    obtain ⟨p, rfl, hp⟩ := h.strWords hx (hargs _ (.head _))
    obtain ⟨xs, h₁, h₂, hxs⟩ := ih fun a ha => hargs a (.tail _ ha)
    refine ⟨((σ.get e.program r).toStr, p) :: xs, by simp [h₁], by simp [h₂, packed], ?_⟩
    simpa using ⟨by simpa using hp, fun a b hab => by simpa using hxs (a, b) hab⟩

theorem cons_iff {r : Reg} {rs : List Reg} {wss : List (List UInt64)} : H.Reads e δ σ (r :: rs) wss
    ↔ ∃ ws wss', .reg r.ty (σ.get e.program r) ws ∈ H.items δ σ ∧ H.Reads e δ σ rs wss' ∧ wss = ws :: wss' :=
  List.forall₂_cons_left_iff

theorem nil_iff {wss : List (List UInt64)} : H.Reads e δ σ [] wss ↔ wss = [] := List.forall₂_nil_left_iff

end Holdings.Reads

section

variable {e : Setting} {others : List Item} {δ : Store} {σ : Plain.State} (hf : e.Fit)
  (h : Reflects e (e.holdings others) [] δ σ)

include hf h

theorem bindInt {d : Reg} (hd : (e.holdings others).Has d) (hty : d.ty = .null ∨ d.ty = .int) (n : Int64) :
    Gives (Direct.bind d [n.toUInt64]) e δ () (e.holdings others) [] (σ.set e.program d (.int n)) := by
  rcases hty with hty | hty
  · have hn : d.isNull = true := isNull_eq_true.2 hty
    exact ⟨δ, bind_null hn, by rwa [Plain.State.set, if_pos hn]⟩
  · exact h.bindFree hf (hf.within others) hd (by rw [hty]; rfl) fun _ => by rw [hty]; exact .int n

theorem bindFloat {d : Reg} (hd : (e.holdings others).Has d) (hty : d.ty = .float) (w : UInt64) :
    Gives (Direct.bind d [w]) e δ () (e.holdings others) [] (σ.set e.program d (.float w)) :=
  h.bindFree hf (hf.within others) hd (by rw [hty]; rfl) fun _ => by rw [hty]; exact .float w

/-! ## Constants and copies -/

theorem lower_constInt {d : Reg} {n : Int64} (hi : .constInt d n ∈ e.scope.func.body) :
    Follows (Lowering.lower (.constInt d n)) e δ (e.holdings others) (σ.exec e.program (.constInt d n)) := by
  have hd : d.ty = .int := hf.typed hi
  exact bindInt hf h (e.has hi (.head _) (by rw [hd]; rfl)) (.inr hd) n

theorem lower_constFloat {d : Reg} {x : Float} (hi : .constFloat d x ∈ e.scope.func.body) :
    Follows (Lowering.lower (.constFloat d x)) e δ (e.holdings others) (σ.exec e.program (.constFloat d x)) := by
  have hd : d.ty = .float := hf.typed hi
  exact bindFloat hf h (e.has hi (.head _) (by rw [hd]; rfl)) hd x.toBits

omit hf h in
theorem constStr_eq {s : Bytes} (hs : Packed.maxInline < s.length → s ∈ e.literals ∧ s.length < 2 ^ 56
  ∧ e.literals.length < 2 ^ 64) :
    ∃ p : Packed,
    constStr s e δ = (.ok [p.lo, p.hi], δ) ∧ p.handle = 0 ∧ ∀ Γ, (Item.str s p).Stands e.literals.toArray Γ := by
  by_cases hlen : s.length ≤ Packed.maxInline
  · refine ⟨.inline s, ?_, Packed.handle_inline hlen, fun Γ => .str (Packed.stands_inline hlen)⟩
    unfold constStr
    rw [Packed.inline?, if_pos hlen]
    rfl
  · obtain ⟨hmem, hsize, htable⟩ := hs (by omega)
    obtain ⟨i, hidx⟩ := Option.isSome_iff_exists.1 (List.isSome_idxOf?.2 hmem)
    obtain ⟨hlt, hget, -⟩ := List.findIdx?_eq_some_iff_getElem.1 hidx
    have hget : e.literals[i] = s := by simpa using hget
    refine ⟨.literal i s, ?_, Packed.handle_literal, fun Γ => .str (Packed.stands_literal ?_ hsize ?_)⟩
    · unfold constStr
      rw [Packed.inline?, if_neg hlen]
      have hread : (MonadReader.read : Direct Setting) e δ = (.ok e, δ) := rfl
      show ((MonadReader.read : Direct Setting) >>= _) e δ = _
      rw [bind_ok hread, hidx]
      rfl
    · omega
    · simpa [List.getElem?_eq_some_iff] using ⟨hlt, hget⟩

theorem lower_constStr {d : Reg} {s : Bytes} (hi : .constStr d s ∈ e.scope.func.body) :
    Follows (Lowering.lower (.constStr d s)) e δ (e.holdings others) (σ.exec e.program (.constStr d s)) := by
  have hd : d.ty = .str := hf.typed hi
  obtain ⟨p, hconst, hp, hs⟩ := constStr_eq (δ := δ) (hf.literals d s hi)
  refine .after hconst (h.bindFree hf (hf.within others) (e.has hi (.head _) (by rw [hd]; rfl)) ?_ fun Γ => ?_)
  · rw [hd]
    exact hp
  · rw [hd]
    exact hs Γ

theorem lower_mov {d s : Reg} (hi : .mov d s ∈ e.scope.func.body) :
    Follows (Lowering.lower (.mov d s)) e δ (e.holdings others) (σ.exec e.program (.mov d s)) := by
  obtain ⟨hty, hiter⟩ := hf.typed hi
  have hiter : d.ty.isIter = false := by
    cases hd : d.ty with
    | iter k => exact absurd hd (hiter k)
    | _ => rfl
  obtain ⟨ws, hv, hx⟩ := Reflects.value (δ := δ) (σ := σ) hf (hf.within others)
    (e.has hi (.tail _ (.head _)) (hty ▸ hiter))
  have hs : (⟨s.id, d.ty⟩ : Reg) = s := by rw [← hty]
  have hmov : (Lowering.lower (.mov d s) : Direct Unit) = (do Direct.bind d (← Direct.value ⟨s.id, d.ty⟩)) := rfl
  rw [hmov, hs]
  refine .after hv (h.bind hf (hf.within others) (e.has hi (.head _) hiter) (hty ▸ hx) fun hl => ?_)
  rw [Func.holdsLiterals_eq_false hi [d] rfl (.head _) rfl] at hl
  cases hl

/-! ## Operations -/

omit h in
theorem bindOp_eq {d : Reg} {o : ValueOp} {args : List Reg} (hargs : ∀ r ∈ args, (e.holdings others).Has r) :
    ∃ wss, (e.holdings others).Reads e δ σ args wss ∧ (Lowering.bindOp d o args : Direct Unit) e δ
      = (do Direct.bind d (← apply o wss) : Direct Unit) e δ := by
  obtain ⟨wss, hvs, hreads⟩ := Reflects.values hf (hf.within others) hargs (δ := δ) (σ := σ)
  exact ⟨wss, hreads, bind_ok hvs⟩

theorem bindOp_int {d : Reg} {op : ValueOp} {args : List Reg} {n : Int64}
    (hargs : ∀ r ∈ args, (e.holdings others).Has r) (hd : (e.holdings others).Has d) (hty : d.ty = .int)
    (happly : ∀ wss, (e.holdings others).Reads e δ σ args wss → apply op wss e δ = (.ok [n.toUInt64], δ)) :
    Gives (Lowering.bindOp d op args) e δ () (e.holdings others) [] (σ.set e.program d (.int n)) := by
  obtain ⟨wss, hreads, hrun⟩ := bindOp_eq (d := d) (o := op) hf hargs
  obtain ⟨δ', hbind, h'⟩ := bindInt hf h hd (.inr hty) n
  exact ⟨δ', hrun.trans ((bind_ok (happly wss hreads)).trans hbind), h'⟩

theorem bindOp_float {d : Reg} {op : ValueOp} {args : List Reg} {w : UInt64}
    (hargs : ∀ r ∈ args, (e.holdings others).Has r) (hd : (e.holdings others).Has d) (hty : d.ty = .float)
    (happly : ∀ wss, (e.holdings others).Reads e δ σ args wss → apply op wss e δ = (.ok [w], δ)) :
    Gives (Lowering.bindOp d op args) e δ () (e.holdings others) [] (σ.set e.program d (.float w)) := by
  obtain ⟨wss, hreads, hrun⟩ := bindOp_eq (d := d) (o := op) hf hargs
  obtain ⟨δ', hbind, h'⟩ := bindFloat hf h hd hty w
  exact ⟨δ', hrun.trans ((bind_ok (happly wss hreads)).trans hbind), h'⟩

theorem lower_arith {d : Reg} {op : Arith} {args : List Reg} (hi : .arith d op args ∈ e.scope.func.body) :
    Follows (Lowering.lower (.arith d op args)) e δ (e.holdings others) (σ.exec e.program (.arith d op args)) := by
  obtain ⟨hd, hlen, hargs⟩ := hf.typed hi
  have hop : ∀ n, op ≠ .unknown n := by
    rintro n rfl
    simpa [Instr.unknown?] using hf.known _ hi
  have hiter : d.ty.isIter = false := by rcases hd with hd | hd <;> rw [hd] <;> rfl
  have hdst : (e.holdings others).Has d := e.has hi (.head _) hiter
  have hhas : ∀ a ∈ args, (e.holdings others).Has a := fun a ha => e.has hi (.tail _ ha) (hargs a ha ▸ hiter)
  simp only [Plain.State.exec, Lowering.lower]
  rcases hd with hd | hd
  · have hne : d.ty ≠ .float := by rw [hd]; decide
    have happly : ∀ wss, (e.holdings others).Reads e δ σ args wss → apply (.arith false op) wss e δ
        = ((Plain.arithInts op (args.map fun r => (σ.get e.program r).toInt)).elim
          (.error (.trap { code := .divisionByZero }))
          fun n => .ok [n.toUInt64], δ) := fun wss hreads => by
      rewrite [hreads.ints h fun a ha => (hargs a ha).trans hd, apply_eq, arithInts_apply hop (by simp [hlen])]
      · cases Plain.arithInts op _ <;> rfl
      · rintro n ⟨⟩
        simp [ints, hlen]
    rw [if_neg hne, decide_eq_false hne]
    generalize Plain.arithInts op _ = result at happly
    cases result with
    | some n => exact bindOp_int hf h hhas hdst hd happly
    | none =>
      obtain ⟨wss, hreads, hrun⟩ := bindOp_eq (d := d) (o := .arith false op) hf hhas
      exact hrun.trans (bind_trap (happly wss hreads))
  · rw [if_pos hd, decide_eq_true hd]
    refine bindOp_float hf h hhas hdst hd fun wss hreads => ?_
    rw [hreads.floats h fun a ha => (hargs a ha).trans hd, apply_eq, arithFloats_apply hop (by simp [hlen])]
    rintro n ⟨⟩
    simp [floats, hlen]

theorem lower_bit {d : Reg} {op : Bitwise} {args : List Reg} (hi : .bit d op args ∈ e.scope.func.body) :
    Follows (Lowering.lower (.bit d op args)) e δ (e.holdings others) (σ.exec e.program (.bit d op args)) := by
  obtain ⟨hd, hlen, hargs⟩ := hf.typed hi
  have hop : ∀ n, op ≠ .unknown n := by
    rintro n rfl
    simpa [Instr.unknown?] using hf.known _ hi
  refine bindOp_int hf h (fun a ha => e.has hi (.tail _ ha) (by rw [hargs a ha]; rfl))
    (e.has hi (.head _) (by rw [hd]; rfl)) hd
    fun wss hreads => ?_
  rw [hreads.ints h hargs, apply_eq, bitwise_apply hop (by simp [hlen])]
  rintro n ⟨⟩
  simp [ints, hlen]

theorem lower_math {d : Reg} {fn : MathFn} {args : List Reg} (hi : .math d fn args ∈ e.scope.func.body) :
    Follows (Lowering.lower (.math d fn args)) e δ (e.holdings others) (σ.exec e.program (.math d fn args)) := by
  obtain ⟨hd, hlen, hargs⟩ := hf.typed hi
  have hfn : ∀ n, fn ≠ .unknown n := by
    rintro n rfl
    simpa [Instr.unknown?] using hf.known _ hi
  refine bindOp_float hf h (fun a ha => e.has hi (.tail _ ha) (by rw [hargs a ha]; rfl))
    (e.has hi (.head _) (by rw [hd]; rfl)) hd
    fun wss hreads => ?_
  rw [hreads.floats h hargs, apply_eq, math_apply hfn (by simp [hlen])]
  rintro n ⟨⟩
  simp [floats, hlen]

omit hf in
theorem toFloats_apply {args : List Reg} {wss : List (List UInt64)} (hreads : (e.holdings others).Reads e δ σ args wss)
    (hargs : (∀ a ∈ args, a.ty = .int) ∨ ∀ a ∈ args, a.ty = .float) :
    (Lowering.toFloats args wss : Direct (List (List UInt64))) e δ
      = (.ok (floats (args.map fun r => Plain.asFloat r.ty (σ.get e.program r))), δ) := by
  induction hreads with
  | nil => rfl
  | @cons r ws args wss hx _ ih =>
    have hrest := ih (hargs.imp (fun h a ha => h a (.tail _ ha)) fun h a ha => h a (.tail _ ha))
    rw [Lowering.toFloats]
    rcases hargs with hargs | hargs
    · have hr := hargs r (.head _)
      rw [if_pos hr, h.intWords hx hr]
      have hconv : (Emitter.apply .intToFloat [[(σ.get e.program r).toInt.toUInt64]] : Direct (List UInt64)) e δ
          = (.ok [Plain.asFloat r.ty (σ.get e.program r)], δ) := by
        rw [Plain.asFloat, if_pos hr]
        show (Except.ok [Machine.Word.ofInt64 _], δ) = _
        simp [Machine.Word.ofInt64, word]
      exact (bind_ok hconv).trans ((bind_ok hrest).trans rfl)
    · have hr := hargs r (.head _)
      have hne : r.ty ≠ .int := by rw [hr]; decide
      rw [if_neg hne, h.floatWords hx hr]
      have hpure : (pure [(σ.get e.program r).toFloat] : Direct (List UInt64)) e δ
          = (.ok [Plain.asFloat r.ty (σ.get e.program r)], δ) := by
        rw [Plain.asFloat, if_neg hne]
        rfl
      exact (bind_ok hpure).trans ((bind_ok hrest).trans rfl)

theorem bindFloatOp {d l r : Reg} {op : ValueOp} {w : UInt64 → UInt64 → UInt64}
    (hregs : ∀ u ∈ [d, l, r], u.ty.isIter = false → (e.holdings others).Has u) (hd : d.ty = .float)
    (hty : l.ty = .int ∧ r.ty = .int ∨ l.ty = .float ∧ r.ty = .float)
    (happly : ∀ x y, apply op (floats [x, y]) e δ = (.ok [w x y], δ)) :
    Gives (Lowering.bindFloatOp d op [l, r]) e δ () (e.holdings others) [] (σ.set e.program d
      (.float (w (Plain.asFloat l.ty (σ.get e.program l)) (Plain.asFloat r.ty (σ.get e.program r))))) := by
  have hargs : (∀ a ∈ [l, r], a.ty = .int) ∨ ∀ a ∈ [l, r], a.ty = .float := by simpa using hty
  have hiter : ∀ a ∈ [l, r], a.ty.isIter = false := fun a ha => by
    rcases hargs with hargs | hargs <;> rw [hargs a ha] <;> rfl
  obtain ⟨wss, hvs, hreads⟩ := Reflects.values hf (hf.within others) (fun a ha => hregs a (.tail _ ha) (hiter a ha))
    (δ := δ) (σ := σ)
  obtain ⟨δ', hbind, h'⟩ := bindFloat hf h (hregs d (.head _) (by rw [hd]; rfl)) hd _
  exact ⟨δ', (bind_ok hvs).trans ((bind_ok (toFloats_apply h hreads hargs)).trans
    ((bind_ok (happly _ _)).trans hbind)), h'⟩

theorem lower_div {d l r : Reg} (hi : .div d l r ∈ e.scope.func.body) :
    Follows (Lowering.lower (.div d l r)) e δ (e.holdings others) (σ.exec e.program (.div d l r)) :=
  bindFloatOp hf h (fun _ hu => e.has hi hu) (hf.typed hi).1 (hf.typed hi).2 fun _ _ => rfl

theorem lower_pow {d l r : Reg} (hi : .pow d l r ∈ e.scope.func.body) :
    Follows (Lowering.lower (.pow d l r)) e δ (e.holdings others) (σ.exec e.program (.pow d l r)) :=
  bindFloatOp hf h (fun _ hu => e.has hi hu) (hf.typed hi).1 (hf.typed hi).2 fun _ _ => rfl

/-! ## Strings -/

theorem bindService_int {d : Reg} {args : List Reg} {sv : Service} {n : Int64} {s : Plain.Store}
    (hargs : ∀ r ∈ args, (e.holdings others).Has r) (hd : (e.holdings others).Has d) (hty : d.ty = .int)
    (hglobals : s.globals = σ.store.globals)
    (hserve : ∀ wss, (e.holdings others).Reads e δ σ args wss → ∃ act,
      Service.perform sv (contextWord :: wss).flatten = Service.lift act
      ∧ act.Gives δ.context [n.toUInt64] e.literals.toArray s ((e.holdings others).items δ σ)) :
    Gives (Lowering.bindService d sv args) e δ () (e.holdings others) []
      ((σ.withStore s).set e.program d (.int n)) := by
  have hliteral : e.scope.func.holdsLiterals d = false := by simp [Func.holdsLiterals, hty]
  refine h.bindService hf (hf.within others) hd hliteral hargs hglobals fun wss hreads => ?_
  obtain ⟨act, hperform, c, hact, hc⟩ := hserve wss hreads
  refine ⟨act, _, hperform, c, hact, ?_⟩
  rw [hty]
  exact hc.cons rfl fun _ => .int n

theorem bindService_str {d : Reg} {args : List Reg} {sv : Service} {x : Bytes} {s : Plain.Store}
    (hliteral : e.scope.func.holdsLiterals d = false)
    (hargs : ∀ r ∈ args, (e.holdings others).Has r) (hd : (e.holdings others).Has d) (hty : d.ty = .str)
    (hglobals : s.globals = σ.store.globals)
    (hserve : ∀ wss, (e.holdings others).Reads e δ σ args wss → ∃ act p,
      Service.perform sv (contextWord :: wss).flatten = Service.lift act
      ∧ act.Gives δ.context (Service.ofPacked p) e.literals.toArray s (.str x p :: (e.holdings others).items δ σ)) :
    Gives (Lowering.bindService d sv args) e δ () (e.holdings others) []
      ((σ.withStore s).set e.program d (.str x)) := by
  refine h.bindService hf (hf.within others) hd hliteral hargs hglobals fun wss hreads => ?_
  obtain ⟨act, p, hperform, hact⟩ := hserve wss hreads
  refine ⟨act, Service.ofPacked p, hperform, ?_⟩
  rw [hty]
  exact hact

theorem lower_compare {d l r : Reg} {op : Cmp} (hi : .compare d op l r ∈ e.scope.func.body) :
    Follows (Lowering.lower (.compare d op l r)) e δ (e.holdings others) (σ.exec e.program (.compare d op l r)) := by
  obtain ⟨hd, t, hl, hr⟩ := hf.typed hi
  have hdst : (e.holdings others).Has d := e.has hi (.head _) (by rw [hd]; rfl)
  have hargs : ∀ a ∈ [l, r], (e.holdings others).Has a := fun a ha => by
    refine e.has hi (.tail _ ha) ?_
    have : ∀ a ∈ [l, r], a.ty = t.ty := by simp [hl, hr]
    rw [this a ha]
    exact t.isIter_ty
  simp only [Plain.State.exec, Lowering.lower, Lowering.compare, Plain.compareVals]
  cases t with
  | str =>
    replace hl : l.ty = .str := hl
    obtain ⟨wss, hvs, hreads⟩ := Reflects.values hf (hf.within others) hargs (δ := δ) (σ := σ)
    simp only [Holdings.Reads.cons_iff, Holdings.Reads.nil_iff] at hreads
    obtain ⟨_, _, hx, ⟨_, _, hy, rfl, rfl⟩, rfl⟩ := hreads
    obtain ⟨p, rfl, hp⟩ := h.strWords hx hl
    obtain ⟨q, rfl, hq⟩ := h.strWords hy hr
    have horder : Direct.service .compareStr [contextWord, [p.lo, p.hi], [q.lo, q.hi]] e δ
        = (.ok [(Act.orderOf (σ.get e.program l).toStr (σ.get e.program r).toStr).toUInt64], δ) :=
      service_of_act (w := [contextWord, [p.lo, p.hi], [q.lo, q.hi]]) rfl
        ((Act.bind_ok (h.context.compareStr hp hq)).trans rfl)
    obtain ⟨δ', hbind, h'⟩ := bindInt hf h hdst (.inr hd)
      (Val.ofBool (Plain.compareInts op (Act.orderOf (σ.get e.program l).toStr (σ.get e.program r).toStr) 0)).toInt
    rw [if_pos hl, hl]
    exact ⟨δ', (bind_ok hvs).trans ((bind_ok horder).trans
      ((bind_ok rfl).trans ((bind_ok (compareInts_apply op _ 0)).trans hbind))), h'⟩
  | int =>
    have hne : l.ty ≠ .str := by rw [hl]; decide
    have hnf : l.ty ≠ .float := by rw [hl]; decide
    rw [if_neg hne, decide_eq_false hnf, hl]
    refine bindOp_int hf h hargs hdst hd fun wss hreads => ?_
    rw [hreads.ints h (by simp [hl, hr, Scalar.ty])]
    exact compareInts_apply op _ _
  | float =>
    replace hl : l.ty = .float := hl
    have hne : l.ty ≠ .str := by rw [hl]; decide
    rw [if_neg hne, decide_eq_true hl, hl]
    refine bindOp_int hf h hargs hdst hd fun wss hreads => ?_
    rw [hreads.floats h (by simp [hl, hr, Scalar.ty])]
    exact compareFloats_apply op _ _

theorem bindService_float {d : Reg} {args : List Reg} {sv : Service} {w : UInt64}
    (hargs : ∀ r ∈ args, (e.holdings others).Has r) (hd : (e.holdings others).Has d) (hty : d.ty = .float)
    (hserve : ∀ wss, (e.holdings others).Reads e δ σ args wss → ∃ act,
      Service.perform sv (contextWord :: wss).flatten = Service.lift act
      ∧ act δ.context = (.ok [w], δ.context)) :
    Gives (Lowering.bindService d sv args) e δ () (e.holdings others) [] (σ.set e.program d (.float w)) := by
  have hliteral : e.scope.func.holdsLiterals d = false := by simp [Func.holdsLiterals, hty]
  refine h.bindService hf (hf.within others) (s := σ.store) hd hliteral hargs rfl fun wss hreads => ?_
  obtain ⟨act, hperform, hact⟩ := hserve wss hreads
  refine ⟨act, _, hperform, δ.context, hact, ?_⟩
  rw [hty]
  exact h.context.cons rfl fun _ => .float w

theorem lower_strLen {d s : Reg} (hi : .strLen d s ∈ e.scope.func.body) :
    Follows (Lowering.lower (.strLen d s)) e δ (e.holdings others) (σ.exec e.program (.strLen d s)) := by
  obtain ⟨hd, hs⟩ := hf.typed hi
  refine bindService_int hf h (s := σ.store)
    (List.forall_mem_singleton.2 (e.has hi (.tail _ (.head _)) (by rw [hs]; rfl)))
      (e.has hi (.head _) (by rw [hd]; rfl)) hd rfl fun wss hreads => ?_
  simp only [Holdings.Reads.cons_iff, Holdings.Reads.nil_iff] at hreads
  obtain ⟨_, _, hx, rfl, rfl⟩ := hreads
  obtain ⟨p, rfl, hp⟩ := h.strWords hx hs
  exact ⟨_, rfl, δ.context, (Act.bind_ok (h.context.strLen hp)).trans rfl, h.context⟩

theorem lower_matchPattern {d s pat : Reg} (hi : .matchPattern d s pat ∈ e.scope.func.body) :
    Follows (Lowering.lower (.matchPattern d s pat)) e δ (e.holdings others)
      (σ.exec e.program (.matchPattern d s pat)) := by
  obtain ⟨hd, hs, hpat⟩ := hf.typed hi
  have hargs : ∀ a ∈ [s, pat], (e.holdings others).Has a := fun a ha => e.has hi (.tail _ ha) <| by
    rcases List.mem_pair.1 ha with rfl | rfl <;> simp [*, Ty.isIter]
  refine bindService_int hf h hargs (e.has hi (.head _) (by rw [hd]; rfl)) hd rfl fun wss hreads => ?_
  simp only [Holdings.Reads.cons_iff, Holdings.Reads.nil_iff] at hreads
  obtain ⟨_, _, hx, ⟨_, _, hy, rfl, rfl⟩, rfl⟩ := hreads
  obtain ⟨p, rfl, hp⟩ := h.strWords hx hs
  obtain ⟨q, rfl, hq⟩ := h.strWords hy hpat
  exact ⟨_, rfl, (h.context.isMatch hp hq).map⟩

theorem lower_split {d s m pat : Reg} (hi : .split d s m pat ∈ e.scope.func.body) :
    Follows (Lowering.lower (.split d s m pat)) e δ (e.holdings others) (σ.exec e.program (.split d s m pat)) := by
  obtain ⟨hd, hs, hpat, k, hm⟩ := hf.typed hi
  have hargs : ∀ a ∈ [s, m, pat], (e.holdings others).Has a := fun a ha => e.has hi (.tail _ ha) <| by
    simp only [List.mem_cons, List.not_mem_nil, or_false] at ha
    rcases ha with rfl | rfl | rfl <;> simp [*, Ty.isIter]
  have hkey : (if m.ty = .map .str .str then Key.str else .int) = k := by
    rw [hm]
    cases k <;> rfl
  simp only [Plain.State.exec, Lowering.lower, hkey]
  have hserve : ∀ {n : Int64} {s' : Plain.Store},
    (∀ {p q : Packed} {a : UInt64}, .str (σ.get e.program s).toStr p ∈ (e.holdings others).items δ σ →
      .str (σ.get e.program pat).toStr q ∈ (e.holdings others).items δ σ →
      .map k .str (σ.get e.program m).toRef a ∈ (e.holdings others).items δ σ →
      (Act.splitInto k (Table.pieceKey k) p a q).Gives δ.context n e.literals.toArray s'
        ((e.holdings others).items δ σ)) →
      ∀ wss, (e.holdings others).Reads e δ σ [s, m, pat] wss → ∃ act,
        Service.perform (.split k) (contextWord :: wss).flatten = Service.lift act
        ∧ act.Gives δ.context [n.toUInt64] e.literals.toArray s' ((e.holdings others).items δ σ) := by
    intro n s' hsplit wss hreads
    simp only [Holdings.Reads.cons_iff, Holdings.Reads.nil_iff] at hreads
    obtain ⟨_, _, hx, ⟨_, _, hy, ⟨_, _, hz, rfl, rfl⟩, rfl⟩, rfl⟩ := hreads
    obtain ⟨p, rfl, hp⟩ := h.strWords hx hs
    obtain ⟨a, rfl, ha⟩ := h.mapWords hy hm
    obtain ⟨q, rfl, hq⟩ := h.strWords hz hpat
    refine ⟨do return Service.ofInt (← Act.splitInto k (Table.pieceKey k) p a q), ?_, (hsplit hp hq ha).map⟩
    cases k <;> rfl
  have hsplit := fun {p q : Packed} {a : UInt64} hp hq ha => h.context.splitInto (a := (σ.get e.program s).toStr)
    (b := (σ.get e.program pat).toStr) (k := k) (r := (σ.get e.program m).toRef) (m := a) (p := p) (q := q) hp hq ha
  have hdst : (e.holdings others).Has d := e.has hi (.head _) (by rw [hd]; rfl)
  generalize hout : σ.store.record (Records.pieces (σ.get e.program s).toStr (σ.get e.program pat).toStr)
    = out at hsplit
  obtain ⟨_ | parts, s'⟩ := out
  · have hglobals : s'.globals = σ.store.globals := (congrArg (·.2.globals) hout).symm
    exact bindService_int hf h hargs hdst hd hglobals (hserve hsplit)
  · have hglobals : (s'.setTable (σ.get e.program m) (.ofPieces (σ.store.table (σ.get e.program m)).key parts)).globals
      = σ.store.globals :=
      (congrArg (·.2.globals) hout).symm
    exact bindService_int hf h hargs hdst hd hglobals (hserve hsplit)

theorem lower_setColumn {i s : Reg} (hi : .setColumn i s ∈ e.scope.func.body) :
    Follows (Lowering.lower (.setColumn i s)) e δ (e.holdings others) (σ.exec e.program (.setColumn i s)) := by
  obtain ⟨hidx, hs⟩ := hf.typed hi
  have hargs : ∀ a ∈ [i, s], (e.holdings others).Has a := fun a ha => e.has hi ha <| by
    rcases List.mem_pair.1 ha with rfl | rfl <;> simp [*, Ty.isIter]
  have hglobals : (σ.store.setColumn (σ.get e.program i).toInt (σ.get e.program s).toStr).globals
      = σ.store.globals := by
    unfold Plain.Store.setColumn
    split
    · rfl
    split <;> rfl
  refine h.performService hf (hf.within others) hargs hglobals fun wss hreads => ?_
  simp only [Holdings.Reads.cons_iff, Holdings.Reads.nil_iff] at hreads
  obtain ⟨_, _, hx, ⟨_, _, hy, rfl, rfl⟩, rfl⟩ := hreads
  obtain rfl := h.intWords hx hidx
  obtain ⟨p, rfl, hp⟩ := h.strWords hy hs
  refine ⟨do Act.setColumn (σ.get e.program i).toInt.toUInt64.toInt64 p; return [], rfl, ?_⟩
  rw [Int64.toInt64_toUInt64]
  exact (h.context.setColumn hp _).bind fun _ h' => h'.gives []

variable (hfew : (e.holdings others).Few)

include hfew

theorem lower_concat {d l r : Reg} (hi : .concat d l r ∈ e.scope.func.body) :
    Follows (Lowering.lower (.concat d l r)) e δ (e.holdings others) (σ.exec e.program (.concat d l r)) := by
  obtain ⟨hd, hl, hr⟩ := hf.typed hi
  have hargs : ∀ a ∈ [l, r], (e.holdings others).Has a := fun a ha => e.has hi (.tail _ ha) <| by
    rcases List.mem_pair.1 ha with rfl | rfl <;> simp [*, Ty.isIter]
  refine bindService_str hf h (s := σ.store) (Func.holdsLiterals_eq_false hi [d] rfl (.head _) rfl) hargs
    (e.has hi (.head _) (by rw [hd]; rfl)) hd rfl fun wss hreads => ?_
  simp only [Holdings.Reads.cons_iff, Holdings.Reads.nil_iff] at hreads
  obtain ⟨_, _, hx, ⟨_, _, hy, rfl, rfl⟩, rfl⟩ := hreads
  obtain ⟨p, rfl, hp⟩ := h.strWords hx hl
  obtain ⟨q, rfl, hq⟩ := h.strWords hy hr
  obtain ⟨x, hx⟩ := h.context.concat hp hq (hfew.items δ σ _ (by simp))
  exact ⟨_, x, rfl, hx.map⟩

/-- Numbers are made of texts and texts of numbers; a value of the right type stays as it is. -/
theorem lower_convert {d s : Reg} (hi : .convert d s ∈ e.scope.func.body) :
    Follows (Lowering.lower (.convert d s)) e δ (e.holdings others) (σ.exec e.program (.convert d s)) := by
  obtain ⟨t, u, hd, hs⟩ := hf.typed hi
  have hdst : (e.holdings others).Has d := e.has hi (.head _) (hd ▸ t.isIter_ty)
  have hsrc : (e.holdings others).Has s := e.has hi (.tail _ (.head _)) (hs ▸ u.isIter_ty)
  have hargs : ∀ r ∈ [s], (e.holdings others).Has r := List.forall_mem_singleton.2 hsrc
  have hliteral := Func.holdsLiterals_eq_false hi [d] rfl (.head _) rfl
  obtain ⟨ws, hv, hx⟩ := Reflects.value (δ := δ) (σ := σ) hf (hf.within others) hsrc
  have hservice : ∀ sv, (Lowering.bindService d sv [s] : Direct Unit) e δ
      = (Lowering.bindResult d sv [ws] : Direct Unit) e δ := fun sv => by
    have hvs : [s].mapM (m := Direct) Emitter.value e δ = (.ok [ws], δ) := by
      rw [List.mapM_cons]
      exact (bind_ok hv).trans rfl
    exact bind_ok hvs
  have hgives : ∀ {sv : Service} {τ : Plain.State},
    Gives (Lowering.bindService d sv [s]) e δ () (e.holdings others) [] τ →
      Gives (Lowering.bindResult d sv [ws]) e δ () (e.holdings others) [] τ :=
        fun ⟨δ', hrun, h'⟩ => ⟨δ', (hservice _).symm.trans hrun, h'⟩
  simp only [Plain.State.exec, Lowering.lower, Lowering.convert]
  refine .after hv ?_
  by_cases hty : s.ty = d.ty
  · have hsame : Plain.convert s.ty d.ty (σ.get e.program s) = σ.get e.program s := by
      rw [hty, hd]
      cases t <;> rfl
    rw [if_pos hty, hsame]
    exact h.bind hf (hf.within others) hdst (hty ▸ hx) fun hl => by simp [hliteral] at hl
  · rw [if_neg hty]
    cases u with
    | int =>
      obtain rfl := h.intWords hx hs
      cases t with
      | int => exact absurd (hs.trans hd.symm) hty
      | float =>
        simp only [hs, hd, Scalar.ty, Plain.convert]
        refine .after (a := [(Double.ofInt (σ.get e.program s).toInt.toInt).toBits]) ?_ (bindFloat hf h hdst hd _)
        show (Except.ok [Machine.Word.ofInt64 _], δ) = _
        simp [Machine.Word.ofInt64, word]
      | str =>
        simp only [hs, hd, Scalar.ty, Plain.convert]
        refine hgives (bindService_str hf h (s := σ.store) hliteral hargs hdst hd rfl fun wss hreads => ?_)
        simp only [Holdings.Reads.cons_iff, Holdings.Reads.nil_iff] at hreads
        obtain ⟨_, _, hx, rfl, rfl⟩ := hreads
        obtain rfl := h.intWords hx hs
        obtain ⟨p, hp⟩ := h.context.newStr (hfew.items δ σ _ (by simp)) (Bytes.integer (σ.get e.program s).toInt.toInt)
        refine ⟨do
          return Service.ofPacked (← Act.newStr (Bytes.integer (σ.get e.program s).toInt.toUInt64.toInt64.toInt)),
          p, rfl, ?_⟩
        rw [Int64.toInt64_toUInt64]
        exact hp.map
    | float =>
      obtain rfl := h.floatWords hx hs
      cases t with
      | float => exact absurd (hs.trans hd.symm) hty
      | int =>
        simp only [hs, hd, Scalar.ty, Plain.convert]
        exact .after rfl (bindInt hf h hdst (.inr hd) _)
      | str =>
        simp only [hs, hd, Scalar.ty, Plain.convert]
        refine hgives (bindService_str hf h (s := σ.store) hliteral hargs hdst hd rfl fun wss hreads => ?_)
        simp only [Holdings.Reads.cons_iff, Holdings.Reads.nil_iff] at hreads
        obtain ⟨_, _, hx, rfl, rfl⟩ := hreads
        obtain rfl := h.floatWords hx hs
        obtain ⟨p, hp⟩ := h.context.newStr (hfew.items δ σ _ (by simp))
          (Double.plainText (Float.ofBits (σ.get e.program s).toFloat))
        exact ⟨_, p, rfl, hp.map⟩
    | str =>
      cases t with
      | str => exact absurd (hs.trans hd.symm) hty
      | int =>
        simp only [hs, hd, Scalar.ty, Plain.convert]
        refine hgives (bindService_int hf h (s := σ.store) hargs hdst hd rfl fun wss hreads => ?_)
        simp only [Holdings.Reads.cons_iff, Holdings.Reads.nil_iff] at hreads
        obtain ⟨_, _, hx, rfl, rfl⟩ := hreads
        obtain ⟨p, rfl, hp⟩ := h.strWords hx hs
        exact ⟨_, rfl, δ.context, (Act.bind_ok (h.context.bytes hp)).trans rfl, h.context⟩
      | float =>
        simp only [hs, hd, Scalar.ty, Plain.convert]
        refine hgives (bindService_float hf h hargs hdst hd fun wss hreads => ?_)
        simp only [Holdings.Reads.cons_iff, Holdings.Reads.nil_iff] at hreads
        obtain ⟨_, _, hx, rfl, rfl⟩ := hreads
        obtain ⟨p, rfl, hp⟩ := h.strWords hx hs
        exact ⟨_, rfl, (Act.bind_ok (h.context.bytes hp)).trans rfl⟩

/-! ## Records -/

theorem lower_nextLine {d : Reg} (hi : .nextLine d ∈ e.scope.func.body) :
    Follows (Lowering.lower (.nextLine d)) e δ (e.holdings others) (σ.exec e.program (.nextLine d)) := by
  have hd : d.ty = .int := hf.typed hi
  have hnext := h.context.nextLine (hfew.items δ σ [] (by simp))
  refine bindService_int hf h (show ∀ r ∈ [], (e.holdings others).Has r by simp)
    (e.has hi (.head _) (by rw [hd]; rfl)) hd rfl fun wss hreads => ?_
  obtain rfl := Holdings.Reads.nil_iff.1 hreads
  exact ⟨_, rfl, hnext.map⟩

theorem lower_getColumn {d i : Reg} (hi : .getColumn d i ∈ e.scope.func.body) :
    Follows (Lowering.lower (.getColumn d i)) e δ (e.holdings others) (σ.exec e.program (.getColumn d i)) := by
  obtain ⟨hd, hidx⟩ := hf.typed hi
  have hexec : σ.exec e.program (.getColumn d i)
    = .ok ((σ.withStore (σ.store.record (Records.column (σ.get e.program i).toInt)).2).set
    e.program d (.str (σ.store.record (Records.column (σ.get e.program i).toInt)).1)) := rfl
  rw [hexec]
  refine bindService_str hf h (Func.holdsLiterals_eq_false hi [d] rfl (.head _) rfl)
    (List.forall_mem_singleton.2 (e.has hi (.tail _ (.head _)) (by rw [hidx]; rfl)))
      (e.has hi (.head _) (by rw [hd]; rfl)) hd rfl
    fun wss hreads => ?_
  simp only [Holdings.Reads.cons_iff, Holdings.Reads.nil_iff] at hreads
  obtain ⟨_, _, hx, rfl, rfl⟩ := hreads
  obtain rfl := h.intWords hx hidx
  obtain ⟨p, hp⟩ := h.context.column (hfew.items δ σ _ (by simp)) (σ.get e.program i).toInt
  refine ⟨do return Service.ofPacked (← Act.column (σ.get e.program i).toInt.toUInt64.toInt64), p, rfl, ?_⟩
  rw [Int64.toInt64_toUInt64]
  exact hp.map

theorem lower_readFileLine {d status path : Reg} (hi : .readFileLine d status path ∈ e.scope.func.body) :
    Follows (Lowering.lower (.readFileLine d status path)) e δ (e.holdings others)
      (σ.exec e.program (.readFileLine d status path)) := by
  obtain ⟨hd, hstatus, hpath⟩ := hf.typed hi
  have hexec : ∀ {line n s'}, σ.store.record (Records.fileLine (σ.get e.program path).toStr) = ((line, n), s') →
      σ.exec e.program (.readFileLine d status path)
        = .ok (((σ.withStore s').set e.program d (.str line)).set e.program status (.int n)) := fun hout => by
    simp only [Plain.State.exec, hout]
  have hread := fun {p : Packed} hp => h.context.readFileLine (a := (σ.get e.program path).toStr) (p := p) hp
  have hkept : (σ.store.record (Records.fileLine (σ.get e.program path).toStr)).2.status
      = (σ.store.record (Records.fileLine (σ.get e.program path).toStr)).1.2 := Records.status_fileLine ..
  have hglobals : (σ.store.record (Records.fileLine (σ.get e.program path).toStr)).2.globals = σ.store.globals := rfl
  generalize σ.store.record (Records.fileLine (σ.get e.program path).toStr) = out at hexec hread hkept hglobals
  obtain ⟨⟨line, n⟩, s'⟩ := out
  rw [hexec rfl]
  obtain rfl : s'.status = n := hkept
  have hline : Gives (Lowering.bindService d .readFileLine [path]) e δ () (e.holdings others) []
      ((σ.withStore s').set e.program d (.str line)) := by
    refine bindService_str hf h (Func.holdsLiterals_eq_false hi [d, status] rfl (.head _) rfl)
      (List.forall_mem_singleton.2 (e.has hi (.tail _ (.tail _ (.head _))) (by rw [hpath]; rfl)))
        (e.has hi (.head _) (by rw [hd]; rfl)) hd
      hglobals fun wss hreads => ?_
    simp only [Holdings.Reads.cons_iff, Holdings.Reads.nil_iff] at hreads
    obtain ⟨_, _, hx, rfl, rfl⟩ := hreads
    obtain ⟨p, rfl, hp⟩ := h.strWords hx hpath
    obtain ⟨q, hq⟩ := hread hp (hfew.items δ σ _ (by simp))
    exact ⟨_, q, rfl, hq.map⟩
  refine hline.bind fun δ₁ h₁ => ?_
  have hstat : δ₁.context.status = s'.status := by
    rw [h₁.context.records, Plain.State.toRecords_set]
    rfl
  show Gives (Lowering.bindService status .lineStatus []) ..
  refine bindService_int hf h₁ (by simp) (e.has hi (.tail _ (.head _)) (by rw [hstatus]; rfl)) hstatus
    (s := Plain.State.store _) rfl
    fun wss hreads => ?_
  obtain rfl := Holdings.Reads.nil_iff.1 hreads
  refine ⟨do return Service.ofInt (← get).status, rfl, δ₁.context, ?_, h₁.context⟩
  exact congrArg (fun n => (Except.ok (Service.ofInt n), δ₁.context)) hstat

/-! ## Variables -/

omit hf h hfew in
theorem variableOf_code {v : Variable} (hv : v ∈ Variable.builtIn) :
  Service.variableOf (Int64.ofNat v.code).toUInt64 = v := by
  revert v
  decide

omit hfew in
theorem lower_loadVar {d : Reg} {v : Variable} (hi : .loadVar d v ∈ e.scope.func.body) :
    Follows (Lowering.lower (.loadVar d v)) e δ (e.holdings others) (σ.exec e.program (.loadVar d v)) := by
  have hd : d.ty = v.ty := hf.typed hi
  have hv := variableOf_code (hf.vars _ hi v rfl)
  have hliteral := Func.holdsLiterals_eq_false hi [d] rfl (.head _) rfl
  -- A counted value is bound, and the reference that came with it is given back.
  have hcounted : ∀ {sv : Service} {x : Act (List UInt64)} {w : List UInt64}, d.ty.isHeap = true →
    Lowering.loadService d.ty = sv →
      Service.perform sv [0, (Int64.ofNat v.code).toUInt64] = Service.lift x →
      x.Gives δ.context w e.literals.toArray σ.store (.reg d.ty (σ.store.load v) w :: (e.holdings others).items δ σ) →
      Gives (Lowering.loadVar d v) e δ () (e.holdings others) [] (σ.set e.program d (σ.store.load v)) := by
    rintro _ act ws hheap rfl hperform hact
    have hn : d.isNull = false := isNull_eq_false.2 fun hty => by simp [hty, Ty.isHeap] at hheap
    have hiter := Ty.isIter_of_isHeap hheap
    obtain ⟨δ₁, hservice, h₁⟩ := h.service (g := [.reg d.ty (σ.store.load v) ws]) (s := σ.store)
      (w := [contextWord, [(Int64.ofNat v.code).toUInt64]]) hperform hact rfl
    obtain ⟨δ₂, hbind, h₂, hread, -⟩ :=
      Reflects.bind_value hf (hf.within others) h₁ (e.has hi (.head _) hiter) (.head _)
      fun hl => by simp [hliteral] at hl
    obtain ⟨δ₃, hdrop, h₃⟩ := h₂.drop
    refine ⟨δ₃, (bind_ok rfl).trans ((bind_ok hservice).trans ((bind_ok hbind).trans ?_)), h₃⟩
    show loaded d e δ₂ = _
    unfold loaded
    rw [if_pos hheap]
    exact (bind_ok (hread hn)).trans hdrop
  rcases Variable.cases_of_builtIn (hf.vars _ hi v rfl) with ⟨hty, hmem⟩ | ⟨hty, hmem⟩ | rfl
  · obtain ⟨n, hn, hload⟩ := h.context.loadInt hmem
    have hservice : Direct.service .loadInt [contextWord, [(Int64.ofNat v.code).toUInt64]] e δ
        = (.ok [n.toUInt64], δ) :=
      service_of_act
        (x := do return Service.ofInt (← Act.loadInt (Service.variableOf (Int64.ofNat v.code).toUInt64))) rfl
        (by rw [hv]; exact (Act.bind_ok hload).trans rfl)
    obtain ⟨δ₁, hbind, h₁⟩ := bindInt hf h (e.has hi (.head _) (by rw [hd, hty]; rfl)) (.inr (hd.trans hty)) n
    refine ⟨δ₁, ?_, hn ▸ h₁⟩
    have hrun : (Lowering.loadVar d v : Direct Unit) e δ = (do
      Direct.bind d (← Direct.service (Lowering.loadService d.ty) [contextWord, [(Int64.ofNat v.code).toUInt64]])
      loaded d : Direct Unit) e δ := rfl
    rw [Lowering.lower, hrun, hd, hty]
    refine (bind_ok hservice).trans ((bind_ok hbind).trans ?_)
    unfold loaded
    rw [if_neg (by rw [hd, hty]; decide)]
    rfl
  · obtain ⟨a, p, ha, hload⟩ := h.context.loadStr hmem
    refine hcounted (by rw [hd, hty]; rfl) (congrArg Lowering.loadService (hd.trans hty)) (x := do
      let s ← Act.loadStr (Service.variableOf (Int64.ofNat v.code).toUInt64)
      Act.change (·.refStr s)
      return Service.ofPacked s) (w := Service.ofPacked p) rfl ?_
    rw [hv, hd, hty, ha]
    have hact := hload.map (f := Service.ofPacked)
    simp only [bind_assoc, pure_bind] at hact
    exact hact
  · refine hcounted (by rw [hd]; rfl) (congrArg Lowering.loadService hd) (x := do
      let m ← Act.loadMap (Service.variableOf (Int64.ofNat Variable.argv.code).toUInt64)
      Act.change (·.ref m)
      return [m]) (w := [δ.context.argv]) rfl ?_
    rw [hv, hd]
    have hact := h.context.loadMap.map (f := fun m => [m])
    simp only [bind_assoc, pure_bind] at hact
    exact hact

omit hfew in
theorem lower_storeVar {v : Variable} {s : Reg} (hi : .storeVar v s ∈ e.scope.func.body) :
    Follows (Lowering.lower (.storeVar v s)) e δ (e.holdings others) (σ.exec e.program (.storeVar v s)) := by
  have hs : s.ty = v.ty := hf.typed hi
  have hv := variableOf_code (hf.vars _ hi v rfl)
  have hiter : s.ty.isIter = false := by rw [hs]; cases v <;> rfl
  obtain ⟨ws, hval, hx⟩ := Reflects.value (δ := δ) (σ := σ) hf (hf.within others) (e.has hi (.head _) hiter)
  have hrun : (Lowering.lower (.storeVar v s) : Direct Unit) e δ
      = Direct.tell (Lowering.storeService s.ty) [contextWord, [(Int64.ofNat v.code).toUInt64], ws] e δ := bind_ok hval
  have hexec : σ.exec e.program (.storeVar v s) = (σ.store.assign v (σ.get e.program s)).map σ.withStore := by
    rw [Plain.State.exec]
    cases σ.store.assign v (σ.get e.program s) <;> rfl
  rw [hexec]
  -- A service that takes the value.
  have hgives : ∀ {sv : Service} {act : Act Unit} {s' : Plain.Store}, Lowering.storeService s.ty = sv →
    s'.globals = σ.store.globals →
      Service.perform sv ([contextWord, [(Int64.ofNat v.code).toUInt64], ws] : List (List UInt64)).flatten
        = Service.lift (do act; return []) →
      act.Gives δ.context () e.literals.toArray s' ((e.holdings others).items δ σ) →
      Gives (Lowering.lower (.storeVar v s)) e δ () (e.holdings others) [] (σ.withStore s') := by
    rintro sv act s' rfl hglobals hperform hact
    obtain ⟨δ', htell, h'⟩ := h.tell (g := []) hperform (hact.bind fun _ h' => h'.gives []) hglobals
    exact ⟨δ', hrun.trans htell, h'⟩
  rcases Variable.cases_of_builtIn (hf.vars _ hi v rfl) with ⟨hty, hmem⟩ | ⟨hty, hmem⟩ | rfl
  · obtain rfl := h.intWords hx (hs.trans hty)
    have hword : σ.store.assign v (σ.get e.program s) = σ.store.assign v (.int (σ.get e.program s).toInt) := by
      simp only [List.mem_cons, List.not_mem_nil, or_false] at hmem
      obtain rfl | rfl | rfl := hmem <;> rfl
    have hsv : Lowering.storeService s.ty = .storeInt := congrArg Lowering.storeService (hs.trans hty)
    have hperform : Service.perform .storeInt
        ([contextWord, [(Int64.ofNat v.code).toUInt64], [(σ.get e.program s).toInt.toUInt64]] : List
          (List UInt64)).flatten
        = Service.lift (do Act.storeInt v (σ.get e.program s).toInt; return []) := by
      show Service.lift (do Act.storeInt (Service.variableOf _) (Int64.toUInt64 _).toInt64; return []) = _
      rw [hv, Int64.toInt64_toUInt64]
    have hstore := h.context.storeInt hmem (σ.get e.program s).toInt
    rw [hword]
    cases hassign : σ.store.assign v (.int (σ.get e.program s).toInt) with
    | ok s' =>
      rw [hassign] at hstore
      exact hgives hsv (Plain.Store.globals_assign hassign) hperform hstore
    | error x =>
      rw [hassign] at hstore
      obtain ⟨rfl, hstore⟩ := hstore
      refine hrun.trans ?_
      rw [hsv]
      exact bind_trap (service_of_fault hperform (Act.bind_error hstore))
  · obtain ⟨p, rfl, hp⟩ := h.strWords hx (hs.trans hty)
    obtain ⟨s', hassign, hact⟩ := h.context.storeStr hp hmem
    have hword : σ.store.assign v (σ.get e.program s) = .ok s' := by
      rw [← hassign]
      simp only [List.mem_cons, List.not_mem_nil, or_false] at hmem
      obtain rfl | rfl | rfl | rfl := hmem <;> rfl
    rw [hword]
    refine hgives (congrArg Lowering.storeService (hs.trans hty)) (Plain.Store.globals_assign hassign) ?_ hact
    show Service.lift (do Act.storeStr (Service.variableOf _) _; return []) = _
    rw [hv]
  · obtain ⟨a, rfl, ha⟩ := h.mapWords hx hs
    refine hgives (congrArg Lowering.storeService hs) rfl ?_ (h.context.storeMap ha)
    show Service.lift (do Act.storeMap (Service.variableOf _) _; return []) = _
    rw [hv]

end

end Direct

end RecordMill

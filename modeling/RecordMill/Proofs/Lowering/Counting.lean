import RecordMill.Proofs.Lowering.SolventRuns

/-!
# Counting what need not be counted

A register that only ever holds literals goes uncounted, for a literal has no handle. So it makes no difference to what
an instruction does when such a register is counted after all. -/

namespace RecordMill

namespace Direct

def Setting.counted (e : Setting) : Setting := { e with scope := e.scope.counted }

def Store.Unshared (e : Setting) (δ : Store) : Prop :=
  ∀ {r b}, e.Binds r b → b.isLiteral → r.ty.Fits (δ.locals r) ∧ r.ty.handle (δ.locals r) = 0

/-- The step does the same when every register is counted. -/
class Indifferent (e : Setting) {α : Type} (x : Direct α) : Prop where
  same : ∀ δ, x e.counted δ = x e δ

section

variable {e : Setting} {α β : Type} {x : Direct α} {r : Reg} {δ δ' : Store}

namespace Indifferent

instance (a : α) : Indifferent e (pure a : Direct α) := ⟨fun _ => rfl⟩

instance (t : Machine.Trap) : Indifferent e (trap t : Direct α) := ⟨fun _ => rfl⟩

instance (s : Stop) : Indifferent e (stop s : Direct α) := ⟨fun _ => rfl⟩

instance (s : Stop) : Indifferent e (throw s : Direct α) := ⟨fun _ => rfl⟩

instance (r : Reg) (p : BindingProblem) : Indifferent e (fail r p : Direct α) := ⟨fun _ => rfl⟩

instance : Indifferent e (get : Direct Store) := ⟨fun _ => rfl⟩

instance (f : Store → Store) : Indifferent e (modify f : Direct Unit) := ⟨fun _ => rfl⟩

instance (priority := low) {f : α → Direct β} [hx : Indifferent e x] [hf : ∀ a, Indifferent e (f a)] :
    Indifferent e (x >>= f) where
  same δ := by
    rw [bind_apply, bind_apply, hx.same]
    rcases x e δ with ⟨h | a, δ'⟩
    · rfl
    · exact (hf a).same δ'

theorem of_read {f : Setting → Direct β} (h : ∀ δ, f e.counted e.counted δ = f e e δ) :
    Indifferent e ((MonadReader.read : Direct Setting) >>= f) := ⟨h⟩

instance {p : Prop} [Decidable p] {y : Direct α} [hx : Indifferent e x] [hy : Indifferent e y] :
    Indifferent e (if p then x else y) := by
  split
  · exact hx
  · exact hy

instance {f : α → Direct β} [∀ a, Indifferent e (f a)] (xs : List α) : Indifferent e (xs.mapM f) := by
  induction xs with
  | nil => exact inferInstanceAs (Indifferent e (pure []))
  | cons y ys ih =>
    rw [List.mapM_cons]
    infer_instance

instance forM {f : α → Direct PUnit} [hf : ∀ a, Indifferent e (f a)] (xs : List α) : Indifferent e (xs.forM f) := by
  induction xs with
  | nil => exact inferInstanceAs (Indifferent e (pure _))
  | cons y ys ih => exact inferInstanceAs (Indifferent e (f y >>= fun _ => ys.forM f))

end Indifferent

/-! ## Registers -/

instance (a : Act α) : Indifferent e (act a) := ⟨fun _ => rfl⟩

instance (s : Service) (args : List (List UInt64)) : Indifferent e (service s args) := ⟨fun _ => rfl⟩

instance (s : Service) (args : List (List UInt64)) : Indifferent e (tell s args) := ⟨fun _ => rfl⟩

instance (s : Bytes) : Indifferent e (constStr s) := by
  unfold constStr
  split
  · infer_instance
  · refine Indifferent.of_read fun δ => ?_
    rw [show e.counted.literals = e.literals from rfl]
    cases e.literals.idxOf? s <;> rfl

instance (t : Ty) (ws : List UInt64) : Indifferent e (ref t ws) := ⟨fun _ => by cases t <;> rfl⟩

instance (t : Ty) (ws : List UInt64) : Indifferent e (drop t ws) := ⟨fun _ => by cases t <;> rfl⟩

instance (t : Ty) : Indifferent e (zero t) := ⟨fun _ => by cases t <;> rfl⟩

instance (r : Reg) (b : Binding) : Indifferent e (read r b) := ⟨fun _ => rfl⟩

instance (r : Reg) (b : Binding) (ws : List UInt64) : Indifferent e (write r b ws) := ⟨fun _ => rfl⟩

instance (r : Reg) : Indifferent e (value r) := by
  unfold value
  split
  · infer_instance
  · split
    · infer_instance
    · refine Indifferent.of_read fun δ => ?_
      rw [show e.counted.scope.binding? r = _ from e.scope.binding?_counted r]
      cases e.scope.binding? r <;> rfl

instance (ws : List UInt64) [e.Scoped] [hr : Counted e r] : Indifferent e (Direct.bind r ws) := by
  unfold Direct.bind
  split
  · infer_instance
  · split
    · infer_instance
    · refine Indifferent.of_read fun δ => ?_
      rw [show e.counted.scope.binding? r = _ from e.scope.binding?_counted r]
      cases hb : e.scope.binding? r with
      | none => rfl
      | some b =>
        have hl := hr.ne (Setting.binds hb)
        rw [Option.map_some, show b.counted = b by rw [Binding.counted, ← hl]]
        exact Indifferent.same (e := e) δ

instance (ws : List UInt64) [e.Scoped] [Counted e r] : Indifferent e (bindOwned r ws) := by
  unfold bindOwned
  infer_instance

instance (t : Ty) (d s : Nat) [e.Scoped] [Counted e ⟨d, t⟩] : Indifferent e (mov t d s) := by
  unfold mov
  infer_instance

instance (r : Reg) : Indifferent e (loaded r) := by
  unfold loaded
  infer_instance

/-! ## Operations -/

instance (op : ValueOp) : Indifferent e (unsupported op : Direct α) := inferInstanceAs (Indifferent e (stop _))

instance (b : Option Bool) : Indifferent e (truth b) := by
  unfold truth
  split <;> infer_instance

instance (fn : MathFn) (args : List (List UInt64)) : Indifferent e (applyMath fn args) := by
  unfold applyMath
  split
  · infer_instance
  · split <;> infer_instance

instance (op : Machine.IntOp) (x y : UInt64) : Indifferent e (int op x y) := by
  unfold int
  split <;> infer_instance

instance (float : Bool) (op : Arith) (args : List (List UInt64)) : Indifferent e (applyArith float op args) := by
  unfold applyArith
  split <;> first | infer_instance | (split <;> infer_instance)

instance (op : Bitwise) (args : List (List UInt64)) : Indifferent e (applyBit op args) := by
  unfold applyBit
  split <;> infer_instance

instance (op : ValueOp) (args : List (List UInt64)) : Indifferent e (applyFitting op args) := by
  unfold applyFitting
  cases op with
  | compare float c => rcases float with _ | _ <;> rcases args with _ | ⟨x, _ | ⟨y, _ | _⟩⟩ <;> infer_instance
  | arith | bit | math | service | unknown => infer_instance
  | div | pow | floatToInt | intToFloat => rcases args with _ | ⟨x, _ | ⟨y, _ | _⟩⟩ <;> infer_instance

instance (op : ValueOp) (args : List (List UInt64)) : Indifferent e (apply op args) := by
  unfold apply
  split <;> infer_instance

/-! ## Iterators and printing -/

instance (r : Reg) : Indifferent e (iterKey r) := by
  unfold iterKey
  refine Indifferent.of_read fun δ => ?_
  rw [show e.counted.scope.cursor? r = e.scope.cursor? r from rfl]
  cases e.scope.cursor? r <;> cases r.ty <;> rfl

instance (r : Reg) : Indifferent e (keysOf r) := ⟨fun _ => rfl⟩

instance (r : Reg) : Indifferent e (positionOf r) := ⟨fun _ => rfl⟩

instance (r : Reg) : Indifferent e (dropKeys r) := ⟨fun _ => rfl⟩

instance (r : Reg) (w : UInt64) : Indifferent e (setKeys r w) := ⟨fun _ => rfl⟩

instance (r : Reg) (w : UInt64) : Indifferent e (setPosition r w) := ⟨fun _ => rfl⟩

instance (r : Reg) (what : MapService) : Indifferent e (Lowering.mapService r what : Direct Service) := by
  unfold Lowering.mapService
  split <;> infer_instance

instance (d m : Reg) : Indifferent e (iterBegin d m) := by
  unfold iterBegin
  infer_instance

instance (d r : Reg) [e.Scoped] [Counted e d] : Indifferent e (iterHasNext d r) := by
  unfold iterHasNext
  infer_instance

instance (d r : Reg) [e.Scoped] [Counted e d] : Indifferent e (iterGetNext d r) := by
  unfold iterGetNext
  infer_instance

instance (o : Option Output) : Indifferent e (output o) := by
  unfold output
  split <;> infer_instance

instance (d : Reg) (o : Option Output) (rs : List Reg) [e.Scoped] [Counted e d] : Indifferent e (printAll d o rs) := by
  unfold printAll
  infer_instance

instance (d : Reg) (o : Option Output) (f : Reg) (rs : List Reg) [e.Scoped] [Counted e d] :
    Indifferent e (printf d o f rs) := by
  unfold printf
  infer_instance

instance (d f : Reg) (rs : List Reg) [e.Scoped] [Counted e d] : Indifferent e (sprintf d f rs) := by
  unfold sprintf
  infer_instance

/-! ## Control -/

instance (f : Flow) : Indifferent e (follow f) := ⟨fun _ => rfl⟩

instance (r : Reg) (l : Label) : Indifferent e (jumpIf r l) := by
  unfold jumpIf
  infer_instance

instance (d : Reg) (fn : Int) (rs : List Reg) : Indifferent e (call d fn rs) := by
  unfold call
  infer_instance

instance (d : Reg) (t : Ty) (ws : List UInt64) [e.Scoped] [Counted e d] : Indifferent e (resume d t ws) := by
  unfold resume
  infer_instance

instance (ty : Ty) (src : Reg) : Indifferent e (returned ty src) := by
  unfold returned
  infer_instance

instance (g : Reg) : Indifferent e (releaseGlobal g) := by
  unfold releaseGlobal
  split
  · refine Indifferent.of_read fun δ => ?_
    rw [show e.counted.scope.binding? g = _ from e.scope.binding?_counted g]
    cases e.scope.binding? g with
    | none => rfl
    | some b =>
      have hrest : Indifferent e (do
          drop g.ty (← read g b)
          write g b (if g.ty = .str then ofPacked .empty else [0])) := inferInstance
      exact hrest.same δ
  · infer_instance

/-! ## Leaving -/

theorem locals_counted (s : Scope) : s.counted.locals = s.locals.map fun x => (x.1, x.2.counted) := by
  unfold Scope.locals Scope.counted
  rw [List.filter_map]
  rfl

theorem Spares.locals_eq (h : Spares e (.only []) x) (δ : Store) : (x e δ).2.locals = δ.locals :=
  funext fun r => (h.store δ).locals r (List.not_mem_nil)

theorem drop_without_handle {t : Ty} {ws : List UInt64} (hfits : t.Fits ws) (hzero : t.handle ws = 0) :
    drop t ws e δ = (.ok (), δ) :=
  drop_apply hfits (show δ.context.heap.drop (t.handle ws) = .ok δ.context.heap by rw [hzero]; rfl)

theorem ref_without_handle {t : Ty} {ws : List UInt64} (hfits : t.Fits ws) (hzero : t.handle ws = 0) :
    ref t ws e δ = (.ok (), δ) :=
  ref_apply hfits (show δ.context.heap.ref (t.handle ws) = .ok δ.context.heap by rw [hzero]; rfl)

/-- What an activation does with one of its locals when it is left. -/
def dropLocal : Reg × Binding → Direct PUnit
  | (r, b) => do if r.ty.isHeap && !b.isLiteral then drop r.ty (← read r b)

instance (x : Reg × Binding) : Spares e (.only []) (dropLocal x) := by
  unfold dropLocal
  infer_instance

theorem dropLocal_counted {b : Binding} (hlocal : b.isGlobal = false)
    (hl : b.isLiteral → r.ty.Fits (δ.locals r) ∧ r.ty.handle (δ.locals r) = 0) :
    dropLocal (r, b.counted) e.counted δ = dropLocal (r, b) e δ := by
  unfold dropLocal
  dsimp only
  cases hb : b.isLiteral with
  | false =>
    have hsame : Indifferent e (do if r.ty.isHeap && !b.counted.isLiteral then drop r.ty (← read r b) : Direct PUnit) :=
      inferInstance
    exact hsame.same δ
  | true =>
    obtain ⟨hfits, hzero⟩ := hl hb
    rw [if_neg (show ¬(r.ty.isHeap && !true) = true by simp)]
    split
    · rw [bind_ok read_apply, if_neg (by simp [Binding.counted, hlocal])]
      exact drop_without_handle hfits hzero
    · rfl

theorem dropLocals_counted {xs : List (Reg × Binding)} (hxs : ∀ x ∈ xs, x.2.isGlobal = false
      ∧ (x.2.isLiteral → x.1.ty.Fits (δ.locals x.1) ∧ x.1.ty.handle (δ.locals x.1) = 0)) :
    ((xs.map fun x => (x.1, x.2.counted)).forM dropLocal : Direct PUnit) e.counted δ
      = (xs.forM dropLocal : Direct PUnit) e δ := by
  induction xs generalizing δ with
  | nil => rfl
  | cons x xs ih =>
    obtain ⟨hlocal, hliteral⟩ := hxs _ (.head _)
    have hone : dropLocal (x.1, x.2.counted) e.counted δ = dropLocal x e δ := dropLocal_counted hlocal hliteral
    have hlocals := (inferInstance : Spares e (.only []) (dropLocal x)).locals_eq δ
    show (dropLocal (x.1, x.2.counted) >>= fun _ => (xs.map fun x => (x.1, x.2.counted)).forM dropLocal) e.counted δ
      = (dropLocal x >>= fun _ => xs.forM dropLocal) e δ
    rw [bind_apply, bind_apply, hone]
    rcases hrun : dropLocal x e δ with ⟨h | ⟨⟩, δ'⟩
    · rfl
    · rw [hrun] at hlocals
      exact ih fun y hy => by
        rw [show δ'.locals = δ.locals from hlocals]
        exact hxs y (.tail _ hy)

section

variable [he : e.Scoped]

theorem release_counted (h : δ.Unshared e) : release e.counted δ = release e δ := by
  have hrest : Indifferent e (do
      e.scope.cursors.forM fun x => dropKeys x.1
      if e.scope.isMain then e.scope.globals.forM releaseGlobal) := inferInstance
  have hlocals : ((e.scope.locals.map fun x => (x.1, x.2.counted)).forM dropLocal : Direct PUnit) e.counted δ
      = (e.scope.locals.forM dropLocal : Direct PUnit) e δ :=
    dropLocals_counted fun x hx => ⟨(Setting.binds_local hx).2.1, fun hl => h (Setting.binds_local hx).1 hl⟩
  rw [← locals_counted] at hlocals
  show (e.counted.scope.locals.forM dropLocal >>= fun _ => _ : Direct Unit) e.counted δ
    = (e.scope.locals.forM dropLocal >>= fun _ => _ : Direct Unit) e δ
  rw [bind_apply, bind_apply, show e.counted.scope = e.scope.counted from rfl, hlocals]
  rcases (e.scope.locals.forM dropLocal : Direct PUnit) e δ with ⟨h | ⟨⟩, δ'⟩
  · rfl
  · exact hrest.same δ'

theorem ret_counted (src : Reg) (h : δ.Unshared e) : ret src e.counted δ = ret src e δ := by
  have hreturned : Indifferent e (returned e.scope.func.ret src) := inferInstance
  have hkeeps : Spares e (.only []) (returned e.scope.func.ret src) := by
    unfold returned
    infer_instance
  have hlocals := hkeeps.locals_eq δ
  rw [ret_eq, bind_apply, bind_apply, results_eq, results_eq, bind_apply, bind_apply,
    show e.counted.scope.func.ret = e.scope.func.ret from rfl,
    hreturned.same]
  rcases hrun : returned e.scope.func.ret src e δ with ⟨_ | ws, δ'⟩
  · rfl
  · rw [hrun] at hlocals
    have h' : δ'.Unshared e := fun hb hl => by
      rw [show δ'.locals = δ.locals from hlocals]
      exact h hb hl
    dsimp only
    rw [bind_apply, bind_apply, release_counted h']
    rfl

/-! ## Entering -/

theorem indifferent_bindParams {rs : List Reg} (hrs : ∀ r ∈ rs, r ∈ e.scope.func.params) (wss : List (List UInt64)) :
    Indifferent e (bindParams rs wss) := by
  induction rs generalizing wss with
  | nil => exact inferInstanceAs (Indifferent e (pure ()))
  | cons r rs ih =>
    cases wss with
    | nil => exact inferInstanceAs (Indifferent e (pure ()))
    | cons ws wss =>
      have hone : Counted e r := counted_param (hrs r (.head _))
      have hrest := ih (fun r hr => hrs r (.tail _ hr)) wss
      unfold bindParams
      infer_instance

def makeLocal (params : List Reg) : Reg × Binding → Direct PUnit
  | (r, b) => do if r.ty.isMap && !params.contains r then write r b (← zero r.ty)

def makeGlobal (s : Scope) (g : Reg) : Direct PUnit := do
  match g.ty.isMap, s.binding? g with
  | true, some b => write g b (← zero g.ty)
  | _, _ => return

omit he in
theorem makeLocals_counted (params : List Reg) (s : Scope) :
    (s.counted.locals.forM (makeLocal params) : Direct PUnit) = s.locals.forM (makeLocal params) := by
  rw [locals_counted]
  induction s.locals with
  | nil => rfl
  | cons x xs ih => exact congrArg (makeLocal params x >>= fun _ => ·) ih

omit he in
theorem makeGlobal_counted (s : Scope) : makeGlobal s.counted = makeGlobal s := by
  funext g
  unfold makeGlobal
  rw [s.binding?_counted g]
  cases g.ty.isMap <;> cases s.binding? g <;> rfl

theorem enter_counted (wss : List (List UInt64)) (δ : Store) : enter wss e.counted δ = enter wss e δ := by
  have hparams : Indifferent e (bindParams e.scope.func.params wss) := indifferent_bindParams (fun _ hr => hr) wss
  have hlocal : ∀ x, Indifferent e (makeLocal e.scope.func.params x) := fun x => by
    unfold makeLocal
    infer_instance
  have hglobal : ∀ g, Indifferent e (makeGlobal e.scope g) := fun g => by
    unfold makeGlobal
    split <;> infer_instance
  have hall : Indifferent e (do
      bindParams e.scope.func.params wss
      e.scope.locals.forM (makeLocal e.scope.func.params)
      if e.scope.isMain then e.scope.globals.forM (makeGlobal e.scope)) := inferInstance
  have hsame := hall.same δ
  rw [← makeLocals_counted, ← makeGlobal_counted] at hsame
  refine hsame.trans ?_
  rw [makeLocals_counted, makeGlobal_counted]
  rfl

/-! ## Literals -/

theorem bind_literal_counted (h : δ.Unshared e) (hr : r.ty = .str) {q : Packed} (hq : q.handle = 0) :
    Direct.bind r (ofPacked q) e.counted δ = Direct.bind r (ofPacked q) e δ := by
  by_cases hsome : ∃ b, e.Binds r b ∧ b.isLiteral = true
  · obtain ⟨b, hb, hl⟩ := hsome
    have hfound : e.counted.scope.binding? r = some b.counted := by
      rw [show e.counted.scope.binding? r = _ from e.scope.binding?_counted r, hb.found]
      rfl
    have hlocal : b.isGlobal = false := by
      rcases hb.kind with ⟨-, hno, -⟩ | ⟨hlocal, -⟩
      · simp [hno] at hl
      · exact hlocal
    obtain ⟨hfits, hzero⟩ := h hb hl
    have hyes : (r.ty.isHeap && !b.counted.isLiteral) = true := by
      rw [hr]
      rfl
    have hno : ¬(r.ty.isHeap && !b.isLiteral) = true := by simp [hl]
    have href : ref r.ty (ofPacked q) e.counted δ = (.ok (), δ) := by
      rw [hr]
      exact ref_without_handle (fun _ => rfl) hq
    have hread : read r b.counted e.counted δ = (.ok (δ.locals r), δ) := by
      rw [read_apply, if_neg (by simp [Binding.counted, hlocal])]
    rw [bind_apply' hb.null hb.iter hfound, bind_apply' hb.null hb.iter hb.found, if_pos hyes, if_neg hno]
    exact (bind_ok href).trans ((bind_ok hread).trans (bind_ok (drop_without_handle hfits hzero)))
  · have hcounted : Counted e r := ⟨fun {b} hb => by simpa using fun hl => hsome ⟨b, hb, hl⟩⟩
    exact Indifferent.same δ

theorem constStr_counted (h : δ.Unshared e) (hr : r.ty = .str) (s : Bytes) :
    (constStr s >>= Direct.bind r) e.counted δ = (constStr s >>= Direct.bind r) e δ := by
  rw [bind_apply, bind_apply, (inferInstance : Indifferent e (constStr s)).same]
  rcases hrun : constStr s e δ with ⟨halt | ws, δ'⟩
  · rfl
  · obtain ⟨rfl, q, rfl, hq⟩ := constStr_eq_ok hrun
    exact bind_literal_counted h hr hq

end

end

end Direct

/-! ## Instructions -/

namespace Lowering

open Direct (Indifferent Counted)

variable {e : Direct.Setting} {α : Type} [he : e.Scoped]

instance (r : Reg) (ws : List UInt64) [Counted e r] : Indifferent e (Emitter.bind r ws : Direct Unit) :=
  inferInstanceAs (Indifferent e (Direct.bind r ws))

section

omit he

instance (r : Reg) :
    Indifferent e (Emitter.value r : Direct (List UInt64)) := inferInstanceAs (Indifferent e (Direct.value r))

instance : Indifferent e (Emitter.context : Direct (List UInt64)) := inferInstanceAs (Indifferent e (pure _))

instance (n : Int64) :
    Indifferent e (Emitter.constInt n : Direct (List UInt64)) := inferInstanceAs (Indifferent e (pure _))

instance (x : Float) :
    Indifferent e (Emitter.constFloat x : Direct (List UInt64)) := inferInstanceAs (Indifferent e (pure _))

instance (op : ValueOp) (wss : List (List UInt64)) : Indifferent e (Emitter.apply op wss : Direct (List UInt64)) :=
  inferInstanceAs (Indifferent e (Direct.apply op wss))

instance (sv : Service) (wss : List (List UInt64)) : Indifferent e (Emitter.perform sv wss : Direct Unit) :=
  inferInstanceAs (Indifferent e (Direct.tell sv wss))

instance (r : Reg) : Indifferent e (Emitter.loaded r : Direct Unit) := inferInstanceAs (Indifferent e (Direct.loaded r))

instance (t : Ty) (ws : List UInt64) :
    Indifferent e (Emitter.drop t ws : Direct Unit) := inferInstanceAs (Indifferent e (Direct.drop t ws))

instance (err : LowerError) : Indifferent e (Lowering.fail err : Direct α) := inferInstanceAs (Indifferent e (throw _))

instance (sv : Service) (wss : List (List UInt64)) : Indifferent e (callService sv wss : Direct (List UInt64)) := by
  unfold callService
  infer_instance

instance (sv : Service) (wss : List (List UInt64)) : Indifferent e (performService sv wss : Direct Unit) := by
  unfold performService
  infer_instance

instance (sv : Service) (rs : List Reg) : Indifferent e (performOn sv rs : Direct Unit) := by
  unfold performOn
  infer_instance

instance (rs : List Reg) (wss : List (List UInt64)) :
    Indifferent e (toFloats rs wss : Direct (List (List UInt64))) := by
  induction rs generalizing wss with
  | nil => exact inferInstanceAs (Indifferent e (pure wss))
  | cons r rs ih =>
    cases wss with
    | nil => exact inferInstanceAs (Indifferent e (pure []))
    | cons ws wss =>
      unfold toFloats
      infer_instance

instance (v : Variable) (r : Reg) : Indifferent e (storeVar v r : Direct Unit) := by
  unfold storeVar
  infer_instance

end

section

variable (d : Reg) [Counted e d]

instance (ws : List UInt64) : Indifferent e (bindOwned d ws : Direct Unit) := by
  unfold bindOwned
  infer_instance

instance (sv : Service) (wss : List (List UInt64)) : Indifferent e (bindResult d sv wss : Direct Unit) := by
  unfold bindResult
  infer_instance

instance (sv : Service) (rs : List Reg) : Indifferent e (bindService d sv rs : Direct Unit) := by
  unfold bindService
  infer_instance

instance (m : Reg) (what : MapService) (rs : List Reg) : Indifferent e (bindMapService d m what rs : Direct Unit) := by
  unfold bindMapService
  infer_instance

instance (op : ValueOp) (rs : List Reg) : Indifferent e (bindOp d op rs : Direct Unit) := by
  unfold bindOp
  infer_instance

instance (op : ValueOp) (rs : List Reg) : Indifferent e (bindFloatOp d op rs : Direct Unit) := by
  unfold bindFloatOp
  infer_instance

instance (op : Cmp) (l r : Reg) : Indifferent e (compare d op l r : Direct Unit) := by
  unfold compare
  infer_instance

instance (r : Reg) : Indifferent e (convert d r : Direct Unit) := by
  unfold convert
  have hconvert : ∀ ws, Indifferent e (match r.ty, d.ty with
      | .int, .float => do Emitter.bind d (← Emitter.apply .intToFloat [ws])
      | .float, .int => do Emitter.bind d (← Emitter.apply .floatToInt [ws])
      | .int, .str => bindResult d .intToStr [ws]
      | .float, .str => bindResult d .floatToStr [ws]
      | .str, .int => bindResult d .strToInt [ws]
      | .str, .float => bindResult d .strToFloat [ws]
      | a, b => fail (.noConversion a b) : Direct Unit) := fun ws => by split <;> infer_instance
  infer_instance

instance (v : Variable) : Indifferent e (loadVar d v : Direct Unit) := by
  unfold loadVar
  infer_instance

end

/-- It makes no difference to an instruction whether a register is counted that holds nothing but literals. -/
theorem lower_counted {i : Instr} (hi : i ∈ e.scope.func.body) {δ : Direct.Store} (h : δ.Unshared e) :
    (lower i : Direct Unit) e.counted δ = (lower i : Direct Unit) e δ := by
  suffices hsame : (∀ d s, i ≠ .constStr d s) → (∀ src, i ≠ .ret src) → Indifferent e (lower i : Direct Unit) by
    cases i with
    | constStr d s => exact Direct.constStr_counted h (he.typed hi) s
    | ret src => exact Direct.ret_counted src h
    | _ => exact (hsame nofun nofun).same δ
  intro hconst hret
  cases i with
  | constInt d _ | constFloat d _ | arith d _ _ | bit d _ _ | math d _ _ | div d _ _ | pow d _ _
  | compare d _ _ _ | convert d _ | concat d _ _ | getColumn d _ | strLen d _ | matchPattern d _ _ | split d _ _ _
  | nextLine d | lookup d _ _ | contains d _ _ | len d _ | loadVar d _ =>
    have hd : Counted e d := counted hi [d] rfl (.head _) rfl
    unfold lower
    infer_instance
  | mov d s =>
    have hd : Counted e ⟨d.id, d.ty⟩ := counted hi [d] rfl (.head _) rfl
    exact inferInstanceAs (Indifferent e (Direct.mov d.ty d.id _))
  | store _ _ _ | delete _ _ | setColumn _ _ | storeVar _ _ | missing =>
    unfold lower
    infer_instance
  | readFileLine d status path =>
    have hd : Counted e d := counted hi [d, status] rfl (.head _) rfl
    have hstatus : Counted e status := counted hi [d, status] rfl (.tail _ (.head _)) rfl
    unfold lower
    infer_instance
  | iterBegin d m => exact inferInstanceAs (Indifferent e (Direct.iterBegin d m))
  | iterHasNext d it =>
    have hd : Counted e d := counted hi [d] rfl (.head _) rfl
    exact inferInstanceAs (Indifferent e (Direct.iterHasNext d it))
  | iterGetNext d it =>
    have hd : Counted e d := counted hi [d] rfl (.head _) rfl
    exact inferInstanceAs (Indifferent e (Direct.iterGetNext d it))
  | print out args status =>
    have hstatus : Counted e status := counted hi [status] rfl (.head _) rfl
    exact inferInstanceAs (Indifferent e (Direct.printAll status out args))
  | printf out f args status =>
    have hstatus : Counted e status := counted hi [status] rfl (.head _) rfl
    exact inferInstanceAs (Indifferent e (Direct.printf status out f args))
  | sprintf d f args =>
    have hd : Counted e d := counted hi [d] rfl (.head _) rfl
    exact inferInstanceAs (Indifferent e (Direct.sprintf d f args))
  | label l => exact inferInstanceAs (Indifferent e (pure ()))
  | jmp l => exact inferInstanceAs (Indifferent e (Direct.follow (.goto l)))
  | jmpIf cond l => exact inferInstanceAs (Indifferent e (Direct.jumpIf cond l))
  | call dst fn args => exact inferInstanceAs (Indifferent e (Direct.call dst fn args))
  | constStr d s => exact absurd rfl (hconst d s)
  | ret src => exact absurd rfl (hret src)

end Lowering

/-! ## Runs -/

/-- Where every owner has its reference, the registers that go uncounted have none to own. -/
theorem Direct.Store.Solvent.unshared {e : Direct.Setting} {others : List UInt64} {δ : Direct.Store}
    (h : δ.Solvent e others) : δ.Unshared e := by
  intro r b hb hl
  obtain ⟨-, hno, -⟩ | ⟨-, hliteral, hr⟩ := hb.kind
  · simp [hno] at hl
  · exact ⟨h.locals r hr, h.literals r hr (hliteral ▸ hl)⟩

namespace Plan.Made

variable {P : Plan} (h : P.Made true)

include h

theorem setting_counted {i : Nat} {f : Func} (hf : P.program.funcs[i]? = some f) :
    P.setting i = (Direct.setting P.program P.code.literals i f).counted := by
  show ({ program := (P.given i).program, scope := (P.given i).scope, literals := P.code.literals } : Direct.Setting)
    = _
  rw [h.given_program hf, h.scope hf]
  rfl

theorem enters_alike : P.EntersAlike := fun hf wss δ => by
  have he : (Direct.setting P.program P.code.literals _ _).Scoped :=
    Direct.setting_scoped h.checked h.distinct.globals hf
  rw [h.setting_counted hf]
  exact (Direct.enter_counted wss δ).symm

/-- In a run from the start the code that counts every register does what it does without. -/
theorem faithful {context : Context} (hcontext : context.Affords []) : P.Faithful context where
  enters := h.enters_alike
  concurs {k st} hst := by
    have hsolvent := hst.solvent h.checked h.distinct.globals hcontext
    refine ⟨fun {f i} hf hi => ?_, fun {f g fr frs} hf hbelow hg ws δ => ?_⟩
    · have he : (Direct.setting P.program P.code.literals st.frame.func f).Scoped :=
        Direct.setting_scoped h.checked h.distinct.globals hf
      rw [h.setting_counted hf]
      exact (Lowering.lower_counted (List.mem_of_getElem? hi) (hsolvent.store hf).unshared).symm
    · have he : (Direct.setting P.program P.code.literals fr.func g).Scoped :=
        Direct.setting_scoped h.checked h.distinct.globals hg
      have hchain := hst.chain
      rw [hbelow] at hchain
      cases hchain with
      | @call _ _ _ fn args hinstr _ _ =>
        have hi : g.body[fr.next]? = some (.call st.frame.dst fn args) := by rwa [Direct.Frame.instr?, hg] at hinstr
        have hcounted : Direct.Counted (Direct.setting P.program P.code.literals fr.func g) st.frame.dst :=
          Lowering.counted (List.mem_of_getElem? hi) [st.frame.dst] rfl (.head _) rfl
        rw [h.setting_counted hg]
        exact ((inferInstance : Direct.Indifferent _ (Direct.resume st.frame.dst f.ret ws)).same δ).symm

end Plan.Made

end RecordMill

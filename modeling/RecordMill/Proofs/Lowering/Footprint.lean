import RecordMill.Proofs.Lowering.Leaving
import RecordMill.Proofs.Service.Deeds

/-!
# What instructions leave alone

An instruction changes no register but those it names as destinations, no list of keys but that of the iterator
it begins, and moves no iterator but the one it begins or steps. The heap it changes by deeds only.
-/

namespace RecordMill

open Machine (Trap)

namespace Direct

/-- What may be changed. -/
structure Footprint where
  globals : List Reg
  locals : Reg → Prop
  keys : List Reg
  positions : Reg → Prop
  flow : Flow → Prop

def Footprint.only (rs : List Reg) : Footprint := ⟨rs, (· ∈ rs), [], fun _ => False, fun _ => False⟩

/-- Nothing is changed beyond the footprint, and the heap is had by deeds. -/
structure Store.Spares (F : Footprint) (δ δ' : Store) : Prop where
  globals : ∀ g ∉ F.globals, δ'.globals g = δ.globals g
  locals : ∀ r, ¬F.locals r → δ'.locals r = δ.locals r
  keys : ∀ r ∉ F.keys, δ'.keys r = δ.keys r
  positions : ∀ r, ¬F.positions r → δ'.position r = δ.position r
  flow : δ'.flow = δ.flow ∨ F.flow δ'.flow
  heap : δ.context.heap.Reaches δ'.context.heap

namespace Store.Spares

variable {F : Footprint} {δ δ' δ'' : Store}

theorem of_heap {c : Context} (h : δ.context.heap.Reaches c.heap) : Store.Spares F δ { δ with context := c } :=
  ⟨fun _ _ => rfl, fun _ _ => rfl, fun _ _ => rfl, fun _ _ => rfl, .inl rfl, h⟩

theorem refl : Store.Spares F δ δ := of_heap .refl

theorem trans (a : Store.Spares F δ δ') (b : Store.Spares F δ' δ'') : Store.Spares F δ δ'' where
  globals g hg := (b.globals g hg).trans (a.globals g hg)
  locals r hr := (b.locals r hr).trans (a.locals r hr)
  keys r hr := (b.keys r hr).trans (a.keys r hr)
  positions r hr := (b.positions r hr).trans (a.positions r hr)
  flow := b.flow.elim (fun hsame => hsame ▸ a.flow) .inr
  heap := a.heap.trans b.heap

end Store.Spares

/-- Wherever it breaks off, nothing is changed beyond the footprint. -/
class Spares (e : Setting) (F : Footprint) {α : Type} (x : Direct α) : Prop where
  store : ∀ δ, Store.Spares F δ (x e δ).2

theorem Spares.of_run {e : Setting} {F : Footprint} {α : Type} {x : Direct α} {δ δ' : Store} {r : Except Halt α}
    (h : Spares e F x) (hx : x e δ = (r, δ')) : Store.Spares F δ δ' := by
  have hstore := h.store δ
  rwa [hx] at hstore

/-- A register that may be bound: it is in the footprint. -/
class Open (e : Setting) (F : Footprint) (r : Reg) : Prop where
  mem : r.isNull = false → e.scope.isGlobal r → r ∈ F.globals
  free : r.isNull = false → ¬e.scope.isGlobal r → F.locals r

section

variable {e : Setting} {F : Footprint} {α β : Type} {x : Direct α}

/-! ## Steps -/

namespace Spares

instance (a : α) : Spares e F (pure a : Direct α) := ⟨fun _ => .refl⟩

instance (t : Trap) : Spares e F (trap t : Direct α) := ⟨fun _ => .refl⟩

instance (s : Stop) : Spares e F (stop s : Direct α) := ⟨fun _ => .refl⟩

instance (s : Stop) : Spares e F (throw s : Direct α) := ⟨fun _ => .refl⟩

instance (r : Reg) (p : BindingProblem) : Spares e F (fail r p : Direct α) := ⟨fun _ => .refl⟩

instance : Spares e F (get : Direct Store) := ⟨fun _ => .refl⟩

instance (priority := low) {f : α → Direct β} [hx : Spares e F x] [hf : ∀ a, Spares e F (f a)] :
    Spares e F (x >>= f) where
  store δ := by
    have hfirst := hx.store δ
    rw [bind_apply]
    rcases hrun : x e δ with ⟨h | a, δ'⟩ <;> rw [hrun] at hfirst
    · exact hfirst
    · exact hfirst.trans ((hf a).store δ')

instance of_read {f : Setting → Direct β} [h : Spares e F (f e)] :
    Spares e F ((MonadReader.read : Direct Setting) >>= f) :=
  ⟨fun δ => h.store δ⟩

instance {p : Prop} [Decidable p] {y : Direct α} [hx : Spares e F x] [hy : Spares e F y] :
    Spares e F (if p then x else y) := by
  split
  · exact hx
  · exact hy

instance {f : α → Direct β} [∀ a, Spares e F (f a)] (xs : List α) : Spares e F (xs.mapM f) := by
  induction xs with
  | nil => exact inferInstanceAs (Spares e F (pure []))
  | cons y ys ih =>
    rw [List.mapM_cons]
    infer_instance

theorem forM {f : α → Direct PUnit} {xs : List α} (h : ∀ a ∈ xs, Spares e F (f a)) : Spares e F (xs.forM f) := by
  induction xs with
  | nil => exact inferInstanceAs (Spares e F (pure _))
  | cons y ys ih =>
    have hone := h y (.head _)
    have hrest := ih fun a ha => h a (.tail _ ha)
    exact inferInstanceAs (Spares e F (f y >>= fun _ => ys.forM f))

instance {f : α → Direct PUnit} [hf : ∀ a, Spares e F (f a)] (xs : List α) :
    Spares e F (xs.forM f) := forM fun a _ => hf a

end Spares

/-! ## Services -/

instance (a : Act α) [ha : Act.Deeds a] : Spares e F (act a) where
  store δ := by
    have hone := ha.reaches δ.context
    unfold act
    rcases hrun : a δ.context with ⟨f | r, c⟩ <;> rw [hrun] at hone <;> exact .of_heap hone

instance (s : Service) (args : List (List UInt64)) : Spares e F (service s args) where
  store δ := by
    have hone := (Service.lawful_perform s args.flatten).reaches ⟨⟨#[], 0, 0, 0⟩, δ.context⟩
    rw [Realizes.service_apply]
    rcases hrun : Service.perform s args.flatten ⟨⟨#[], 0, 0, 0⟩, δ.context⟩ with ⟨t | rs, out⟩
      <;> rw [hrun] at hone <;>
      exact .of_heap hone

instance (s : Service) (args : List (List UInt64)) : Spares e F (tell s args) := by
  unfold tell
  infer_instance

instance (s : Bytes) : Spares e F (constStr s) := by
  unfold constStr
  split
  · infer_instance
  · refine Spares.of_read (h := ?_)
    split <;> infer_instance

instance (t : Ty) (ws : List UInt64) : Spares e F (ref t ws) := by
  unfold ref
  split <;> infer_instance

instance (t : Ty) (ws : List UInt64) : Spares e F (drop t ws) := by
  unfold drop
  split <;> infer_instance

instance (t : Ty) : Spares e F (zero t) := by
  unfold zero
  split <;> infer_instance

/-! ## Registers -/

instance (r : Reg) (b : Binding) : Spares e F (read r b) := by
  unfold read
  infer_instance

theorem spares_write {r : Reg} {b : Binding} (h : b.isGlobal → r ∈ F.globals) (hl : b.isGlobal = false → F.locals r)
    (ws : List UInt64) :
    Spares e F (write r b ws) where
  store δ := by
    show Store.Spares F δ (if b.isGlobal then { δ with globals := fun u => if u = r then ws else δ.globals u }
      else { δ with locals := fun u => if u = r then ws else δ.locals u })
    split
    · next hglobal =>
      refine ⟨fun g hg => if_neg ?_, fun _ _ => rfl, fun _ _ => rfl, fun _ _ => rfl, .inl rfl, .refl⟩
      rintro rfl
      exact hg (h hglobal)
    · next hlocal =>
      refine ⟨fun _ _ => rfl, fun u hu => if_neg ?_, fun _ _ => rfl, fun _ _ => rfl, .inl rfl, .refl⟩
      rintro rfl
      exact hu (hl (by simpa using hlocal))

instance (r : Reg) (ws : List UInt64) [h : Open e F r] : Spares e F (bind r ws) := by
  unfold bind
  split
  · infer_instance
  · next hnull =>
    split
    · infer_instance
    · refine Spares.of_read (h := ?_)
      cases hb : e.scope.binding? r with
      | none => infer_instance
      | some b =>
        have hglobal : e.scope.isGlobal r = b.isGlobal := by rw [Scope.isGlobal, hb]; rfl
        have hwrite : Spares e F (write r b ws) :=
          spares_write (fun hg => h.mem (by simpa using hnull) (hglobal.trans hg))
            (fun hl => h.free (by simpa using hnull) (by rw [hglobal, hl]; decide)) ws
        infer_instance

instance (r : Reg) : Spares e F (value r) := by
  unfold value
  split
  · infer_instance
  · split
    · infer_instance
    · refine Spares.of_read (h := ?_)
      split <;> infer_instance

instance (r : Reg) (ws : List UInt64) [Open e F r] : Spares e F (bindOwned r ws) := by
  unfold bindOwned
  infer_instance

instance (t : Ty) (d r : Nat) [Open e F ⟨d, t⟩] : Spares e F (mov t d r) := by
  unfold mov
  infer_instance

instance (r : Reg) : Spares e F (loaded r) := by
  unfold loaded
  infer_instance

/-! ## Operations -/

instance (op : ValueOp) : Spares e F (unsupported op : Direct α) := inferInstanceAs (Spares e F (stop _))

instance (b : Option Bool) : Spares e F (truth b) := by
  unfold truth
  split <;> infer_instance

instance (fn : MathFn) (args : List (List UInt64)) : Spares e F (applyMath fn args) := by
  unfold applyMath
  split
  · infer_instance
  · split <;> infer_instance

instance (op : Machine.IntOp) (x y : UInt64) : Spares e F (int op x y) := by
  unfold int
  split <;> infer_instance

instance (float : Bool) (op : Arith) (args : List (List UInt64)) : Spares e F (applyArith float op args) := by
  unfold applyArith
  split
  · infer_instance
  · infer_instance
  · infer_instance
  · split <;> infer_instance
  · split <;> infer_instance
  · infer_instance

instance (op : Bitwise) (args : List (List UInt64)) : Spares e F (applyBit op args) := by
  unfold applyBit
  split <;> infer_instance

instance (op : ValueOp) (args : List (List UInt64)) : Spares e F (applyFitting op args) := by
  unfold applyFitting
  cases op with
  | compare float c => rcases float with _ | _ <;> rcases args with _ | ⟨x, _ | ⟨y, _ | _⟩⟩ <;> infer_instance
  | arith | bit | math | service | unknown => infer_instance
  | div | pow | floatToInt | intToFloat => rcases args with _ | ⟨x, _ | ⟨y, _ | _⟩⟩ <;> infer_instance

instance (op : ValueOp) (args : List (List UInt64)) : Spares e F (apply op args) := by
  unfold apply
  split <;> infer_instance

/-! ## Iterators -/

instance (r : Reg) : Spares e F (iterKey r) := by
  unfold iterKey
  refine Spares.of_read (h := ?_)
  split <;> infer_instance

instance (r : Reg) : Spares e F (keysOf r) := by
  unfold keysOf
  infer_instance

instance (r : Reg) : Spares e F (positionOf r) := by
  unfold positionOf
  infer_instance

instance (r : Reg) : Spares e F (dropKeys r) := by
  unfold dropKeys
  infer_instance

theorem spares_setKeys {r : Reg} (h : r ∈ F.keys) (w : UInt64) : Spares e F (setKeys r w) where
  store δ := by
    refine ⟨fun _ _ => rfl, fun _ _ => rfl, fun u hu => if_neg ?_, fun _ _ => rfl, .inl rfl, .refl⟩
    rintro rfl
    exact hu h

theorem spares_setPosition {r : Reg} (h : F.positions r) (w : UInt64) : Spares e F (setPosition r w) where
  store δ := by
    refine ⟨fun _ _ => rfl, fun _ _ => rfl, fun _ _ => rfl, fun u hu => if_neg ?_, .inl rfl, .refl⟩
    rintro rfl
    exact hu h

instance (r : Reg) (what : MapService) : Spares e F (Lowering.mapService r what : Direct Service) := by
  unfold Lowering.mapService
  split <;> infer_instance

theorem spares_iterBegin {d : Reg} (h : d ∈ F.keys) (hd : F.positions d) (m : Reg) : Spares e F (iterBegin d m) := by
  have hset : ∀ w, Spares e F (setKeys d w) := spares_setKeys h
  have hmove : ∀ w, Spares e F (setPosition d w) := spares_setPosition hd
  unfold iterBegin
  infer_instance

instance (d r : Reg) [Open e F d] : Spares e F (iterHasNext d r) := by
  unfold iterHasNext
  infer_instance

theorem spares_iterGetNext {r : Reg} (h : F.positions r) (d : Reg) [Open e F d] : Spares e F (iterGetNext d r) := by
  have hmove : ∀ w, Spares e F (setPosition r w) := spares_setPosition h
  unfold iterGetNext
  infer_instance

/-! ## Printing -/

instance (o : Option Output) : Spares e F (output o) := by
  unfold output
  split <;> infer_instance

instance (t : Ty) (ws : List UInt64) : Act.Deeds (formatArg t ws) := by
  unfold formatArg
  split <;> infer_instance

instance (rs : List Reg) (wss : List (List UInt64)) : Act.Deeds (formatArgs rs wss) := by
  unfold formatArgs
  infer_instance

instance (d : Reg) (o : Option Output) (rs : List Reg) [Open e F d] : Spares e F (printAll d o rs) := by
  unfold printAll
  infer_instance

instance (d : Reg) (o : Option Output) (f : Reg) (rs : List Reg) [Open e F d] : Spares e F (printf d o f rs) := by
  unfold printf
  infer_instance

instance (d f : Reg) (rs : List Reg) [Open e F d] : Spares e F (sprintf d f rs) := by
  unfold sprintf
  infer_instance

/-! ## Control -/

theorem spares_follow {f : Flow} (h : F.flow f) : Spares e F (follow f) :=
  ⟨fun _ => ⟨fun _ _ => rfl, fun _ _ => rfl, fun _ _ => rfl, fun _ _ => rfl, .inr h, .refl⟩⟩

theorem spares_jumpIf {l : Label} (h : F.flow (.goto l)) (r : Reg) : Spares e F (jumpIf r l) := by
  have hfollow : Spares e F (follow (.goto l)) := spares_follow h
  unfold jumpIf
  infer_instance

theorem spares_call {d : Reg} {fn : Int} (h : ∀ wss, F.flow (.call d fn wss)) (rs : List Reg) :
    Spares e F (call d fn rs) := by
  have hfollow : ∀ wss, Spares e F (follow (.call d fn wss)) := fun wss => spares_follow (h wss)
  unfold call
  infer_instance

instance (d : Reg) (t : Ty) (ws : List UInt64) [Open e F d] : Spares e F (resume d t ws) := by
  unfold resume
  infer_instance

section

variable (hscope : ∀ g ∈ e.scope.globals, e.scope.isGlobal g)
  (hmain : e.scope.isMain → ∀ g ∈ e.scope.globals, g.ty.isHeap → g ∈ F.globals)

include hscope hmain

theorem spares_writeGlobal (h : e.scope.isMain) {g : Reg} (hg : g ∈ e.scope.globals) (hheap : g.ty.isHeap) {b : Binding}
    (hb : e.scope.binding? g = some b) (ws : List UInt64) : Spares e F (write g b ws) := by
  have hglobal : b.isGlobal := by
    have hflag := hscope g hg
    rwa [Scope.isGlobal, hb] at hflag
  exact spares_write (fun _ => hmain h g hg hheap) (fun hl => absurd hglobal (by simp [hl])) ws

theorem spares_results (r : Reg) : Spares e F (results r) := by
  have hglobals : Spares e F (if e.scope.isMain then e.scope.globals.forM releaseGlobal else pure ()) := by
    split
    · next h =>
      refine Spares.forM fun g hg => ?_
      unfold releaseGlobal
      split
      · next hheap =>
        refine Spares.of_read (h := ?_)
        cases hb : e.scope.binding? g with
        | none => infer_instance
        | some b =>
          have hwrite : ∀ ws, Spares e F (write g b ws) := spares_writeGlobal hscope hmain h hg hheap hb
          infer_instance
      · infer_instance
    · infer_instance
  have hrelease : Spares e F release := by
    unfold release
    refine Spares.of_read (h := ?_)
    infer_instance
  unfold results
  infer_instance

/-! ## Entering a function -/

omit hscope hmain in
theorem spares_bindParams {rs : List Reg} (h : ∀ r ∈ rs, Open e F r) (wss : List (List UInt64)) :
  Spares e F (bindParams rs wss) := by
  induction rs generalizing wss with
  | nil => exact inferInstanceAs (Spares e F (pure ()))
  | cons r rs ih =>
    cases wss with
    | nil => exact inferInstanceAs (Spares e F (pure ()))
    | cons ws wss =>
      have hone := h r (.head _)
      have hrest := ih (fun r hr => h r (.tail _ hr)) wss
      unfold bindParams
      infer_instance

omit hscope hmain in
theorem spares_enterLocals (hlocals : ∀ r, F.locals r) : Spares e F (e.scope.locals.forM fun (r, b) => do
    if r.ty.isMap && !e.scope.func.params.contains r then write r b (← zero r.ty)) := by
  refine Spares.forM ?_
  rintro ⟨r, b⟩ hb
  have hlocal : b.isGlobal = false := by simpa using (List.mem_filter.1 hb).2
  have hwrite : ∀ ws, Spares e F (write r b ws) := spares_write (by simp [hlocal]) fun _ => hlocals r
  infer_instance

theorem spares_enterGlobals : Spares e F (if e.scope.isMain then e.scope.globals.forM fun g => do
    match g.ty.isMap, e.scope.binding? g with
    | true, some b => write g b (← zero g.ty)
    | _, _ => return
  else pure ()) := by
  split
  · next h =>
    refine Spares.forM fun g hg => ?_
    split
    · next hmap hb =>
      have hheap : g.ty.isHeap := by cases hty : g.ty <;> first | rfl | simp [hty, Ty.isMap] at hmap
      have hwrite : ∀ ws, Spares e F (write g _ ws) := spares_writeGlobal hscope hmain h hg hheap hb
      infer_instance
    · infer_instance
  · infer_instance

theorem spares_enter (hlocals : ∀ r, F.locals r) (hparams : ∀ r ∈ e.scope.func.params, Open e F r)
    (wss : List (List UInt64)) :
    Spares e F (enter wss) := by
  have hbind : Spares e F (bindParams e.scope.func.params wss) := spares_bindParams hparams wss
  have hlocals := spares_enterLocals (e := e) hlocals
  have hglobals := spares_enterGlobals hscope hmain
  unfold enter
  refine Spares.of_read (h := ?_)
  infer_instance

end

end

end Direct

/-! ## Instructions -/

namespace Lowering

open Direct (Spares Open)

variable {e : Direct.Setting} {F : Direct.Footprint} {α : Type}

instance (r : Reg) (ws : List UInt64) [Open e F r] : Spares e F (Emitter.bind r ws : Direct Unit) :=
  inferInstanceAs (Spares e F (Direct.bind r ws))
instance (r : Reg) :
    Spares e F (Emitter.value r : Direct (List UInt64)) := inferInstanceAs (Spares e F (Direct.value r))
instance : Spares e F (Emitter.context : Direct (List UInt64)) := inferInstanceAs (Spares e F (pure _))
instance (n : Int64) : Spares e F (Emitter.constInt n : Direct (List UInt64)) := inferInstanceAs (Spares e F (pure _))
instance (x : Float) : Spares e F (Emitter.constFloat x : Direct (List UInt64)) := inferInstanceAs (Spares e F (pure _))
instance (t : Bytes) :
    Spares e F (Emitter.constStr t : Direct (List UInt64)) := inferInstanceAs (Spares e F (Direct.constStr t))
instance (op : ValueOp) (wss : List (List UInt64)) : Spares e F (Emitter.apply op wss : Direct (List UInt64)) :=
  inferInstanceAs (Spares e F (Direct.apply op wss))
instance (sv : Service) (wss : List (List UInt64)) : Spares e F (Emitter.perform sv wss : Direct Unit) :=
  inferInstanceAs (Spares e F (Direct.tell sv wss))
instance (r : Reg) : Spares e F (Emitter.loaded r : Direct Unit) := inferInstanceAs (Spares e F (Direct.loaded r))
instance (t : Ty) (ws : List UInt64) :
    Spares e F (Emitter.drop t ws : Direct Unit) := inferInstanceAs (Spares e F (Direct.drop t ws))

instance (err : LowerError) : Spares e F (Lowering.fail err : Direct α) := inferInstanceAs (Spares e F (throw _))

instance (sv : Service) (wss : List (List UInt64)) : Spares e F (callService sv wss : Direct (List UInt64)) := by
  unfold callService
  infer_instance

instance (sv : Service) (wss : List (List UInt64)) : Spares e F (performService sv wss : Direct Unit) := by
  unfold performService
  infer_instance

instance (r : Reg) (ws : List UInt64) [Open e F r] : Spares e F (bindOwned r ws : Direct Unit) := by
  unfold bindOwned
  infer_instance

instance (r : Reg) (sv : Service) (wss : List (List UInt64)) [Open e F r] :
    Spares e F (bindResult r sv wss : Direct Unit) := by
  unfold bindResult
  infer_instance

instance (r : Reg) (sv : Service) (rs : List Reg) [Open e F r] : Spares e F (bindService r sv rs : Direct Unit) := by
  unfold bindService
  infer_instance

instance (sv : Service) (rs : List Reg) : Spares e F (performOn sv rs : Direct Unit) := by
  unfold performOn
  infer_instance

instance (d m : Reg) (what : MapService) (rs : List Reg) [Open e F d] :
    Spares e F (bindMapService d m what rs : Direct Unit) := by
  unfold bindMapService
  infer_instance

instance (d : Reg) (op : ValueOp) (rs : List Reg) [Open e F d] : Spares e F (bindOp d op rs : Direct Unit) := by
  unfold bindOp
  infer_instance

instance (rs : List Reg) (wss : List (List UInt64)) : Spares e F (toFloats rs wss : Direct (List (List UInt64))) := by
  induction rs generalizing wss with
  | nil => exact inferInstanceAs (Spares e F (pure wss))
  | cons r rs ih =>
    cases wss with
    | nil => exact inferInstanceAs (Spares e F (pure []))
    | cons ws wss =>
      unfold toFloats
      infer_instance

instance (d : Reg) (op : ValueOp) (rs : List Reg) [Open e F d] : Spares e F (bindFloatOp d op rs : Direct Unit) := by
  unfold bindFloatOp
  infer_instance

instance (d : Reg) (op : Cmp) (l r : Reg) [Open e F d] : Spares e F (compare d op l r : Direct Unit) := by
  unfold compare
  infer_instance

instance (d r : Reg) [Open e F d] : Spares e F (convert d r : Direct Unit) := by
  have hconvert : ∀ ws, Spares e F (match r.ty, d.ty with
      | .int, .float => do Emitter.bind d (← Emitter.apply .intToFloat [ws])
      | .float, .int => do Emitter.bind d (← Emitter.apply .floatToInt [ws])
      | .int, .str => bindResult d .intToStr [ws]
      | .float, .str => bindResult d .floatToStr [ws]
      | .str, .int => bindResult d .strToInt [ws]
      | .str, .float => bindResult d .strToFloat [ws]
      | a, b => fail (.noConversion a b) : Direct Unit) := fun ws => by split <;> infer_instance
  unfold convert
  infer_instance

instance (d : Reg) (v : Variable) [Open e F d] : Spares e F (loadVar d v : Direct Unit) := by
  unfold loadVar
  infer_instance

instance (v : Variable) (r : Reg) : Spares e F (storeVar v r : Direct Unit) := by
  unfold storeVar
  infer_instance

end Lowering

/-- Where the run can go after an instruction, other than on. -/
def Instr.Leads : Instr → Direct.Flow → Prop
  | .jmp l, f | .jmpIf _ l, f => f = .goto l
  | .call dst fn _, f => ∃ wss, f = .call dst fn wss
  | .ret _, f => ∃ ws, f = .back ws
  | _, _ => False

def Instr.assigns : Instr → List Reg
  | .call .. => []
  | i => i.defs

/-- The globals that an instruction changes itself: a return of the main function gives back all strings and maps. -/
def Instr.changes (s : Scope) : Instr → List Reg
  | .ret _ => if s.isMain then s.globals.filter (·.ty.isHeap) else []
  | i => i.assigns

def Instr.moves : Instr → List Reg
  | .iterBegin d _ => [d]
  | .iterGetNext _ it => [it]
  | _ => []

def Instr.footprint (s : Scope) (i : Instr) : Direct.Footprint :=
  ⟨i.changes s, (· ∈ i.assigns), Check.begins i, (· ∈ i.moves), i.Leads⟩

theorem Direct.open_nonNull {e : Direct.Setting} {F : Direct.Footprint} {rs : List Reg} {r : Reg}
    (hF : F.globals = Instr.nonNull rs) (hL : F.locals = (· ∈ Instr.nonNull rs)) (h : r ∈ rs) : Direct.Open e F r where
  mem hnull _ := by
    rw [hF]
    exact List.mem_filter.2 ⟨h, by simp [hnull]⟩
  free hnull _ := by
    rw [hL]
    exact List.mem_filter.2 ⟨h, by simp [hnull]⟩

theorem Lowering.spares_lower {e : Direct.Setting} (hscope : ∀ g ∈ e.scope.globals, e.scope.isGlobal g) (i : Instr) :
    Direct.Spares e (i.footprint e.scope) (lower i : Direct Unit) := by
  generalize hi : i.footprint e.scope = F
  have hF : F.globals = i.changes e.scope := hi ▸ rfl
  have hL : F.locals = (· ∈ i.assigns) := hi ▸ rfl
  cases i with
  | constInt d _ | constFloat d _ | constStr d _ | compare d _ _ _ | arith d _ _ | bit d _ _ | math d _ _
  | div d _ _ | pow d _ _ | convert d _ | concat d _ _ | strLen d _ | matchPattern d _ _ | split d _ _ _
  | lookup d _ _ | contains d _ _ | len d _
  | nextLine d | getColumn d _ | loadVar d _ =>
    have hd : Direct.Open e F d := Direct.open_nonNull hF hL (.head _)
    unfold lower
    infer_instance
  | mov d _ =>
    have hd : Direct.Open e F ⟨d.id, d.ty⟩ := Direct.open_nonNull hF hL (.head _)
    exact inferInstanceAs (Direct.Spares e F (Direct.mov d.ty d.id _))
  | iterBegin d m =>
    subst hi
    exact Direct.spares_iterBegin (.head _) (List.mem_singleton_self d) m
  | iterHasNext d it =>
    have hd : Direct.Open e F d := Direct.open_nonNull hF hL (.head _)
    exact inferInstanceAs (Direct.Spares e F (Direct.iterHasNext d it))
  | iterGetNext d it =>
    have hd : Direct.Open e F d := Direct.open_nonNull hF hL (.head _)
    have hmoves : F.positions it := by
      subst hi
      exact List.mem_singleton_self it
    exact Direct.spares_iterGetNext hmoves d
  | readFileLine d status path =>
    have hd : Direct.Open e F d := Direct.open_nonNull hF hL (.head _)
    have hstatus : Direct.Open e F status := Direct.open_nonNull hF hL (.tail _ (.head _))
    unfold lower
    infer_instance
  | print out args status =>
    have hstatus : Direct.Open e F status := Direct.open_nonNull hF hL (.head _)
    exact inferInstanceAs (Direct.Spares e F (Direct.printAll status out args))
  | printf out f args status =>
    have hstatus : Direct.Open e F status := Direct.open_nonNull hF hL (.head _)
    exact inferInstanceAs (Direct.Spares e F (Direct.printf status out f args))
  | sprintf d f args =>
    have hd : Direct.Open e F d := Direct.open_nonNull hF hL (.head _)
    exact inferInstanceAs (Direct.Spares e F (Direct.sprintf d f args))
  | store m k v | delete m k | setColumn index src | storeVar v r | missing =>
    unfold lower
    infer_instance
  | label l => exact inferInstanceAs (Direct.Spares e F (pure ()))
  | jmp l =>
    subst hi
    exact Direct.spares_follow rfl
  | jmpIf cond l =>
    subst hi
    exact Direct.spares_jumpIf rfl cond
  | call dst fn args =>
    have hcall : ∀ wss, F.flow (.call dst fn wss) := fun wss => hi ▸ ⟨wss, rfl⟩
    exact Direct.spares_call hcall args
  | ret src =>
    have hmain : e.scope.isMain → ∀ g ∈ e.scope.globals, g.ty.isHeap → g ∈ F.globals := fun h g hg hheap => by
      subst hi
      simpa [Instr.footprint, Instr.changes, h] using ⟨hg, hheap⟩
    have hresults : Direct.Spares e F (Direct.results src) := Direct.spares_results hscope hmain src
    have hleads : ∀ ws, F.flow (.back ws) := fun ws => hi ▸ ⟨ws, rfl⟩
    have hback : ∀ ws, Direct.Spares e F (Direct.follow (.back ws)) := fun ws => Direct.spares_follow (hleads ws)
    show Direct.Spares e F (Direct.ret src)
    rw [Direct.ret_eq]
    infer_instance

end RecordMill

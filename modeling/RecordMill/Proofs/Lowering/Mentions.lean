import RecordMill.Proofs.Lowering.Bindings

/-!
# Registers that lowering asks for

Other than a return, an instruction is lowered the same whatever the registers are that it neither defines nor uses: it
asks for none of them. A return asks for all registers of its function, which are globals and locals. -/

namespace RecordMill

open Machine (Value Build)

def Surroundings.only (s : Surroundings) (rs : List Reg) : Surroundings :=
  { s with scope := { s.scope with
    bindings := s.scope.bindings.filter (rs.contains ·.1)
    cursors := s.scope.cursors.filter (rs.contains ·.1) } }

/-- A register that may be asked for. -/
class Reg.Among (rs : List Reg) (r : Reg) : Prop where
  mem : r.isNull ∨ r ∈ rs

theorem List.lookup_filter_of_mem {β : Type} {xs : List (Reg × β)} {rs : List Reg} {r : Reg} (hr : r ∈ rs) :
    (xs.filter (rs.contains ·.1)).lookup r = xs.lookup r := by
  induction xs with
  | nil => rfl
  | cons x xs ih =>
    obtain ⟨u, b⟩ := x
    by_cases hu : u ∈ rs
    · rw [List.filter_cons_of_pos (by simpa using hu), List.lookup_cons, List.lookup_cons, ih]
    · have hne : (r == u) = false := by simpa using fun h : r = u => hu (h ▸ hr)
      rw [List.filter_cons_of_neg (by simpa using hu), List.lookup_cons, hne, ih]

namespace Native

/-- Without the other registers, the code is the same. -/
class Asks (s : Surroundings) (rs : List Reg) {α : Type} (x : Native α) : Prop where
  same : x (s.only rs) = x s

variable {s : Surroundings} {rs : List Reg} {α β : Type} {x : Native α}

namespace Asks

instance (a : α) : Asks s rs (pure a : Native α) := ⟨rfl⟩

instance (e : Stop) : Asks s rs (throw e : Native α) := ⟨rfl⟩

instance (r : Reg) (b : BindingProblem) : Asks s rs (fail r b : Native α) := ⟨rfl⟩

instance (o : Build α) : Asks s rs (build o) := ⟨rfl⟩

instance (priority := low) bind {f : α → Native β} [hx : Asks s rs x] [hf : ∀ a, Asks s rs (f a)] :
    Asks s rs (x >>= f) where
  same := by
    funext q
    rw [bind_apply, bind_apply, hx.same]
    rcases x s q with ⟨e | a, q'⟩
    · rfl
    · exact congrFun (hf a).same q'

theorem follow {f : α → Native β} [Asks s rs x] (h : ∀ a, Asks s rs (f a)) : Asks s rs (x >>= f) := inferInstance

theorem of_read {f : Surroundings → Native β} (hf : f (s.only rs) = f s) (h : Asks s rs (f s)) :
    Asks s rs ((MonadReaderOf.read : Native Surroundings) >>= f) where
  same := by
    show f (s.only rs) (s.only rs) = f s s
    rw [hf, h.same]

theorem of_scope {f : Scope → Native β} (hf : f (s.only rs).scope = f s.scope) (h : Asks s rs (f s.scope)) :
    Asks s rs (scope >>= f) where
  same := by
    show f (s.only rs).scope (s.only rs) = f s.scope s
    rw [hf, h.same]

instance {c : Prop} [Decidable c] {y : Native α} [hx : Asks s rs x] [hy : Asks s rs y] :
    Asks s rs (if c then x else y) := by
  split
  · exact hx
  · exact hy

theorem mapM {f : β → Native α} {xs : List β} (h : ∀ a ∈ xs, Asks s rs (f a)) : Asks s rs (xs.mapM f) := by
  induction xs with
  | nil => exact inferInstanceAs (Asks s rs (pure []))
  | cons y ys ih =>
    have hone := h y (.head _)
    have hrest := ih fun a ha => h a (.tail _ ha)
    rw [List.mapM_cons]
    infer_instance

end Asks

/-! ## Services and constants -/

instance (sv : Service) (vs : List Value) : Asks s rs (service sv vs) := by
  unfold service
  refine .of_read rfl ?_
  dsimp only
  split <;> infer_instance

instance (sv : Service) (vs : List Value) : Asks s rs (ask sv vs) := by
  unfold ask
  refine .follow fun ws => ?_
  split <;> infer_instance

instance (sv : Service) (vs : List Value) : Asks s rs (tell sv vs) := by
  unfold tell
  infer_instance

instance : Asks s rs context := inferInstanceAs (Asks s rs (build _))

instance (n : Int64) : Asks s rs (constInt n) := inferInstanceAs (Asks s rs (build _))

instance (w : UInt64) : Asks s rs (constWord w) := inferInstanceAs (Asks s rs (constInt _))

instance (x : Float) : Asks s rs (constFloat x) := inferInstanceAs (Asks s rs (build _))

instance (q : Packed) : Asks s rs (packed q) := by
  unfold packed
  infer_instance

instance (t : Bytes) : Asks s rs (literalIndex t) where
  same := by
    funext q
    rw [Emits.literalIndex_apply, Emits.literalIndex_apply]

instance (t : Bytes) : Asks s rs (constStr t) := by
  unfold constStr
  split <;> infer_instance

instance (t : Ty) (v : Value) : Asks s rs (ref t v) := by
  unfold ref
  split <;> infer_instance

instance (t : Ty) (v : Value) : Asks s rs (drop t v) := by
  unfold drop
  split <;> infer_instance

/-! ## Registers -/

instance (t : Ty) (v : Value) : Asks s rs (loadFrom t v) := by
  unfold loadFrom kindOf
  cases t.kind <;> exact ⟨rfl⟩

instance (t : Ty) (b : Binding) (v : Value) : Asks s rs (bindCounted t b v) := by
  unfold bindCounted
  infer_instance

instance (b : Binding) (v : Value) : Asks s rs (bindPlain b v) := by
  unfold bindPlain
  infer_instance

theorem binding?_only {r : Reg} (h : r ∈ rs) :
    (s.only rs).scope.binding? r = s.scope.binding? r := List.lookup_filter_of_mem h

theorem cursor?_only {r : Reg} (h : r ∈ rs) :
    (s.only rs).scope.cursor? r = s.scope.cursor? r := List.lookup_filter_of_mem h

instance (r : Reg) (v : Value) [h : r.Among rs] : Asks s rs (bind r v) := by
  unfold bind
  split
  · infer_instance
  next hnull =>
  split
  · infer_instance
  refine .of_scope (by rw [binding?_only (h.mem.resolve_left hnull)]) ?_
  split <;> infer_instance

instance (r : Reg) [h : r.Among rs] : Asks s rs (value r) := by
  unfold value
  split
  · infer_instance
  next hnull =>
  split
  · infer_instance
  refine .of_scope (by rw [binding?_only (h.mem.resolve_left hnull)]) ?_
  split <;> infer_instance

theorem asks_values {args : List Reg} (h : ∀ a ∈ args, a.Among rs) : Asks s rs (args.mapM value) :=
  .mapM fun a ha => by
    have hone := h a ha
    infer_instance

instance (r : Reg) (v : Value) [r.Among rs] : Asks s rs (bindOwned r v) := by
  unfold bindOwned
  infer_instance

instance (t : Ty) (d r : Nat) [Reg.Among rs ⟨d, t⟩] [Reg.Among rs ⟨r, t⟩] : Asks s rs (mov t d r) := by
  unfold mov
  infer_instance

instance (r : Reg) [r.Among rs] : Asks s rs (loaded r) := by
  unfold loaded
  infer_instance

/-! ## Operations -/

instance (fn : MathFn) (args : List Value) : Asks s rs (applyMath fn args) := by
  unfold applyMath
  split
  · infer_instance
  · split <;> infer_instance

instance (float : Bool) (op : Arith) (args : List Value) : Asks s rs (applyArith float op args) := by
  unfold applyArith
  split
  all_goals first | infer_instance | (split <;> infer_instance)

instance (op : Bitwise) (args : List Value) : Asks s rs (applyBit op args) := by
  unfold applyBit
  split
  · infer_instance
  · split <;> infer_instance
  · infer_instance

instance (op : ValueOp) (args : List Value) : Asks s rs (applyFitting op args) := by
  unfold applyFitting
  cases op with
  | compare float c => rcases float with _ | _ <;> rcases args with _ | ⟨x, _ | ⟨y, _ | _⟩⟩ <;> infer_instance
  | arith | bit | math | service | unknown => infer_instance
  | div | pow | floatToInt | intToFloat => rcases args with _ | ⟨x, _ | ⟨y, _ | _⟩⟩ <;> infer_instance

instance (op : ValueOp) (args : List Value) : Asks s rs (apply op args) := by
  unfold apply
  split <;> infer_instance

/-! ## Iterators -/

theorem asks_cursor {r : Reg} (h : r ∈ rs) : Asks s rs (cursor r) := by
  unfold cursor
  refine .of_scope (by rw [cursor?_only h]) ?_
  split <;> infer_instance

instance (c : Cursor) : Asks s rs (dropKeys c) := by
  unfold dropKeys
  infer_instance

instance (r : Reg) (what : MapService) : Asks s rs (Lowering.mapService r what : Native Service) := by
  unfold Lowering.mapService
  split <;> infer_instance

theorem asks_iterBegin {d m : Reg} [m.Among rs] (h : d ∈ rs) : Asks s rs (iterBegin d m) := by
  have hcursor : Asks s rs (cursor d) := asks_cursor h
  unfold iterBegin
  infer_instance

theorem asks_iterHasNext {d it : Reg} [d.Among rs] (h : it ∈ rs) : Asks s rs (iterHasNext d it) := by
  have hcursor : Asks s rs (cursor it) := asks_cursor h
  unfold iterHasNext
  infer_instance

theorem asks_iterGetNext {d it : Reg} [d.Among rs] (h : it ∈ rs) : Asks s rs (iterGetNext d it) := by
  have hcursor : Asks s rs (cursor it) := asks_cursor h
  unfold iterGetNext
  infer_instance

/-! ## Printing -/

theorem asks_output {out : Option Output} (h : ∀ r ∈ Instr.outputRegs out, r.Among rs) : Asks s rs (output out) := by
  cases out with
  | none => exact inferInstanceAs (Asks s rs (build _ >>= fun _ => constStr [] >>= fun _ => pure _))
  | some o =>
    have hpath := h o.path (.head _)
    exact inferInstanceAs (Asks s rs (value o.path >>= fun _ => build _ >>= fun _ => pure _))

instance (words : Nat) : Asks s rs (argumentBlock words) := by
  unfold argumentBlock
  infer_instance

theorem asks_spillStrings {args : List Reg} (h : ∀ a ∈ args, a.Among rs) (base : Value) (off : Nat) :
    Asks s rs (spillStrings base off args) := by
  induction args generalizing off with
  | nil => exact inferInstanceAs (Asks s rs (pure ()))
  | cons a rest ih =>
    have hone := h a (.head _)
    have hrest := ih (fun a ha => h a (.tail _ ha)) (off + 16)
    unfold spillStrings
    infer_instance

theorem asks_spillArgs {args : List Reg} (h : ∀ a ∈ args, a.Among rs) (base : Value) (off : Nat) :
    Asks s rs (spillArgs base off args) := by
  induction args generalizing off with
  | nil => exact inferInstanceAs (Asks s rs (pure ()))
  | cons a rest ih =>
    have hone := h a (.head _)
    have hrest := ih (fun a ha => h a (.tail _ ha)) (off + 24)
    unfold spillArgs
    infer_instance

theorem asks_formatBlock {args : List Reg} (h : ∀ a ∈ args, a.Among rs) : Asks s rs (formatBlock args) := by
  have hspill : ∀ base, Asks s rs (spillArgs base 0 args) := fun base => asks_spillArgs h base 0
  unfold formatBlock
  infer_instance

instance (xs : List α) : Asks s rs (count xs) := by
  unfold count
  infer_instance

theorem asks_printAll {status : Reg} {out : Option Output} {args : List Reg} [status.Among rs]
    (hout : ∀ r ∈ Instr.outputRegs out, r.Among rs) (h : ∀ a ∈ args, a.Among rs) :
    Asks s rs (printAll status out args) := by
  have houtput : Asks s rs (output out) := asks_output hout
  have hspill : ∀ base, Asks s rs (spillStrings base 0 args) := fun base => asks_spillStrings h base 0
  unfold printAll
  infer_instance

theorem asks_printf {status format : Reg} {out : Option Output} {args : List Reg} [status.Among rs] [format.Among rs]
    (hout : ∀ r ∈ Instr.outputRegs out, r.Among rs) (h : ∀ a ∈ args, a.Among rs) :
    Asks s rs (printf status out format args) := by
  have houtput : Asks s rs (output out) := asks_output hout
  have hblock : Asks s rs (formatBlock args) := asks_formatBlock h
  unfold printf
  infer_instance

theorem asks_sprintf {d format : Reg} {args : List Reg} [d.Among rs] [format.Among rs] (h : ∀ a ∈ args, a.Among rs) :
    Asks s rs (sprintf d format args) := by
  have hblock : Asks s rs (formatBlock args) := asks_formatBlock h
  unfold sprintf
  infer_instance

/-! ## Control -/

instance : Asks s rs unreachable := by
  unfold unreachable
  infer_instance

instance (l : Label) : Asks s rs (label l) := by
  unfold label
  exact .of_scope rfl inferInstance

instance (l : Label) : Asks s rs (jump l) := by
  unfold jump
  exact .of_scope rfl inferInstance

instance (c : Reg) (l : Label) [c.Among rs] : Asks s rs (jumpIf c l) := by
  have hbranch : ∀ v b, Asks s rs (scope >>= fun sc => build (Build.brif v (sc.block l) b) >>= fun _ =>
      build (Build.switchTo b)) :=
    fun v b => .of_scope rfl inferInstance
  unfold jumpIf
  infer_instance

theorem asks_call {dst : Reg} {fn : Int} {args : List Reg} [dst.Among rs] (h : ∀ a ∈ args, a.Among rs) :
    Asks s rs (call dst fn args) := by
  have hvalues : Asks s rs (args.mapM value) := asks_values h
  unfold call
  refine .of_read rfl ?_
  split
  · refine .follow fun ctx => .follow fun vs => .follow fun ref => .follow fun results => ?_
    split <;> infer_instance
  · infer_instance

end Native

/-! ## Instructions -/

namespace Lowering

open Native (Asks)

variable {s : Surroundings} {rs : List Reg} {α : Type}

instance (r : Reg) (v : Value) [r.Among rs] :
    Asks s rs (Emitter.bind r v : Native Unit) := inferInstanceAs (Asks s rs (Native.bind r v))
instance (r : Reg) [r.Among rs] :
    Asks s rs (Emitter.value r : Native Value) := inferInstanceAs (Asks s rs (Native.value r))
instance : Asks s rs (Emitter.context : Native Value) := inferInstanceAs (Asks s rs Native.context)
instance (n : Int64) : Asks s rs (Emitter.constInt n : Native Value) := inferInstanceAs (Asks s rs (Native.constInt n))
instance (x : Float) :
    Asks s rs (Emitter.constFloat x : Native Value) := inferInstanceAs (Asks s rs (Native.constFloat x))
instance (t : Bytes) : Asks s rs (Emitter.constStr t : Native Value) := inferInstanceAs (Asks s rs (Native.constStr t))
instance (op : ValueOp) (vs : List Value) :
    Asks s rs (Emitter.apply op vs : Native Value) := inferInstanceAs (Asks s rs (Native.apply op vs))
instance (sv : Service) (vs : List Value) :
    Asks s rs (Emitter.perform sv vs : Native Unit) := inferInstanceAs (Asks s rs (Native.tell sv vs))
instance (r : Reg) [r.Among rs] :
    Asks s rs (Emitter.loaded r : Native Unit) := inferInstanceAs (Asks s rs (Native.loaded r))
instance (t : Ty) (v : Value) :
    Asks s rs (Emitter.drop t v : Native Unit) := inferInstanceAs (Asks s rs (Native.drop t v))

instance (e : LowerError) : Asks s rs (Lowering.fail e : Native α) := inferInstanceAs (Asks s rs (throw _))

instance (sv : Service) (vs : List Value) : Asks s rs (callService sv vs : Native Value) := by
  unfold callService
  infer_instance

instance (sv : Service) (vs : List Value) : Asks s rs (performService sv vs : Native Unit) := by
  unfold performService
  infer_instance

instance (r : Reg) (v : Value) [r.Among rs] : Asks s rs (bindOwned r v : Native Unit) := by
  unfold bindOwned
  infer_instance

instance (r : Reg) (sv : Service) (vs : List Value) [r.Among rs] : Asks s rs (bindResult r sv vs : Native Unit) := by
  unfold bindResult
  infer_instance

section

variable {args : List Reg} (h : ∀ a ∈ args, a.Among rs)

include h

theorem asks_values : Asks s rs (args.mapM Emitter.value : Native (List Value)) := Native.asks_values h

theorem asks_bindService {d : Reg} (sv : Service) [d.Among rs] : Asks s rs (bindService d sv args : Native Unit) := by
  have hvalues : Asks s rs (args.mapM Emitter.value : Native (List Value)) := asks_values h
  unfold bindService
  infer_instance

theorem asks_performOn (sv : Service) : Asks s rs (performOn sv args : Native Unit) := by
  have hvalues : Asks s rs (args.mapM Emitter.value : Native (List Value)) := asks_values h
  unfold performOn
  infer_instance

theorem asks_bindOp {d : Reg} (op : ValueOp) [d.Among rs] : Asks s rs (bindOp d op args : Native Unit) := by
  have hvalues : Asks s rs (args.mapM Emitter.value : Native (List Value)) := asks_values h
  unfold bindOp
  infer_instance

omit h in
instance (us : List Reg) (vs : List Value) : Asks s rs (toFloats us vs : Native (List Value)) := by
  induction us generalizing vs with
  | nil => exact inferInstanceAs (Asks s rs (pure vs))
  | cons u us ih =>
    cases vs with
    | nil => exact inferInstanceAs (Asks s rs (pure []))
    | cons v vs =>
      unfold toFloats
      infer_instance

theorem asks_bindFloatOp {d : Reg} (op : ValueOp) [d.Among rs] : Asks s rs (bindFloatOp d op args : Native Unit) := by
  have hvalues : Asks s rs (args.mapM Emitter.value : Native (List Value)) := asks_values h
  unfold bindFloatOp
  infer_instance

end

instance (d : Reg) (op : Cmp) (l r : Reg) [d.Among rs] [hl : l.Among rs] [hr : r.Among rs] :
    Asks s rs (compare d op l r : Native Unit) := by
  have hargs : ∀ a ∈ [l, r], a.Among rs := by simp [hl, hr]
  have hvalues : Asks s rs ([l, r].mapM Emitter.value : Native (List Value)) := asks_values hargs
  have hop := asks_bindOp (s := s) hargs (d := d) (.compare (l.ty = .float) op)
  unfold compare
  infer_instance

instance (d r : Reg) [d.Among rs] [r.Among rs] : Asks s rs (convert d r : Native Unit) := by
  unfold convert
  refine .follow fun v => ?_
  split
  · infer_instance
  · split <;> infer_instance

instance (d : Reg) (v : Variable) [d.Among rs] : Asks s rs (loadVar d v : Native Unit) := by
  unfold loadVar
  infer_instance

instance (v : Variable) (r : Reg) [r.Among rs] : Asks s rs (storeVar v r : Native Unit) := by
  unfold storeVar
  infer_instance

end Lowering

theorem Reg.Among.of_mem {us : List Reg} {r : Reg} (hr : r ∈ us) : r.Among (Instr.nonNull us) where
  mem := by
    cases hnull : r.isNull with
    | true => exact .inl rfl
    | false => exact .inr (List.mem_filter.2 ⟨hr, by simp [hnull]⟩)

theorem Instr.among {i : Instr} {us : List Reg} (h : i.defs = nonNull us ∨ i.uses = nonNull us) {r : Reg}
    (hr : r ∈ us) :
    r.Among (i.defs ++ i.uses) where
  mem := by
    rcases (Reg.Among.of_mem hr).mem with hnull | hmem
    · exact .inl hnull
    · refine .inr (List.mem_append.2 ?_)
      rcases h with h | h <;> rw [h]
      · exact .inl hmem
      · exact .inr hmem

theorem Reg.Among.mem_of_iter {rs : List Reg} {r : Reg} (h : r.Among rs) {k : Key} (hty : r.ty = .iter k) : r ∈ rs :=
  h.mem.resolve_left (by simp [Reg.isNull, hty])

theorem Lowering.asks_lower {s : Surroundings} {i : Instr} (h : i.Typed s.program s.scope.func.ret)
    (hret : ∀ src, i ≠ .ret src) :
    Native.Asks s (i.defs ++ i.uses) (lower i : Native Unit) := by
  generalize hrs : i.defs ++ i.uses = rs
  have hdef : ∀ us : List Reg, i.defs = Instr.nonNull us → ∀ r ∈ us, r.Among rs :=
    fun us h r hr => hrs ▸ Instr.among (.inl h) hr
  have huse : ∀ us : List Reg, i.uses = Instr.nonNull us → ∀ r ∈ us, r.Among rs :=
    fun us h r hr => hrs ▸ Instr.among (.inr h) hr
  cases i with
  | ret src => exact absurd rfl (hret src)
  | constInt d _ | constFloat d _ | constStr d _ | nextLine d | loadVar d _ =>
    have hd := hdef [d] rfl d (.head _)
    unfold lower
    infer_instance
  | mov d r =>
    have hd : Reg.Among rs ⟨d.id, d.ty⟩ := hdef [d] rfl d (.head _)
    have hr := huse [r] rfl r (.head _)
    have hsrc : Reg.Among rs ⟨r.id, d.ty⟩ := by rw [← h.1]; exact hr
    exact inferInstanceAs (Native.Asks s rs (Native.mov d.ty d.id r.id))
  | compare d _ l r =>
    have hd := hdef [d] rfl d (.head _)
    have hl := huse [l, r] rfl l (.head _)
    have hr := huse [l, r] rfl r (.tail _ (.head _))
    unfold lower
    infer_instance
  | arith d op args | bit d op args | math d fn args =>
    have hd := hdef [d] rfl d (.head _)
    exact asks_bindOp (huse args rfl) _
  | div d l r | pow d l r =>
    have hd := hdef [d] rfl d (.head _)
    exact asks_bindFloatOp (huse [l, r] rfl) _
  | convert d r =>
    have hd := hdef [d] rfl d (.head _)
    have hr := huse [r] rfl r (.head _)
    exact inferInstanceAs (Native.Asks s rs (convert d r))
  | concat d l r | matchPattern d l r =>
    have hd := hdef [d] rfl d (.head _)
    exact asks_bindService (huse [l, r] rfl) _
  | strLen d r | getColumn d r =>
    have hd := hdef [d] rfl d (.head _)
    exact asks_bindService (huse [r] rfl) _
  | split d r m pat =>
    have hd := hdef [d] rfl d (.head _)
    exact asks_bindService (huse [r, m, pat] rfl) _
  | lookup d m k | contains d m k =>
    have hd := hdef [d] rfl d (.head _)
    have hbind := fun sv => asks_bindService (s := s) (d := d) (huse [m, k] rfl) sv
    unfold lower bindMapService
    infer_instance
  | len d m =>
    have hd := hdef [d] rfl d (.head _)
    have hbind := fun sv => asks_bindService (s := s) (d := d) (huse [m] rfl) sv
    unfold lower bindMapService
    infer_instance
  | store m k v =>
    have hvalues := asks_values (s := s) (huse [m, k, v] rfl)
    unfold lower
    infer_instance
  | delete m k =>
    have hvalues := asks_values (s := s) (huse [m, k] rfl)
    unfold lower
    infer_instance
  | setColumn n r => exact asks_performOn (huse [n, r] rfl) _
  | readFileLine d status path =>
    have hd := hdef [d, status] rfl d (.head _)
    have hstatus := hdef [d, status] rfl status (.tail _ (.head _))
    have hbind := asks_bindService (s := s) (d := d) (huse [path] rfl) .readFileLine
    unfold lower
    infer_instance
  | storeVar v r =>
    have hr := huse [r] rfl r (.head _)
    exact inferInstanceAs (Native.Asks s rs (storeVar v r))
  | iterBegin d m =>
    obtain ⟨k, v, -, hd⟩ := h
    have hm := huse [m] rfl m (.head _)
    exact Native.asks_iterBegin ((hdef [d] rfl d (.head _)).mem_of_iter hd)
  | iterHasNext d it =>
    obtain ⟨-, k, hit⟩ := h
    have hd := hdef [d] rfl d (.head _)
    exact Native.asks_iterHasNext ((huse [it] rfl it (.head _)).mem_of_iter hit)
  | iterGetNext d it =>
    obtain ⟨k, hit, -⟩ := h
    have hd := hdef [d] rfl d (.head _)
    exact Native.asks_iterGetNext ((huse [it] rfl it (.head _)).mem_of_iter hit)
  | print out args status =>
    have hstatus := hdef [status] rfl status (.head _)
    have hargs := huse (Instr.outputRegs out ++ args) rfl
    exact Native.asks_printAll (fun r hr => hargs r (List.mem_append_left _ hr)) fun r hr =>
      hargs r (List.mem_append_right _ hr)
  | printf out f args status =>
    have hstatus := hdef [status] rfl status (.head _)
    have hargs := huse (Instr.outputRegs out ++ f :: args) rfl
    have hf := hargs f (List.mem_append_right _ (.head _))
    exact Native.asks_printf (fun r hr => hargs r (List.mem_append_left _ hr)) fun r hr =>
      hargs r (List.mem_append_right _ (.tail _ hr))
  | sprintf d f args =>
    have hd := hdef [d] rfl d (.head _)
    have hargs := huse (f :: args) rfl
    have hf := hargs f (.head _)
    exact Native.asks_sprintf fun r hr => hargs r (.tail _ hr)
  | label l => exact inferInstanceAs (Native.Asks s rs (Native.label l))
  | jmp l => exact inferInstanceAs (Native.Asks s rs (Native.jump l))
  | jmpIf c l =>
    have hc := huse [c] rfl c (.head _)
    exact inferInstanceAs (Native.Asks s rs (Native.jumpIf c l))
  | call d fn args =>
    have hd := hdef [d] rfl d (.head _)
    exact Native.asks_call (huse args rfl)
  | missing => exact inferInstanceAs (Native.Asks s rs (fail .missingInstr))

theorem Scope.mem_of_binding {p : Program} {f : Func} {isMain : Bool} {r : Reg} {b : Binding}
    (h : (ofFunc p f isMain).binding? r = some b) :
    r ∈ p.globals ∨ r ∈ f.locals p.globals := by
  rcases binding_cases (mem_of_lookup h) with ⟨i, hi, -⟩ | hlocal
  · exact .inl (List.mem_of_getElem? hi)
  · have hkey := List.mem_map_of_mem (f := (·.1)) hlocal
    rw [keys_bindings_bindLocals] at hkey
    exact .inr (List.mem_filter.1 hkey).1

theorem Scope.mem_of_cursor {p : Program} {f : Func} {isMain : Bool} {r : Reg} {c : Cursor}
    (h : (ofFunc p f isMain).cursor? r = some c) :
    r ∈ f.locals p.globals := by
  have hkey : r ∈ (bindLocals f (p.globals.length + 1) (f.locals p.globals)).2.map (·.1) :=
    List.mem_map_of_mem (f := (·.1)) (mem_of_lookup h)
  rw [keys_cursors_bindLocals] at hkey
  exact (List.mem_filter.1 hkey).1

/-- The registers that lowering an instruction asks for. -/
structure Surroundings.Names (s : Surroundings) (i : Instr) : Prop where
  /-- Other than a return, it asks for those that it defines or uses only. -/
  asks : (∀ src, i ≠ .ret src) → (Lowering.lower i : Native Unit) (s.only (i.defs ++ i.uses))
    = (Lowering.lower i : Native Unit) s
  named : ∀ r ∈ i.defs ++ i.uses, r ∈ s.program.globals ∨ r ∈ s.scope.func.locals s.program.globals
  /-- No others can be had, at a return either. -/
  registers : ∀ r b, s.scope.binding? r = some b → r ∈ s.program.globals ∨ r ∈ s.scope.func.locals s.program.globals
  iterators : ∀ r c, s.scope.cursor? r = some c → r ∈ s.scope.func.locals s.program.globals

theorem Instr.ty_ne_null {i : Instr} {r : Reg} (h : r ∈ i.defs ++ i.uses) : r.ty ≠ .null := by
  have hnull : r.isNull = false := by
    cases i <;> simp_all [defs, uses, nonNull] <;> grind
  simpa [Reg.isNull] using hnull

theorem Surroundings.names {s : Surroundings} {i : Instr} (hi : i ∈ s.scope.func.body)
    (hty : i.Typed s.program s.scope.func.ret) (hscope : s.scope = .ofFunc s.program s.scope.func s.scope.isMain) :
    s.Names i where
  asks hret := (Lowering.asks_lower hty hret).same
  named r hr := by
    by_cases hg : r ∈ s.program.globals
    · exact .inl hg
    · exact .inr (Scope.mem_locals.2 ⟨List.mem_append_right _ (List.mem_flatMap.2 ⟨i, hi, hr⟩),
        Instr.ty_ne_null hr, hg⟩)
  registers r b hb := by
    rw [hscope] at hb
    exact Scope.mem_of_binding hb
  iterators r c hc := by
    rw [hscope] at hc
    exact Scope.mem_of_cursor hc

end RecordMill

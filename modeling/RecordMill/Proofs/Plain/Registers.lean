import Mathlib.Data.List.Forall2
import RecordMill.Proofs.Lowering.Bindings
import RecordMill.Proofs.Lowering.Realizes
import RecordMill.Proofs.Plain.Contexts

/-!
# Registers on plain values

The store of the direct run reflects a state of the plain one when its context does, with the registers
among the items that own handles. Reading, binding, counting and whatever else registers take part in
keeps that.
-/

namespace RecordMill

open Plain (Val Table)

def Item.ofLocal (locals : Reg → List UInt64) (keys position : Reg → UInt64) (regs : Reg → Val)
    (cursors : Reg → Option Plain.Cursor) (r : Reg) : Item :=
  match r.ty with
  | .iter k => .iter k (cursors r) (keys r) (position r)
  | ty => .reg ty (regs r) (locals r)

def Item.ofGlobal (globals : Reg → List UInt64) (vals : Reg → Val) (g : Reg) : Item := .reg g.ty (vals g) (globals g)

theorem Item.ofLocal_of_not_iter {r : Reg} (hr : r.ty.isIter = false) {locals : Reg → List UInt64}
    {keys position : Reg → UInt64} {regs : Reg → Val} {cursors : Reg → Option Plain.Cursor} :
    Item.ofLocal locals keys position regs cursors r = .reg r.ty (regs r) (locals r) := by
  unfold Item.ofLocal
  split
  · next h => simp [h, Ty.isIter] at hr
  · rfl

def Instr.output? : Instr → Option Output
  | .print out _ _ | .printf out _ _ _ => out
  | _ => none

theorem Scope.isLiteral_bindLocals {f : Func} {n : Machine.VarId} {rs : List Reg} {r : Reg} {b : Binding}
    (h : (r, b) ∈ (Scope.bindLocals f n rs).1) : b.isLiteral = f.holdsLiterals r := by
  induction rs generalizing n with
  | nil => cases h
  | cons x rs ih =>
    rw [Scope.bindLocals] at h
    split at h
    · exact ih h
    · rcases List.mem_cons.1 h with e | h
      · cases e
        rfl
      · exact ih h

namespace Direct

/-- The registers that have their values, and the items of other places. -/
structure Holdings where
  locals : List Reg
  globals : List Reg
  others : List Item

def localItem (δ : Store) (σ : Plain.State) : Reg → Item :=
  .ofLocal δ.locals δ.keys δ.position σ.frame.regs σ.frame.cursors

namespace Holdings

variable (H : Holdings)

def items (δ : Store) (σ : Plain.State) : List Item :=
  .null :: (H.locals.map (localItem δ σ) ++ (H.globals.map (.ofGlobal δ.globals σ.store.globals) ++ H.others))

/-- So few that a number of new items find a handle. -/
def Few : Prop := H.locals.length + H.globals.length + H.others.length + 32 ≤ Heap.maxOwners

/-- The registers are registers of the function, each of them once. -/
structure Within (e : Setting) : Prop where
  locals : ∀ r ∈ H.locals, r ∈ e.scope.func.locals e.program.globals
  globals : ∀ g ∈ H.globals, g ∈ e.program.globals
  nodup : H.locals.Nodup ∧ H.globals.Nodup

/-- A register that can be read and bound. -/
inductive Has (r : Reg) : Prop
  | null : r.ty = .null → Has r
  | local : r ∈ H.locals → r.ty.isIter = false → Has r
  | global : r ∈ H.globals → Has r

end Holdings

/-- A function of a program that passes the check, with the literals of the program. -/
structure Setting.Fit (e : Setting) : Prop where
  checked : e.program.check = []
  func : e.scope.func ∈ e.program.funcs
  scope : e.scope = .ofFunc e.program e.scope.func e.scope.isMain
  globals : e.program.globals.Nodup
  params : ∀ r ∈ e.scope.func.params, r ∉ e.program.globals
  valid : ∀ i ∈ e.scope.func.body, ∀ r ∈ i.regs, r.ty.isValid
  vars : ∀ i ∈ e.scope.func.body, ∀ v, i.var? = some v → v ∈ Variable.builtIn
  modes : ∀ i ∈ e.scope.func.body, ∀ o, i.output? = some o → o.mode.code < 256
  /-- A long literal is in the table, and its words have room for its length and its place there. -/
  literals : ∀ d s, .constStr d s ∈ e.scope.func.body → Packed.maxInline < s.length →
    s ∈ e.literals ∧ s.length < 2 ^ 56 ∧ e.literals.length < 2 ^ 64
  known : ∀ i ∈ e.scope.func.body, i.unknown? = none

/-- The store holds what the registers of the plain state have; the items `held` are on their way. -/
structure Reflects (e : Setting) (H : Holdings) (held : List Item) (δ : Store) (σ : Plain.State) : Prop where
  context : δ.context.Reflects e.literals.toArray σ.store (held ++ H.items δ σ)
  literal : ∀ r ∈ H.locals, e.scope.func.holdsLiterals r → (localItem δ σ r).handle = 0
  flow : δ.flow = .on

/-- A step that gives `a` and leaves a store that reflects `σ`. -/
def Gives {α : Type} (x : Direct α) (e : Setting) (δ : Store) (a : α) (H : Holdings) (held : List Item)
    (σ : Plain.State) : Prop :=
  ∃ δ', x e δ = (.ok a, δ') ∧ Reflects e H held δ' σ

section

variable {α β : Type} {e : Setting} {H : Holdings} {held held' : List Item} {δ δ' : Store} {σ σ' : Plain.State}
  {x : Direct α}
  {f : α → Direct β} {a : α} {b : β}

theorem bind_ok (h : x e δ = (.ok a, δ')) : (x >>= f) e δ = f a e δ' := by
  rw [Direct.bind_apply, h]

theorem bind_trap {t : Machine.Trap} (h : x e δ = (.error (.trap t), δ')) : (x >>= f) e δ = (.error (.trap t), δ') := by
  rw [Direct.bind_apply, h]

theorem Gives.bind (h : Gives x e δ a H held σ) (hf : ∀ δ', Reflects e H held δ' σ → Gives (f a) e δ' b H held' σ') :
    Gives (x >>= f) e δ b H held' σ' := by
  obtain ⟨δ₁, hx, h₁⟩ := h
  obtain ⟨δ₂, hfa, h₂⟩ := hf δ₁ h₁
  exact ⟨δ₂, (bind_ok hx).trans hfa, h₂⟩

theorem Gives.after (hx : x e δ = (.ok a, δ)) (hf : Gives (f a) e δ b H held σ) : Gives (x >>= f) e δ b H held σ := by
  obtain ⟨δ', hfa, h'⟩ := hf
  exact ⟨δ', (bind_ok hx).trans hfa, h'⟩

end

/-! ## The scope -/

namespace Setting.Fit

variable {e : Setting} (hf : e.Fit) {r : Reg}

include hf

theorem passes : Check.func e.program e.scope.func = [] := (Check.check_eq_nil.1 hf.checked).2.2 _ hf.func

theorem typed {i : Instr} (hi : i ∈ e.scope.func.body) : i.Typed e.program e.scope.func.ret :=
  (Check.body_eq_nil.1 (Check.func_eq_nil.1 hf.passes).2.2.2.1).1 i hi

theorem binding_local (hr : r ∈ e.scope.func.locals e.program.globals) (hi : r.ty.isIter = false) :
    ∃ b, e.scope.binding? r = some b ∧ b.isGlobal = false ∧ b.isLiteral = e.scope.func.holdsLiterals r := by
  rw [hf.scope]
  obtain ⟨b, hb⟩ := Option.isSome_iff_exists.1
    (show ((Scope.ofFunc e.program e.scope.func e.scope.isMain).binding? r).isSome from Scope.binding_isSome hr hi)
  refine ⟨b, hb, ?_⟩
  rcases Scope.binding_cases (mem_of_lookup hb) with ⟨i, hg, -⟩ | hlocal
  · exact absurd (List.mem_of_getElem? hg) (Scope.mem_locals.1 hr).2.2
  · exact ⟨(Scope.binding_place hlocal).1, Scope.isLiteral_bindLocals hlocal⟩

theorem binding_global (hr : r ∈ e.program.globals) :
    ∃ b, e.scope.binding? r = some b ∧ b.isGlobal = true ∧ b.isLiteral = false := by
  obtain ⟨i, hi⟩ := List.mem_iff_getElem?.1 hr
  rw [hf.scope]
  exact ⟨_, lookup_of_mem (Scope.nodup_keys hf.globals) (Scope.global_mem_bindings hi), rfl, rfl⟩

theorem storable_global (hr : r ∈ e.program.globals) : r.ty.Storable := (Check.check_eq_nil.1 hf.checked).2.1 r hr

theorem storable_param (hr : r ∈ e.scope.func.params) : r.ty.Storable := (Check.func_eq_nil.1 hf.passes).1 r hr

end Setting.Fit

/-! ## Services -/

section

variable {e : Setting} {δ : Store} {L : Array Bytes} {s s' : Plain.Store} {items items' : List Item}

theorem service_of_act {sv : Service} {w : List (List UInt64)} {x : Act (List UInt64)} {ws : List UInt64} {c : Context}
    (hperform : Service.perform sv w.flatten = Service.lift x) (hact : x δ.context = (.ok ws, c)) :
    service sv w e δ = (.ok ws, { δ with context := c }) := by
  have hrun : (Service.perform sv w.flatten).run.run ⟨⟨#[], 0, 0, 0⟩, δ.context⟩ = (.ok ws, ⟨⟨#[], 0, 0, 0⟩, c⟩) := by
    rw [hperform]
    show Service.lift x ⟨_, _⟩ = _
    simp only [Service.lift, hact]
  simp only [service, hrun]

theorem service_of_fault {sv : Service} {w : List (List UInt64)} {x : Act (List UInt64)} {f : Fault} {c : Context}
    (hperform : Service.perform sv w.flatten = Service.lift x) (hact : x δ.context = (.error f, c)) :
    service sv w e δ = (.error (.trap (Service.trapOf f)), { δ with context := c }) := by
  have hrun : (Service.perform sv w.flatten).run.run ⟨⟨#[], 0, 0, 0⟩, δ.context⟩
      = (.error (Service.trapOf f), ⟨⟨#[], 0, 0, 0⟩, c⟩) := by
    rw [hperform]
    show Service.lift x ⟨_, _⟩ = _
    simp only [Service.lift, hact]
  simp only [service, hrun]

theorem tell_of_act {sv : Service} {w : List (List UInt64)} {x : Act Unit} {c : Context}
    (hperform : Service.perform sv w.flatten = Service.lift do x; return []) (hact : x δ.context = (.ok (), c)) :
    tell sv w e δ = (.ok (), { δ with context := c }) :=
  (bind_ok (service_of_act hperform ((Act.bind_ok hact).trans rfl))).trans rfl

theorem ref_ok {ty : Ty} {v : Val} {ws : List UInt64} (h : δ.context.Reflects L s items) (hx : .reg ty v ws ∈ items) :
    ∃ c, ref ty ws e δ = (.ok (), { δ with context := c }) ∧ c.Reflects L s (.reg ty v ws :: items) := by
  have hfree : ty.isHeap = false → ref ty ws e δ = (.ok (), δ) →
      ∃ c, ref ty ws e δ = (.ok (), { δ with context := c }) ∧ c.Reflects L s (.reg ty v ws :: items) := fun hty href =>
    ⟨δ.context, href, .of_front h.records (h.backs.again (Context.Reflects.mem hx) (Item.handle_reg hty v ws))⟩
  cases ty with
  | str =>
    obtain ⟨a, p, rfl, rfl⟩ := h.backs.str (Context.Reflects.mem hx)
    obtain ⟨c, href, h'⟩ := h.ref hx
    exact ⟨c, tell_of_act (w := [contextWord, [p.lo, p.hi]]) rfl href, h'⟩
  | map k w =>
    obtain ⟨r, a, rfl, rfl⟩ := h.backs.map (Context.Reflects.mem hx)
    obtain ⟨c, href, h'⟩ := h.ref hx
    exact ⟨c, tell_of_act (w := [contextWord, [a]]) rfl href, h'⟩
  | null => exact hfree rfl rfl
  | int => exact hfree rfl rfl
  | float => exact hfree rfl rfl
  | iter k => exact hfree rfl rfl
  | other n => exact hfree rfl rfl

theorem drop_ok {ty : Ty} {v : Val} {ws : List UInt64} (h : δ.context.Reflects L s (.reg ty v ws :: items)) :
    ∃ c, drop ty ws e δ = (.ok (), { δ with context := c }) ∧ c.Reflects L s items := by
  have hfree : ty.isHeap = false → drop ty ws e δ = (.ok (), δ) →
      ∃ c, drop ty ws e δ = (.ok (), { δ with context := c }) ∧ c.Reflects L s items := fun hty hdrop =>
    ⟨δ.context, hdrop, h.uncons (Item.handle_reg hty v ws)⟩
  have hx := Context.Reflects.mem (c := δ.context) (s := s) (List.mem_cons_self (a := Item.reg ty v ws) (l := items))
  cases ty with
  | str =>
    obtain ⟨a, p, rfl, rfl⟩ := h.backs.str hx
    obtain ⟨c, hdrop, h'⟩ := h.drop
    exact ⟨c, tell_of_act (w := [contextWord, [p.lo, p.hi]]) rfl hdrop, h'⟩
  | map k w =>
    obtain ⟨r, a, rfl, rfl⟩ := h.backs.map hx
    obtain ⟨c, hdrop, h'⟩ := h.drop
    exact ⟨c, tell_of_act (w := [contextWord, [a]]) rfl hdrop, h'⟩
  | null => exact hfree rfl rfl
  | int => exact hfree rfl rfl
  | float => exact hfree rfl rfl
  | iter k => exact hfree rfl rfl
  | other n => exact hfree rfl rfl

end

/-! ## Reading and binding -/

section

variable {e : Setting} {r : Reg} {b : Binding} {ws : List UInt64} {δ : Store}

theorem value_null (hn : r.isNull = true) : value r e δ = (.ok [0], δ) := by
  unfold value
  rw [if_pos hn]
  rfl

theorem value_apply (hn : r.isNull = false) (hi : r.ty.isIter = false) (hb : e.scope.binding? r = some b) :
    value r e δ = (.ok (if b.isGlobal then δ.globals r else δ.locals r), δ) := by
  unfold value
  rw [if_neg (by simp [hn]), if_neg (by simp [hi])]
  have hread : (MonadReader.read : Direct Setting) e δ = (.ok e, δ) := rfl
  rw [bind_ok hread, hb]
  rfl

def Store.put (δ : Store) (r : Reg) (b : Binding) (ws : List UInt64) : Store :=
  if b.isGlobal then { δ with globals := fun u => if u = r then ws else δ.globals u }
  else { δ with locals := fun u => if u = r then ws else δ.locals u }

section

variable (δ r b ws) (c : Context)

@[simp] theorem Store.put_context : (δ.put r b ws).context = δ.context := by unfold put; split <;> rfl

@[simp] theorem Store.put_flow : (δ.put r b ws).flow = δ.flow := by unfold put; split <;> rfl

@[simp] theorem Holdings.items_context (H : Holdings) (σ : Plain.State) :
    H.items { δ with context := c } σ = H.items δ σ := rfl

@[simp] theorem Store.put_read : (if b.isGlobal then (δ.put r b ws).globals r else (δ.put r b ws).locals r) = ws := by
  unfold put
  split <;> simp

variable {r} in
theorem Store.put_locals {u : Reg} (hu : u ≠ r) : (δ.put r b ws).locals u = δ.locals u := by
  unfold put
  split
  · rfl
  · exact if_neg hu

theorem Store.put_with_context : ({ δ with context := c } : Store).put r b ws = { δ.put r b ws with context := c } := by
  unfold put
  split <;> rfl

end

theorem bind_null (hn : r.isNull = true) : Direct.bind r ws e δ = (.ok (), δ) := by
  unfold Direct.bind
  rw [if_pos hn]
  rfl

theorem bind_apply' (hn : r.isNull = false) (hi : r.ty.isIter = false) (hb : e.scope.binding? r = some b) :
    Direct.bind r ws e δ = (do
      if r.ty.isHeap && !b.isLiteral then
        ref r.ty ws
        drop r.ty (← read r b)
      write r b ws : Direct Unit) e δ := by
  unfold Direct.bind
  rw [if_neg (by simp [hn]), if_neg (by simp [hi])]
  have hread : (MonadReader.read : Direct Setting) e δ = (.ok e, δ) := rfl
  rw [bind_ok hread, hb]

theorem write_apply : write r b ws e δ = (.ok (), δ.put r b ws) := rfl

theorem read_apply : read r b e δ = (.ok (if b.isGlobal then δ.globals r else δ.locals r), δ) := rfl

end

def Holdings.Reads (H : Holdings) (e : Setting) (δ : Store) (σ : Plain.State) (rs : List Reg)
    (wss : List (List UInt64)) : Prop :=
  List.Forall₂ (fun r ws => .reg r.ty (σ.get e.program r) ws ∈ H.items δ σ) rs wss

structure Holdings.At (H : Holdings) (e : Setting) (δ : Store) (σ : Plain.State) (r : Reg) (b : Binding) : Prop where
  some : r.isNull = false ∧ r.ty.isIter = false
  binding : e.scope.binding? r = .some b
  /-- A new value takes the place of the old one, and nothing else changes. -/
  swap : ∀ v ws, Item.Swap (.reg r.ty (σ.get e.program r) (if b.isGlobal then δ.globals r else δ.locals r))
    (.reg r.ty v ws) (H.items δ σ) (H.items (δ.put r b ws) (σ.set e.program r v))
  same : ∀ v ws u, localItem (δ.put r b ws) (σ.set e.program r v) u = localItem δ σ u
    ∨ u = r ∧ localItem (δ.put r b ws) (σ.set e.program r v) u = .reg r.ty v ws
  literal : b.isLiteral → e.scope.func.holdsLiterals r ∧ r ∈ H.locals
    ∧ localItem δ σ r = .reg r.ty (σ.get e.program r) (if b.isGlobal then δ.globals r else δ.locals r)

section

variable {e : Setting} {H : Holdings} {held : List Item} {δ : Store} {σ : Plain.State} {r : Reg}

theorem isNull_eq_true {r : Reg} : r.isNull = true ↔ r.ty = .null := by simp [Reg.isNull]

theorem isNull_eq_false {r : Reg} : r.isNull = false ↔ r.ty ≠ .null := by simp [Reg.isNull]

namespace Holdings.Within

variable (hf : e.Fit) (hH : H.Within e)

include hf hH

theorem at_local (hr : r ∈ H.locals) (hi : r.ty.isIter = false) : ∃ b, b.isGlobal = false ∧ H.At e δ σ r b := by
  have hmem := hH.locals r hr
  obtain ⟨-, hnull, hnot⟩ := Scope.mem_locals.1 hmem
  have hn : r.isNull = false := isNull_eq_false.2 hnull
  have hc : e.program.globals.contains r = false := by simpa using hnot
  obtain ⟨b, hb, hlocal, hliteral⟩ := hf.binding_local hmem hi
  have hget : σ.get e.program r = σ.frame.regs r := by simp only [Plain.State.get, hn, hc, Bool.false_eq_true, if_false]
  have hset : ∀ v, σ.set e.program r v
      = { σ with frame := { σ.frame with regs := fun u => if u = r then v else σ.frame.regs u } } := fun v => by
    simp only [Plain.State.set, hn, hc, Bool.false_eq_true, if_false]
  have hput : ∀ ws, δ.put r b ws = { δ with locals := fun u => if u = r then ws else δ.locals u } := fun ws => by
    simp only [Store.put, hlocal, Bool.false_eq_true, if_false]
  refine ⟨b, hlocal, ⟨hn, hi⟩, hb, fun v ws => ?_, fun v ws u => ?_, fun hl => ⟨hliteral ▸ hl, hr, ?_⟩⟩
  · rw [hget, hset, hput]
    have hswap := Item.Swap.map (f := .ofLocal δ.locals δ.keys δ.position σ.frame.regs σ.frame.cursors)
      (g := .ofLocal (fun u => if u = r then ws else δ.locals u) δ.keys δ.position
        (fun u => if u = r then v else σ.frame.regs u)
        σ.frame.cursors) hr hH.nodup.1 fun u _ hu => by simp only [Item.ofLocal, if_neg hu]
    rw [Item.ofLocal_of_not_iter hi, Item.ofLocal_of_not_iter hi, if_pos rfl, if_pos rfl] at hswap
    simp only [hlocal, Bool.false_eq_true, if_false]
    exact (hswap.append_right (H.globals.map (.ofGlobal δ.globals σ.store.globals) ++ H.others)).append_left [.null]
  · rw [hset, hput, localItem, localItem]
    by_cases hu : u = r
    · subst hu
      refine .inr ⟨rfl, ?_⟩
      rw [Item.ofLocal_of_not_iter hi]
      simp only [if_true]
    · exact .inl (by simp only [Item.ofLocal, if_neg hu])
  · rw [hget, localItem, Item.ofLocal_of_not_iter hi, hlocal]
    rfl

theorem at_global (hr : r ∈ H.globals) : ∃ b, b.isGlobal = true ∧ H.At e δ σ r b := by
  have hmem := hH.globals r hr
  obtain ⟨-, hnull, hiter⟩ := hf.storable_global hmem
  have hn : r.isNull = false := isNull_eq_false.2 hnull
  have hi : r.ty.isIter = false := by
    cases hty : r.ty with
    | iter k => exact absurd hty (hiter k)
    | _ => rfl
  have hc : e.program.globals.contains r = true := by simpa using hmem
  obtain ⟨b, hb, hglobal, hliteral⟩ := hf.binding_global hmem
  have hset : ∀ v, σ.set e.program r v
      = { σ with store := { σ.store with globals := fun u => if u = r then v else σ.store.globals u } } := fun v => by
    simp only [Plain.State.set, hn, hc, Bool.false_eq_true, if_false, if_true]
  have hput : ∀ ws, δ.put r b ws = { δ with globals := fun u => if u = r then ws else δ.globals u } := fun ws => by
    simp only [Store.put, hglobal, if_true]
  refine ⟨b, hglobal, ⟨hn, hi⟩, hb, fun v ws => ?_, fun v ws u => .inl (by rw [hset, hput]; rfl),
    fun hl => by simp [hliteral] at hl⟩
  have hget : σ.get e.program r = σ.store.globals r := by
    simp only [Plain.State.get, hn, hc, Bool.false_eq_true, if_false, if_true]
  rw [hget, hset, hput]
  have hswap := Item.Swap.map (f := .ofGlobal δ.globals σ.store.globals)
    (g := .ofGlobal (fun u => if u = r then ws else δ.globals u)
      (fun u => if u = r then v else σ.store.globals u)) hr hH.nodup.2
    fun u _ hu => by simp only [Item.ofGlobal, if_neg hu]
  simp only [hglobal, if_true]
  have hall := (hswap.append_right H.others).append_left (.null :: H.locals.map (localItem δ σ))
  simpa only [Item.ofGlobal, if_true, Holdings.items, localItem, List.cons_append, List.append_assoc] using hall

theorem exists_at (hr : H.Has r) (hn : r.isNull = false) : ∃ b, H.At e δ σ r b := by
  cases hr with
  | null h => exact absurd h (isNull_eq_false.1 hn)
  | «local» hr hi =>
    obtain ⟨b, -, h⟩ := hH.at_local hf hr hi
    exact ⟨b, h⟩
  | global hr =>
    obtain ⟨b, -, h⟩ := hH.at_global hf hr
    exact ⟨b, h⟩

end Holdings.Within

namespace Reflects

variable (hf : e.Fit) (hH : H.Within e)

include hf hH

theorem value (hr : H.Has r) :
    ∃ ws, Direct.value r e δ = (.ok ws, δ) ∧ .reg r.ty (σ.get e.program r) ws ∈ H.items δ σ := by
  cases hn : r.isNull with
  | true =>
    refine ⟨[0], value_null hn, ?_⟩
    rw [isNull_eq_true.1 hn, Plain.State.get, if_pos hn]
    exact List.mem_cons_self ..
  | false =>
    obtain ⟨b, hb⟩ := hH.exists_at (δ := δ) (σ := σ) hf hr hn
    exact ⟨_, value_apply hn hb.some.2 hb.binding, (hb.swap (.int 0) []).mem⟩

theorem values {l : List Reg} (hrs : ∀ r ∈ l, H.Has r) : ∃ wss, l.mapM Direct.value e δ = (.ok wss, δ)
    ∧ H.Reads e δ σ l wss := by
  induction l with
  | nil => exact ⟨[], rfl, .nil⟩
  | cons r l ih =>
    obtain ⟨ws, hv, hmem⟩ := value hf hH (hrs r (.head _)) (δ := δ) (σ := σ)
    obtain ⟨wss, hvs, hmems⟩ := ih fun r hr => hrs r (.tail _ hr)
    refine ⟨ws :: wss, ?_, .cons hmem hmems⟩
    rw [List.mapM_cons]
    exact (bind_ok hv).trans ((bind_ok hvs).trans rfl)

variable (h : Reflects e H held δ σ)

include h

theorem bind_value (hr : H.Has r) {v : Val} {ws : List UInt64} (hx : .reg r.ty v ws ∈ held ++ H.items δ σ)
    (hliteral : e.scope.func.holdsLiterals r → (Item.reg r.ty v ws).handle = 0) :
    ∃ δ', Direct.bind r ws e δ = (.ok (), δ') ∧ Reflects e H held δ' (σ.set e.program r v)
      ∧ (r.isNull = false → Direct.value r e δ' = (.ok ws, δ')) ∧ ∀ u, u ≠ r → δ'.locals u = δ.locals u := by
  cases hn : r.isNull with
  | true => exact ⟨δ, bind_null hn, by rwa [Plain.State.set, if_pos hn], nofun, fun _ _ => rfl⟩
  | false =>
    obtain ⟨b, hb⟩ := hH.exists_at (δ := δ) (σ := σ) hf hr hn
    have hswap := (hb.swap v ws).append_left held
    -- What is left once the register has its words and the old ones are given back.
    have hdone : ∀ c : Context, c.Reflects e.literals.toArray σ.store
      (held ++ H.items (δ.put r b ws) (σ.set e.program r v)) →
        Reflects e H held (({ δ with context := c } : Store).put r b ws) (σ.set e.program r v)
          ∧ (false = false → Direct.value r e (({ δ with context := c } : Store).put r b ws)
            = (.ok ws, ({ δ with context := c } : Store).put r b ws))
          ∧ ∀ u, u ≠ r → (({ δ with context := c } : Store).put r b ws).locals u = δ.locals u := by
      intro c hc
      refine ⟨?_, fun _ => ?_, fun _ hu => Store.put_locals _ _ _ hu⟩
      · rw [Store.put_with_context]
        refine ⟨(hc.set e.program r v), fun u hu hl => ?_, by simpa using h.flow⟩
        have hsame := hb.same v ws u
        rcases hsame with hsame | ⟨rfl, hsame⟩
        · exact (congrArg Item.handle hsame).trans (h.literal u hu hl)
        · exact (congrArg Item.handle hsame).trans (hliteral hl)
      · rw [value_apply hn hb.some.2 hb.binding, Store.put_read]
    rw [bind_apply' hn hb.some.2 hb.binding]
    cases hcounted : r.ty.isHeap && !b.isLiteral with
    | true =>
      obtain ⟨c₁, href, h₁⟩ := ref_ok (e := e) h.context hx
      obtain ⟨c₂, hdrop, h₂⟩ := drop_ok (e := e) (δ := { δ with context := c₁ }) (h₁.swap hswap)
      refine ⟨_, ?_, hdone c₂ h₂⟩
      rw [if_pos rfl]
      exact (bind_ok href).trans ((bind_ok read_apply).trans ((bind_ok hdrop).trans write_apply))
    | false =>
      have hboth : (Item.reg r.ty v ws).handle = 0
          ∧ (Item.reg r.ty (σ.get e.program r) (if b.isGlobal then δ.globals r else δ.locals r)).handle = 0 := by
        cases hheap : r.ty.isHeap with
        | false => exact ⟨Item.handle_reg hheap .., Item.handle_reg hheap ..⟩
        | true =>
          obtain ⟨hl, hr, hitem⟩ := hb.literal (by simpa [hheap] using hcounted)
          exact ⟨hliteral hl, hitem ▸ h.literal r hr hl⟩
      have h₁ := Context.Reflects.of_front h.context.records (h.context.backs.again (Context.Reflects.mem hx) hboth.1)
      exact ⟨_, by rw [if_neg (by simp)]; exact write_apply, hdone δ.context ((h₁.swap hswap).uncons hboth.2)⟩

theorem bind (hr : H.Has r) {v : Val} {ws : List UInt64} (hx : .reg r.ty v ws ∈ held ++ H.items δ σ)
    (hliteral : e.scope.func.holdsLiterals r → (Item.reg r.ty v ws).handle = 0) :
    Gives (Direct.bind r ws) e δ () H held (σ.set e.program r v) := by
  obtain ⟨δ', hbind, h', -⟩ := bind_value hf hH h hr hx hliteral
  exact ⟨δ', hbind, h'⟩

omit hf hH h in
theorem uncons {x : Item} (h : Reflects e H (x :: held) δ σ) (hx : x.handle = 0) : Reflects e H held δ σ :=
  ⟨h.context.uncons hx, h.literal, h.flow⟩

omit hf hH in
theorem cons {x : Item} (hx : x.handle = 0) (hs : ∀ Γ, x.Stands e.literals.toArray Γ) : Reflects e H (x :: held) δ σ :=
  ⟨h.context.cons hx hs, h.literal, h.flow⟩

theorem bindFree (hr : H.Has r) {v : Val} {ws : List UInt64} (hx : (Item.reg r.ty v ws).handle = 0)
    (hs : ∀ Γ, (Item.reg r.ty v ws).Stands e.literals.toArray Γ) :
    Gives (Direct.bind r ws) e δ () H held (σ.set e.program r v) := by
  obtain ⟨δ', hbind, h'⟩ := (h.cons hx hs).bind hf hH hr
    (show .reg r.ty v ws ∈ .reg r.ty v ws :: (held ++ _) from List.mem_cons_self ..) fun _ => hx
  exact ⟨δ', hbind, h'.uncons hx⟩

omit hf hH h in
theorem drop {ty : Ty} {v : Val} {ws : List UInt64} (h : Reflects e H (.reg ty v ws :: held) δ σ) :
    Gives (Direct.drop ty ws) e δ () H held σ := by
  obtain ⟨c, hdrop, hc⟩ := drop_ok (e := e) h.context
  exact ⟨_, hdrop, hc, h.literal, h.flow⟩

omit h in
theorem bindOwned (hr : H.Has r) {v : Val} {ws : List UInt64} (h : Reflects e H (.reg r.ty v ws :: held) δ σ)
    (hliteral : e.scope.func.holdsLiterals r = false) :
    Gives (Direct.bindOwned r ws) e δ () H held (σ.set e.program r v) :=
  (h.bind hf hH hr (List.mem_cons_self ..) fun hl => by simp [hliteral] at hl).bind fun _ h' => h'.drop

omit h in
theorem bindResult (hr : H.Has r) {v : Val} {ws : List UInt64} (h : Reflects e H (.reg r.ty v ws :: held) δ σ)
    (hliteral : e.scope.func.holdsLiterals r = false) :
    Gives (if r.ty.isHeap then Lowering.bindOwned r ws else Emitter.bind r ws : Direct Unit) e δ () H held
      (σ.set e.program r v) := by
  cases hheap : r.ty.isHeap with
  | true => exact bindOwned hf hH hr h hliteral
  | false =>
    have hx := Item.handle_reg hheap v ws
    obtain ⟨δ', hbind, h'⟩ := h.bind hf hH hr (List.mem_cons_self ..) fun _ => hx
    exact ⟨δ', hbind, h'.uncons hx⟩

/-! ## Services -/

omit hf hH in
theorem service {g : List Item} {sv : Service} {w : List (List UInt64)} {act : Act (List UInt64)} {ws : List UInt64}
    {s : Plain.Store}
    (hperform : Service.perform sv w.flatten = Service.lift act)
    (hact : act.Gives δ.context ws e.literals.toArray s (g ++ H.items δ σ)) (hglobals : s.globals = σ.store.globals) :
    Gives (Direct.service sv w) e δ ws H g (σ.withStore s) := by
  obtain ⟨c, hact, hc⟩ := hact
  refine ⟨_, service_of_act hperform hact, ?_, h.literal, h.flow⟩
  rw [Holdings.items_context]
  have hitems : H.items δ (σ.withStore s) = H.items δ σ := by
    simp only [Holdings.items, Plain.State.withStore, hglobals]
    rfl
  rw [hitems]
  exact hc

omit hf hH in
theorem tell {g : List Item} {sv : Service} {w : List (List UInt64)} {act : Act (List UInt64)} {ws : List UInt64}
    {s : Plain.Store}
    (hperform : Service.perform sv w.flatten = Service.lift act)
    (hact : act.Gives δ.context ws e.literals.toArray s (g ++ H.items δ σ)) (hglobals : s.globals = σ.store.globals) :
    Gives (Direct.tell sv w) e δ () H g (σ.withStore s) :=
  (h.service hperform hact hglobals).bind fun δ' h' => ⟨δ', rfl, h'⟩

theorem bindService {dst : Reg} (hd : H.Has dst) (hliteral : e.scope.func.holdsLiterals dst = false) {args : List Reg}
    (hargs : ∀ r ∈ args, H.Has r) {sv : Service} {v : Val} {s : Plain.Store} (hglobals : s.globals = σ.store.globals)
    (hserve : ∀ wss, H.Reads e δ σ args wss → ∃ act ws, Service.perform sv (contextWord :: wss).flatten
      = Service.lift act
      ∧ act.Gives δ.context ws e.literals.toArray s (.reg dst.ty v ws :: (held ++ H.items δ σ))) :
    Gives (Lowering.bindService dst sv args : Direct Unit) e δ () H held ((σ.withStore s).set e.program dst v) := by
  obtain ⟨wss, hvalues, hreads⟩ := values hf hH hargs (δ := δ) (σ := σ)
  obtain ⟨act, ws, hperform, hact⟩ := hserve wss hreads
  refine .after hvalues ((h.service (g := .reg dst.ty v ws :: held) hperform hact hglobals).bind fun δ' h' =>
    bindResult hf hH hd h' hliteral)

theorem performService {args : List Reg} (hargs : ∀ r ∈ args, H.Has r) {sv : Service} {s : Plain.Store}
    (hglobals : s.globals = σ.store.globals)
    (hserve : ∀ wss, H.Reads e δ σ args wss → ∃ act, Service.perform sv (contextWord :: wss).flatten = Service.lift act
      ∧ act.Gives δ.context [] e.literals.toArray s (held ++ H.items δ σ)) :
    Gives (Lowering.performOn sv args : Direct Unit) e δ () H held (σ.withStore s) := by
  obtain ⟨wss, hvalues, hreads⟩ := values hf hH hargs (δ := δ) (σ := σ)
  obtain ⟨act, hperform, hact⟩ := hserve wss hreads
  exact .after hvalues (h.tell hperform hact hglobals)

end Reflects

end

end Direct

end RecordMill

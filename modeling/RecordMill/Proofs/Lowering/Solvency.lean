import RecordMill.Proofs.Lowering.Globals
import RecordMill.Proofs.Plain.Instructions
import RecordMill.Proofs.Plain.Ownership
import RecordMill.Proofs.Service.Grants

/-!
# Instructions leave every owner its reference

Each handle has at least as many references as there are places that own it. What an instruction is made of keeps that
up: a step is fair if it does, it yields a result for which there is a reference as well, and it spends a reference that
it was given. -/

namespace RecordMill

open Heap (one)

/-! ## Activations -/

/-- The words are so many as a string or a map of the type has. -/
def Ty.Fits (t : Ty) (ws : List UInt64) : Prop := t.isHeap → ws.length = t.words.words

theorem Ty.fits_of_not_heap {t : Ty} (h : t.isHeap = false) (ws : List UInt64) :
    t.Fits ws := fun hheap => by simp [h] at hheap

theorem Ty.handle_of_not_heap {t : Ty} (h : t.isHeap = false) (ws : List UInt64) : t.handle ws = 0 := by
  cases t <;> first | rfl | cases h

/-- The operation is no service. -/
class ValueOp.Computes (op : ValueOp) : Prop where
  ne : ∀ s, op ≠ .service s

namespace ValueOp

instance (float : Bool) (c : Cmp) : Computes (.compare float c) := ⟨nofun⟩

instance (float : Bool) (op : Arith) : Computes (.arith float op) := ⟨nofun⟩

instance (op : Bitwise) : Computes (.bit op) := ⟨nofun⟩

instance (fn : MathFn) : Computes (.math fn) := ⟨nofun⟩

instance : Computes .div := ⟨nofun⟩

instance : Computes .pow := ⟨nofun⟩

instance : Computes .floatToInt := ⟨nofun⟩

instance : Computes .intToFloat := ⟨nofun⟩

end ValueOp

namespace Direct

/-- The scope is that of a function of an accepted program in which no global is declared twice. -/
class Setting.Scoped (e : Setting) : Prop where
  checked : e.program.check = []
  func : e.scope.func ∈ e.program.funcs
  scope : e.scope = .ofFunc e.program e.scope.func e.scope.isMain
  globals : e.program.globals.Nodup

def Setting.owning (e : Setting) : List Reg :=
  (e.scope.func.locals e.program.globals).filter fun r => r.ty.isHeap && !e.scope.func.holdsLiterals r

def Setting.iterators (e : Setting) : List Reg := (e.scope.func.locals e.program.globals).filter (·.ty.isIter)

def Store.ownedByGlobals (e : Setting) (δ : Store) : List UInt64 :=
  (e.program.globals.filter (·.ty.isHeap)).map fun g => g.ty.handle (δ.globals g)

/-- The handles that the registers and iterators of the activation own. -/
def Store.ownedByLocals (e : Setting) (δ : Store) : List UInt64 :=
  e.owning.map (fun r => r.ty.handle (δ.locals r)) ++ e.iterators.map δ.keys

def Store.owned (e : Setting) (δ : Store) : List UInt64 := δ.ownedByGlobals e ++ δ.ownedByLocals e

/-- There is a reference for every owner; `others` are those elsewhere. -/
structure Store.Solvent (e : Setting) (others : List UInt64) (δ : Store) : Prop where
  affords : δ.context.Affords (others ++ δ.owned e)
  globals : ∀ g ∈ e.program.globals, g.ty.Fits (δ.globals g)
  locals : ∀ r ∈ e.scope.func.locals e.program.globals, r.ty.Fits (δ.locals r)
  literals : ∀ r ∈ e.scope.func.locals e.program.globals, e.scope.func.holdsLiterals r → r.ty.handle (δ.locals r) = 0

structure Setting.Binds (e : Setting) (r : Reg) (b : Binding) : Prop where
  found : e.scope.binding? r = some b
  iter : r.ty.isIter = false
  null : r.isNull = false
  kind : b.isGlobal = true ∧ b.isLiteral = false ∧ r ∈ e.program.globals
    ∨ b.isGlobal = false ∧ b.isLiteral = e.scope.func.holdsLiterals r ∧ r ∈ e.scope.func.locals e.program.globals

section

variable {e : Setting} [he : e.Scoped] {r : Reg} {b : Binding} {δ δ' : Store} {others : List UInt64} {ws : List UInt64}

theorem Setting.Scoped.passes :
    Check.func e.program e.scope.func = [] := (Check.check_eq_nil.1 he.checked).2.2 _ he.func

theorem Setting.Scoped.typed {i : Instr} (hi : i ∈ e.scope.func.body) : i.Typed e.program e.scope.func.ret :=
  (Check.body_eq_nil.1 (Check.func_eq_nil.1 he.passes).2.2.2.1).1 i hi

theorem Setting.Scoped.storable_global (hr : r ∈ e.program.globals) :
    r.ty.Storable := (Check.check_eq_nil.1 he.checked).2.1 r hr

theorem Setting.Scoped.mem_iterators {i : Instr} (hi : i ∈ e.scope.func.body) (hr : r ∈ i.defs ++ i.uses)
    (hiter : r.ty.isIter) :
    r ∈ e.iterators := by
  refine List.mem_filter.2 ⟨Scope.mem_locals.2 ⟨List.mem_append_right _ (List.mem_flatMap.2 ⟨i, hi, hr⟩), fun hnull =>
    ?_, fun hg => ?_⟩, hiter⟩
  · simp [hnull, Ty.isIter] at hiter
  · have hs := Setting.Scoped.storable_global (e := e) hg
    simp [Ty.isIter_eq_false.2 hs.2.2] at hiter

theorem Setting.binds (hb : e.scope.binding? r = some b) : e.Binds r b := by
  have hmem : (r, b) ∈ e.scope.bindings := mem_of_lookup hb
  rw [he.scope] at hmem
  rcases Scope.binding_cases hmem with ⟨i, hi, rfl⟩ | hlocal
  · have hr := List.mem_of_getElem? hi
    have hs := Setting.Scoped.storable_global (e := e) hr
    exact ⟨hb, Ty.isIter_eq_false.2 hs.2.2, isNull_eq_false.2 hs.2.1, .inl ⟨rfl, rfl, hr⟩⟩
  · have hkey : r ∈ (Scope.bindLocals e.scope.func (e.program.globals.length + 1)
      (e.scope.func.locals e.program.globals)).1.map (·.1) :=
      List.mem_map_of_mem (f := (·.1)) hlocal
    rw [Scope.keys_bindings_bindLocals] at hkey
    obtain ⟨hr, hiter⟩ := List.mem_filter.1 hkey
    exact ⟨hb, by simpa using hiter, isNull_eq_false.2 (Scope.mem_locals.1 hr).2.1,
      .inr ⟨(Scope.binding_place hlocal).1, Scope.isLiteral_bindLocals hlocal, hr⟩⟩

def Store.reads (e : Setting) (δ : Store) (r : Reg) :
    List UInt64 := if r ∈ e.program.globals then δ.globals r else δ.locals r

omit he in
theorem Setting.Binds.reads (h : e.Binds r b) : (if b.isGlobal then δ.globals r else δ.locals r) = δ.reads e r := by
  unfold Store.reads
  rcases h.kind with ⟨hg, -, hr⟩ | ⟨hg, -, hr⟩
  · rw [if_pos hg, if_pos hr]
  · rw [if_neg (by simp [hg]), if_neg (Scope.mem_locals.1 hr).2.2]

/-! ### One register -/

theorem count_map_update {rs : List Reg} (hrs : rs.Nodup) (hr : r ∈ rs) {f g : Reg → UInt64}
    (hfg : ∀ u, u ≠ r → g u = f u) (a : UInt64) :
    (rs.map g).count a + one (f r) a = (rs.map f).count a + one (g r) a := by
  induction rs with
  | nil => cases hr
  | cons u rs ih =>
    obtain ⟨hu, hrs⟩ := List.nodup_cons.1 hrs
    rw [List.map_cons, List.map_cons, Context.Affords.count_cons, Context.Affords.count_cons]
    rcases List.mem_cons.1 hr with rfl | hr
    · have hsame : rs.map g = rs.map f := List.map_congr_left fun v hv => hfg v fun h => hu (h ▸ hv)
      rw [hsame]
      omega
    · have hne : u ≠ r := fun h => hu (h ▸ hr)
      have hih := ih hrs hr
      rw [hfg u hne]
      omega

theorem nodup_owning (e : Setting) : e.owning.Nodup := (nodup_eraseDups _).filter _

theorem nodup_iterators (e : Setting) : e.iterators.Nodup := (nodup_eraseDups _).filter _

theorem count_owned_put (h : e.Binds r b) (hheap : r.ty.isHeap) (hl : b.isLiteral = false) (δ : Store)
    (ws : List UInt64) (a : UInt64) :
    ((δ.put r b ws).owned e).count a + one (r.ty.handle (δ.reads e r)) a
      = (δ.owned e).count a + one (r.ty.handle ws) a := by
  unfold Store.owned Store.ownedByGlobals Store.ownedByLocals Store.put Store.reads
  simp only [List.count_append]
  rcases h.kind with ⟨hg, -, hr⟩ | ⟨hg, hlit, hr⟩
  · rw [if_pos hg, if_pos hr]
    have hcount := count_map_update (r := r) (he.globals.filter (·.ty.isHeap)) (List.mem_filter.2 ⟨hr, hheap⟩)
      (f := fun g => g.ty.handle (δ.globals g)) (g := fun g => g.ty.handle (if g = r then ws else δ.globals g))
      (fun u hu => by rw [if_neg hu]) a
    rw [if_pos rfl] at hcount
    dsimp only
    omega
  · have hnot := (Scope.mem_locals.1 hr).2.2
    rw [if_neg (by simp [hg]), if_neg hnot]
    have hcount := count_map_update (r := r) (nodup_owning e) (List.mem_filter.2 ⟨hr, by simp [hheap, ← hlit, hl]⟩)
      (f := fun u => u.ty.handle (δ.locals u)) (g := fun u => u.ty.handle (if u = r then ws else δ.locals u))
      (fun u hu => by rw [if_neg hu]) a
    rw [if_pos rfl] at hcount
    dsimp only
    omega

/-! ### References -/

omit he in
theorem tell_change_eq_ok {sv : Service} {w : List (List UInt64)} {g : Heap → Except HeapFault Heap}
    (hperform : Service.perform sv w.flatten = Service.lift do Act.change g; return [])
    (h : tell sv w e δ = (.ok (), δ')) :
    ∃ heap, g δ.context.heap = .ok heap ∧ δ' = { δ with context := { δ.context with heap } } := by
  cases hg : g δ.context.heap with
  | ok heap =>
    rw [tell_of_act (x := Act.change g) hperform (Act.change_ok hg)] at h
    cases h
    exact ⟨heap, rfl, rfl⟩
  | error f =>
    have hfault : Act.change g δ.context = (.error (.heap f), δ.context) := Act.bind_error (Act.look_error hg)
    have hservice := service_of_fault (e := e) (δ := δ) hperform (Act.bind_error hfault)
    rw [tell, bind_trap hservice] at h
    cases h

omit he in
theorem ref_eq_ok {ty : Ty} (h : ref ty ws e δ = (.ok (), δ')) : ty.Fits ws
    ∧ ∃ heap, δ.context.heap.ref (ty.handle ws) = .ok heap ∧ δ' = { δ with context := { δ.context with heap } } := by
  cases ty with
  | str =>
    rcases ws with _ | ⟨lo, _ | ⟨hi, _ | ⟨x, ws⟩⟩⟩
    · cases h
    · cases h
    · exact ⟨fun _ => rfl, tell_change_eq_ok (g := (·.refStr ⟨lo, hi⟩)) rfl h⟩
    · cases h
  | map k v =>
    rcases ws with _ | ⟨a, _ | ⟨x, ws⟩⟩
    · cases h
    · exact ⟨fun _ => rfl, tell_change_eq_ok (g := (·.ref a)) rfl h⟩
    · cases h
  | null | int | float | iter | other =>
    cases h
    exact ⟨Ty.fits_of_not_heap rfl ws, _, rfl, rfl⟩

omit he in
theorem drop_eq_ok {ty : Ty} (h : drop ty ws e δ = (.ok (), δ')) : ty.Fits ws
    ∧ ∃ heap, δ.context.heap.drop (ty.handle ws) = .ok heap ∧ δ' = { δ with context := { δ.context with heap } } := by
  cases ty with
  | str =>
    rcases ws with _ | ⟨lo, _ | ⟨hi, _ | ⟨x, ws⟩⟩⟩
    · cases h
    · cases h
    · exact ⟨fun _ => rfl, tell_change_eq_ok (g := (·.dropStr ⟨lo, hi⟩)) rfl h⟩
    · cases h
  | map k v =>
    rcases ws with _ | ⟨a, _ | ⟨x, ws⟩⟩
    · cases h
    · exact ⟨fun _ => rfl, tell_change_eq_ok (g := (·.drop a)) rfl h⟩
    · cases h
  | null | int | float | iter | other =>
    cases h
    exact ⟨Ty.fits_of_not_heap rfl ws, _, rfl, rfl⟩

omit he in
theorem ref_apply {ty : Ty} {heap : Heap} (hws : ty.Fits ws) (hr : δ.context.heap.ref (ty.handle ws) = .ok heap) :
    ref ty ws e δ = (.ok (), { δ with context := { δ.context with heap } }) := by
  cases ty with
  | str =>
    obtain ⟨lo, hi, rfl⟩ := List.length_eq_two.1 (hws rfl)
    exact tell_of_act (w := [contextWord, [lo, hi]]) rfl (Act.change_ok (g := (·.refStr ⟨lo, hi⟩)) hr)
  | map k v =>
    obtain ⟨a, rfl⟩ := List.length_eq_one_iff.1 (hws rfl)
    exact tell_of_act (w := [contextWord, [a]]) rfl (Act.change_ok (g := (·.ref a)) hr)
  | null | int | float | iter | other =>
    cases hr
    rfl

omit he in
theorem drop_apply {ty : Ty} {heap : Heap} (hws : ty.Fits ws) (hd : δ.context.heap.drop (ty.handle ws) = .ok heap) :
    drop ty ws e δ = (.ok (), { δ with context := { δ.context with heap } }) := by
  cases ty with
  | str =>
    obtain ⟨lo, hi, rfl⟩ := List.length_eq_two.1 (hws rfl)
    exact tell_of_act (w := [contextWord, [lo, hi]]) rfl (Act.change_ok (g := (·.dropStr ⟨lo, hi⟩)) hd)
  | map k v =>
    obtain ⟨a, rfl⟩ := List.length_eq_one_iff.1 (hws rfl)
    exact tell_of_act (w := [contextWord, [a]]) rfl (Act.change_ok (g := (·.drop a)) hd)
  | null | int | float | iter | other =>
    cases hd
    rfl

omit he in
theorem owned_put_of_not (h : e.Binds r b) (hcounted : (r.ty.isHeap && !b.isLiteral) = false) :
    (δ.put r b ws).owned e = δ.owned e := by
  have hsame : ∀ rs : List Reg, r ∉ rs → ∀ f : Reg → List UInt64,
      rs.map (fun u => u.ty.handle (if u = r then ws else f u)) = rs.map fun u => u.ty.handle (f u) := fun rs hr f =>
    List.map_congr_left fun u hu => by rw [if_neg fun heq : u = r => hr (heq ▸ hu)]
  unfold Store.owned Store.ownedByGlobals Store.ownedByLocals Store.put
  rcases h.kind with ⟨hg, hl, hr⟩ | ⟨hg, hl, hr⟩
  · have hnot : r ∉ e.program.globals.filter (·.ty.isHeap) := fun hmem => by
      simp [hl, (List.mem_filter.1 hmem).2] at hcounted
    rw [if_pos hg]
    dsimp only
    rw [hsame _ hnot]
  · have hnot : r ∉ e.owning := fun hmem => by
      have howns := (List.mem_filter.1 hmem).2
      rw [← hl, hcounted] at howns
      cases howns
    rw [if_neg (by simp [hg])]
    dsimp only
    rw [hsame _ hnot]

omit he in
theorem Store.Solvent.put (h : δ.Solvent e others) (hb : e.Binds r b) (hws : r.ty.Fits ws)
    (hl : b.isLiteral → r.ty.handle ws = 0)
    {c : Context} (hc : c.Affords (others ++ (δ.put r b ws).owned e)) :
    ({ δ.put r b ws with context := c } : Store).Solvent e others := by
  refine ⟨hc, fun g hg => ?_, fun u hu => ?_, fun u hu hlit => ?_⟩
  · have hold := h.globals g hg
    unfold Store.put
    split
    · dsimp only
      split
      · next heq => exact heq ▸ hws
      · exact hold
    · exact hold
  · have hold := h.locals u hu
    unfold Store.put
    split
    · exact hold
    · dsimp only
      split
      · next heq => exact heq ▸ hws
      · exact hold
  · have hold := h.literals u hu hlit
    unfold Store.put
    split
    · exact hold
    · next hg =>
      dsimp only
      split
      · next heq =>
        subst heq
        rcases hb.kind with ⟨hglobal, -⟩ | ⟨-, heq, -⟩
        · exact absurd hglobal hg
        · exact hl (heq.trans hlit)
      · exact hold

theorem bind_cases (h : Direct.bind r ws e δ = (.ok (), δ')) : r.isNull = true ∧ δ' = δ ∨ ∃ b, e.Binds r b
    ∧ ((r.ty.isHeap && !b.isLiteral) = false ∧ δ' = δ.put r b ws
      ∨ (r.ty.isHeap && !b.isLiteral) = true ∧ r.ty.Fits ws ∧ ∃ h₁ h₂, δ.context.heap.ref (r.ty.handle ws) = .ok h₁
        ∧ h₁.drop (r.ty.handle (δ.reads e r)) = .ok h₂
          ∧ δ' = { δ.put r b ws with context := { δ.context with heap := h₂ } }) := by
  cases hn : r.isNull with
  | true =>
    rw [bind_null hn] at h
    cases h
    exact .inl ⟨rfl, rfl⟩
  | false =>
    refine .inr ?_
    cases hi : r.ty.isIter with
    | true =>
      unfold Direct.bind at h
      rw [if_neg (by simp [hn]), if_pos hi] at h
      cases h
    | false =>
      cases hfound : e.scope.binding? r with
      | none =>
        unfold Direct.bind at h
        have hread : (MonadReader.read : Direct Setting) e δ = (.ok e, δ) := rfl
        rw [if_neg (by simp [hn]), if_neg (by simp [hi]), bind_ok hread, hfound] at h
        cases h
      | some b =>
        have hb := Setting.binds hfound
        refine ⟨b, hb, ?_⟩
        rw [bind_apply' hn hi hfound] at h
        cases hcounted : r.ty.isHeap && !b.isLiteral with
        | false =>
          rw [hcounted] at h
          cases h
          exact .inl ⟨rfl, rfl⟩
        | true =>
          rw [if_pos hcounted] at h
          obtain ⟨⟨⟩, δ₁, href, h⟩ := bind_eq_ok h
          obtain ⟨hfits, h₁, hup, rfl⟩ := ref_eq_ok href
          rw [bind_ok read_apply] at h
          obtain ⟨⟨⟩, δ₂, hdrop, h⟩ := bind_eq_ok h
          obtain ⟨-, h₂, hdown, rfl⟩ := drop_eq_ok hdrop
          have hwrite : (Except.ok (), ({ δ with context := { δ.context with heap := h₂ } } : Store).put r b ws)
            = (.ok (), δ') := h
          cases hwrite
          rw [hb.reads] at hdown
          exact .inr ⟨rfl, hfits, h₁, h₂, hup, hdown, Store.put_with_context ..⟩

omit he in
theorem bind_counted (hb : e.Binds r b) (hcounted : (r.ty.isHeap && !b.isLiteral) = true) (hfits : r.ty.Fits ws)
    (hold : r.ty.Fits (δ.reads e r)) {h₁ h₂ : Heap} (hup : δ.context.heap.ref (r.ty.handle ws) = .ok h₁)
    (hdown : h₁.drop (r.ty.handle (δ.reads e r)) = .ok h₂) :
    Direct.bind r ws e δ = (.ok (), { δ.put r b ws with context := { δ.context with heap := h₂ } }) := by
  have hdrop : Direct.drop r.ty (δ.reads e r) e { δ with context := { δ.context with heap := h₁ } }
      = (.ok (), { δ with context := { δ.context with heap := h₂ } }) := drop_apply hold hdown
  rw [bind_apply' hb.null hb.iter hb.found, if_pos hcounted]
  refine (bind_ok (ref_apply hfits hup)).trans ((bind_ok read_apply).trans ?_)
  rw [hb.reads]
  refine (bind_ok hdrop).trans (write_apply.trans ?_)
  rw [Store.put_with_context]

theorem value_of_bind (h : Direct.bind r ws e δ = (.ok (), δ')) (hheap : r.ty.isHeap) :
    Direct.value r e δ' = (.ok ws, δ') := by
  obtain ⟨hnull, -⟩ | ⟨b, hb, ⟨-, rfl⟩ | ⟨-, -, h₁, h₂, -, -, rfl⟩⟩ := bind_cases h
  · simp [isNull_eq_true.1 hnull, Ty.isHeap] at hheap
  · rw [value_apply hb.null hb.iter hb.found, Store.put_read]
  · rw [value_apply hb.null hb.iter hb.found]
    dsimp only
    rw [Store.put_read]

/-- The register counts the references to what it holds, if there is something to count. -/
class Counted (e : Setting) (r : Reg) : Prop where
  ne : ∀ {b}, e.Binds r b → b.isLiteral = false

theorem Store.Solvent.bind [hr : Counted e r] (h : δ.Solvent e others) (hrun : Direct.bind r ws e δ = (.ok (), δ')) :
    δ'.Solvent e others := by
  obtain ⟨-, rfl⟩ | ⟨b, hb, ⟨hcounted, rfl⟩ | ⟨hcounted, hfits, h₁, h₂, hup, hdown, rfl⟩⟩ := bind_cases hrun
  · exact h
  · have hl := hr.ne hb
    have hheap : r.ty.isHeap = false := by simpa [hl] using hcounted
    refine h.put hb (Ty.fits_of_not_heap hheap ws) (fun hlit => by simp [hl] at hlit) (c := (δ.put r b ws).context) ?_
    rw [owned_put_of_not hb hcounted, Store.put_context]
    exact h.affords
  · obtain ⟨hheap, hl⟩ : r.ty.isHeap = true ∧ b.isLiteral = false := by simpa using hcounted
    refine h.put hb hfits (fun hlit => by simp [hl] at hlit) ?_
    have hafter : ({ δ.context with heap := h₁ } : Context).Affords
        (r.ty.handle (δ.reads e r) :: (others ++ (δ.put r b ws).owned e)) := by
      refine (h.affords.ref hup).mono fun a _ => Nat.le_of_eq ?_
      have hcount := count_owned_put hb hheap hl δ ws a
      rw [Context.Affords.count_cons, Context.Affords.count_cons, List.count_append, List.count_append]
      omega
    exact hafter.drop hdown

omit he in
theorem Store.Solvent.ref {ty : Ty} (h : δ.Solvent e others) (hrun : Direct.ref ty ws e δ = (.ok (), δ')) :
    δ'.Solvent e (ty.handle ws :: others) := by
  obtain ⟨-, heap, hup, rfl⟩ := ref_eq_ok hrun
  exact ⟨h.affords.ref hup, h.globals, h.locals, h.literals⟩

omit he in
theorem Store.Solvent.drop {ty : Ty} (h : δ.Solvent e (ty.handle ws :: others))
    (hrun : Direct.drop ty ws e δ = (.ok (), δ')) :
    δ'.Solvent e others := by
  obtain ⟨-, heap, hdown, rfl⟩ := drop_eq_ok hrun
  exact ⟨h.affords.drop hdown, h.globals, h.locals, h.literals⟩

omit he in
theorem Store.Solvent.mono (h : δ.Solvent e others) {others' : List UInt64}
    (hl : ∀ a, a ≠ 0 → others'.count a ≤ others.count a) :
    δ.Solvent e others' := by
  refine ⟨h.affords.mono fun a ha => ?_, h.globals, h.locals, h.literals⟩
  rw [List.count_append, List.count_append]
  exact Nat.add_le_add_right (hl a ha) _

end

/-! ## Steps -/

/-- Where the step succeeds, there is a reference for every owner if there was one before. -/
class Fair (e : Setting) {α : Type} (x : Direct α) : Prop where
  solvent : ∀ {others : List UInt64} {δ δ' : Store} {a : α}, x e δ = (.ok a, δ') → δ.Solvent e others →
    δ'.Solvent e others

/-- Where the step succeeds, there is a reference for its result as well. -/
structure Yields (e : Setting) {α : Type} (owned : α → UInt64) (x : Direct α) : Prop where
  solvent : ∀ {others : List UInt64} {δ δ' : Store} {a : α}, x e δ = (.ok a, δ') → δ.Solvent e others →
    δ'.Solvent e (owned a :: others)

/-- The step uses up a reference to `a`. -/
structure Spends (e : Setting) (a : UInt64) {α : Type} (x : Direct α) : Prop where
  solvent : ∀ {others : List UInt64} {δ δ' : Store} {b : α}, x e δ = (.ok b, δ') → δ.Solvent e (a :: others) →
    δ'.Solvent e others

section

variable {e : Setting} {α β : Type} {x : Direct α} {owned : α → UInt64} {r : Reg}

namespace Fair

instance (a : α) : Fair e (pure a : Direct α) := ⟨fun h hs => by cases h; exact hs⟩

instance (t : Machine.Trap) : Fair e (trap t : Direct α) := ⟨fun h => by cases h⟩

instance (s : Stop) : Fair e (stop s : Direct α) := ⟨fun h => by cases h⟩

instance (s : Stop) : Fair e (throw s : Direct α) := ⟨fun h => by cases h⟩

instance (r : Reg) (p : BindingProblem) : Fair e (fail r p : Direct α) := ⟨fun h => by cases h⟩

instance : Fair e (get : Direct Store) := ⟨fun h hs => by cases h; exact hs⟩

instance (priority := low) of_bind {f : α → Direct β} [hx : Fair e x] [hf : ∀ a, Fair e (f a)] : Fair e (x >>= f) where
  solvent h hs := by
    obtain ⟨a, δ₁, hfirst, hrest⟩ := bind_eq_ok h
    exact (hf a).solvent hrest (hx.solvent hfirst hs)

instance of_read {f : Setting → Direct β} [h : Fair e (f e)] : Fair e ((MonadReader.read : Direct Setting) >>= f) :=
  ⟨fun hrun hs => h.solvent hrun hs⟩

instance {p : Prop} [Decidable p] {y : Direct α} [hx : Fair e x] [hy : Fair e y] : Fair e (if p then x else y) := by
  split
  · exact hx
  · exact hy

instance {f : α → Direct β} [∀ a, Fair e (f a)] (xs : List α) : Fair e (xs.mapM f) := by
  induction xs with
  | nil => exact inferInstanceAs (Fair e (pure []))
  | cons y ys ih =>
    rw [List.mapM_cons]
    infer_instance

end Fair

theorem Yields.fair (h : Yields e owned x) : Fair e x :=
  ⟨fun hrun hs => (h.solvent hrun hs).mono fun _ _ => List.count_le_count_cons⟩

theorem yields_act {a : Act α} (ha : a.Grants owned) : Yields e owned (act a) where
  solvent {others δ δ' r} h hs := by
    unfold act at h
    rcases hrun : a δ.context with ⟨f | r, c⟩ <;> rw [hrun] at h <;> cases h
    exact ⟨ha.affords hrun hs.affords, hs.globals, hs.locals, hs.literals⟩

instance (a : Act α) [Act.Deeds a] [Act.Along SameCounts a] : Fair e (act a) :=
  have hsame : a.Grants fun _ => 0 := .of_same
  (yields_act hsame).fair

theorem yields_service {s : Service} (hs : s.isCount = false) (hm : s.readsMemory = false) (args : List (List UInt64)) :
    Yields e s.granted.handle (service s args) where
  solvent {others δ δ' ws} h hsolvent := by
    rw [Realizes.service_apply] at h
    rcases hrun : Service.perform s args.flatten ⟨⟨#[], 0, 0, 0⟩, δ.context⟩ with ⟨t | rs, out⟩
      <;> rw [hrun] at h <;> cases h
    exact ⟨(Service.affords_perform hs hm _).result hrun hsolvent.affords, hsolvent.globals, hsolvent.locals,
      hsolvent.literals⟩

theorem fair_service {s : Service} (hs : s.isCount = false) (hm : s.readsMemory = false) (args : List (List UInt64)) :
    Fair e (service s args) := (yields_service hs hm args).fair

theorem fair_tell {s : Service} (hs : s.isCount = false) (hm : s.readsMemory = false) (args : List (List UInt64)) :
    Fair e (tell s args) := by
  have hservice : Fair e (service s args) := fair_service hs hm args
  unfold tell
  infer_instance

instance (s : Bytes) : Fair e (constStr s) := by
  unfold constStr
  split
  · infer_instance
  · refine Fair.of_read (h := ?_)
    split <;> infer_instance

instance (r : Reg) (b : Binding) : Fair e (read r b) := by
  unfold read
  infer_instance

instance (r : Reg) : Fair e (value r) := by
  unfold value
  split
  · infer_instance
  · split
    · infer_instance
    · refine Fair.of_read (h := ?_)
      split <;> infer_instance

instance (ws : List UInt64) [e.Scoped] [Counted e r] : Fair e (Direct.bind r ws) := ⟨fun h hs => hs.bind h⟩

/-! ### Handing over -/

theorem Yields.spend {f : α → Direct β} (hx : Yields e owned x) (hf : ∀ a, Spends e (owned a) (f a)) :
    Fair e (x >>= f) where
  solvent h hs := by
    obtain ⟨a, δ₁, hfirst, hrest⟩ := bind_eq_ok h
    exact (hf a).solvent hrest (hx.solvent hfirst hs)

theorem Spends.after {a : UInt64} {f : α → Direct β} [hx : Fair e x] (hf : ∀ b, Spends e a (f b)) :
    Spends e a (x >>= f) where
  solvent h hs := by
    obtain ⟨b, δ₁, hfirst, hrest⟩ := bind_eq_ok h
    exact (hf b).solvent hrest (hx.solvent hfirst hs)

theorem Spends.before {a : UInt64} {f : α → Direct β} (hx : Spends e a x) [hf : ∀ b, Fair e (f b)] :
    Spends e a (x >>= f) where
  solvent h hs := by
    obtain ⟨b, δ₁, hfirst, hrest⟩ := bind_eq_ok h
    exact (hf b).solvent hrest (hx.solvent hfirst hs)

theorem Spends.of_fair {a : UInt64} (hx : Fair e x) : Spends e a x :=
  ⟨fun h hs => hx.solvent h (hs.mono fun _ _ => List.count_le_count_cons)⟩

theorem Spends.drop {ty : Ty} {ws : List UInt64} :
    Spends e (ty.handle ws) (Direct.drop ty ws) := ⟨fun h hs => hs.drop h⟩

/-- Words are of the type of the register they go to, unless there is nothing to count. -/
theorem Spends.as {ty : Ty} {ws : List UInt64} (h : Spends e (r.ty.handle ws) x) (hr : r.ty.isHeap → r.ty = ty) :
    Spends e (ty.handle ws) x := by
  cases hheap : r.ty.isHeap with
  | true => rwa [← hr hheap]
  | false =>
    rw [Ty.handle_of_not_heap hheap] at h
    exact ⟨fun hrun hs => h.solvent hrun (hs.mono fun a ha => by
      rw [count_cons_zero rfl ha]
      exact List.count_le_count_cons)⟩

theorem Spends.bindOwned [e.Scoped] [Counted e r] {ty : Ty} {ws : List UInt64} (hr : r.ty.isHeap → r.ty = ty) :
    Spends e (ty.handle ws) (Direct.bindOwned r ws) :=
  have hown : Spends e (r.ty.handle ws) (Direct.bindOwned r ws) := .after fun _ => .drop
  hown.as hr

instance (t : Ty) (d s : Nat) [e.Scoped] [Counted e ⟨d, t⟩] : Fair e (mov t d s) := by
  unfold mov
  infer_instance

/-! ### Operations -/

instance (op : ValueOp) : Fair e (unsupported op : Direct α) := inferInstanceAs (Fair e (stop _))

instance (b : Option Bool) : Fair e (truth b) := by
  unfold truth
  split <;> infer_instance

instance (fn : MathFn) (args : List (List UInt64)) : Fair e (applyMath fn args) := by
  unfold applyMath
  split
  · infer_instance
  · split
    · next s hs =>
      have hmath : s.isCount = false ∧ s.readsMemory = false := by
        cases fn <;> cases hs <;> exact ⟨rfl, rfl⟩
      exact fair_service hmath.1 hmath.2 _
    · infer_instance

instance (op : Machine.IntOp) (x y : UInt64) : Fair e (int op x y) := by
  unfold int
  split <;> infer_instance

instance (float : Bool) (op : Arith) (args : List (List UInt64)) : Fair e (applyArith float op args) := by
  unfold applyArith
  split
  · infer_instance
  · infer_instance
  · exact fair_service rfl rfl _
  · split <;> infer_instance
  · split <;> infer_instance
  · infer_instance

instance (op : Bitwise) (args : List (List UInt64)) : Fair e (applyBit op args) := by
  unfold applyBit
  split <;> infer_instance

instance (op : ValueOp) (args : List (List UInt64)) [hop : op.Computes] : Fair e (applyFitting op args) := by
  unfold applyFitting
  cases op with
  | compare float c => rcases float with _ | _ <;> rcases args with _ | ⟨x, _ | ⟨y, _ | _⟩⟩ <;> infer_instance
  | service s => exact absurd rfl (hop.ne s)
  | arith | bit | math | unknown => infer_instance
  | pow =>
    have hpower : ∀ wss, Fair e (service .power wss) := fair_service rfl rfl
    rcases args with _ | ⟨x, _ | ⟨y, _ | _⟩⟩ <;> infer_instance
  | div | floatToInt | intToFloat => rcases args with _ | ⟨x, _ | ⟨y, _ | _⟩⟩ <;> infer_instance

instance (op : ValueOp) (args : List (List UInt64)) [op.Computes] : Fair e (apply op args) := by
  unfold apply
  split <;> infer_instance

theorem yields_apply {s : Service} (hs : s.isCount = false) (hm : s.readsMemory = false) (args : List (List UInt64)) :
    Yields e s.granted.handle (apply (.service s) args) := yields_service hs hm args

/-! ### Iterators -/

instance (r : Reg) : Fair e (iterKey r) := by
  unfold iterKey
  refine Fair.of_read (h := ?_)
  split <;> infer_instance

instance (r : Reg) : Fair e (keysOf r) := by
  unfold keysOf
  infer_instance

instance (r : Reg) : Fair e (positionOf r) := by
  unfold positionOf
  infer_instance

instance (r : Reg) (w : UInt64) : Fair e (setPosition r w) where
  solvent h hs := by
    cases h
    exact ⟨hs.affords, hs.globals, hs.locals, hs.literals⟩

instance (d r : Reg) [e.Scoped] [Counted e d] : Fair e (iterHasNext d r) := by
  have hlen : ∀ k wss, Fair e (service (.iterLen k) wss) := fun k => fair_service rfl rfl
  unfold iterHasNext
  infer_instance

theorem iterKey_ty {δ δ' : Store} {k : Key} (h : iterKey r e δ = (.ok k, δ')) : r.ty = .iter k := by
  have hread : (MonadReader.read : Direct Setting) e δ = (.ok e, δ) := rfl
  unfold iterKey at h
  rw [bind_ok hread] at h
  cases hc : e.scope.cursor? r <;> cases hty : r.ty <;> rw [hc, hty] at h <;> cases h
  rfl

theorem fair_iterGetNext [e.Scoped] {d r : Reg} [Counted e d] {k : Key} (hr : r.ty = .iter k) (hd : d.ty = k.ty) :
    Fair e (iterGetNext d r) := by
  have hget : ∀ it pos, Fair e (service (.iterGet k) [contextWord, it, pos] >>= fun key => do
      setPosition r (word (← int .add (word pos) 1))
      Direct.bindOwned d key) := fun it pos =>
    (yields_service (s := .iterGet k) rfl rfl _).spend fun key => .after fun _ => .after fun _ => .bindOwned fun _ => hd
  constructor
  intro others δ δ' a hrun hs
  obtain ⟨j, δ₁, hkey, hrest⟩ := bind_eq_ok hrun
  obtain rfl : k = j := by
    have hj := iterKey_ty hkey
    rw [hr] at hj
    cases hj
    rfl
  have hkeyed : Fair e (iterKey r) := inferInstance
  have hcontinue : Fair e (positionOf r >>= fun pos => keysOf r >>= fun it =>
      service (.iterGet k) [contextWord, it, pos] >>= fun key => do
      setPosition r (word (← int .add (word pos) 1))
      Direct.bindOwned d key) := inferInstance
  exact hcontinue.solvent hrest (hkeyed.solvent hkey hs)

theorem spends_setKeys {a : UInt64} (hr : r ∈ e.iterators) : Spends e a (dropKeys r >>= fun _ => setKeys r a) where
  solvent {others δ δ' b} h hs := by
    obtain ⟨⟨⟩, δ₁, hdrop, hset⟩ := bind_eq_ok h
    obtain ⟨heap, hdown, rfl⟩ := tell_change_eq_ok (g := (·.drop (δ.keys r))) rfl hdrop
    cases hset
    refine ⟨Context.Affords.drop (a := δ.keys r) (hs.affords.mono fun b _ => Nat.le_of_eq ?_) hdown, hs.globals,
      hs.locals, hs.literals⟩
    have hcount := count_map_update (r := r) (nodup_iterators e) hr (f := δ.keys)
      (g := fun u => if u = r then a else δ.keys u) (fun u hu => if_neg hu) b
    rw [if_pos rfl] at hcount
    simp only [Store.owned, Store.ownedByGlobals, Store.ownedByLocals, Context.Affords.count_cons,
      List.count_append] at hcount ⊢
    omega

theorem service_length {s : Service} {args : List (List UInt64)} {δ δ' : Store} {ws : List UInt64}
    (h : service s args e δ = (.ok ws, δ')) :
    ws.length = Machine.Kind.total s.sig.returns := by
  rw [Realizes.service_apply] at h
  rcases hrun : Service.perform s args.flatten ⟨⟨#[], 0, 0, 0⟩, δ.context⟩ with ⟨t | rs, out⟩
    <;> rw [hrun] at h <;> cases h
  exact Service.yields_perform s _ _ _ _ hrun

theorem yields_iterBegin (k : Key) (v : Scalar) (args : List (List UInt64)) :
    Yields e word (service (.map k v .iterBegin) args) where
  solvent h hs := by
    have hafter := (yields_service (s := .map k v .iterBegin) rfl rfl args).solvent h hs
    obtain ⟨a, rfl⟩ := List.length_eq_one_iff.1 (service_length h)
    exact hafter

theorem fair_iterBegin {d m : Reg} (hd : d ∈ e.iterators) {k : Key} {v : Scalar} (hm : m.ty = .map k v) :
    Fair e (iterBegin d m) := by
  have hservice : (Lowering.mapService m .iterBegin : Direct Service) = pure (.map k v .iterBegin) := by
    unfold Lowering.mapService
    rw [hm]
  have hbegin : ∀ wss, Fair e (service (.map k v .iterBegin) wss >>= fun keys => do
      dropKeys d
      setKeys d (word keys)
      setPosition d 0) := fun wss => (yields_iterBegin k v wss).spend fun keys => by
    rw [← bind_assoc]
    exact (spends_setKeys hd).before
  unfold iterBegin
  simp only [hservice, pure_bind]
  infer_instance

/-! ### Loading -/

theorem Spends.loaded [e.Scoped] [Counted e r] {ws : List UInt64} :
    Spends e (r.ty.handle ws) (Direct.bind r ws >>= fun _ => Direct.loaded r) where
  solvent {others δ δ' b} h hs := by
    obtain ⟨⟨⟩, δ₁, hbind, hloaded⟩ := bind_eq_ok h
    have h₁ := hs.bind hbind
    unfold Direct.loaded at hloaded
    cases hheap : r.ty.isHeap with
    | false =>
      rw [if_neg (by simp [hheap])] at hloaded
      cases hloaded
      exact h₁.mono fun _ _ => List.count_le_count_cons
    | true =>
      rw [if_pos hheap, bind_ok (value_of_bind hbind hheap)] at hloaded
      exact h₁.drop hloaded

/-! ### Literals -/

theorem constStr_eq_ok {s : Bytes} {δ δ' : Store} {ws : List UInt64} (h : constStr s e δ = (.ok ws, δ')) :
    δ' = δ ∧ ∃ q : Packed, ws = ofPacked q ∧ q.handle = 0 := by
  unfold constStr at h
  by_cases hs : s.length ≤ Packed.maxInline
  · have hinline : Packed.inline? s = some (Packed.inline s) := if_pos hs
    rw [hinline] at h
    cases h
    exact ⟨rfl, _, rfl, Packed.handle_inline hs⟩
  · have hinline : Packed.inline? s = none := if_neg hs
    have hread : (MonadReader.read : Direct Setting) e δ = (.ok e, δ) := rfl
    rw [hinline] at h
    dsimp only at h
    rw [bind_ok hread] at h
    cases hi : e.literals.idxOf? s with
    | none =>
      rw [hi] at h
      cases h
    | some i =>
      rw [hi] at h
      cases h
      exact ⟨rfl, _, rfl, Packed.handle_literal⟩

/-- A string that no handle stands for can be bound to a register that counts nothing, too. -/
theorem fair_bind_literal [e.Scoped] (hr : r.ty = .str) {q : Packed} (hq : q.handle = 0) :
    Fair e (Direct.bind r (ofPacked q)) := by
  have hzero : r.ty.handle (ofPacked q) = 0 := by
    rw [hr]
    exact hq
  constructor
  intro others δ δ' a h hs
  obtain ⟨-, rfl⟩ | ⟨b, hb, ⟨hcounted, rfl⟩ | ⟨hcounted, -⟩⟩ := bind_cases h
  · exact hs
  · refine hs.put hb (fun _ => by rw [hr]; rfl) (fun _ => hzero) (c := (δ.put r b (ofPacked q)).context) ?_
    rw [owned_put_of_not hb hcounted, Store.put_context]
    exact hs.affords
  · have hcounts : Counted e r := ⟨fun {c} hc => by
      obtain rfl : b = c := Option.some.inj (hb.found.symm.trans hc.found)
      simpa [hr, Ty.isHeap] using hcounted⟩
    exact hs.bind h

theorem fair_constStr [e.Scoped] (hr : r.ty = .str) (s : Bytes) :
    Fair e (constStr s >>= fun ws => Direct.bind r ws) := by
  constructor
  intro others δ δ' a h hs
  obtain ⟨ws, δ₁, hconst, hbind⟩ := bind_eq_ok h
  obtain ⟨rfl, q, rfl, hq⟩ := constStr_eq_ok hconst
  exact (fair_bind_literal hr hq).solvent hbind hs

/-! ### Printing -/

instance (o : Option Output) : Fair e (output o) := by
  unfold output
  split <;> infer_instance

instance (t : Ty) (ws : List UInt64) : Act.Along SameCounts (formatArg t ws) := by
  unfold formatArg
  split <;> infer_instance

instance (rs : List Reg) (wss : List (List UInt64)) : Act.Along SameCounts (formatArgs rs wss) := by
  unfold formatArgs
  infer_instance

instance (d : Reg) (o : Option Output) (rs : List Reg) [e.Scoped] [Counted e d] : Fair e (printAll d o rs) := by
  unfold printAll
  infer_instance

instance (d : Reg) (o : Option Output) (f : Reg) (rs : List Reg) [e.Scoped] [Counted e d] :
    Fair e (printf d o f rs) := by
  unfold printf
  infer_instance

theorem fair_sprintf [e.Scoped] {d : Reg} [Counted e d] (hd : d.ty = .str) (f : Reg) (rs : List Reg) :
    Fair e (sprintf d f rs) := by
  have hgiven : ∀ w wss, Fair e (act (formatArgs rs wss >>= fun args => Act.sprintf (packed w) args) >>= fun q =>
      Direct.bindOwned d (ofPacked q)) := fun w wss => by
    have hgrants : Act.Grants (formatArgs rs wss >>= fun args => Act.sprintf (packed w) args) Packed.handle :=
      .bind .of_same fun args => .of_settles (Act.settles_sprintf _ args)
    refine (yields_act hgrants).spend fun q => ?_
    have howned : Spends e (d.ty.handle (ofPacked q)) (Direct.bindOwned d (ofPacked q)) := .bindOwned fun _ => rfl
    rwa [hd] at howned
  unfold sprintf
  infer_instance

/-! ### Control -/

instance (f : Flow) : Fair e (follow f) := ⟨fun h hs => by
  cases h
  exact ⟨hs.affords, hs.globals, hs.locals, hs.literals⟩⟩

instance (r : Reg) (l : Label) : Fair e (jumpIf r l) := by
  unfold jumpIf
  infer_instance

instance (d : Reg) (fn : Int) (rs : List Reg) : Fair e (call d fn rs) := by
  unfold call
  infer_instance

end

end Direct

/-! ## Instructions -/

namespace Lowering

open Direct (Fair Yields Spends Counted)

section

variable {e : Direct.Setting} {α : Type} [he : e.Scoped]

instance (r : Reg) (ws : List UInt64) [Counted e r] : Fair e (Emitter.bind r ws : Direct Unit) :=
  inferInstanceAs (Fair e (Direct.bind r ws))

instance (r : Reg) : Fair e (Emitter.value r : Direct (List UInt64)) := inferInstanceAs (Fair e (Direct.value r))

instance : Fair e (Emitter.context : Direct (List UInt64)) := inferInstanceAs (Fair e (pure _))

instance (n : Int64) : Fair e (Emitter.constInt n : Direct (List UInt64)) := inferInstanceAs (Fair e (pure _))

instance (x : Float) : Fair e (Emitter.constFloat x : Direct (List UInt64)) := inferInstanceAs (Fair e (pure _))

instance (op : ValueOp) (wss : List (List UInt64)) [op.Computes] :
    Fair e (Emitter.apply op wss : Direct (List UInt64)) :=
  inferInstanceAs (Fair e (Direct.apply op wss))

instance (err : LowerError) : Fair e (Lowering.fail err : Direct α) := inferInstanceAs (Fair e (throw _))

section

variable {s : Service} (hs : s.isCount = false) (hm : s.readsMemory = false)

include hs hm

omit he in
theorem yields_callService (wss : List (List UInt64)) :
  Yields e s.granted.handle (callService s wss : Direct (List UInt64)) :=
  Direct.yields_apply hs hm _

omit he in
theorem fair_performService (wss : List (List UInt64)) :
  Fair e (performService s wss : Direct Unit) := Direct.fair_tell hs hm _

theorem fair_bindResult {r : Reg} [Counted e r] (hr : r.ty.isHeap → r.ty = s.granted) (wss : List (List UInt64)) :
    Fair e (bindResult r s wss : Direct Unit) := by
  unfold bindResult
  refine (yields_callService hs hm wss).spend fun ws => ?_
  split
  · exact Spends.bindOwned hr
  · exact .of_fair inferInstance

theorem fair_bindService {r : Reg} [Counted e r] (hr : r.ty.isHeap → r.ty = s.granted) (rs : List Reg) :
    Fair e (bindService r s rs : Direct Unit) := by
  have hresult : ∀ wss, Fair e (bindResult r s wss : Direct Unit) := fair_bindResult hs hm hr
  unfold bindService
  infer_instance

omit he in
theorem fair_performOn (rs : List Reg) : Fair e (performOn s rs : Direct Unit) := by
  have hperform : ∀ wss, Fair e (performService s wss : Direct Unit) := fair_performService hs hm
  unfold performOn
  infer_instance

end

theorem not_heap {t u : Ty} (ht : t.isHeap = false) : t.isHeap → t = u := fun h => by simp [ht] at h

theorem mapService_eq {m : Reg} {k : Key} {v : Scalar} (hm : m.ty = .map k v) (what : MapService) :
    (mapService m what : Direct Service) = pure (.map k v what) := by
  unfold mapService
  rw [hm]

theorem fair_bindMapService {d m : Reg} [Counted e d] {k : Key} {v : Scalar} (hm : m.ty = .map k v) {what : MapService}
    (hd : d.ty.isHeap → d.ty = (Service.map k v what).granted) (rs : List Reg) :
    Fair e (bindMapService d m what rs : Direct Unit) := by
  have hbind : Fair e (bindService d (.map k v what) (m :: rs) : Direct Unit) := fair_bindService rfl rfl hd _
  unfold bindMapService
  rwa [mapService_eq hm, pure_bind]

omit he in
theorem fair_onMap {m : Reg} {k : Key} {v : Scalar} (hm : m.ty = .map k v) (what : MapService) (rs : List Reg) :
  Fair e (do
    let vs ← rs.mapM Emitter.value
    performService (← mapService m what) vs : Direct Unit) := by
  have hperform : ∀ wss, Fair e (performService (.map k v what) wss : Direct Unit) := fair_performService rfl rfl
  simp only [mapService_eq hm, pure_bind]
  infer_instance

instance (d : Reg) (op : ValueOp) (rs : List Reg) [Counted e d] [op.Computes] :
    Fair e (bindOp d op rs : Direct Unit) := by
  unfold bindOp
  infer_instance

omit he in
instance (rs : List Reg) (wss : List (List UInt64)) : Fair e (toFloats rs wss : Direct (List (List UInt64))) := by
  induction rs generalizing wss with
  | nil => exact inferInstanceAs (Fair e (pure wss))
  | cons r rs ih =>
    cases wss with
    | nil => exact inferInstanceAs (Fair e (pure []))
    | cons ws wss =>
      unfold toFloats
      infer_instance

instance (d : Reg) (op : ValueOp) (rs : List Reg) [Counted e d] [op.Computes] :
    Fair e (bindFloatOp d op rs : Direct Unit) := by
  unfold bindFloatOp
  infer_instance

instance (d : Reg) (op : Cmp) (l r : Reg) [Counted e d] : Fair e (compare d op l r : Direct Unit) := by
  have horder : ∀ wss, Fair e (callService .compareStr wss : Direct (List UInt64)) :=
    fun wss => (yields_callService rfl rfl wss).fair
  unfold compare
  infer_instance

instance (d r : Reg) [Counted e d] : Fair e (convert d r : Direct Unit) := by
  have hconvert : ∀ ws, Fair e (match r.ty, d.ty with
      | .int, .float => do Emitter.bind d (← Emitter.apply .intToFloat [ws])
      | .float, .int => do Emitter.bind d (← Emitter.apply .floatToInt [ws])
      | .int, .str => bindResult d .intToStr [ws]
      | .float, .str => bindResult d .floatToStr [ws]
      | .str, .int => bindResult d .strToInt [ws]
      | .str, .float => bindResult d .strToFloat [ws]
      | a, b => fail (.noConversion a b) : Direct Unit) := fun ws => by
    split
    · infer_instance
    · infer_instance
    · next hd => exact fair_bindResult rfl rfl (fun _ => hd) _
    · next hd => exact fair_bindResult rfl rfl (fun _ => hd) _
    · next hd => exact fair_bindResult rfl rfl (not_heap (by rw [hd]; rfl)) _
    · next hd => exact fair_bindResult rfl rfl (not_heap (by rw [hd]; rfl)) _
    · infer_instance
  unfold convert
  infer_instance

theorem fair_loadVar {d : Reg} [Counted e d] {v : Variable} (hd : d.ty = v.ty) :
    Fair e (loadVar d v : Direct Unit) := by
  have hgranted : d.ty.isHeap → d.ty = (loadService d.ty).granted := fun hheap => by
    rw [hd] at hheap ⊢
    cases v <;> first | rfl | cases hheap
  have hquiet : (loadService d.ty).isCount = false ∧ (loadService d.ty).readsMemory = false := by
    cases d.ty <;> exact ⟨rfl, rfl⟩
  have hload : ∀ wss, Fair e (callService (loadService d.ty) wss >>= fun ws => Direct.bind d ws >>= fun _ =>
      Direct.loaded d) := fun wss =>
    (yields_callService hquiet.1 hquiet.2 wss).spend fun _ => Spends.loaded.as hgranted
  exact hload _

omit he in
instance (v : Variable) (r : Reg) : Fair e (storeVar v r : Direct Unit) := by
  have hquiet : (storeService r.ty).isCount = false ∧ (storeService r.ty).readsMemory = false := by
    cases r.ty <;> exact ⟨rfl, rfl⟩
  have hstore : ∀ wss, Fair e (performService (storeService r.ty) wss : Direct Unit) :=
    fair_performService hquiet.1 hquiet.2
  unfold storeVar
  infer_instance

omit he in
theorem counted {i : Instr} {r : Reg} (hi : i ∈ e.scope.func.body) (rs : List Reg) (hdefs : i.defs = Instr.nonNull rs)
    (hr : r ∈ rs)
    (hl : i.isLiteral = false) : Counted e r where
  ne {b} hb := by
    rcases hb.kind with ⟨-, h, -⟩ | ⟨-, h, -⟩
    · exact h
    · exact h.trans (Func.holdsLiterals_eq_false hi rs hdefs hr hl)

theorem fair_lower {i : Instr} (hi : i ∈ e.scope.func.body) (hret : ∀ src, i ≠ .ret src) :
    Fair e (lower i : Direct Unit) := by
  have hty : i.Typed e.program e.scope.func.ret := he.typed hi
  cases i with
  | constInt d _ | constFloat d _ | arith d _ _ | bit d _ _ | math d _ _ | div d _ _ | pow d _ _ =>
    have hd : Counted e d := counted hi [d] rfl (.head _) rfl
    unfold lower
    infer_instance
  | compare d _ _ _ | convert d _ =>
    have hd : Counted e d := counted hi [d] rfl (.head _) rfl
    unfold lower
    infer_instance
  | constStr d s => exact Direct.fair_constStr hty s
  | mov d s =>
    have hd : Counted e ⟨d.id, d.ty⟩ := counted hi [d] rfl (.head _) rfl
    exact inferInstanceAs (Fair e (Direct.mov d.ty d.id _))
  | concat d _ _ | getColumn d _ =>
    have hd : Counted e d := counted hi [d] rfl (.head _) rfl
    exact fair_bindService rfl rfl (fun _ => hty.1) _
  | strLen d _ | matchPattern d _ _ | split d _ _ _ =>
    have hd : Counted e d := counted hi [d] rfl (.head _) rfl
    exact fair_bindService rfl rfl (not_heap (by rw [hty.1]; rfl)) _
  | nextLine d =>
    have hd : Counted e d := counted hi [d] rfl (.head _) rfl
    exact fair_bindResult rfl rfl (not_heap (by rw [show d.ty = .int from hty]; rfl)) _
  | lookup d m _ =>
    have hd : Counted e d := counted hi [d] rfl (.head _) rfl
    obtain ⟨k, v, hm, -, hdv⟩ := hty
    exact fair_bindMapService hm (fun _ => hdv) _
  | contains d m _ =>
    have hd : Counted e d := counted hi [d] rfl (.head _) rfl
    obtain ⟨hint, k, v, hm, -⟩ := hty
    exact fair_bindMapService hm (not_heap (by rw [hint]; rfl)) _
  | len d m =>
    have hd : Counted e d := counted hi [d] rfl (.head _) rfl
    obtain ⟨hint, k, v, hm⟩ := hty
    exact fair_bindMapService hm (not_heap (by rw [hint]; rfl)) _
  | store m _ _ =>
    obtain ⟨k, v, hm, -⟩ := hty
    exact fair_onMap hm .insert _
  | delete m _ =>
    obtain ⟨k, v, hm, -⟩ := hty
    exact fair_onMap hm .delete _
  | setColumn _ _ => exact fair_performOn rfl rfl _
  | readFileLine d status path =>
    have hd : Counted e d := counted hi [d, status] rfl (.head _) rfl
    have hstatus : Counted e status := counted hi [d, status] rfl (.tail _ (.head _)) rfl
    have hread : Fair e (bindService d .readFileLine [path] : Direct Unit) :=
      fair_bindService rfl rfl (fun _ => hty.1) _
    have hcode : Fair e (bindResult status .lineStatus [] : Direct Unit) :=
      fair_bindResult rfl rfl (not_heap (by rw [hty.2.1]; rfl)) _
    unfold lower
    infer_instance
  | loadVar d v =>
    have hd : Counted e d := counted hi [d] rfl (.head _) rfl
    exact fair_loadVar hty
  | storeVar v r => exact inferInstanceAs (Fair e (storeVar v r : Direct Unit))
  | iterBegin d m =>
    obtain ⟨k, v, hm, hd⟩ := hty
    have hmem : d ∈ Instr.defs (.iterBegin d m) := List.mem_filter.2 ⟨.head _, by simp [Reg.isNull, hd]⟩
    exact Direct.fair_iterBegin (Direct.Setting.Scoped.mem_iterators hi (List.mem_append_left _ hmem)
      (by rw [hd]; rfl)) hm
  | iterHasNext d it =>
    have hd : Counted e d := counted hi [d] rfl (.head _) rfl
    exact inferInstanceAs (Fair e (Direct.iterHasNext d it))
  | iterGetNext d it =>
    have hd : Counted e d := counted hi [d] rfl (.head _) rfl
    obtain ⟨k, hit, hdk⟩ := hty
    exact Direct.fair_iterGetNext hit hdk
  | print out args status =>
    have hstatus : Counted e status := counted hi [status] rfl (.head _) rfl
    exact inferInstanceAs (Fair e (Direct.printAll status out args))
  | printf out f args status =>
    have hstatus : Counted e status := counted hi [status] rfl (.head _) rfl
    exact inferInstanceAs (Fair e (Direct.printf status out f args))
  | sprintf d f args =>
    have hd : Counted e d := counted hi [d] rfl (.head _) rfl
    exact Direct.fair_sprintf hty.1 f args
  | label l => exact inferInstanceAs (Fair e (pure ()))
  | jmp l => exact inferInstanceAs (Fair e (Direct.follow (.goto l)))
  | jmpIf cond l => exact inferInstanceAs (Fair e (Direct.jumpIf cond l))
  | call dst fn args => exact inferInstanceAs (Fair e (Direct.call dst fn args))
  | ret src => exact absurd rfl (hret src)
  | missing => cases hty

end

end Lowering

end RecordMill

import RecordMill.Program.Check

/-!
# Well-formed programs

What the check is meant to accept, said without it: the contract of every instruction, and what holds of
a function and of a program as a whole. The check accepts the well-formed programs, and beyond them
programs that move registers of a type that does not exist or use a variable that does not exist.
-/

namespace RecordMill

/-! ## Contracts -/

namespace Instr

def regs : Instr → List Reg
  | .constInt d _ | .constFloat d _ | .constStr d _ | .nextLine d | .loadVar d _ => [d]
  | .mov d s | .convert d s | .strLen d s | .len d s | .iterBegin d s | .iterHasNext d s | .iterGetNext d s
  | .getColumn d s | .setColumn d s | .delete d s => [d, s]
  | .compare d _ l r | .div d l r | .pow d l r | .concat d l r | .matchPattern d l r | .lookup d l r | .store d l r
  | .contains d l r | .readFileLine d l r => [d, l, r]
  | .split d s m pat => [d, s, m, pat]
  | .arith d _ args | .bit d _ args | .math d _ args | .call d _ args => d :: args
  | .storeVar _ s | .jmpIf s _ | .ret s => [s]
  | .print out args status => status :: outputRegs out ++ args
  | .printf out fmt args status => status :: fmt :: outputRegs out ++ args
  | .sprintf d fmt args => d :: fmt :: args
  | .label _ | .jmp _ | .missing => []

theorem mem_regs {i : Instr} {r : Reg} (h : r ∈ i.defs ++ i.uses) : r ∈ i.regs := by
  cases i <;> simp_all [regs, defs, uses, nonNull] <;> grind

/-- The types that the operands of an instruction must have, and how many there must be. -/
def Typed (p : Program) (ret : Ty) : Instr → Prop
  | .constInt d _ | .nextLine d => d.ty = .int
  | .constFloat d _ => d.ty = .float
  | .constStr d _ => d.ty = .str
  | .mov d s => s.ty = d.ty ∧ ∀ k, d.ty ≠ .iter k
  | .compare d _ l r => d.ty = .int ∧ ∃ t : Scalar, l.ty = t.ty ∧ r.ty = t.ty
  | .arith d op args => (d.ty = .int ∨ d.ty = .float) ∧ args.length = op.arity ∧ ∀ a ∈ args, a.ty = d.ty
  | .bit d op args => d.ty = .int ∧ args.length = op.arity ∧ ∀ a ∈ args, a.ty = .int
  | .math d fn args => d.ty = .float ∧ args.length = fn.arity ∧ ∀ a ∈ args, a.ty = .float
  | .div d l r | .pow d l r => d.ty = .float ∧ (l.ty = .int ∧ r.ty = .int ∨ l.ty = .float ∧ r.ty = .float)
  | .convert d s => ∃ t u : Scalar, d.ty = t.ty ∧ s.ty = u.ty
  | .concat d l r => d.ty = .str ∧ l.ty = .str ∧ r.ty = .str
  | .strLen d s => d.ty = .int ∧ s.ty = .str
  | .matchPattern d s pat => d.ty = .int ∧ s.ty = .str ∧ pat.ty = .str
  | .split d s m pat => d.ty = .int ∧ s.ty = .str ∧ pat.ty = .str ∧ ∃ k, m.ty = .map k .str
  | .lookup d m k => ∃ key val, m.ty = .map key val ∧ k.ty = key.ty ∧ d.ty = val.ty
  | .store m k v => ∃ key val, m.ty = .map key val ∧ k.ty = key.ty ∧ v.ty = val.ty
  | .contains d m k => d.ty = .int ∧ ∃ key val, m.ty = .map key val ∧ k.ty = key.ty
  | .delete m k => ∃ key val, m.ty = .map key val ∧ k.ty = key.ty
  | .len d m => d.ty = .int ∧ ∃ key val, m.ty = .map key val
  | .iterBegin d m => ∃ key val, m.ty = .map key val ∧ d.ty = .iter key
  | .iterHasNext d it => d.ty = .int ∧ ∃ key, it.ty = .iter key
  | .iterGetNext d it => ∃ key, it.ty = .iter key ∧ d.ty = key.ty
  | .getColumn d i => d.ty = .str ∧ i.ty = .int
  | .setColumn i s => i.ty = .int ∧ s.ty = .str
  | .readFileLine d status path => d.ty = .str ∧ status.ty = .int ∧ path.ty = .str
  | .loadVar d v => d.ty = v.ty
  | .storeVar v s => s.ty = v.ty
  | .print out args status =>
    (status.ty = .null ∨ status.ty = .int) ∧ (∀ o ∈ out, o.path.ty = .str) ∧ ∀ a ∈ args, a.ty = .str
  | .printf out fmt args status =>
    (status.ty = .null ∨ status.ty = .int) ∧ (∀ o ∈ out, o.path.ty = .str) ∧ fmt.ty = .str
      ∧ ∀ a ∈ args, ∃ t : Scalar, a.ty = t.ty
  | .sprintf d fmt args => d.ty = .str ∧ fmt.ty = .str ∧ ∀ a ∈ args, ∃ t : Scalar, a.ty = t.ty
  | .label _ | .jmp _ => True
  | .jmpIf c _ => c.ty = .int
  | .call d fn args => ∃ callee, p.func? fn = some callee ∧ args.map (·.ty) = callee.params.map (·.ty)
    ∧ (d.ty = .null ∨ d.ty = callee.ret)
  | .ret s => s.ty = .null ∨ s.ty = ret
  | .missing => False

def target? : Instr → Option Label
  | .jmp l | .jmpIf _ l => some l
  | _ => none

/-- The iterator that an instruction takes a step with or asks for one. -/
def steps? : Instr → Option Reg
  | .iterHasNext _ it | .iterGetNext _ it => some it
  | _ => none

def var? : Instr → Option Variable
  | .loadVar _ v | .storeVar v _ => some v
  | _ => none

def isEnd : Instr → Bool
  | .ret _ | .jmp _ => true
  | _ => false

end Instr

def Variable.builtIn : List Variable := [.argc, .argv, .fs, .ofs, .ors, .nf, .nr, .filename]

/-! ## Functions and programs -/

def Ty.Storable (t : Ty) : Prop := t.isValid ∧ t ≠ .null ∧ ∀ k, t ≠ .iter k

structure Func.WellFormed (p : Program) (f : Func) : Prop where
  params : ∀ r ∈ f.params, r.ty.Storable
  ret : f.ret.isValid ∧ ∀ k, f.ret ≠ .iter k
  labels : f.labels.Nodup
  targets : ∀ i ∈ f.body, ∀ l, i.target? = some l → l ∈ f.labels
  ends : ∃ last, f.body.getLast? = some last ∧ last.isEnd
  typed : ∀ i ∈ f.body, i.Typed p f.ret
  named : ∀ i ∈ f.body, ∀ r ∈ i.regs, r.ty.isValid
  vars : ∀ i ∈ f.body, ∀ v, i.var? = some v → v ∈ Variable.builtIn
  begun : ∀ {j : Nat} {i : Instr} {it : Reg}, f.body[j]? = some i → i.steps? = some it →
    ∃ k m, k < j ∧ f.body[k]? = some (.iterBegin it m)

structure Program.WellFormed (p : Program) : Prop where
  main : ∃ f, p.func? p.main = some f ∧ f.params = []
  globals : ∀ g ∈ p.globals, g.ty.Storable
  funcs : ∀ f ∈ p.funcs, f.WellFormed p

theorem Program.place_of_func? {p : Program} {n : Int} {f : Func} (h : p.func? n = some f) :
    0 ≤ n ∧ p.funcs[n.toNat]? = some f := by
  unfold Program.func? at h
  split at h
  · cases h
  · exact ⟨by omega, h⟩

theorem Program.mem_of_func? {p : Program} {n : Int} {f : Func} (h : p.func? n = some f) : f ∈ p.funcs :=
  List.mem_of_getElem? (place_of_func? h).2

/-! ## The check of an instruction -/

namespace Check

variable {r first d m it : Reg} {rs args : List Reg} {allowed : List Ty}

@[simp] theorem want_eq_nil : want r allowed = [] ↔ r.ty ∈ allowed := by
  unfold want
  split <;> simp [*]

@[simp] theorem same_eq_nil : same first rs = [] ↔ ∀ r ∈ rs, r.ty = first.ty := by
  simp [same, List.filterMap_eq_nil_iff]

@[simp] theorem operands_eq_nil {n : Nat} : operands d args n = [] ↔ args.length = n ∧ ∀ a ∈ args, a.ty = d.ty := by
  unfold operands
  split <;> simp [*]

@[simp] theorem withMap_eq_nil {ps : List Problem} :
    withMap m ps = [] ↔ (∃ key val, m.ty = .map key val) ∧ ps = [] := by
  unfold withMap
  cases m.ty <;> simp [Ty.isMap]

@[simp] theorem optional_eq_nil : optional r allowed = [] ↔ r.ty = .null ∨ r.ty ∈ allowed := by
  unfold optional Reg.isNull
  by_cases h : r.ty = .null <;> simp [h]

@[simp] theorem output_eq_nil {out : Option Output} : output out = [] ↔ ∀ o ∈ out, o.path.ty = .str := by
  cases out <;> simp [output]

@[simp] theorem begunBy_eq_nil {begun : List Reg} : begunBy begun it = [] ↔ it ∈ begun := by
  unfold begunBy
  split <;> simp [*]

@[simp] theorem target_eq_nil {labels : List Label} {l : Label} : target labels l = [] ↔ l ∈ labels := by
  unfold target
  split <;> simp [*]

@[simp] theorem mem_scalars {t : Ty} : t ∈ scalars ↔ ∃ s : Scalar, t = s.ty := by
  constructor
  · intro h
    rcases List.mem_cons.1 h with rfl | h
    · exact ⟨.int, rfl⟩
    rcases List.mem_cons.1 h with rfl | h
    · exact ⟨.float, rfl⟩
    · exact ⟨.str, List.mem_singleton.1 h⟩
  · rintro ⟨_ | _ | _, rfl⟩ <;> decide

theorem arguments_eq_nil {callee : Func} (h : args.length = callee.params.length) :
    arguments callee args = [] ↔ args.map (·.ty) = callee.params.map (·.ty) := by
  simp only [arguments, List.filterMap_eq_nil_iff, List.forall_mem_iff_forall_getElem, id]
  rw [List.ext_getElem_iff]
  simp only [List.length_mapIdx, List.length_zip, h, Nat.min_self, List.getElem_mapIdx, List.getElem_zip,
    List.length_map,
    List.getElem_map, ite_eq_left_iff, reduceCtorEq, imp_false, Decidable.not_not, true_and]
  exact ⟨fun all i hi _ => all i hi, fun all i hi => all i hi hi⟩

theorem call_eq_nil {p : Program} {fn : Int} : call p d fn args = []
    ↔ ∃ callee, p.func? fn = some callee ∧ args.map (·.ty) = callee.params.map (·.ty)
      ∧ (d.ty = .null ∨ d.ty = callee.ret) := by
  unfold call
  cases p.func? fn with
  | none => simp
  | some callee =>
    by_cases h : args.length = callee.params.length
    · simp [h, arguments_eq_nil h, Reg.isNull, Decidable.or_iff_not_imp_left]
    · have hne : args.map (·.ty) ≠ callee.params.map (·.ty) := fun e => h (by simpa using congrArg List.length e)
      simp [h, hne]

/-- An instruction passes when it keeps its contract, its target exists and its iterator was begun. -/
theorem instr_eq_nil {p : Program} {f : Func} {begun : List Reg} {i : Instr} : instr p f begun i = []
    ↔ i.Typed p f.ret ∧ (∀ l, i.target? = some l → l ∈ f.labels) ∧ ∀ it, i.steps? = some it → it ∈ begun := by
  cases i
  all_goals simp [instr, Instr.Typed, Instr.target?, Instr.steps?, call_eq_nil, Reg.isNull]
  case mov d s => cases d.ty <;> simp [Ty.isIter]
  case compare d _ l r => grind
  case bit d op args => grind
  case math d op args => grind
  case div d l r => grind
  case pow d l r => grind
  case concat d l r => grind
  case split d s m pat => grind [Key]
  case lookup d m k => grind [Ty.key, Ty.val]
  case store m k v => grind [Ty.key, Ty.val]
  case contains d m k => grind [Ty.key]
  case delete m k => grind [Ty.key]
  case iterBegin d m => grind [Ty.iterOf]
  case iterHasNext d it => grind [Key]
  case iterGetNext d it => grind [Ty.key, Key]
  case ret s => grind

/-! ## The check of a function -/

variable {p : Program} {f : Func}

/-- An iterator is begun before instruction `j`: already, or by an instruction before it. -/
def BegunAt (begun : List Reg) (instrs : List Instr) (j : Nat) (it : Reg) : Prop :=
  it ∈ begun ∨ ∃ k m, k < j ∧ instrs[k]? = some (.iterBegin it m)

theorem begunAt_zero {begun : List Reg} {instrs : List Instr} : BegunAt begun instrs 0 it ↔ it ∈ begun := by
  simp [BegunAt]

theorem mem_begins {i : Instr} : it ∈ begins i ↔ ∃ m, i = .iterBegin it m := by
  cases i <;> simp [begins, eq_comm]

theorem begunAt_succ {begun : List Reg} {i : Instr} {rest : List Instr} {j : Nat} :
    BegunAt begun (i :: rest) (j + 1) it ↔ BegunAt (begins i ++ begun) rest j it := by
  simp only [BegunAt, List.mem_append, mem_begins]
  constructor
  · rintro (h | ⟨k, m, hk, hm⟩)
    · exact .inl (.inr h)
    · cases k with
      | zero => exact .inl (.inl ⟨m, by simpa using hm⟩)
      | succ k => exact .inr ⟨k, m, by omega, by simpa using hm⟩
  · rintro ((⟨m, rfl⟩ | h) | ⟨k, m, hk, hm⟩)
    · exact .inr ⟨0, m, by omega, rfl⟩
    · exact .inl h
    · exact .inr ⟨k + 1, m, by omega, by simpa using hm⟩

theorem body_eq_nil {n : Nat} {begun : List Reg} {instrs : List Instr} : body p f n begun instrs = []
    ↔ (∀ i ∈ instrs, i.Typed p f.ret) ∧ (∀ i ∈ instrs, ∀ l, i.target? = some l → l ∈ f.labels)
      ∧ ∀ j i it, instrs[j]? = some i → i.steps? = some it → BegunAt begun instrs j it := by
  induction instrs generalizing n begun with
  | nil => simp [body]
  | cons x rest ih =>
    simp only [body, List.append_eq_nil_iff, List.map_eq_nil_iff, instr_eq_nil, ih, List.forall_mem_cons]
    have hsteps : (∀ j i it, (x :: rest)[j]? = some i → i.steps? = some it → BegunAt begun (x :: rest) j it)
        ↔ (∀ it, x.steps? = some it → it ∈ begun)
          ∧ ∀ j i it, rest[j]? = some i → i.steps? = some it → BegunAt (begins x ++ begun) rest j it := by
      constructor
      · intro h
        refine ⟨fun it hs => begunAt_zero.1 (h 0 x it rfl hs), fun j i it hi hs => ?_⟩
        exact begunAt_succ.1 (h (j + 1) i it (by simpa using hi) hs)
      · rintro ⟨h₀, h⟩ (_ | j) i it hi hs
        · cases hi
          exact begunAt_zero.2 (h₀ it hs)
        · exact begunAt_succ.2 (h j i it (by simpa using hi) hs)
    rw [hsteps]
    constructor
    · rintro ⟨⟨h₁, h₂, h₃⟩, h₄, h₅, h₆⟩
      exact ⟨⟨h₁, h₄⟩, ⟨h₂, h₅⟩, h₃, h₆⟩
    · rintro ⟨⟨h₁, h₄⟩, ⟨h₂, h₅⟩, h₃, h₆⟩
      exact ⟨⟨h₁, h₂, h₃⟩, h₄, h₅, h₆⟩

theorem duplicates_eq_nil {n : Nat} {seen : List Label} {instrs : List Instr} : duplicates f n seen instrs = []
    ↔ ({ f with body := instrs } : Func).labels.Nodup ∧ ∀ l ∈ ({ f with body := instrs } : Func).labels, l ∉ seen := by
  induction instrs generalizing n seen with
  | nil => simp [duplicates, Func.labels]
  | cons x rest ih =>
    cases x with
    | label l =>
      simp only [duplicates, List.append_eq_nil_iff, ih, Func.labels, List.mem_cons, not_or]
      grind
    | _ => exact ih

theorem ending_eq_nil {instrs : List Instr} :
    ending instrs = [] ↔ ∃ last, instrs.getLast? = some last ∧ last.isEnd := by
  unfold ending
  cases instrs with
  | nil => simp
  | cons x rest =>
    obtain ⟨last, h⟩ : ∃ last, (x :: rest).getLast? = some last := ⟨_, List.getLast?_eq_some_getLast (by simp)⟩
    simp only [h, Option.some.injEq, exists_eq_left']
    cases last <;> simp [Instr.isEnd]

theorem isStorable_iff {t : Ty} : t.isStorable ↔ t.Storable := by
  cases t <;> simp [Ty.isStorable, Ty.Storable, Ty.isValid, Ty.isIter]

/-- A function passes when all of it but the types of registers and the ids of variables is well-formed. -/
theorem func_eq_nil : func p f = [] ↔ (∀ r ∈ f.params, r.ty.Storable) ∧ (f.ret.isValid ∧ ∀ k, f.ret ≠ .iter k)
    ∧ f.labels.Nodup ∧ body p f 0 [] f.body = [] ∧ ∃ last, f.body.getLast? = some last ∧ last.isEnd := by
  have hret : (if f.ret.isIter || !f.ret.isValid then [Problem.returnType f.ret] else []) = []
      ↔ f.ret.isValid ∧ ∀ k, f.ret ≠ .iter k := by
    cases f.ret <;> simp [Ty.isIter, Ty.isValid]
  simp only [func, List.append_eq_nil_iff, List.map_eq_nil_iff, List.filterMap_eq_nil_iff, ite_eq_left_iff,
    reduceCtorEq,
    imp_false, Classical.not_not, hret, duplicates_eq_nil, ending_eq_nil, List.not_mem_nil, not_false_eq_true,
    implies_true, and_true, and_assoc, isStorable_iff]

theorem check_eq_nil : p.check = [] ↔ (∃ f, p.func? p.main = some f ∧ f.params = [])
    ∧ (∀ g ∈ p.globals, g.ty.Storable) ∧ ∀ f ∈ p.funcs, func p f = [] := by
  unfold Program.check
  by_cases hp : p.funcs.isEmpty
  · have : p.func? p.main = none := by
      simp [Program.func?, List.isEmpty_iff.1 hp]
    simp [hp, this]
  · cases hm : p.func? p.main with
    | none => simp [hp]
    | some main => simp [hp, isStorable_iff]

end Check

/-! ## What the check accepts -/

namespace Instr

/-- What the check of an instruction leaves open: that the registers of a move have a type that exists, and
that a variable exists. -/
def Known : Instr → Prop
  | .mov d _ => d.ty.isValid
  | .loadVar _ v | .storeVar v _ => v ∈ Variable.builtIn
  | _ => True

variable {p : Program} {ret : Ty} {i : Instr}

@[grind =] theorem isValid_scalar (t : Scalar) : t.ty.isValid := by cases t <;> rfl

@[grind =] theorem isValid_key (k : Key) : k.ty.isValid := by cases k <;> rfl

theorem Known.var {v : Variable} (h : i.Known) (hv : i.var? = some v) : v ∈ Variable.builtIn := by
  cases i <;> simp_all [Known, var?]

@[grind =] theorem mem_outputRegs {r : Reg} {out : Option Output} : r ∈ outputRegs out ↔ ∃ o ∈ out, r = o.path := by
  cases out <;> simp [outputRegs]

theorem isValid_variable (v : Variable) : v.ty.isValid := by cases v <;> rfl

theorem Typed.regs_valid (h : i.Typed p ret) (known : i.Known) (hret : ret.isValid)
    (funcs : ∀ f ∈ p.funcs, (∀ r ∈ f.params, r.ty.isValid) ∧ f.ret.isValid) : ∀ r ∈ i.regs, r.ty.isValid := by
  cases i
  all_goals simp only [Typed, regs, List.forall_mem_cons] at h ⊢
  case mov d s => exact ⟨known, h.1 ▸ known, by simp⟩
  case loadVar d v => exact ⟨h ▸ isValid_variable v, by simp⟩
  case storeVar v s => exact ⟨h ▸ isValid_variable v, by simp⟩
  case call d fn args =>
    obtain ⟨callee, hf, hargs, hd⟩ := h
    obtain ⟨hparams, hcallee⟩ := funcs callee (Program.mem_of_func? hf)
    refine ⟨?_, fun a ha => ?_⟩
    · rcases hd with hd | hd
      · simp [hd, Ty.isValid]
      · exact hd ▸ hcallee
    · obtain ⟨r, hr, e⟩ := List.mem_map.1 (hargs ▸ List.mem_map_of_mem ha)
      exact e ▸ hparams r hr
  all_goals grind [Ty.isValid]

end Instr

theorem Func.WellFormed.known {p : Program} {f : Func} {i : Instr} (h : f.WellFormed p) (hi : i ∈ f.body) :
    i.Known := by
  cases i with
  | mov d s => exact h.named _ hi d (.head _)
  | loadVar d v => exact h.vars _ hi v rfl
  | storeVar v s => exact h.vars _ hi v rfl
  | _ => trivial

namespace Program

variable {p : Program}

/-- The check accepts the well-formed programs, and those that only use a type or a variable that does not
exist where it looks at neither. -/
theorem wellFormed_iff : p.WellFormed ↔ p.check = [] ∧ ∀ f ∈ p.funcs, ∀ i ∈ f.body, i.Known := by
  rw [Check.check_eq_nil]
  constructor
  · intro h
    refine ⟨⟨h.main, h.globals, fun f hf => ?_⟩, fun f hf i hi => ?_⟩
    · obtain w := h.funcs f hf
      refine Check.func_eq_nil.2 ⟨w.params, w.ret, w.labels, Check.body_eq_nil.2 ⟨w.typed, w.targets, ?_⟩, w.ends⟩
      exact fun j i it hi hs => .inr (w.begun hi hs)
    · exact (h.funcs f hf).known hi
  · rintro ⟨⟨main, globals, funcs⟩, known⟩
    have sig : ∀ f ∈ p.funcs, (∀ r ∈ f.params, r.ty.isValid) ∧ f.ret.isValid := fun f hf =>
      have h := Check.func_eq_nil.1 (funcs f hf)
      ⟨fun r hr => (h.1 r hr).1, h.2.1.1⟩
    refine ⟨main, globals, fun f hf => ?_⟩
    obtain ⟨params, ret, labels, body, ends⟩ := Check.func_eq_nil.1 (funcs f hf)
    obtain ⟨typed, targets, begun⟩ := Check.body_eq_nil.1 body
    exact {
      params, ret, labels, targets, ends, typed
      named := fun i hi => (typed i hi).regs_valid (known f hf i hi) ret.1 sig
      vars := fun i hi v hv => (known f hf i hi).var hv
      begun := fun hi hs => by simpa [Check.BegunAt] using begun _ _ _ hi hs }

/-- A move between registers of a type that does not exist passes the check. -/
theorem check_accepts_unknown_type :
    let p : Program := { funcs := [{
      name := "main", ret := .null, body := [.mov ⟨1, .other 13⟩ ⟨0, .other 13⟩, .ret ⟨0, .null⟩] }] }
    p.check = [] ∧ ¬p.WellFormed := by
  intro p
  refine ⟨by decide, fun h => ?_⟩
  have valid := (h.funcs _ (.head _)).named _ (.head _) ⟨1, .other 13⟩ (.head _)
  exact absurd valid (by decide)

end Program

end RecordMill

import Mathlib
import RecordMill.Machine.Execution
import RecordMill.Proofs.Machine.Tables
import RecordMill.Proofs.Machine.Words
import RecordMill.Proofs.Machine.Runs

/-!
# The table of a module through any sequence of calls

A module is built by four kinds of calls. Whatever their order and their arguments, each name stands for one
thing, objects of data lie side by side below every stack, and a finalized module stays as it is.
-/

namespace RecordMill.Machine

/-! ## Data -/

namespace DataDecl

def size (d : DataDecl) : Nat := d.words.toInt.toNat

def first (d : DataDecl) : Nat := d.address.toNat / 8

end DataDecl

namespace Module

variable {ι σ : Type} {m m' : Module ι}

/-! ## Calls -/

/-- The calls that build a module. -/
inductive Edit where
  | declareFunc (name : Bytes) (linkage : Linkage) (sig : Signature)
  | declareData (name : Bytes) (words : Int64)
  | defineFunc (id : FuncId) (f : Body)
  | finalize

inductive Reply where
  | func (id : FuncId)
  | data (id : Nat) (address : UInt64)
  | done
  deriving DecidableEq

def edit (m : Module ι) : Edit → Except ModuleError (Reply × Module ι)
  | .declareFunc name linkage sig => (m.declareFunc name linkage sig).map fun (id, m) => (.func id, m)
  | .declareData name words => (m.declareData name words).map fun (id, address, m) => (.data id address, m)
  | .defineFunc id f => (m.defineFunc id f).map fun m => (.done, m)
  | .finalize => m.finalize.map fun m => (.done, m)

/-- The reply to a call and the module behind it; a call that is refused leaves the module to the next one. -/
def apply (m : Module ι) (e : Edit) : Except ModuleError Reply × Module ι :=
  match m.edit e with
  | .ok (r, m) => (.ok r, m)
  | .error err => (.error err, m)

def after (m : Module ι) (es : List Edit) : Module ι := es.foldl (fun m e => (m.apply e).2) m

def fresh (target : Target) (imports : List (Bytes × Import ι)) : Module ι := { target, imports }

theorem after_cons (m : Module ι) (e : Edit) (es : List Edit) : m.after (e :: es) = (m.apply e).2.after es := rfl

/-- A call does nothing, or it adds a function, an object or a body, or it seals the module. -/
theorem apply_cases (m : Module ι) (e : Edit) : (m.apply e).2 = m ∨
    (m.finalized = false ∧
      ((∃ d : FuncDecl ι, m.names[d.name]? = none ∧ (m.apply e).2 = m.withFunc d)
      ∨ (∃ name words, m.names[name]? = none ∧ 0 < words ∧ (m.apply e).2 = m.withData name words)
      ∨ (∃ id d f c, m.funcs[id]? = some d ∧ (m.apply e).2 = m.withBody id d f c)))
    ∨ ((∀ d ∈ m.funcs, d.linkage ≠ .imported → d.compiled.isSome) ∧ (m.apply e).2 = { m with finalized := true }) := by
  cases h : m.edit e with
  | error err =>
    left
    simp [apply, h]
  | ok p =>
    obtain ⟨r, m'⟩ := p
    have happly : (m.apply e).2 = m' := by simp [apply, h]
    rw [happly]
    cases e with
    | declareFunc name linkage sig =>
      cases hd : m.declareFunc name linkage sig with
      | error err => simp [edit, hd, Except.map] at h
      | ok q =>
        simp only [edit, hd, Except.map, Except.ok.injEq, Prod.mk.injEq] at h
        obtain ⟨-, rfl⟩ := h
        obtain ⟨hm, ⟨hsame, -⟩ | ⟨hname, -, host, -, hnew⟩⟩ := declareFunc_cases hd
        · exact .inl hsame
        · exact .inr (.inl ⟨hm, .inl ⟨_, hname, hnew⟩⟩)
    | declareData name words =>
      cases hd : m.declareData name words with
      | error err => simp [edit, hd, Except.map] at h
      | ok q =>
        simp only [edit, hd, Except.map, Except.ok.injEq, Prod.mk.injEq] at h
        obtain ⟨-, rfl⟩ := h
        obtain ⟨hm, hname, hw, -, -, hnew⟩ := declareData_cases hd
        exact .inr (.inl ⟨hm, .inr (.inl ⟨name, words, hname, hw, hnew⟩)⟩)
    | defineFunc id f =>
      cases hd : m.defineFunc id f with
      | error err => simp [edit, hd, Except.map] at h
      | ok q =>
        simp only [edit, hd, Except.map, Except.ok.injEq, Prod.mk.injEq] at h
        obtain ⟨-, rfl⟩ := h
        obtain ⟨hm, d, c, hfunc, -, -, -, -, hnew⟩ := defineFunc_cases hd
        exact .inr (.inl ⟨hm, .inr (.inr ⟨id, d, f, c, hfunc, hnew⟩)⟩)
    | finalize =>
      cases hd : m.finalize with
      | error err => simp [edit, hd, Except.map] at h
      | ok q =>
        simp only [edit, hd, Except.map, Except.ok.injEq, Prod.mk.injEq] at h
        obtain ⟨-, rfl⟩ := h
        obtain ⟨-, hsame⟩ | hsealed := finalize_cases hd
        · exact .inl hsame
        · exact .inr (.inr hsealed)

/-! ## The table -/

/-- The words of all objects, and of those in front of one. -/
def dataSize (m : Module ι) : Nat := (m.data.toList.map DataDecl.size).sum

def dataBefore (m : Module ι) (i : Nat) : Nat := ((m.data.toList.take i).map DataDecl.size).sum

/-- What every call keeps. -/
structure Table (m : Module ι) : Prop where
  func : ∀ {x : Bytes} {id : FuncId}, m.names[x]? = some (.func id) ↔ ∃ d, m.funcs[id]? = some d ∧ d.name = x
  data : ∀ {x : Bytes} {i : Nat}, m.names[x]? = some (.data i) ↔ ∃ d, m.data[i]? = some d ∧ d.name = x
  place : ∀ {i : Nat} {d : DataDecl}, m.data[i]? = some d → d.address = Memory.addressOf (1 + m.dataBefore i)
  words : ∀ {i : Nat} {d : DataDecl}, m.data[i]? = some d → 0 < d.words
  total : m.dataWords = m.dataSize.toInt64
  bodies : m.finalized = true → ∀ d ∈ m.funcs, d.linkage ≠ .imported → d.compiled.isSome

namespace Table

theorem fresh (target : Target) (imports : List (Bytes × Import ι)) : (Module.fresh target imports).Table where
  func := by simp [Module.fresh]
  data := by simp [Module.fresh]
  place := by simp [Module.fresh]
  words := by simp [Module.fresh]
  total := rfl
  bodies := nofun

theorem withFunc (h : m.Table) (hm : m.finalized = false) {d : FuncDecl ι} (hd : m.names[d.name]? = none) :
    (m.withFunc d).Table where
  func := found_push (fun _ _ => Entry.func.inj) (fun _ _ => h.func) hd
  data := found_insert hd nofun h.data
  place := h.place
  words := h.words
  total := h.total
  bodies hf := by simp [Module.withFunc, hm] at hf

theorem dataBefore_withData (m : Module ι) (name : Bytes) (w : Int64) {i : Nat} (hi : i ≤ m.data.size) :
    (m.withData name w).dataBefore i = m.dataBefore i := by
  have hi : i ≤ m.data.toList.length := by simpa using hi
  simp [dataBefore, Module.withData, List.take_append_of_le_length hi]

theorem dataBefore_size (m : Module ι) : m.dataBefore m.data.size = m.dataSize := by
  rw [dataBefore, dataSize, ← Array.length_toList, List.take_length]

theorem toInt64_add (n : Nat) {w : Int64} (hw : 0 < w) : n.toInt64 + w = (n + w.toInt.toNat).toInt64 := by
  have hpos : 0 < w.toInt := Int64.lt_iff_toInt_lt.1 hw
  have hw : w = w.toInt.toNat.toInt64 := by
    show w = Int64.ofNat w.toInt.toNat
    rw [← Int64.ofInt_eq_ofNat, Int.toNat_of_nonneg (by omega), Int64.ofInt_toInt]
  conv => lhs; rw [hw]
  exact (Int64.ofNat_add n _).symm

theorem next_address (h : m.Table) : (1 + m.dataWords).toUInt64 * 8 = Memory.addressOf (1 + m.dataSize) := by
  have hone : (1 : Int64) + m.dataSize.toInt64 = (1 + m.dataSize).toInt64 := (Int64.ofNat_add 1 _).symm
  rw [h.total, hone, Memory.addressOf, Nat.mul_comm, UInt64.ofNat_mul]
  rfl

theorem withData (h : m.Table) (hm : m.finalized = false) {name : Bytes} {w : Int64} (hname : m.names[name]? = none)
    (hw : 0 < w) : (m.withData name w).Table where
  func := found_insert hname nofun h.func
  data := found_push (d := ⟨name, _, w⟩) (fun _ _ => Entry.data.inj) (fun _ _ => h.data) hname
  place {i d} hd := by
    simp only [Module.withData, Array.getElem?_push] at hd
    split at hd
    · next hi =>
      cases hd
      rw [hi, dataBefore_withData m name w (Nat.le_refl _), dataBefore_size]
      exact h.next_address
    · have hlt := (Array.getElem?_eq_some_iff.1 hd).1
      rw [dataBefore_withData m name w (Nat.le_of_lt hlt)]
      exact h.place hd
  words {i d} hd := by
    simp only [Module.withData, Array.getElem?_push] at hd
    split at hd
    · cases hd
      exact hw
    · exact h.words hd
  total := by
    have hsize : (m.withData name w).dataSize = m.dataSize + w.toInt.toNat := by
      simp [dataSize, Module.withData, DataDecl.size]
    rw [hsize, ← toInt64_add _ hw, ← h.total]
    rfl
  bodies hf := by simp [Module.withData, hm] at hf

theorem withBody (h : m.Table) (hm : m.finalized = false) {id : FuncId} {d : FuncDecl ι} (hd : m.funcs[id]? = some d)
    (f : Body) (c : Compiled) : (m.withBody id d f c).Table where
  func {x k} := by
    show m.names[x]? = some (.func k) ↔ _
    rw [h.func]
    constructor
    · rintro ⟨e, he, hname⟩
      refine ⟨_, funcs_withBody hd he, ?_⟩
      split
      · next hk =>
        rw [hk, hd] at he
        cases he
        exact hname
      · exact hname
    · rintro ⟨e, he, hname⟩
      have hlt : k < m.funcs.size := by simpa [Module.withBody] using (Array.getElem?_eq_some_iff.1 he).1
      rw [funcs_withBody hd (Array.getElem?_eq_getElem hlt)] at he
      split at he
      · next hk =>
        cases he
        exact ⟨d, by rw [hk, hd], hname⟩
      · cases he
        exact ⟨_, Array.getElem?_eq_getElem hlt, hname⟩
  data := h.data
  place := h.place
  words := h.words
  total := h.total
  bodies hf := by simp [Module.withBody, hm] at hf

theorem apply (h : m.Table) (e : Edit) : (m.apply e).2.Table := by
  obtain hsame | ⟨hm, ⟨d, hd, hnew⟩ | ⟨name, w, hname, hw, hnew⟩ | ⟨id, d, f, c, hd, hnew⟩⟩ | ⟨hbodies, hnew⟩ :=
    m.apply_cases e
  · rw [hsame]
    exact h
  · rw [hnew]
    exact h.withFunc hm hd
  · rw [hnew]
    exact h.withData hm hname hw
  · rw [hnew]
    exact h.withBody hm hd f c
  · rw [hnew]
    exact { h with bodies := fun _ => hbodies }

theorem after (h : m.Table) (es : List Edit) : (m.after es).Table := by
  induction es generalizing m with
  | nil => exact h
  | cons e es ih => exact ih (h.apply e)

end Table

/-! ## What stays -/

theorem apply_finalized (hm : m.finalized = true) (e : Edit) : (m.apply e).2 = m := by
  obtain hsame | ⟨hm', -⟩ | ⟨-, hnew⟩ := m.apply_cases e
  · exact hsame
  · rw [hm] at hm'
    cases hm'
  · rw [hnew, ← hm]

theorem after_finalized (hm : m.finalized = true) (es : List Edit) : m.after es = m := by
  induction es with
  | nil => rfl
  | cons e es ih => rw [after_cons, apply_finalized hm e, ih]

def Declared (m : Module ι) (id : FuncId) (name : Bytes) (linkage : Linkage) (sig : Signature) : Prop :=
  ∃ d, m.funcs[id]? = some d ∧ d.name = name ∧ d.linkage = linkage ∧ d.sig = sig

section

variable {id : FuncId} {name : Bytes} {linkage : Linkage} {sig : Signature}

theorem Declared.apply (h : m.Declared id name linkage sig) (e : Edit) :
    (m.apply e).2.Declared id name linkage sig := by
  obtain ⟨d, hd, hname, hlinkage, hsig⟩ := h
  obtain hsame | ⟨-, ⟨d', -, hnew⟩ | ⟨_, _, -, -, hnew⟩ | ⟨id', d', f, c, hd', hnew⟩⟩ | ⟨-, hnew⟩ := m.apply_cases e
  · rw [hsame]
    exact ⟨d, hd, hname, hlinkage, hsig⟩
  · rw [hnew]
    exact ⟨d, funcs_push hd, hname, hlinkage, hsig⟩
  · rw [hnew]
    exact ⟨d, hd, hname, hlinkage, hsig⟩
  · rw [hnew]
    refine ⟨_, funcs_withBody hd' hd, ?_⟩
    split
    · next hid =>
      rw [hid, hd'] at hd
      cases hd
      exact ⟨hname, hlinkage, hsig⟩
    · exact ⟨hname, hlinkage, hsig⟩
  · rw [hnew]
    exact ⟨d, hd, hname, hlinkage, hsig⟩

theorem Declared.after (h : m.Declared id name linkage sig) (es : List Edit) :
    (m.after es).Declared id name linkage sig := by
  induction es generalizing m with
  | nil => exact h
  | cons e es ih => exact ih (h.apply e)

theorem declared_of_apply (ht : m.Table) (h : (m.apply (.declareFunc name linkage sig)).1 = .ok (.func id)) :
    (m.apply (.declareFunc name linkage sig)).2.Declared id name linkage sig := by
  cases hd : m.declareFunc name linkage sig with
  | error err => simp [Module.apply, edit, hd, Except.map] at h
  | ok q =>
    obtain ⟨id', m'⟩ := q
    have happly : m.apply (.declareFunc name linkage sig) = (.ok (.func id'), m') := by
      simp [Module.apply, edit, hd, Except.map]
    rw [happly] at h ⊢
    cases h
    obtain ⟨-, ⟨rfl, hname, d, hfunc, hlinkage, hsig⟩ | ⟨-, rfl, host, -, rfl⟩⟩ := declareFunc_cases hd
    · obtain ⟨e, he, hn⟩ := ht.func.1 hname
      obtain rfl : d = e := Option.some.inj (hfunc.symm.trans he)
      exact ⟨d, hfunc, hn, hlinkage, hsig⟩
    · exact ⟨_, Array.getElem?_push_size, rfl, rfl, rfl⟩

theorem apply_declared (ht : m.Table) (hm : m.finalized = false) (h : m.Declared id name linkage sig) :
    m.apply (.declareFunc name linkage sig) = (.ok (.func id), m) := by
  obtain ⟨d, hd, rfl, rfl, rfl⟩ := h
  have hname := ht.func.2 ⟨d, hd, rfl⟩
  simp [Module.apply, edit, declareFunc, hm, hname, hd, Except.map]

end

/-! ## Names -/

/-- Each name stands for one function or one object, which is found under it. -/
structure Named (m : Module ι) : Prop where
  funcs : ∀ {i j : FuncId} {d e : FuncDecl ι}, m.funcs[i]? = some d → m.funcs[j]? = some e → d.name = e.name → i = j
  data : ∀ {i j : Nat} {d e : DataDecl}, m.data[i]? = some d → m.data[j]? = some e → d.name = e.name → i = j
  apart : ∀ {d : FuncDecl ι} {e : DataDecl}, d ∈ m.funcs → e ∈ m.data → d.name ≠ e.name
  found : ∀ {i : FuncId} {d : FuncDecl ι}, m.funcs[i]? = some d → m.lookup? d.name = some i

theorem Table.named (h : m.Table) : m.Named where
  funcs hd he hname := by
    have hi := h.func.2 ⟨_, hd, rfl⟩
    have hj := h.func.2 ⟨_, he, hname.symm⟩
    rw [hi] at hj
    cases hj
    rfl
  data hd he hname := by
    have hi := h.data.2 ⟨_, hd, rfl⟩
    have hj := h.data.2 ⟨_, he, hname.symm⟩
    rw [hi] at hj
    cases hj
    rfl
  apart hd he hname := by
    obtain ⟨i, hi⟩ := Array.mem_iff_getElem?.1 hd
    obtain ⟨j, hj⟩ := Array.mem_iff_getElem?.1 he
    have hfunc := h.func.2 ⟨_, hi, hname⟩
    rw [h.data.2 ⟨_, hj, rfl⟩] at hfunc
    cases hfunc
  found hd := by
    rw [lookup?, h.func.2 ⟨_, hd, rfl⟩]

/-! ## Symbols -/

def Symbol.name : Symbol → Bytes
  | .func name .. => name
  | .data name _ => name

def Symbol.In (m : Module ι) : Symbol → Prop
  | .func name linkage id sig => m.Declared id name linkage sig
  | .data name address => ∃ d ∈ m.data, d.name = name ∧ d.address = address

/-- The symbols are those that are declared, in strictly ascending order of their names. -/
structure Listed (m : Module ι) : Prop where
  exact : ∀ s : Symbol, s ∈ m.symbols ↔ s.In m
  ascending : (m.symbols.map Symbol.name).Pairwise fun x y => Bytes.before x y = true

theorem name_symbol {x : Bytes} {e : Entry} {s : Symbol} (h : (match e with
    | .func id => (m.funcs[id]?).map fun d => Symbol.func x d.linkage id d.sig
    | .data id => (m.data[id]?).map fun d => Symbol.data x d.address) = some s) : s.name = x := by
  cases e <;> simp only [Option.map_eq_some_iff] at h <;> obtain ⟨d, -, rfl⟩ := h <;> rfl

theorem Table.listed (h : m.Table) : m.Listed where
  exact s := by
    simp only [symbols, List.mem_filterMap, Prod.exists, Std.ExtTreeMap.mem_toList_iff_getElem?_eq_some]
    constructor
    · rintro ⟨x, e, he, hs⟩
      cases e with
      | func id =>
        obtain ⟨d, hd, rfl⟩ := h.func.1 he
        simp only [hd, Option.map_some, Option.some.injEq] at hs
        subst hs
        exact ⟨d, hd, rfl, rfl, rfl⟩
      | data i =>
        obtain ⟨d, hd, rfl⟩ := h.data.1 he
        simp only [hd, Option.map_some, Option.some.injEq] at hs
        subst hs
        exact ⟨d, Array.mem_of_getElem? hd, rfl, rfl⟩
    · intro hs
      cases s with
      | func x linkage id sig =>
        obtain ⟨d, hd, rfl, rfl, rfl⟩ := hs
        exact ⟨d.name, .func id, h.func.2 ⟨d, hd, rfl⟩, by simp [hd]⟩
      | data x address =>
        obtain ⟨d, hd, rfl, rfl⟩ := hs
        obtain ⟨i, hi⟩ := Array.mem_iff_getElem?.1 hd
        exact ⟨d.name, .data i, h.data.2 ⟨d, hi, rfl⟩, by simp [hi]⟩
  ascending := by
    rw [symbols, List.pairwise_map, List.pairwise_filterMap]
    refine Std.ExtTreeMap.ordered_keys_toList.imp ?_
    rintro ⟨x, e⟩ ⟨y, e'⟩ hlt s hs s' hs'
    rw [name_symbol hs, name_symbol hs', Bytes.before, hlt]
    rfl

/-! ## Objects of data -/

/-- Objects lie side by side behind word 0, which is nobody's, and in front of the stack of every instance. -/
structure Apart (m : Module ι) : Prop where
  aligned : ∀ {d : DataDecl}, d ∈ m.data → d.address.toNat = 8 * d.first
  low : ∀ {d : DataDecl}, d ∈ m.data → 1 ≤ d.first
  high : ∀ {d : DataDecl}, d ∈ m.data → (d.first + d.size : Nat) ≤ 1 + m.dataWords.toInt
  disjoint : ∀ {i j : Nat} {d e : DataDecl}, m.data[i]? = some d → m.data[j]? = some e → i ≠ j →
    d.first + d.size ≤ e.first ∨ e.first + e.size ≤ d.first
  belowStack : ∀ {d : DataDecl}, d ∈ m.data → ∀ {σ : Type} {host : σ} {stack : Int64} {inst : Instance ι σ},
    Instance.ofModule m host stack = .ok inst → d.first + d.size ≤ inst.outside.memory.stackBase.toNat

theorem dataBefore_succ {i : Nat} {d : DataDecl} (hd : m.data[i]? = some d) :
    m.dataBefore (i + 1) = m.dataBefore i + d.size := by
  have hd : m.data.toList[i]? = some d := by simpa using hd
  simp [dataBefore, List.take_add_one, hd]

theorem dataBefore_mono {i j : Nat} (h : i ≤ j) : m.dataBefore i ≤ m.dataBefore j := by
  obtain ⟨k, rfl⟩ := Nat.exists_eq_add_of_le h
  simp [dataBefore, List.take_add, List.sum_append]

theorem dataBefore_le (m : Module ι) (i : Nat) : m.dataBefore i ≤ m.dataSize := by
  rw [dataBefore, dataSize]
  conv => rhs; rw [← List.take_append_drop i m.data.toList, List.map_append, List.sum_append]
  exact Nat.le_add_right _ _

theorem toInt_dataWords (h : m.Table) (hsize : m.dataSize < Memory.maxIndex) : m.dataWords.toInt = m.dataSize := by
  have hmax : Memory.maxIndex = 1152921504606846976 := rfl
  rw [h.total]
  exact Int64.toInt_ofNat_of_lt (by omega)

theorem toNat_stackBase (h : m.Table) (hsize : m.dataSize < Memory.maxIndex) {host : σ} {stack : Int64}
    {inst : Instance ι σ} (hi : Instance.ofModule m host stack = .ok inst) :
    inst.outside.memory.stackBase.toNat = 1 + m.dataSize := by
  have hmax : Memory.maxIndex = 1152921504606846976 := rfl
  obtain ⟨memory, hmem, rfl⟩ := Instance.of_ofModule hi
  have hone : (1 : Int64) + m.dataSize.toInt64 = (1 + m.dataSize).toInt64 := (Int64.ofNat_add 1 _).symm
  rw [(Memory.of_ofSizes hmem).2.2]
  show (1 + m.dataWords).toUInt64.toNat = _
  rw [h.total, hone]
  show (UInt64.ofNat (1 + m.dataSize)).toNat = _
  rw [UInt64.toNat_ofNat']
  omega

theorem Table.apart (h : m.Table) (hsize : m.dataSize < Memory.maxIndex) : m.Apart := by
  have hspan : ∀ {i : Nat} {d : DataDecl}, m.data[i]? = some d →
      d.address.toNat = 8 * (1 + m.dataBefore i) ∧ d.first = 1 + m.dataBefore i
        ∧ d.first + d.size = 1 + m.dataBefore (i + 1) := by
    intro i d hd
    have hsucc := dataBefore_succ hd
    have hpos : 0 < d.words.toInt := Int64.lt_iff_toInt_lt.1 (h.words hd)
    have hle := m.dataBefore_le (i + 1)
    have hto : d.address.toNat = 8 * (1 + m.dataBefore i) := by
      have : 0 < d.size := by
        unfold DataDecl.size
        omega
      rw [h.place hd, Memory.toNat_addressOf (by omega)]
    refine ⟨hto, ?_, ?_⟩ <;> rw [DataDecl.first, hto] <;> omega
  have hwhole : ∀ {d : DataDecl}, d ∈ m.data → ∃ i, m.data[i]? = some d := Array.mem_iff_getElem?.1
  have hend : ∀ {d : DataDecl}, d ∈ m.data → d.first + d.size ≤ 1 + m.dataSize := by
    intro d hd
    obtain ⟨i, hi⟩ := hwhole hd
    have hle := m.dataBefore_le (i + 1)
    have := hspan hi
    omega
  refine ⟨fun hd => ?_, fun hd => ?_, fun hd => ?_, fun {i j d e} hd he hne => ?_, fun hd _ _ _ _ hi => ?_⟩
  · obtain ⟨i, hi⟩ := hwhole hd
    rw [(hspan hi).1, (hspan hi).2.1]
  · obtain ⟨i, hi⟩ := hwhole hd
    rw [(hspan hi).2.1]
    omega
  · have := hend hd
    rw [toInt_dataWords h hsize]
    omega
  · have hd := hspan hd
    have he := hspan he
    rcases Nat.lt_or_gt_of_ne hne with hlt | hlt
    · have := m.dataBefore_mono (show i + 1 ≤ j from hlt)
      omega
    · have := m.dataBefore_mono (show j + 1 ≤ i from hlt)
      omega
  · rw [toNat_stackBase h hsize hi]
    exact hend hd

/-! ## All together -/

/-- A function keeps the place that its first declaration returned. -/
def KeepsPlaces (m : Module ι) : Prop :=
  ∀ name linkage sig id m', m.apply (.declareFunc name linkage sig) = (.ok (.func id), m') →
    m'.Declared id name linkage sig
      ∧ ∀ es, (m'.after es).finalized = false →
        (m'.after es).apply (.declareFunc name linkage sig) = (.ok (.func id), m'.after es)

def Seals (m : Module ι) : Prop :=
  ∀ m', m.apply .finalize = (.ok .done, m') →
    (∀ d ∈ m'.funcs, d.linkage ≠ .imported → d.compiled.isSome) ∧ ∀ es, m'.after es = m'

theorem Table.keepsPlaces (h : m.Table) : m.KeepsPlaces := by
  intro name linkage sig id m' hm'
  have hdeclared := declared_of_apply h (congrArg Prod.fst hm')
  have hafter := h.apply (.declareFunc name linkage sig)
  rw [hm'] at hdeclared hafter
  exact ⟨hdeclared, fun es hopen => apply_declared (hafter.after es) hopen (hdeclared.after es)⟩

theorem Table.seals (h : m.Table) : m.Seals := by
  intro m' hm'
  have hafter := h.apply .finalize
  rw [hm'] at hafter
  have hsealed : m'.finalized = true := by
    cases hf : m.finalize with
    | error err => simp [Module.apply, edit, hf, Except.map] at hm'
    | ok m'' =>
      simp only [Module.apply, edit, hf, Except.map, Prod.mk.injEq, true_and] at hm'
      obtain ⟨hm, hsame⟩ | ⟨-, hnew⟩ := finalize_cases hf
      · rw [← hm', hsame, hm]
      · rw [← hm', hnew]
  exact ⟨hafter.bodies hsealed, after_finalized hsealed⟩

/-- Whatever calls were made before, a call that is refused changes nothing; names, symbols and objects are in order;
functions keep their places; and a finalized module stays as it is. -/
theorem symbols_consistent (target : Target) (imports : List (Bytes × Import ι)) (es : List Edit)
    (hsize : ((fresh target imports).after es).dataSize < Memory.maxIndex) :
    let m := (fresh target imports).after es
    (∀ e err, (m.apply e).1 = .error err → (m.apply e).2 = m)
      ∧ m.Named ∧ m.Listed ∧ m.Apart ∧ m.KeepsPlaces ∧ m.Seals := by
  intro m
  have ht : m.Table := (Table.fresh target imports).after es
  refine ⟨fun e err h => ?_, ht.named, ht.listed, ht.apart hsize, ht.keepsPlaces, ht.seals⟩
  unfold Module.apply at h ⊢
  split at h
  · cases h
  · rfl

/-- Objects and a function, some declared twice, and the function defined before all is sealed. -/
def sealedEdits : List Edit :=
  [.declareData (text "b") 2, .declareFunc (text "f") .exported ⟨[], []⟩, .declareData (text "b") 1,
    .declareData (text "a") 1,
    .declareFunc (text "f") .exported ⟨[], []⟩, .finalize,
    .defineFunc 0 {
      name := text "f", sig := ⟨[], []⟩, insts := #[⟨.ret [], []⟩]
      blocks := #[{ insts := #[0], terminated := true }] }, .finalize,
    .declareData (text "c") 1]

theorem symbols_consistent_sealed :
    let m := (fresh .native [] : Module Empty).after sealedEdits
    m.dataSize < Memory.maxIndex
      ∧ ((∀ e err, (m.apply e).1 = .error err → (m.apply e).2 = m)
        ∧ m.Named ∧ m.Listed ∧ m.Apart ∧ m.KeepsPlaces ∧ m.Seals)
      ∧ m.finalized = true ∧ m.symbols.map Symbol.name = [text "a", text "b", text "f"] := by
  have hsize : ((fresh .native [] : Module Empty).after sealedEdits).dataSize < Memory.maxIndex := by decide +kernel
  exact ⟨hsize, symbols_consistent .native [] sealedEdits hsize, by cbv, by cbv⟩

end Module

end RecordMill.Machine

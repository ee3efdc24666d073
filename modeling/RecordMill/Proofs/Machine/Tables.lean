import RecordMill.Machine.Module

/-!
# What each call makes of a module

A declaration adds an entry under a name that stands for nothing yet, or finds the one that is there. A
definition puts a body in its place.
-/

namespace RecordMill.Machine.Module

variable {ι : Type} {m m' : Module ι} {name : Bytes}

theorem getElem?_insert (names : Std.ExtTreeMap Bytes Entry compare) (x y : Bytes) (e : Entry) :
    (names.insert x e)[y]? = if x = y then some e else names[y]? := by
  simp [Std.ExtTreeMap.getElem?_insert]

section

variable {α : Type} {nameOf : α → Bytes} {xs : Array α} {names : Std.ExtTreeMap Bytes Entry compare}
  {entry : Nat → Entry} {x y : Bytes}

theorem found_insert {e : Entry} {i : Nat} (hy : names[y]? = none) (he : e ≠ entry i)
    (h : names[x]? = some (entry i) ↔ ∃ d, xs[i]? = some d ∧ nameOf d = x) :
    (names.insert y e)[x]? = some (entry i) ↔ ∃ d, xs[i]? = some d ∧ nameOf d = x := by
  rw [getElem?_insert]
  by_cases hx : y = x
  · rw [if_pos hx, ← h, ← hx, hy, Option.some.injEq]
    exact ⟨fun hno => absurd hno he, nofun⟩
  · rw [if_neg hx, h]

theorem found_push (hentry : Function.Injective entry)
    (h : ∀ x i, names[x]? = some (entry i) ↔ ∃ d, xs[i]? = some d ∧ nameOf d = x) {d : α}
    (hd : names[nameOf d]? = none) {i : Nat} :
    (names.insert (nameOf d) (entry xs.size))[x]? = some (entry i) ↔ ∃ e, (xs.push d)[i]? = some e ∧ nameOf e = x := by
  have hfresh : ∀ (j : Nat) (e : α), xs[j]? = some e → nameOf e ≠ nameOf d := by
    intro j e he hname
    rw [← hname, (h _ j).2 ⟨e, he, rfl⟩] at hd
    cases hd
  rw [getElem?_insert, Array.getElem?_push]
  by_cases hx : nameOf d = x
  · rw [if_pos hx, Option.some.injEq]
    constructor
    · intro he
      exact ⟨d, by rw [if_pos (hentry he).symm], hx⟩
    · rintro ⟨e, he, hname⟩
      split at he
      · next hi => rw [hi]
      · exact absurd (hname.trans hx.symm) (hfresh i e he)
  · rw [if_neg hx, h]
    constructor
    · rintro ⟨e, he, hname⟩
      have hlt := (Array.getElem?_eq_some_iff.1 he).1
      exact ⟨e, by rw [if_neg (by omega)]; exact he, hname⟩
    · rintro ⟨e, he, hname⟩
      split at he
      · cases he
        exact absurd hname hx
      · exact ⟨e, he, hname⟩

end

def withFunc (m : Module ι) (e : FuncDecl ι) : Module ι :=
  { m with funcs := m.funcs.push e, names := m.names.insert e.name (.func m.funcs.size) }

theorem declareFunc_eq {linkage : Linkage} {sig : Machine.Signature} {host : Option ι} (hm : m.finalized = false)
    (hn : m.names[name]? = none) (hh : declareFunc.hostOf m name linkage = .ok host) :
    m.declareFunc name linkage sig = .ok (m.funcs.size, m.withFunc { name, linkage, sig, host }) := by
  simp [declareFunc, withFunc, hm, hn, hh, Bind.bind, Except.bind, Pure.pure, Except.pure]

def withData (m : Module ι) (name : Bytes) (words : Int64) : Module ι :=
  { m with
    data := m.data.push ⟨name, (1 + m.dataWords).toUInt64 * 8, words⟩
    dataWords := m.dataWords + words
    names := m.names.insert name (.data m.data.size) }

theorem declareData_eq {words : Int64} (hm : m.finalized = false) (hw : ¬words ≤ 0) : m.declareData name words =
    if (m.names[name]?).isSome then .error (.about name .duplicateSymbol)
    else .ok (m.data.size, (1 + m.dataWords).toUInt64 * 8, m.withData name words) := by
  rw [declareData, if_neg (by simp [hm]), if_neg hw, Std.ExtTreeMap.contains_eq_isSome_getElem?]
  rfl

def withBody (m : Module ι) (id : FuncId) (e : FuncDecl ι) (body : Machine.Body) (c : Machine.Compiled) : Module ι :=
  { m with funcs := m.funcs.setIfInBounds id { e with source := some body, compiled := some c } }

theorem funcs_withBody {id : FuncId} {e : FuncDecl ι} {body : Machine.Body} {c : Machine.Compiled}
    (he : m.funcs[id]? = some e) {k : Nat} {x : FuncDecl ι} (hx : m.funcs[k]? = some x) :
    (m.withBody id e body c).funcs[k]?
      = some (if k = id then { e with source := some body, compiled := some c } else x) := by
  have hlt := (Array.getElem?_eq_some_iff.1 he).1
  rw [withBody, Array.getElem?_setIfInBounds]
  by_cases hk : k = id
  · simp [hk, hlt]
  · rw [if_neg (Ne.symm hk), if_neg hk, hx]

theorem funcs_push {e e' : FuncDecl ι} {id : FuncId} (h : m.funcs[id]? = some e) : (m.funcs.push e')[id]? = some e := by
  obtain ⟨hlt, -⟩ := Array.getElem?_eq_some_iff.1 h
  rw [Array.getElem?_push_lt hlt, ← h, Array.getElem?_eq_getElem hlt]

/-! ## What a call that succeeds has done -/

theorem declareFunc_cases {linkage : Linkage} {sig : Signature} {id : FuncId}
    (h : m.declareFunc name linkage sig = .ok (id, m')) :
    m.finalized = false
      ∧ ((m' = m ∧ m.names[name]? = some (.func id) ∧ ∃ d, m.funcs[id]? = some d ∧ d.linkage = linkage ∧ d.sig = sig)
        ∨ (m.names[name]? = none ∧ id = m.funcs.size ∧ ∃ host, declareFunc.hostOf m name linkage = .ok host
          ∧ m' = m.withFunc { name, linkage, sig, host })) := by
  unfold declareFunc at h
  split at h
  · cases h
  next hm =>
  refine ⟨by simpa using hm, ?_⟩
  split at h
  · cases h
  · next id' hname =>
    split at h
    · cases h
    · next d hd =>
      split at h
      · cases h
      split at h
      · cases h
      next hl hs =>
      cases h
      exact .inl ⟨rfl, hname, d, hd, Decidable.not_not.1 hl, Decidable.not_not.1 hs⟩
  · next hname =>
    cases hh : declareFunc.hostOf m name linkage with
    | error e =>
      rw [hh] at h
      cases h
    | ok host =>
      rw [hh] at h
      cases h
      exact .inr ⟨hname, rfl, host, rfl, rfl⟩

theorem declareData_cases {words : Int64} {id : Nat} {address : UInt64}
    (h : m.declareData name words = .ok (id, address, m')) :
    m.finalized = false ∧ m.names[name]? = none ∧ 0 < words ∧ id = m.data.size
      ∧ address = (1 + m.dataWords).toUInt64 * 8 ∧ m' = m.withData name words := by
  have hm : m.finalized = false := by
    cases hm : m.finalized with
    | false => rfl
    | true => simp [declareData, hm] at h
  by_cases hw : words ≤ 0
  · simp only [declareData, hm, hw, if_true, Bool.false_eq_true, if_false] at h
    split at h <;> cases h
  · rw [declareData_eq hm hw] at h
    split at h
    · cases h
    · next hname =>
      cases h
      exact ⟨hm, by simpa using hname, Int64.not_le.1 hw, rfl, rfl, rfl⟩

theorem defineFunc_cases {id : FuncId} {f : Body} (h : m.defineFunc id f = .ok m') :
    m.finalized = false ∧ ∃ d c, m.funcs[id]? = some d ∧ d.linkage ≠ .imported ∧ d.compiled = none ∧ d.sig = f.sig
      ∧ f.compile m.target = .ok c ∧ m' = m.withBody id d f c := by
  unfold defineFunc at h
  split at h
  · cases h
  next hm =>
  split at h
  · cases h
  next d hd =>
  split at h
  · cases h
  split at h
  · cases h
  split at h
  · cases h
  next hl hc hs =>
  cases hbody : f.compile m.target with
  | error e =>
    rw [hbody] at h
    cases h
  | ok c =>
    rw [hbody] at h
    cases h
    exact ⟨by simpa using hm, d, c, hd, hl, by simpa using hc, Decidable.not_not.1 hs, rfl, rfl⟩

theorem finalize_cases (h : m.finalize = .ok m') :
    (m.finalized = true ∧ m' = m)
      ∨ ((∀ d ∈ m.funcs, d.linkage ≠ .imported → d.compiled.isSome) ∧ m' = { m with finalized := true }) := by
  unfold finalize at h
  split at h
  · next hm =>
    cases h
    exact .inl ⟨hm, rfl⟩
  · split at h
    · cases h
    · next hfind =>
      cases h
      refine .inr ⟨fun d hd hl => ?_, rfl⟩
      have := Array.find?_eq_none.1 hfind d hd
      simpa [hl, Option.isSome_iff_ne_none] using this

end RecordMill.Machine.Module

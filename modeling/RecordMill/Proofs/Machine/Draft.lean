import Mathlib.Logic.Relation
import RecordMill.Machine.Module

/-!
# Drafts under construction

Building is looked at through `wp`: what holds of the draft after an operation, whether it was accepted
or refused. A draft only ever grows, and what stands in it fits the kinds of its values.
-/

namespace RecordMill.Machine

namespace Build

variable {α β : Type} {d : FuncDraft} {Q : α → FuncDraft → Prop} {E : FuncDraft → Prop}

/-- `Q` holds of the result and the draft if the operation is accepted, and `E` of the draft if it is
refused. -/
def wp (b : Build α) (d : FuncDraft) (Q : α → FuncDraft → Prop) (E : FuncDraft → Prop) : Prop :=
  match b d with
  | (.ok a, d') => Q a d'
  | (.error _, d') => E d'

theorem wp_ok {b : Build α} {a : α} {d' : FuncDraft} (h : b.wp d Q E) (hb : b d = (.ok a, d')) : Q a d' := by
  unfold wp at h
  rw [hb] at h
  exact h

@[simp] theorem wp_pure (a : α) : wp (pure a) d Q E ↔ Q a d := Iff.rfl

@[simp] theorem wp_bind {x : Build β} {f : β → Build α} :
    wp (x >>= f) d Q E ↔ wp x d (fun a d' => wp (f a) d' Q E) E := by
  unfold wp
  show (match (ExceptT.bind x f : Build α) d with | (.ok a, d') => Q a d' | (.error _, d') => E d') ↔ _
  have h : (ExceptT.bind x f : Build α) d
      = match x d with | (.ok a, d') => f a d' | (.error e, d') => (.error e, d') := by
    unfold ExceptT.bind ExceptT.mk
    show (match x d with | (r, d') => ExceptT.bindCont f r d') = _
    rcases x d with ⟨_ | a, d'⟩ <;> rfl
  rw [h]
  rcases x d with ⟨_ | a, d'⟩ <;> rfl

@[simp] theorem wp_get {Q : FuncDraft → FuncDraft → Prop} : wp (get : Build FuncDraft) d Q E ↔ Q d d := Iff.rfl

@[simp] theorem wp_modify {Q : PUnit → FuncDraft → Prop} (f : FuncDraft → FuncDraft) :
    wp (modify f : Build PUnit) d Q E ↔ Q ⟨⟩ (f d) := Iff.rfl

@[simp] theorem wp_throw (e : BuildFault) : wp (throw e : Build α) d Q E ↔ E d := Iff.rfl

@[simp] theorem wp_refuse (c : Misuse) : wp (refuse c : Build α) d Q E ↔ E d := Iff.rfl

@[simp] theorem wp_modifyBody {Q : Unit → FuncDraft → Prop} (f : Body → Body) :
    wp (modifyBody f) d Q E ↔ Q () { d with body := f d.body } := Iff.rfl

theorem wp_mono {b : Build α} {Q' : α → FuncDraft → Prop} {E' : FuncDraft → Prop} (h : b.wp d Q E)
    (hQ : ∀ a d', Q a d' → Q' a d') (hE : ∀ d', E d' → E' d') : b.wp d Q' E' := by
  unfold wp at h ⊢
  split at h
  · exact hQ _ _ h
  · exact hE _ h

end Build

/-! ## Growth -/

/-- A body to which more was added. What it had stays in its place; a finished block takes nothing more. -/
structure Body.Grows (f g : Body) : Prop where
  name : g.name = f.name
  sig : g.sig = f.sig
  values : ∀ {v : Nat} {k : Kind}, f.values[v]? = some k → g.values[v]? = some k
  insts : ∀ {i : Nat} {x : Inst}, f.insts[i]? = some x → g.insts[i]? = some x
  vars : ∀ {v : Nat} {k : Kind}, k ≠ .invalid → f.vars[v]? = some k → g.vars[v]? = some k
  slots : ∀ {s : Nat} {w : Int64}, f.slots[s]? = some w → g.slots[s]? = some w
  callees : ∀ {r : Nat} {c : Callee}, f.callees[r]? = some c → g.callees[r]? = some c
  blocks : ∀ {b : Nat} {x : Block}, f.blocks[b]? = some x → ∃ y, g.blocks[b]? = some y
    ∧ x.insts.toList <+: y.insts.toList ∧ x.params <+: y.params
    ∧ (x.terminated = true → y.insts = x.insts ∧ y.terminated = true)

namespace Body.Grows

variable {f g h : Body}

theorem refl (f : Body) : f.Grows f where
  name := rfl
  sig := rfl
  values h := h
  insts h := h
  vars _ h := h
  slots h := h
  callees h := h
  blocks h := ⟨_, h, List.prefix_rfl, List.prefix_rfl, fun t => ⟨rfl, t⟩⟩

theorem trans (h₁ : f.Grows g) (h₂ : g.Grows h) : f.Grows h where
  name := h₂.name.trans h₁.name
  sig := h₂.sig.trans h₁.sig
  values e := h₂.values (h₁.values e)
  insts e := h₂.insts (h₁.insts e)
  vars n e := h₂.vars n (h₁.vars n e)
  slots e := h₂.slots (h₁.slots e)
  callees e := h₂.callees (h₁.callees e)
  blocks e := by
    obtain ⟨y, hy, hi, hp, ht⟩ := h₁.blocks e
    obtain ⟨z, hz, hi', hp', ht'⟩ := h₂.blocks hy
    refine ⟨z, hz, hi.trans hi', hp.trans hp', fun t => ?_⟩
    obtain ⟨e₁, t₁⟩ := ht t
    obtain ⟨e₂, t₂⟩ := ht' t₁
    exact ⟨e₂.trans e₁, t₂⟩

theorem slots_size (h : f.Grows g) : f.slots.size ≤ g.slots.size := by
  rcases Nat.eq_zero_or_pos f.slots.size with h0 | h0
  · omega
  · have := h.slots (Array.getElem?_eq_getElem (show f.slots.size - 1 < f.slots.size by omega))
    have := (Array.getElem?_eq_some_iff.1 this).1
    omega

theorem blocks_size (h : f.Grows g) : f.blocks.size ≤ g.blocks.size := by
  rcases Nat.eq_zero_or_pos f.blocks.size with h0 | h0
  · omega
  · obtain ⟨y, hy, -⟩ := h.blocks (Array.getElem?_eq_getElem (show f.blocks.size - 1 < f.blocks.size by omega))
    have := (Array.getElem?_eq_some_iff.1 hy).1
    omega

theorem values_size (h : f.Grows g) : f.values.size ≤ g.values.size := by
  rcases Nat.eq_zero_or_pos f.values.size with h0 | h0
  · omega
  · have := h.values (Array.getElem?_eq_getElem (show f.values.size - 1 < f.values.size by omega))
    have := (Array.getElem?_eq_some_iff.1 this).1
    omega

end Body.Grows

/-! ## Instructions of the right kinds -/

def Kind.IsWord (k : Kind) : Prop := k = .i32 ∨ k = .i64

/-- The operands have the kinds that the action asks for, and it yields results of kinds `ks`. -/
def Action.Fits (f : Body) (ks : List Kind) : Action → Prop
  | .iconst k _ => ks = [k] ∧ k.IsWord
  | .fconst _ => ks = [.f64]
  | .concat x y => ks = [.i128] ∧ f.values[x]? = some .i64 ∧ f.values[y]? = some .i64
  | .int _ k x y => ks = [k] ∧ k.IsWord ∧ f.values[x]? = some k ∧ f.values[y]? = some k
  | .shift _ x y => ks = [.i64] ∧ f.values[x]? = some .i64 ∧ f.values[y]? = some .i64
  | .intUnary _ k x => ks = [k] ∧ k.IsWord ∧ f.values[x]? = some k
  | .float _ x y => ks = [.f64] ∧ f.values[x]? = some .f64 ∧ f.values[y]? = some .f64
  | .floatUnary _ x => ks = [.f64] ∧ f.values[x]? = some .f64
  | .icmp _ k x y => ks = [.b1] ∧ k.IsWord ∧ f.values[x]? = some k ∧ f.values[y]? = some k
  | .fcmp _ x y => ks = [.b1] ∧ f.values[x]? = some .f64 ∧ f.values[y]? = some .f64
  | .bint k x => ks = [k] ∧ f.values[x]? = some .b1
  | .toInt k x => ks = [k] ∧ f.values[x]? = some .f64
  | .ofInt k narrow x => ks = [k] ∧ ∃ j : Kind, j.IsWord ∧ f.values[x]? = some j ∧ narrow = (j == .i32)
  | .load k _ _ => ks = [k]
  | .store k x _ _ => ks = [] ∧ f.values[x]? = some k
  | .stackAddr k s _ => ks = [k] ∧ s < f.slots.size
  | .call r args => ∃ c, f.callees[r]? = some c ∧ ks = c.sig.returns
    ∧ args.map (f.values[·]?) = c.sig.params.map some
  | .useVar k v => ks = [k] ∧ k ≠ .invalid ∧ f.vars[v]? = some k
  | .defVar k v x => ks = [] ∧ k ≠ .invalid ∧ f.vars[v]? = some k ∧ f.values[x]? = some k
  | .jump b _ => ks = [] ∧ b < f.blocks.size
  | .brif _ b c => ks = [] ∧ b < f.blocks.size ∧ c < f.blocks.size
  | .ret vs => ks = [] ∧ vs.map (f.values[·]?) = f.sig.returns.map some

def Inst.Fits (f : Body) (i : Inst) : Prop :=
  ∃ first ks, i.results = List.range' first ks.length
    ∧ (∀ j k, ks[j]? = some k → f.values[first + j]? = some k) ∧ i.action.Fits f ks

theorem Body.Grows.kinds {f g : Body} (h : f.Grows g) {vs : List Value} {ks : List Kind}
    (e : vs.map (f.values[·]?) = ks.map some) : vs.map (g.values[·]?) = ks.map some := by
  induction vs generalizing ks with
  | nil => exact e
  | cons v vs ih =>
    cases ks with
    | nil => simp at e
    | cons k ks =>
      simp only [List.map_cons, List.cons.injEq] at e ⊢
      exact ⟨h.values e.1, ih e.2⟩

theorem Action.Fits.mono {f g : Body} (h : f.Grows g) {ks : List Kind} {a : Action} (ha : a.Fits f ks) :
    a.Fits g ks := by
  have hv := @h.values
  have hs := h.slots_size
  have hb := h.blocks_size
  cases a <;> simp only [Action.Fits] at ha ⊢
  case call r args =>
    obtain ⟨c, hc, hk, hp⟩ := ha
    exact ⟨c, h.callees hc, hk, h.kinds hp⟩
  case ret vs => exact ⟨ha.1, by rw [h.sig]; exact h.kinds ha.2⟩
  case useVar k v => exact ⟨ha.1, ha.2.1, h.vars ha.2.1 ha.2.2⟩
  case defVar k v x => exact ⟨ha.1, ha.2.1, h.vars ha.2.1 ha.2.2.1, hv ha.2.2.2⟩
  case ofInt k n x =>
    obtain ⟨hk, j, hj, hx, hn⟩ := ha
    exact ⟨hk, j, hj, hv hx, hn⟩
  all_goals grind

theorem Inst.Fits.mono {f g : Body} (h : f.Grows g) {i : Inst} (hi : i.Fits f) : i.Fits g := by
  obtain ⟨first, ks, hr, hk, ha⟩ := hi
  exact ⟨first, ks, hr, fun j k e => h.values (hk j k e), ha.mono h⟩

/-- Every instruction fits, and blocks list only instructions that exist. -/
structure Body.WellFormed (f : Body) : Prop where
  insts : ∀ {i : Nat} {x : Inst}, f.insts[i]? = some x → x.Fits f
  listed : ∀ {b : Nat} {x : Block}, f.blocks[b]? = some x → ∀ i ∈ x.insts, i < f.insts.size

theorem Body.Grows.of_blocks {f : Body} {bs : Array Block}
    (h : ∀ {b : Nat} {x : Block}, f.blocks[b]? = some x → ∃ y, bs[b]? = some y ∧ x.insts.toList <+: y.insts.toList
      ∧ x.params <+: y.params ∧ (x.terminated = true → y.insts = x.insts ∧ y.terminated = true)) :
    f.Grows { f with blocks := bs } where
  name := rfl
  sig := rfl
  values h := h
  insts h := h
  vars _ h := h
  slots h := h
  callees h := h
  blocks := h

/-! ## Sound drafts -/

/-- The body is well formed and the current block is one of its blocks. -/
structure FuncDraft.Sound (d : FuncDraft) : Prop where
  body : d.body.WellFormed
  current : ∀ {b : Nat}, d.current = some b → b < d.body.blocks.size

/-- The draft `d'` can come of `d` by building. -/
structure FuncDraft.Leads (d d' : FuncDraft) : Prop where
  sound : d'.Sound
  grows : d.body.Grows d'.body

namespace FuncDraft

theorem Leads.refl {d : FuncDraft} (h : d.Sound) : d.Leads d := ⟨h, .refl _⟩

theorem Leads.trans {d₁ d₂ d₃ : FuncDraft} (h₁ : d₁.Leads d₂) (h₂ : d₂.Leads d₃) : d₁.Leads d₃ :=
  ⟨h₂.sound, h₁.grows.trans h₂.grows⟩

theorem Sound.start (name : Bytes) (sig : Signature) : Sound { body := { name, sig } } where
  body := { insts := by simp, listed := by simp }
  current := by simp

theorem Sound.leads {d : FuncDraft} {g : Body} (h : d.Sound) (hg : d.body.Grows g) (hi : g.insts = d.body.insts)
    (hb : ∀ {b : Nat} {y : Block}, g.blocks[b]? = some y →
      y.insts = #[] ∨ ∃ x, d.body.blocks[b]? = some x ∧ x.insts = y.insts) :
    d.Leads { d with body := g } where
  sound :=
    { body :=
        { insts := fun e => (h.body.insts (hi ▸ e)).mono hg
          listed := by
            intro b y e i m
            rcases hb e with hy | ⟨x, hx, hy⟩
            · simp [hy] at m
            · exact hi ▸ h.body.listed hx i (hy ▸ m) }
      current := fun e => Nat.lt_of_lt_of_le (h.current e) hg.blocks_size }
  grows := hg

/-- The draft with an instruction at the end of block `b`. -/
def add (d : FuncDraft) (b : BlockId) (a : Action) (ks : List Kind) : FuncDraft :=
  { d with body := { d.body with
      values := d.body.values ++ ks.toArray
      insts := d.body.insts.push { action := a, results := List.range' d.body.values.size ks.length }
      blocks := d.body.blocks.modify b fun x => { x with
        insts := x.insts.push d.body.insts.size
        terminated := a.isTerminator } } }

theorem grows_add {d : FuncDraft} {b : BlockId} (h : (d.body.blocks.getD b {}).terminated = false) (a : Action)
    (ks : List Kind) : d.body.Grows (d.add b a ks).body where
  name := rfl
  sig := rfl
  values e := by
    obtain ⟨hv, -⟩ := Array.getElem?_eq_some_iff.1 e
    simp only [add, Array.getElem?_append_left hv, e]
  insts e := by
    obtain ⟨hi, -⟩ := Array.getElem?_eq_some_iff.1 e
    simp only [add, Array.getElem?_push_lt hi, ← e, Array.getElem?_eq_getElem hi]
  vars _ e := e
  slots e := e
  callees e := e
  blocks {c x} e := by
    by_cases hc : b = c
    · subst hc
      refine ⟨{ x with insts := x.insts.push d.body.insts.size, terminated := a.isTerminator }, ?_, ?_⟩
      · simp [add, Array.getElem?_modify, e]
      · have ht : x.terminated = false := by simpa [Array.getD_eq_getD_getElem?, e] using h
        simp [ht]
    · exact ⟨x, by simp [add, Array.getElem?_modify, hc, e], by simp, by simp, by simp⟩

theorem Sound.add {d : FuncDraft} {b : BlockId} {a : Action} {ks : List Kind} (h : d.Sound)
    (hb : (d.body.blocks.getD b {}).terminated = false) (ha : a.Fits d.body ks) : d.Leads (d.add b a ks) where
  grows := grows_add hb a ks
  sound :=
    { body :=
        { insts := by
            intro i x e
            have hg := grows_add hb a ks
            rcases Nat.lt_trichotomy i d.body.insts.size with hi | rfl | hi
            · refine Inst.Fits.mono hg (h.body.insts (i := i) ?_)
              simpa [FuncDraft.add, Array.getElem?_push, Nat.ne_of_lt hi] using e
            · obtain rfl : x = _ := by simpa [FuncDraft.add] using e.symm
              refine ⟨d.body.values.size, ks, rfl, fun j k hj => ?_, ha.mono hg⟩
              simpa [FuncDraft.add, Array.getElem?_append] using hj
            · have := (Array.getElem?_eq_some_iff.1 e).1
              simp only [FuncDraft.add, Array.size_push] at this
              omega
          listed := by
            intro c y e i m
            simp only [FuncDraft.add, Array.getElem?_modify, Array.size_push] at e ⊢
            split at e
            · obtain ⟨x, hx, rfl⟩ := Option.map_eq_some_iff.1 e
              rcases Array.mem_push.1 m with m | rfl
              · exact Nat.lt_succ_of_lt (h.body.listed hx i m)
              · exact Nat.lt_succ_self _
            · exact Nat.lt_succ_of_lt (h.body.listed e i m) }
      current := by
        intro c e
        simpa [FuncDraft.add] using h.current e }

/-- The draft `d'` is `d` with an instruction at the end of its current block, which has none yet. -/
structure Appends (d : FuncDraft) (a : Action) (ks : List Kind) (vs : List Value) (d' : FuncDraft) : Prop where
  fits : a.Fits d.body ks
  results : vs = List.range' d.body.values.size ks.length
  added : ∃ b, d.current = some b ∧ (d.body.blocks.getD b {}).terminated = false ∧ d' = d.add b a ks

theorem Appends.leads {d d' : FuncDraft} {a : Action} {ks : List Kind} {vs : List Value}
    (h : d.Appends a ks vs d') (hd : d.Sound) : d.Leads d' := by
  obtain ⟨b, -, ht, rfl⟩ := h.added
  exact hd.add ht h.fits

end FuncDraft

/-! ## Changes -/

def Build.constant (k : Kind) (n : Int64) : UInt64 := if k = .i32 then n.toUInt64 &&& 0xFFFFFFFF else n.toUInt64

/-- The word of a constant comes from a number, cut to its kind. -/
def Action.IsMade : Action → Prop
  | .iconst k imm => ∃ n, imm = Build.constant k n
  | _ => True

namespace FuncDraft

/-- What building does to a draft at a time. -/
inductive Change : FuncDraft → FuncDraft → Prop
  | append {d d' : FuncDraft} {a : Action} {ks : List Kind} {vs : List Value} (ha : a.IsMade)
    (h : d.Appends a ks vs d') :
    Change d d'
  | block (d : FuncDraft) : Change d { d with body := { d.body with blocks := d.body.blocks.push {} } }
  /-- A value that has no place; the block that should have it does not exist. -/
  | value (d : FuncDraft) (k : Kind) : Change d { d with body := { d.body with values := d.body.values.push k } }
  | param (d : FuncDraft) (b : BlockId) (hb : b < d.body.blocks.size)
      (k : Kind) : Change d { d with body := { d.body with
      values := d.body.values.push k
      blocks := d.body.blocks.modify b fun x => { x with params := x.params ++ [d.body.values.size] } } }
  /-- Names for what instructions refer to, or another current block. -/
  | aside {d d' : FuncDraft} (grows : d.body.Grows d'.body) (values : d'.body.values = d.body.values)
      (insts : d'.body.insts = d.body.insts) (blocks : d'.body.blocks = d.body.blocks)
      (current : ∀ b, d'.current = some b → d.current = some b ∨ b < d.body.blocks.size) : Change d d'

/-- The changes on the way from one draft to another. -/
abbrev Path : FuncDraft → FuncDraft → Prop := Relation.ReflTransGen Change

theorem grows_value (d : FuncDraft) (k : Kind) : d.body.Grows { d.body with values := d.body.values.push k } :=
  { Body.Grows.refl d.body with
    values := fun e => by
      obtain ⟨hv, -⟩ := Array.getElem?_eq_some_iff.1 e
      simp only [Array.getElem?_push_lt hv, ← e, Array.getElem?_eq_getElem hv] }

theorem Change.leads {d d' : FuncDraft} (c : d.Change d') (h : d.Sound) : d.Leads d' := by
  cases c with
  | append _ happ => exact happ.leads h
  | block =>
    refine h.leads (.of_blocks fun e => ?_) rfl fun {b y} e => ?_
    · obtain ⟨hb, -⟩ := Array.getElem?_eq_some_iff.1 e
      refine ⟨_, ?_, List.prefix_rfl, List.prefix_rfl, fun t => ⟨rfl, t⟩⟩
      simp only [Array.getElem?_push_lt hb, ← e, Array.getElem?_eq_getElem hb]
    · rw [Array.getElem?_push] at e
      split at e
      · obtain rfl : {} = y := by simpa using e
        exact .inl rfl
      · exact .inr ⟨y, e, rfl⟩
  | value k => exact h.leads (grows_value d k) rfl fun e => .inr ⟨_, e, rfl⟩
  | param b _ k =>
    refine h.leads ((grows_value d k).trans (.of_blocks fun {c x} e => ?_)) rfl fun {c y} e => ?_
    · have hx : d.body.blocks[c]? = some x := e
      by_cases hc : b = c
      · refine ⟨{ x with params := x.params ++ [d.body.values.size] }, by simp [Array.getElem?_modify, hc, hx],
          List.prefix_rfl, List.prefix_append .., fun t => ⟨rfl, t⟩⟩
      · exact ⟨x, by simp [Array.getElem?_modify, hc, hx], List.prefix_rfl, List.prefix_rfl, fun t => ⟨rfl, t⟩⟩
    · rw [Array.getElem?_modify] at e
      split at e
      · obtain ⟨x, hx, rfl⟩ := Option.map_eq_some_iff.1 e
        exact .inr ⟨x, hx, rfl⟩
      · exact .inr ⟨y, e, rfl⟩
  | aside grows values insts blocks current =>
    refine ⟨⟨?_, fun {b} e => ?_⟩, grows⟩
    · refine { insts := fun e => (h.body.insts (insts ▸ e)).mono grows, listed := fun e i m => ?_ }
      rw [insts]
      exact h.body.listed (blocks ▸ e) i m
    · rw [blocks]
      exact (current b e).elim h.current id

theorem Path.isMade {d d' : FuncDraft} (p : d.Path d') (h : ∀ i ∈ d.body.insts, i.action.IsMade) :
    ∀ i ∈ d'.body.insts, i.action.IsMade := by
  induction p with
  | refl => exact h
  | tail _ c ih =>
    cases c with
    | append ha happ =>
      obtain ⟨b, -, -, rfl⟩ := happ.added
      intro i hi
      rcases Array.mem_push.1 hi with hi | rfl
      · exact ih i hi
      · exact ha
    | block => exact ih
    | value => exact ih
    | param => exact ih
    | aside _ _ insts => rwa [insts]

theorem Path.leads {d d' : FuncDraft} (p : d.Path d') (h : d.Sound) : d.Leads d' := by
  induction p with
  | refl => exact .refl h
  | tail _ c ih => exact ih.trans (c.leads ih.sound)

end FuncDraft

end RecordMill.Machine

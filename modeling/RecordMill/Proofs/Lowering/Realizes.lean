import RecordMill.Proofs.Lowering.Direct
import RecordMill.Proofs.Machine.Extension
import RecordMill.Proofs.Machine.Words

/-!
# Code that does what an emitter does

## Where lowered code runs

A site is a function of a module together with a stack area. The cells of a call match a store when every
variable holds what its register, its address or its iterator holds there, and the memory holds the
globals.
-/

namespace RecordMill

open Machine (Kind Value VarId Cells Outside Memory Body FuncDraft)

/-! ## Places for words -/

/-- The kind of the words of a type; an iterator has none of its own. -/
def Ty.words : Ty → Kind
  | .float => .f64
  | .str => .i128
  | _ => .i64

theorem Ty.kind_eq {t : Ty} {k : Kind} (h : t.kind = .ok k) : k = t.words := by
  cases t <;> cases h <;> rfl

theorem Ty.words_ne_invalid (t : Ty) : t.words ≠ .invalid := by
  cases t <;> simp [Ty.words]

/-- What a function keeps in a variable. -/
inductive Place where
  | context
  /-- The words of a local, or the address of a global. -/
  | reg (r : Reg)
  | keys (r : Reg)
  | position (r : Reg)
  deriving DecidableEq

namespace Scope

def var? (s : Scope) : Place → Option VarId
  | .context => some contextVar
  | .reg r => (s.binding? r).map (·.var)
  | .keys r => (s.cursor? r).map (·.keys)
  | .position r => (s.cursor? r).map (·.position)

def isGlobal (s : Scope) (r : Reg) : Bool := (s.binding? r).any (·.isGlobal)

def kindOf (s : Scope) : Place → Kind
  | .reg r => if s.isGlobal r then .i64 else r.ty.words
  | _ => .i64

end Scope

structure Site where
  given : Surroundings
  module : Machine.Module Service
  body : Body
  literals : List Bytes
  area : Nat
  room : Nat
  /-- The words of the memory, and those below the stack. -/
  length : Nat
  base : Nat

namespace Site

def scope (S : Site) : Scope := S.given.scope

def setting (S : Site) : Direct.Setting :=
  { program := S.given.program, scope := S.given.scope, literals := S.literals }

def stack (S : Site) : UInt64 := Memory.addressOf S.area

def address (S : Site) (g : Reg) : UInt64 := (S.given.addresses.lookup g).getD 0

def index (S : Site) (g : Reg) : Nat := (S.address g).toNat / 8

/-- What code relies on that does not change while it runs. -/
structure Sound (S : Site) : Prop where
  services : ∀ s : Service, ∃ id e d, S.given.module.lookup? s.name = some id ∧ S.given.module.funcs[id]? = some e
    ∧ e.sig = s.sig ∧ S.module.funcs[id]? = some d ∧ d.host = some s ∧ d.sig = s.sig
  returns : ∀ {id : Nat} {e : Machine.FuncDecl Service}, S.given.module.funcs[id]? = some e →
    ∀ k ∈ e.sig.returns, k ≠ .invalid
  vars : ∀ {pl v}, S.scope.var? pl = some v → S.body.vars[v]? = some (S.scope.kindOf pl)
  counted : ∀ {r b}, S.scope.binding? r = some b → b.isGlobal → b.isLiteral = false
  apart : ∀ {pl pl' v}, S.scope.var? pl = some v → S.scope.var? pl' = some v → pl = pl'
  address : ∀ {g}, S.scope.isGlobal g → S.address g = Memory.addressOf (S.index g) ∧ 0 < S.index g
    ∧ S.index g + g.ty.words.words ≤ S.base
  disjoint : ∀ {g g'}, S.scope.isGlobal g → S.scope.isGlobal g' → g ≠ g' →
    S.index g + g.ty.words.words ≤ S.index g' ∨ S.index g' + g'.ty.words.words ≤ S.index g
  positive : 0 < S.base
  base : S.base ≤ S.area
  area : S.area + S.room ≤ S.length
  length : S.length ≤ Memory.maxIndex
  slots : ∀ {s j : Nat} {w : Int64} {k : Kind} {o : Int32} {rs : List Value}, S.body.slots[s]? = some w →
    S.body.insts[j]? = some ⟨.stackAddr k s o, rs⟩ →
    ∃ off, S.body.slotPlace s 0 = UInt64.ofNat (8 * off) ∧ off + w.toInt.toNat ≤ S.room

def content (S : Site) (δ : Direct.Store) : Place → List UInt64
  | .context => Direct.contextWord
  | .reg r => if S.scope.isGlobal r then [S.address r] else δ.locals r
  | .keys r => [δ.keys r]
  | .position r => [δ.position r]

def words (S : Site) (δ : Direct.Store) (r : Reg) :
    List UInt64 := if S.scope.isGlobal r then δ.globals r else δ.locals r

structure Matches (S : Site) (δ : Direct.Store) (c : Cells) (out : Outside Context) : Prop where
  host : out.host = δ.context
  flow : δ.flow = .on
  sized : ∀ {v : Nat} {k : Kind}, S.body.values[v]? = some k → (c.value v).length = k.words
  vars : ∀ {pl v}, S.scope.var? pl = some v → c.var v = S.content δ pl
  words : ∀ {r}, (S.scope.binding? r).isSome → (S.words δ r).length = r.ty.words.words
  globals : ∀ {g}, S.scope.isGlobal g → out.memory.Holds (S.index g) (δ.globals g)
  length : out.memory.length = S.length
  sp : out.memory.sp.toNat = S.area + S.room

end Site

/-! ## What is known of values -/

/-- What is known of a draft, of cells and of the stack, and stays so while code is added and runs. -/
structure Known (S : Site) where
  Holds : FuncDraft → Cells → Memory → Prop
  stable : ∀ {d d' : FuncDraft} {c c' : Cells} {m m' : Memory}, Holds d c m → d.body.Grows d'.body →
    (∀ v, v < d.body.values.size → c'.value v = c.value v) → (∀ i, S.base ≤ i → m'.get i = m.get i) → Holds d' c' m'

namespace Known

variable {S : Site}

def nothing (S : Site) : Known S := ⟨fun _ _ _ => True, fun _ _ _ _ => trivial⟩

def and (K L : Known S) : Known S :=
  ⟨fun d c m => K.Holds d c m ∧ L.Holds d c m,
    fun h hg hc hm => ⟨K.stable h.1 hg hc hm, L.stable h.2 hg hc hm⟩⟩

def fact (S : Site) (P : Prop) : Known S := ⟨fun _ _ _ => P, fun h _ _ _ => h⟩

def values (S : Site) (vs : List Value) (ks : List Kind) (wss : List (List UInt64)) : Known S where
  Holds d c _ := vs.map (d.body.values[·]?) = ks.map some ∧ vs.map c.value = wss
    ∧ wss.map List.length = ks.map Kind.words
  stable {d d' c c' _ _} h hg hc _ := by
    refine ⟨hg.kinds h.1, h.2.1 ▸ List.map_congr_left fun v hv => hc v ?_, h.2.2⟩
    have hk : d.body.values[v]? ∈ ks.map some := h.1 ▸ List.mem_map_of_mem hv
    obtain ⟨k, -, hk⟩ := List.mem_map.1 hk
    exact (Array.getElem?_eq_some_iff.1 hk.symm).1

def value (S : Site) (v : Value) (k : Kind) (ws : List UInt64) : Known S := values S [v] [k] [ws]

def stacked (S : Site) (i n : Nat) (ws : List UInt64) : Known S where
  Holds _ _ m := S.base ≤ i ∧ m.Holds i ws ∧ ws.length = n
  stable h _ _ hm := ⟨h.1, fun j w hw => (hm (i + j) (by have := h.1; omega)).trans (h.2.1 j w hw), h.2.2⟩

def any {ι : Type} (P : ι → Known S) : Known S :=
  ⟨fun d c m => ∃ i, (P i).Holds d c m, fun ⟨i, h⟩ hg hc hm => ⟨i, (P i).stable h hg hc hm⟩⟩

/-- What `L` says is known when `K` is. -/
structure Gives (K L : Known S) : Prop where
  of : ∀ {d c m}, K.Holds d c m → L.Holds d c m

namespace Gives

variable {K L M : Known S}

theorem refl : K.Gives K := ⟨fun h => h⟩

theorem last : (K.and L).Gives L := ⟨fun h => h.2⟩

theorem left (h : K.Gives M) : (K.and L).Gives M := ⟨fun hK => h.of hK.1⟩

theorem right (h : L.Gives M) : (K.and L).Gives M := ⟨fun hK => h.of hK.2⟩

theorem nothing : K.Gives (nothing S) := ⟨fun _ => trivial⟩

end Gives

/-- Nothing of it is about the words of the memory from index `i` up to `j`. -/
def Apart (K : Known S) (i j : Nat) : Prop :=
  ∀ d c m m', K.Holds d c m → (∀ k, k < i ∨ j ≤ k → Memory.get m' k = Memory.get m k) → K.Holds d c m'

namespace Apart

variable {K L : Known S} {i j k l : Nat}

theorem and (hK : K.Apart i j) (hL : L.Apart i j) : (K.and L).Apart i j :=
  fun _ _ _ _ h hm => ⟨hK _ _ _ _ h.1 hm, hL _ _ _ _ h.2 hm⟩

theorem mono (h : K.Apart i j) (hi : i ≤ k) (hj : l ≤ j) : K.Apart k l :=
  fun _ _ _ _ hK hm => h _ _ _ _ hK fun k hk => hm k (by omega)

theorem nothing : (nothing S).Apart i j := fun _ _ _ _ _ _ => trivial

theorem fact {P : Prop} : (fact S P).Apart i j := fun _ _ _ _ h _ => h

theorem values {vs : List Value} {ks : List Kind} {wss : List (List UInt64)} : (values S vs ks wss).Apart i j :=
  fun _ _ _ _ h _ => h

theorem value {v : Value} {k : Kind} {ws : List UInt64} : (value S v k ws).Apart i j := values

theorem stacked {n : Nat} {ws : List UInt64} : (stacked S i n ws).Apart (i + n) j :=
  fun _ _ _ _ h hm => ⟨h.1, fun k w hw => (hm _ (by
    have := (List.getElem?_eq_some_iff.1 hw).1
    have := h.2.2
    omega)).trans (h.2.1 k w hw), h.2.2⟩

end Apart

end Known

end RecordMill

/-!
## What the code does

Lowering adds straight-line code to a block. The code realizes a step of the direct emitter when, run on
cells that match a store, it leaves cells that match the store after the step, or traps as the step does.
-/

namespace RecordMill

open Machine (Kind Value VarId BlockId Cells Outside Memory Body FuncDraft Build Inst Action Trap execAll)

/-! ## The two emitters as functions -/

namespace Native

variable {α β : Type} {s : Surroundings} {p p' : Progress}

theorem bind_apply (x : Native α) (f : α → Native β) (s : Surroundings) (p : Progress) :
    (x >>= f) s p = match x s p with
      | (.ok a, p') => f a s p'
      | (.error e, p') => (.error e, p') := by
  show (match x s p with | (r, p') => ExceptT.bindCont (fun a => f a s) r p') = _
  rcases x s p with ⟨_ | a, p'⟩ <;> rfl

theorem bind_eq_ok {x : Native α} {f : α → Native β} {b : β} (h : (x >>= f) s p = (.ok b, p')) :
    ∃ a q, x s p = (.ok a, q) ∧ f a s q = (.ok b, p') := by
  rw [bind_apply] at h
  rcases hx : x s p with ⟨_ | a, q⟩
  · rw [hx] at h
    cases h
  · rw [hx] at h
    exact ⟨a, q, rfl, h⟩

theorem build_apply (o : Build α) (s : Surroundings) (p : Progress) : build o s p = match o p.draft with
    | (.ok a, d) => (.ok a, ⟨d, p.literals⟩)
    | (.error f, d) => (.error (.misuse f), ⟨d, p.literals⟩) := rfl

theorem build_eq_ok {o : Build α} {a : α} (h : build o s p = (.ok a, p')) :
    ∃ d, o p.draft = (.ok a, d) ∧ p' = ⟨d, p.literals⟩ := by
  rw [build_apply] at h
  rcases ho : o p.draft with ⟨_ | a', d'⟩
  · rw [ho] at h
    cases h
  · rw [ho] at h
    cases h
    exact ⟨d', rfl, rfl⟩

end Native

theorem Direct.bind_apply {α β : Type} (x : Direct α) (f : α → Direct β) (e : Direct.Setting) (δ : Direct.Store) :
    (x >>= f) e δ = match x e δ with
      | (.ok a, δ') => f a e δ'
      | (.error h, δ') => (.error h, δ') := by
  show (match x e δ with | (r, δ') => ExceptT.bindCont (fun a => f a e) r δ') = _
  rcases x e δ with ⟨_ | a, δ'⟩ <;> rfl

theorem Direct.bind_eq_ok {α β : Type} {x : Direct α} {f : α → Direct β} {e : Direct.Setting}
    {δ δ' : Direct.Store} {b : β} (h : (x >>= f) e δ = (.ok b, δ')) :
    ∃ a δ₁, x e δ = (.ok a, δ₁) ∧ f a e δ₁ = (.ok b, δ') := by
  rw [bind_apply] at h
  rcases hx : x e δ with ⟨_ | a, δ₁⟩
  · rw [hx] at h
    cases h
  · rw [hx] at h
    exact ⟨a, δ₁, rfl, h⟩

/-! ## Agreement -/

namespace Site

/-- Instructions can be added to block `b`, and callees are known by the signatures of the module. -/
structure Ongoing (S : Site) (p : Progress) (b : BlockId) : Prop where
  ready : p.draft.Ready b
  callees : ∀ {r : Nat} {c : Machine.Callee}, p.draft.body.callees[r]? = some c →
    ∃ e, S.given.module.funcs[c.id]? = some e ∧ e.sig = c.sig

/-- Straight-line code of at least `n` instructions was added to block `b`. -/
structure Adds (S : Site) (n : Nat) (b : BlockId) (p p' : Progress) : Prop where
  ongoing : S.Ongoing p' b
  segment : ∃ seg, p.draft.Extends b seg p'.draft ∧ n ≤ seg.length
  literals : p.literals <+: p'.literals

def exec (S : Site) (seg : List Inst) (c : Cells) (out : Outside Context) :
    Option (Except Trap Cells × Outside Context) :=
  execAll S.module Service.perform S.body S.stack seg c out

theorem exec_append (S : Site) (xs ys : List Inst) (c : Cells) (out : Outside Context) :
    S.exec (xs ++ ys) c out = match S.exec xs c out with
      | some (.ok c, out) => S.exec ys c out
      | r => r := by
  unfold exec
  rw [Machine.execAll_append]
  rcases execAll S.module Service.perform S.body S.stack xs c out with _ | ⟨_ | c, out⟩ <;> rfl

/-- What came of the code is what came of the step. -/
inductive Agrees {β : Type} (S : Site) (K : Known S) (R : β → Known S) (d : FuncDraft) :
    Option (Except Trap Cells × Outside Context) → Except Direct.Halt β × Direct.Store → Prop
  | done {c : Cells} {out : Outside Context} {b : β} {δ : Direct.Store} (sound : S.Matches δ c out)
      (kept : K.Holds d c out.memory) (known : (R b).Holds d c out.memory) :
      Agrees S K R d (some (.ok c, out)) (.ok b, δ)
  | trapped {t : Trap} {out : Outside Context} {δ : Direct.Store} (host : out.host = δ.context) :
      Agrees S K R d (some (.error t, out)) (.error (.trap t), δ)

end Site

/-- The code that `x` adds does what `D` does. `K` is known before and stays known; `R` is known after. -/
structure Realizes (S : Site) {α β : Type} (K : Known S) (n : Nat) (x : Native α) (D : Direct β)
    (R : α → β → Known S) : Prop where
  adds : ∀ {p p' : Progress} {b : BlockId} {a : α}, S.Ongoing p b → x S.given p = (.ok a, p') → S.Adds n b p p'
  does : ∀ {p p' : Progress} {b : BlockId} {a : α} {seg : List Inst}, S.Ongoing p b → x S.given p = (.ok a, p') →
    p.draft.Extends b seg p'.draft → p'.draft.body.Grows S.body → p'.literals <+: S.literals →
    ∀ {δ : Direct.Store} {c : Cells} {out : Outside Context}, S.Matches δ c out → K.Holds p.draft c out.memory →
      S.Agrees K (R a) p'.draft (S.exec seg c out) (D S.setting δ)

namespace Realizes

variable {S : Site} {α β γ ε : Type} {K L : Known S} {n m : Nat} {x : Native α} {D : Direct β} {R : α → β → Known S}

theorem append [Nonempty β] {f : α → Native γ} {g : β → Direct ε} {T : γ → ε → Known S} (hx : Realizes S K n x D R)
    (hf : ∀ a b, Realizes S (K.and (R a b)) m (f a) (g b) T) : Realizes S K (n + m) (x >>= f) (D >>= g) T where
  adds {p p'' b c} hp h := by
    obtain ⟨a, p', hxp, hfp⟩ := Native.bind_eq_ok h
    obtain ⟨hp', ⟨s, hs, hn⟩, hl⟩ := hx.adds hp hxp
    obtain ⟨hp'', ⟨s', hs', hm⟩, hl'⟩ := (hf a (Classical.choice inferInstance)).adds hp' hfp
    exact ⟨hp'', ⟨s ++ s', hs.trans hp.ready hs', by rw [List.length_append]; omega⟩, hl.trans hl'⟩
  does {p p'' b r seg} hp h hseg hgrows hlits δ c out hmatch hK := by
    obtain ⟨a, p', hxp, hfp⟩ := Native.bind_eq_ok h
    obtain ⟨hp', ⟨s, hs, -⟩, -⟩ := hx.adds hp hxp
    obtain ⟨-, ⟨s', hs', -⟩, hl'⟩ := (hf a (Classical.choice inferInstance)).adds hp' hfp
    obtain rfl := hseg.unique (hs.trans hp.ready hs')
    have h₁ := hx.does hp hxp hs (hs'.grows.trans hgrows) (hl'.trans hlits) hmatch hK
    rw [Site.exec_append, Direct.bind_apply]
    generalize S.exec s c out = e at h₁ ⊢
    generalize D S.setting δ = r at h₁ ⊢
    cases h₁ with
    | trapped h => exact .trapped h
    | @done c' out' b δ' hmatch' hK' hR =>
      have h₂ := (hf a b).does hp' hfp hs' hgrows hlits hmatch' ⟨hK', hR⟩
      dsimp only
      generalize S.exec s' c' out' = e at h₂ ⊢
      generalize g b S.setting δ' = r at h₂ ⊢
      cases h₂ with
      | trapped h => exact .trapped h
      | done hmatch'' hK'' hT => exact .done hmatch'' hK''.1 hT

theorem weaken (h : Realizes S K n x D R) {m : Nat} (hm : m ≤ n) {T : α → β → Known S}
    (hT : ∀ a b, (R a b).Gives (T a b)) :
    Realizes S K m x D T where
  adds hp hx := by
    obtain ⟨hp', ⟨s, hs, hn⟩, hl⟩ := h.adds hp hx
    exact ⟨hp', ⟨s, hs, by omega⟩, hl⟩
  does {p p' b a seg} hp hx hseg hgrows hlits δ c out hmatch hK := by
    have h₁ := h.does hp hx hseg hgrows hlits hmatch hK
    generalize S.exec seg c out = e at h₁ ⊢
    generalize D S.setting δ = r at h₁ ⊢
    cases h₁ with
    | trapped h => exact .trapped h
    | done hmatch' hK' hR => exact .done hmatch' hK' ((hT _ _).of hR)

theorem any (h : Realizes S K n x D R) : Realizes S K 0 x D R := h.weaken (Nat.zero_le _) fun _ _ => .refl

section

variable [Nonempty β] {f : α → Native γ} {g : β → Direct ε} {T : γ → ε → Known S}

theorem bind (hx : Realizes S K n x D R) (hf : ∀ a b, Realizes S (K.and (R a b)) 0 (f a) (g b) T) :
    Realizes S K n (x >>= f) (D >>= g) T :=
  append hx hf

theorem next (hx : Realizes S K m x D R) (hf : ∀ a b, Realizes S (K.and (R a b)) n (f a) (g b) T) :
    Realizes S K n (x >>= f) (D >>= g) T :=
  (append hx hf).weaken (Nat.le_add_left ..) fun _ _ => .refl

end

theorem pure {a : α} {b : β} (h : K.Gives (R a b)) : Realizes S K 0 (Pure.pure a) (Pure.pure b) R where
  adds {p p' _ _} hp hx := by
    cases hx
    exact ⟨hp, ⟨[], .refl hp.ready, Nat.le_refl _⟩, List.prefix_rfl⟩
  does {p p' _ _ _} hp hx hseg _ _ _ _ _ hmatch hK := by
    cases hx
    obtain rfl := hseg.unique (.refl hp.ready)
    exact .done hmatch hK (h.of hK)

theorem stop {s : Stop} : Realizes S K n (throw s) D R where
  adds _ hx := by cases hx
  does _ hx := by cases hx

end Realizes

end RecordMill

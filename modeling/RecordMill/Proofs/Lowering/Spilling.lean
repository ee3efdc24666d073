import Mathlib.Algebra.Ring.Nat
import RecordMill.Proofs.Lowering.Instructions

/-!
# Arguments on the stack

Printing passes its arguments in a block of words on the stack: two words for each string, or three for
each argument of a format. The host reads from there what the registers held.
-/

namespace RecordMill

open Machine (Kind Value VarId BlockId Cells Outside Memory Body FuncDraft Build Inst Action Trap Callee)

/-- So many words from an index on lie in a slot of the stack area. -/
structure Site.Spare (S : Site) (i words : Nat) : Prop where
  base : S.base ≤ i
  room : i + words ≤ S.length
  slot : ∃ s off, S.body.slots[s]? = some (max 1 words).toInt64 ∧ S.body.slotPlace s 0 = UInt64.ofNat (8 * off)
    ∧ i = S.area + off
    ∧ ∃ k o rs, ⟨.stackAddr k s o, rs⟩ ∈ S.body.insts

namespace Realizes

variable {S : Site} {α β γ ε : Type} {K : Known S} {n m : Nat} {x : Native α} {D : Direct β} {R : α → β → Known S}

/-! ## The block -/

theorem given_any {ι : Type} [Nonempty ι] {P : ι → Known S} (h : ∀ i, Realizes S (K.and (P i)) n x D R) :
    Realizes S (K.and (Known.any P)) n x D R where
  adds := (h (Classical.choice inferInstance)).adds
  does {p p' b a seg} hp hx hseg hgrows hlits δ c out hmatch hK := by
    obtain ⟨hK, i, hP⟩ := hK
    have h₁ := (h i).does hp hx hseg hgrows hlits hmatch ⟨hK, hP⟩
    generalize S.exec seg c out = e at h₁ ⊢
    generalize D S.setting δ = r at h₁ ⊢
    cases h₁ with
    | trapped h => exact .trapped h
    | done hmatch' hK' hR => exact .done hmatch' ⟨hK'.1, i, hK'.2⟩ hR

def slot (S : Site) (s : Machine.SlotId) (w : Int64) : Known S where
  Holds d _ _ := d.body.slots[s]? = some w
  stable h hg _ _ := hg.slots h

theorem createSlot (w : Int64) :
    Realizes S K 0 (Native.build (Build.createSlot w)) (Pure.pure ()) fun s _ => slot S s w := by
  have key : ∀ {p : Progress} {d' : FuncDraft} {b : BlockId} {s : Machine.SlotId}, S.Ongoing p b →
      Build.createSlot w p.draft = (.ok s, d') → p.draft.Extends b [] d' ∧ d'.body.callees = p.draft.body.callees
        ∧ d'.body.slots[s]? = some w := by
    intro p d' b s hp hb
    have hl := Build.wp_ok ((Build.Traced.createSlot w).safe p.draft hp.ready.sound) hb
    cases hb
    refine ⟨.of_same hp.ready hl rfl rfl rfl (fun h => h) fun hc h => ?_, rfl, by simp⟩
    have := (Array.getElem?_eq_some_iff.1 h).1
    exact absurd this (Nat.not_lt.2 hc)
  exact
    { adds := fun {p p' b s} hp hx => by
        obtain ⟨d', hb, rfl⟩ := Native.build_eq_ok hx
        obtain ⟨hext, hcallees, -⟩ := key hp hb
        exact ⟨⟨hext.ready, fun {r c} h => hp.callees (r := r) (hcallees ▸ h)⟩, ⟨[], hext, Nat.le_refl 0⟩,
          List.prefix_rfl⟩
      does := fun {p p' b s seg} hp hx hseg hgrows _ δ c out hmatch hK => by
        obtain ⟨d', hb, rfl⟩ := Native.build_eq_ok hx
        obtain ⟨hext, -, hslot⟩ := key hp hb
        obtain rfl := hseg.unique hext
        exact .done hmatch (K.stable hK hext.grows (fun _ _ => rfl) fun _ _ => rfl) hslot }

def spare (S : Site) (i words : Nat) : Known S := Known.fact S (S.Spare i words)

/-- A value is the address of so many words on the stack. -/
def pointer (S : Site) (v : Value) (words : Nat) : Known S :=
  Known.any fun i => (Known.value S v .i64 [Memory.addressOf i]).and (spare S i words)

theorem argumentBlock (hS : S.Sound) (words : Nat) (hw : words < 2 ^ 60) :
    Realizes S K 1 (Native.argumentBlock words) (Pure.pure ()) fun v _ => pointer S v words := by
  refine first (createSlot _) fun s => ?_
  refine of_inst fun {p d' b v} hp hb => ?_
  have happ := Build.wp_ok (Build.stackAddr_wp .i64 s 0) hb
  refine ⟨_, _, _, happ, rfl, by simp, fun hgrows {δ c out} hmatch hK => ?_⟩
  have hgrow := (happ.leads hp.ready.sound).grows
  have hinst : d'.body.insts[p.draft.body.insts.size]? = some ⟨.stackAddr .i64 s 0, [v]⟩ := by
    obtain ⟨b, -, -, rfl⟩ := happ.added
    rw [happ.results]
    simp [FuncDraft.add]
  obtain ⟨off, hplace, hroom⟩ := hS.slots ((hgrow.trans hgrows).slots hK.2) (hgrows.insts hinst)
  have haddr : S.stack + S.body.slotPlace s 0 = Memory.addressOf (S.area + off) := by
    rw [hplace, Memory.addressOf_add, Site.stack]
  have hwords : (max 1 words).toInt64.toInt.toNat = max 1 words := by
    rw [Nat.toInt64, Int64.toInt_ofNat_of_lt (by omega)]
    rfl
  have hsize := hmatch.sized (hgrows.values happ.kind)
  rw [Machine.Inst.exec_of_act (by simp), Action.act, haddr]
  have hend := hS.area
  have hslot := (hgrow.trans hgrows).slots hK.2
  refine .done (hmatch.deal _ _) ((K.and _).deal hK hp.ready.sound happ _)
    ⟨S.area + off, ?_, ?_, ?_, s, off, hslot, hplace, rfl, _, _, _, Array.mem_of_getElem? (hgrows.insts hinst)⟩
  · exact .value happ.kind (c.deal_singleton hsize.symm) rfl
  · exact Nat.le_trans hS.base (Nat.le_add_right ..)
  · omega

/-! ## Storing arguments -/

theorem toUInt64_offset {n : Nat} (h : 8 * n < 2 ^ 31) :
    (Int32.ofNat (8 * n)).toInt64.toUInt64 = UInt64.ofNat (8 * n) := by
  have h32 : (Int32.ofNat (8 * n)).toInt = 8 * n := by
    rw [Int32.toInt_ofNat_of_lt (by omega)]
    rfl
  have h64 : (Int32.ofNat (8 * n)).toInt64 = Int64.ofNat (8 * n) := by
    apply Int64.toInt_inj.1
    rw [Int32.toInt_toInt64, h32, Int64.toInt_ofNat_of_lt (by omega)]
    rfl
  rw [h64]
  rfl

theorem storeStack (hS : S.Sound) {i n words : Nat} {q v : Value} {k : Kind} {ws : List UInt64}
    (hi : K.Gives (spare S i words)) (hroom : n + k.words ≤ words)
    (hq : K.Gives (Known.value S q .i64 [Memory.addressOf i])) (hv : K.Gives (Known.value S v k ws))
    (hK : K.Apart (i + n) (i + n + k.words)) (hoff : 8 * n < 2 ^ 31) :
    Realizes S K 1 (Native.build (Build.store v q (Int32.ofNat (8 * n)))) (Pure.pure ())
      fun _ _ => Known.stacked S (i + n) k.words ws := by
  refine of_inst fun {p d' b _} hp hb => ?_
  obtain ⟨k', happ⟩ := Build.wp_ok (Build.store_wp v q (Int32.ofNat (8 * n))) hb
  refine ⟨_, [], [], happ, rfl, by simp, fun hgrows {δ c out} hmatch hknown => ?_⟩
  have hgrow := (happ.leads hp.ready.sound).grows
  have hwords : c.value v = ws := Known.value_words (hv.of hknown)
  have hlen : ws.length = k.words := Known.value_length (hv.of hknown)
  obtain ⟨hbase, hend, -⟩ : S.Spare i words := hi.of hknown
  have hpos := hS.positive
  have hlength : i + n + ws.length ≤ out.memory.length := by
    rw [hlen, hmatch.length]
    omega
  obtain ⟨mem, hstore, hs⟩ := Memory.storeAll_addressOf ws (by omega) hlength (hmatch.length ▸ hS.length)
  have hexec : Inst.exec S.module Service.perform S.body S.stack ⟨.store k' v q (Int32.ofNat (8 * n)), []⟩ c out
      = some (.ok c, { out with memory := mem }) := by
    rw [Machine.Inst.exec_of_act (by simp), Action.act, Known.value_word (hq.of hknown), hwords, toUInt64_offset hoff]
    show Option.map _ (some ((out.memory.storeAll (Memory.addressOf i + UInt64.ofNat (8 * n)) ws).1.map _,
      (out.memory.storeAll (Memory.addressOf i + UInt64.ofNat (8 * n)) ws).2)) = _
    rw [← Memory.addressOf_add, hstore]
    rfl
  rw [hexec]
  have hkept : K.Holds d' c mem := by
    refine hK _ _ _ _ (K.stable hknown hgrow (fun _ _ => rfl) fun _ _ => rfl) fun j hj => hs.others j (hlen ▸ hj)
  refine .done ?_ hkept ⟨by omega, hs.holds, hlen⟩
  exact
    { host := hmatch.host
      flow := hmatch.flow
      sized := hmatch.sized
      vars := hmatch.vars
      words := hmatch.words
      globals := fun {g} hg => hs.keeps (hmatch.globals hg) (by
        have := (hS.address hg).2.2
        have := Site.length_globals hmatch hg
        omega)
      length := hs.length.trans hmatch.length
      sp := hs.sp ▸ hmatch.sp }

def StringsAt (m : Memory) : Nat → List (List UInt64) → Prop
  | _, [] => True
  | i, ws :: wss => (m.Holds i ws ∧ ws.length = 2) ∧ StringsAt m (i + 2) wss

theorem StringsAt.congr {m m' : Memory} {i : Nat} {wss : List (List UInt64)} (h : StringsAt m i wss)
    (hm : ∀ j, i ≤ j → m'.get j = m.get j) : StringsAt m' i wss := by
  induction wss generalizing i with
  | nil => trivial
  | cons ws wss ih =>
    exact ⟨⟨fun j w hw => (hm _ (by omega)).trans (h.1.1 j w hw), h.1.2⟩, ih h.2 fun j hj => hm j (by omega)⟩

def strings (S : Site) (i : Nat) (wss : List (List UInt64)) : Known S where
  Holds _ _ m := S.base ≤ i ∧ StringsAt m i wss
  stable h _ _ hm := ⟨h.1, h.2.congr fun j hj => hm j (by have := h.1; omega)⟩

theorem spillStrings (hS : S.Sound) {i words : Nat} {q : Value} {args : List Reg}
    (hargs : ∀ r ∈ args, r.ty = .str) (n : Nat) (hi : K.Gives (spare S i words)) (hroom : n + 2 * args.length ≤ words)
    (hq : K.Gives (Known.value S q .i64 [Memory.addressOf i])) (hK : K.Apart (i + n) (i + words))
    (hoff : 8 * words < 2 ^ 31) :
    Realizes S K 0 (Native.spillStrings q (8 * n) args) (args.mapM Direct.value)
      fun _ wss => (strings S (i + n) wss).and (Known.fact S (wss.length = args.length)) := by
  induction args generalizing K n with
  | nil => exact pure ⟨fun hk => ⟨⟨Nat.le_add_right_of_le (hi.of hk).base, trivial⟩, rfl⟩⟩
  | cons r args ih =>
    rw [List.length_cons] at hroom
    rw [Native.spillStrings, List.mapM_cons]
    refine bind (value hS r).any fun v ws => ?_
    rw [hargs r (List.mem_cons_self ..)]
    refine first (storeStack hS (k := .i128) (n := n) hi.left (by simp only [Kind.words]; omega) hq.left .last
      (.and (hK.mono (Nat.le_refl _) (by simp only [Kind.words]; omega)) .value) (by omega)) fun _ => ?_
    rw [← bind_pure (Native.spillStrings q (8 * n + 16) args)]
    refine bind (ih (fun r hr => hargs r (List.mem_cons_of_mem _ hr)) (n + 2) hi.left.left (by omega) hq.left.left ?_)
      fun _ wss => ?_
    · exact .and (.and (hK.mono (by omega) (Nat.le_refl _)) .value) .stacked
    · exact pure ⟨fun h => ⟨⟨h.1.2.1, h.1.2.2, h.2.1.2⟩, congrArg (· + 1) h.2.2⟩⟩

/-- Arguments of a format stand one after another, each with a word that says what it is. -/
def ArgsAt (m : Memory) : Nat → List Reg → List (List UInt64) → Prop
  | _, [], [] => True
  | i, r :: rs, ws :: wss =>
    (m.Holds i [(Native.argCode r.ty).toUInt64] ∧ m.Holds (i + 1) ws ∧ ws.length = r.ty.words.words)
      ∧ ArgsAt m (i + 3) rs wss
  | _, _, _ => False

theorem ArgsAt.congr {m m' : Memory} {i : Nat} {rs : List Reg} {wss : List (List UInt64)} (h : ArgsAt m i rs wss)
    (hm : ∀ j, i ≤ j → m'.get j = m.get j) : ArgsAt m' i rs wss := by
  induction rs generalizing i wss with
  | nil =>
    cases wss with
    | nil => trivial
    | cons ws wss => exact h
  | cons r rs ih =>
    cases wss with
    | nil => exact h
    | cons ws wss =>
      obtain ⟨⟨hcode, hws, hlen⟩, h⟩ := h
      exact ⟨⟨fun j w hw => (hm _ (by omega)).trans (hcode j w hw), fun j w hw =>
        (hm _ (by omega)).trans (hws j w hw), hlen⟩,
        ih h fun j hj => hm j (by omega)⟩

def arguments (S : Site) (i : Nat) (rs : List Reg) (wss : List (List UInt64)) : Known S where
  Holds _ _ m := S.base ≤ i ∧ ArgsAt m i rs wss
  stable h _ _ hm := ⟨h.1, h.2.congr fun j hj => hm j (by have := h.1; omega)⟩

theorem words_le_two (t : Ty) : t.words.words ≤ 2 := by
  cases t <;> simp [Ty.words, Kind.words]

theorem spillArgs (hS : S.Sound) {i words : Nat} {q : Value} {args : List Reg} (n : Nat)
    (hi : K.Gives (spare S i words)) (hroom : n + 3 * args.length ≤ words)
    (hq : K.Gives (Known.value S q .i64 [Memory.addressOf i])) (hK : K.Apart (i + n) (i + words))
    (hoff : 8 * words < 2 ^ 31) :
    Realizes S K 0 (Native.spillArgs q (8 * n) args) (args.mapM Direct.value) fun _ wss => arguments S
      (i + n) args wss := by
  induction args generalizing K n with
  | nil => exact pure ⟨fun hk => ⟨Nat.le_add_right_of_le (hi.of hk).base, trivial⟩⟩
  | cons r args ih =>
    rw [List.length_cons] at hroom
    have htwo := words_le_two r.ty
    have hone : Kind.i64.words = 1 := rfl
    rw [Native.spillArgs, List.mapM_cons]
    refine bind (value hS r).any fun v ws => ?_
    refine first (constInt (Native.argCode r.ty)) fun code => ?_
    refine first (storeStack hS (k := .i64) (n := n) hi.left.left (by omega) hq.left.left .last
      (.and (.and (hK.mono (Nat.le_refl _) (by omega)) .value) .value) (by omega)) fun _ => ?_
    refine first (storeStack hS (n := n + 1) hi.left.left.left (by omega) hq.left.left.left (.left (.left .last)) ?_
      (by omega)) fun _ => ?_
    · exact .and (.and (.and (hK.mono (by omega) (by omega)) .value) .value) .stacked
    rw [← bind_pure (Native.spillArgs q (8 * n + 24) args)]
    refine bind (ih (n + 3) hi.left.left.left.left (by omega) hq.left.left.left.left ?_) fun _ wss => ?_
    · exact .and (.and (.and (.and (hK.mono (by omega) (Nat.le_refl _)) .value) .value)
        (.mono .stacked (by omega) (Nat.le_refl _))) (.mono .stacked (by omega) (Nat.le_refl _))
    · refine pure ⟨fun h => ⟨h.1.1.2.1, ⟨?_, ?_, ?_⟩, h.2.2⟩⟩
      · exact h.1.1.2.2.1
      · exact h.1.2.2.1
      · exact h.1.2.2.2

end Realizes

/-! ## What the host reads -/

namespace Service

open Machine (HostM)

theorem bind_apply {α β : Type} (x : HostM Context α) (f : α → HostM Context β) (out : Outside Context) :
    (x >>= f) out = match x out with
      | (.ok a, out') => f a out'
      | (.error t, out') => (.error t, out') := by
  show (match x out with | (r, out') => ExceptT.bindCont f r out') = _
  rcases x out with ⟨_ | a, out'⟩ <;> rfl

theorem lift_bind {α β : Type} (a : Act α) (f : α → Act β) : lift (a >>= f) = lift a >>= fun x => lift (f x) := by
  funext ⟨m, c⟩
  rw [bind_apply, lift_apply, lift_apply]
  have hbind : (a >>= f) c = ExceptT.bindCont f (a c).1 (a c).2 := rfl
  rw [hbind]
  rcases a c with ⟨_ | x, c'⟩
  · rfl
  · dsimp only [ExceptT.bindCont]
    rw [lift_apply]

variable {out : Outside Context} {i : Nat}

theorem load_addressOf (hi : 0 < i) (hm : i < out.memory.length) (hmax : out.memory.length ≤ Memory.maxIndex) :
    load (Memory.addressOf i) out = (.ok (out.memory.get i), out) := by
  have hget : (get : HostM Context _) out = (.ok out, out) := rfl
  rw [load, bind_apply, hget]
  dsimp only
  rw [Memory.load_addressOf hi hm hmax]
  rfl

theorem loadStrings_of {wss : List (List UInt64)} (h : Realizes.StringsAt out.memory i wss) (hi : 0 < i)
    (hm : i + 2 * wss.length ≤ out.memory.length) (hmax : out.memory.length ≤ Memory.maxIndex) :
    loadStrings (Memory.addressOf i) wss.length out = (.ok (wss.map Direct.packed), out) := by
  induction wss generalizing i with
  | nil => rfl
  | cons ws wss ih =>
    obtain ⟨⟨hws, hlen⟩, h⟩ := h
    rw [List.length_cons] at hm
    match ws, hlen with
    | [lo, hi'], _ =>
      have hlo : out.memory.get i = lo := hws 0 lo rfl
      have hhi : out.memory.get (i + 1) = hi' := hws 1 hi' rfl
      have hnext : Memory.addressOf i + 16 = Memory.addressOf (i + 2) := (Memory.addressOf_add i 2).symm
      rw [List.length_cons, loadStrings, bind_apply, load_addressOf hi (by omega) hmax]
      dsimp only
      rw [bind_apply, ← Memory.addressOf_succ, load_addressOf (by omega) (by omega) hmax]
      dsimp only
      rw [bind_apply, hnext, ih h (by omega) (by omega), hlo, hhi]
      rfl

theorem loadArg_of {r : Reg} {ws : List UInt64} (hcode : out.memory.Holds i [(Native.argCode r.ty).toUInt64])
    (hws : out.memory.Holds (i + 1) ws) (hlen : ws.length = r.ty.words.words) (hi : 0 < i)
    (hm : i + 3 ≤ out.memory.length) (hmax : out.memory.length ≤ Memory.maxIndex) :
    loadArg (Memory.addressOf i) out = lift (Direct.formatArg r.ty ws) out := by
  have hcode : out.memory.get i = (Native.argCode r.ty).toUInt64 := hcode 0 _ rfl
  have hnext : Memory.addressOf i + 16 = Memory.addressOf (i + 2) := (Memory.addressOf_add i 2).symm
  rw [loadArg, bind_apply, load_addressOf hi (by omega) hmax]
  dsimp only
  rw [bind_apply, ← Memory.addressOf_succ, load_addressOf (by omega) (by omega) hmax, hcode, hnext]
  dsimp only
  have one : r.ty ≠ .str → ∃ w, ws = [w] ∧ out.memory.get (i + 1) = w := by
    intro h
    have hk : r.ty.words.words = 1 := by cases hr : r.ty <;> first | rfl | exact absurd hr h
    obtain ⟨w, rfl⟩ := List.length_eq_one_iff.1 (hlen.trans hk)
    exact ⟨w, rfl, hws 0 w rfl⟩
  cases hty : r.ty with
  | float =>
    obtain ⟨w, rfl, hw⟩ := one (by simp [hty])
    rw [hw]
    rfl
  | str =>
    rw [hty] at hlen
    match ws, hlen with
    | [lo, hi'], _ =>
      have hlo : out.memory.get (i + 1) = lo := hws 0 lo rfl
      have hhi : out.memory.get (i + 2) = hi' := hws 1 hi' rfl
      show (load (Memory.addressOf (i + 2)) >>= fun hi => _) out = _
      rw [bind_apply, load_addressOf (by omega) (by omega) hmax, hlo, hhi]
      dsimp only [Direct.formatArg, Direct.packed]
      rw [lift_bind]
      rfl
  | _ =>
    obtain ⟨w, rfl, hw⟩ := one (by simp [hty])
    rw [hw]
    rfl

end Service

end RecordMill

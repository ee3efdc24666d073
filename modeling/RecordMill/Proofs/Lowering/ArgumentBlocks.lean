import RecordMill.Proofs.Lowering.Parameters
import RecordMill.Proofs.Machine.StackDiscipline

/-!
# Arguments that are handed over on the stack

Main statement: `Program.argument_blocks_round_trip`. The printing instructions put their arguments into a slot of their
own. When the host is asked it reads from there what the registers held, of the same types and in the same order; it
reads nothing else, and nothing else was written. -/

namespace RecordMill

open Machine
  (Kind Value VarId BlockId Cells CellFrame CellState Outside Memory Body FuncDraft FuncId FuncDecl Build
    Inst Action Trap
  Callee SlotId HostM StateOf FrameOf Stacked OutcomeOf Instance)

/-! ## What the host reads -/

namespace Service

/-- Memory counts only for the words at the addresses `A`, and stays as it is. -/
def ReadsOnly {α : Type} (A : UInt64 → Prop) (x : HostM Context α) : Prop :=
  ∀ (m m' : Memory) (host : Context), (∀ a, A a → m'.load a = m.load a) →
    ∃ r host', x ⟨m, host⟩ = (r, ⟨m, host'⟩) ∧ x ⟨m', host⟩ = (r, ⟨m', host'⟩)

def Within (address : UInt64) (words : Nat) (a : UInt64) : Prop := ∃ j < words, a = address + UInt64.ofNat (8 * j)

namespace ReadsOnly

variable {α β : Type} {A B : UInt64 → Prop} {x : HostM Context α} {f : α → HostM Context β}

theorem pure (a : α) : ReadsOnly A (Pure.pure a) := fun _ _ host _ => ⟨.ok a, host, rfl, rfl⟩

theorem throw (t : Trap) :
    ReadsOnly A (MonadExcept.throw t : HostM Context α) := fun _ _ host _ => ⟨.error t, host, rfl, rfl⟩

theorem lift (act : Act α) : ReadsOnly A (Service.lift act) := fun m m' host _ => by
  rw [lift_apply, lift_apply]
  rcases act host with ⟨e | a, host'⟩
  · exact ⟨_, host', rfl, rfl⟩
  · exact ⟨_, host', rfl, rfl⟩

theorem bind (hx : ReadsOnly A x) (hf : ∀ a, ReadsOnly A (f a)) : ReadsOnly A (x >>= f) := fun m m' host h => by
  obtain ⟨r, host₁, hm, hm'⟩ := hx m m' host h
  rw [bind_apply, bind_apply, hm, hm']
  cases r with
  | error t => exact ⟨.error t, host₁, rfl, rfl⟩
  | ok a => exact hf a m m' host₁ h

theorem load {a : UInt64} (ha : A a) : ReadsOnly A (Service.load a) := fun m m' host h => by
  have hget : ∀ out : Outside Context, (get : HostM Context _) out = (.ok out, out) := fun _ => rfl
  rw [Service.load, bind_apply, bind_apply, hget, hget]
  dsimp only
  rw [h a ha]
  rcases m.load a with t | w
  · exact ⟨.error t, host, rfl, rfl⟩
  · exact ⟨.ok w, host, rfl, rfl⟩

theorem mono (hx : ReadsOnly A x) (hA : ∀ a, A a → B a) :
    ReadsOnly B x := fun m m' host h => hx m m' host fun a ha => h a (hA a ha)

end ReadsOnly

theorem Within.of_add {address a : UInt64} {k n words : Nat} (h : Within (address + UInt64.ofNat (8 * k)) n a)
    (hk : k + n ≤ words) :
    Within address words a := by
  obtain ⟨j, hj, rfl⟩ := h
  refine ⟨k + j, by omega, ?_⟩
  rw [Nat.mul_add, UInt64.ofNat_add, ← UInt64.add_assoc]

theorem Within.self {address : UInt64} {words : Nat} (h : 0 < words) : Within address words address := ⟨0, h, by simp⟩

theorem readsOnly_loadStrings (a : UInt64) (n : Nat) : ReadsOnly (Within a (2 * n)) (loadStrings a n) := by
  induction n generalizing a with
  | zero => exact .pure _
  | succ n ih =>
    refine .bind (.load (Within.self (by omega))) fun lo => ?_
    refine .bind (.load (Within.of_add (k := 1) (.self Nat.one_pos) (by omega))) fun hi => ?_
    exact .bind ((ih _).mono fun b hb => Within.of_add (k := 2) hb (by omega)) fun _ => .pure _

theorem readsOnly_loadArg (a : UInt64) : ReadsOnly (Within a 3) (loadArg a) := by
  refine .bind (.load (Within.self (by omega))) fun kind => ?_
  refine .bind (.load (Within.of_add (k := 1) (.self Nat.one_pos) (by omega))) fun lo => ?_
  split
  · exact .pure _
  split
  · exact .pure _
  split
  · exact .bind (.load (Within.of_add (k := 2) (.self Nat.one_pos) (by omega))) fun _ =>
      .bind (.lift _) fun _ => .pure _
  · exact .throw _

theorem readsOnly_loadArgs (a : UInt64) (n : Nat) : ReadsOnly (Within a (3 * n)) (loadArgs a n) := by
  induction n generalizing a with
  | zero => exact .pure _
  | succ n ih =>
    refine .bind ((readsOnly_loadArg a).mono fun b hb =>
      Within.of_add (k := 0) (by simpa using hb) (by omega)) fun _ => ?_
    exact .bind ((ih _).mono fun b hb => Within.of_add (k := 3) hb (by omega)) fun _ => .pure _

def stride : Service → Nat
  | .printAll => 2
  | _ => 3

theorem readsOnly_perform {s : Service} (hs : s.readsMemory) {front : List UInt64} {a n : UInt64}
    (hlen : (front ++ [a, n]).length = Kind.total s.sig.params) :
    ReadsOnly (Within a (s.stride * n.toNat)) (perform s (front ++ [a, n])) := by
  rw [List.length_append] at hlen
  cases s with
  | printAll =>
    match front, hlen with
    | [_, _, _, _], _ => exact .bind (readsOnly_loadStrings a n.toNat) fun _ => .lift _
  | printf =>
    match front, hlen with
    | [_, _, _, _, _, _], _ => exact .bind (readsOnly_loadArgs a n.toNat) fun _ => .lift _
  | sprintf =>
    match front, hlen with
    | [_, _, _], _ => exact .bind (readsOnly_loadArgs a n.toNat) fun _ => .lift _
  | _ => cases hs

end Service

/-! ## Blocks of arguments -/

def Instr.block? : Instr → Option (Service × List Reg)
  | .print _ args _ => some (.printAll, args)
  | .printf _ _ args _ => some (.printf, args)
  | .sprintf _ _ args => some (.sprintf, args)
  | _ => none

/-- What the host makes of the words that it reads from an address on: the values of the registers. -/
def Service.ReadsBack (s : Service) (args : List Reg) (wss : List (List UInt64)) (address : UInt64)
    (out : Outside Context) : Prop :=
  match s with
  | .printAll => loadStrings address args.length out = (.ok (wss.map Direct.packed), out)
  | _ => loadArgs address args.length out = lift (Direct.formatArgs args wss) out

namespace Native

def front : Instr → Native (List Value)
  | .print out _ _ => do
    let (mode, path) ← output out
    return [mode, path]
  | .printf out format _ _ => do
    let (mode, path) ← output out
    return [mode, path, ← value format]
  | .sprintf _ format _ => return [← value format]
  | _ => return []

/-- The values that come before the block, and the address of the block. -/
def reserve (i : Instr) (words : Nat) : Native (List Value × Value) := do
  let vs ← front i
  return (vs, ← argumentBlock words)

def spill (s : Service) (base : Value) (args : List Reg) : Native Unit :=
  match s with
  | .printAll => spillStrings base 0 args
  | _ => spillArgs base 0 args

/-- Puts the arguments into the block; the values for the context and for the number of arguments. -/
def fill (s : Service) (base : Value) (args : List Reg) : Native (Value × Value) := do
  spill s base args
  let ctx ← context
  return (ctx, ← count args)

/-- What is done with what the host makes of the arguments. -/
def takeBack (i : Instr) (v : Value) : Native Unit :=
  match i with
  | .print _ _ status | .printf _ _ _ status => bind status v
  | .sprintf dst _ _ => bindOwned dst v
  | _ => return

theorem lower_eq_block {i : Instr} {s : Service} {args : List Reg} (h : i.block? = some (s, args)) :
    (Lowering.lower i : Native Unit) = (do
      let (vs, base) ← reserve i (s.stride * args.length)
      let (ctx, n) ← fill s base args
      takeBack i (← ask s (ctx :: (vs ++ [base, n])))) := by
  cases i with
  | print out args status =>
    cases h
    show printAll status out args = _
    simp only [printAll, front, reserve, fill, spill, takeBack, Service.stride, bind_assoc, pure_bind, List.cons_append,
      List.nil_append]
  | printf out format args status =>
    cases h
    show printf status out format args = _
    simp only [printf, formatBlock, front, reserve, fill, spill, takeBack, Service.stride, bind_assoc, pure_bind,
      List.cons_append, List.nil_append]
  | sprintf dst format args =>
    cases h
    show sprintf dst format args = _
    simp only [sprintf, formatBlock, front, reserve, fill, spill, takeBack, Service.stride, bind_assoc, pure_bind,
      List.cons_append, List.nil_append]
  | _ => cases h

end Native

def Direct.front : Instr → Direct Unit
  | .print out _ _ => do let _ ← output out
  | .printf out format _ _ => do
    let _ ← output out
    let _ ← value format
  | .sprintf _ format _ => do let _ ← value format
  | _ => pure ()

namespace Service

def frontKinds : Service → List Kind
  | .printAll => [.i32, .i128]
  | .printf => [.i32, .i128, .i128]
  | _ => [.i128]

theorem params_of_readsMemory {s : Service} (h : s.readsMemory) :
    s.sig.params = .i64 :: (s.frontKinds ++ [.i64, .i64]) := by
  cases s <;> first | rfl | cases h

end Service

theorem Instr.readsMemory_of_block {i : Instr} {s : Service} {args : List Reg} (h : i.block? = some (s, args)) :
    s.readsMemory := by
  cases i <;> cases h <;> rfl

/-! ## The code of a block -/

namespace Realizes

variable {S : Site} {α β : Type} {K : Known S} {n : Nat} {x : Native α} {D : Direct β} {R : α → β → Known S} {i : Instr}
  {s : Service}
  {args : List Reg}

theorem run (h : Realizes S K n x D R) {p p' : Progress} {b : BlockId} {a : α} (hp : S.Ongoing p b)
    (hx : x S.given p = (.ok a, p')) (hgrows : p'.draft.body.Grows S.body) (hlits : p'.literals <+: S.literals)
    {δ δ' : Direct.Store} {c : Cells} {out : Outside Context} (hm : S.Matches δ c out)
    (hK : K.Holds p.draft c out.memory) {v : β} (hD : D S.setting δ = (.ok v, δ')) :
    ∃ seg c' out', p.draft.Extends b seg p'.draft ∧ n ≤ seg.length ∧ S.exec seg c out = some (.ok c', out')
      ∧ S.Matches δ' c' out'
      ∧ K.Holds p'.draft c' out'.memory ∧ (R a v).Holds p'.draft c' out'.memory := by
  obtain ⟨-, ⟨seg, hseg, hlen⟩, -⟩ := h.adds hp hx
  have hdoes := h.does hp hx hseg hgrows hlits hm hK
  rw [hD] at hdoes
  generalize hexec : S.exec seg c out = e at hdoes
  cases hdoes with
  | done hm' hK' hR => exact ⟨seg, _, _, hseg, hlen, hexec, hm', hK', hR⟩

/-- Above the globals the memory is as it was, but for so many words from an index on. -/
def rest (S : Site) (m₀ : Memory) (i words : Nat) : Known S where
  Holds _ _ m := ∀ j, S.base ≤ j → j < i ∨ i + words ≤ j → m.get j = m₀.get j
  stable h _ _ hm := fun j hj hout => (hm j hj).trans (h j hj hout)

theorem rest_apart {m₀ : Memory} {i words : Nat} : (rest S m₀ i words).Apart i (i + words) :=
  fun _ _ _ _ h hm j hj hout => (hm j hout).trans (h j hj hout)

theorem front (hS : S.Sound) {p : Program} {ret : Ty} (ht : i.Typed p ret) (hb : i.block? = some (s, args)) :
    Realizes S K 0 (Native.front i) (Direct.front i) fun vs _ => Known.any fun wss =>
      Known.values S vs s.frontKinds wss := by
  cases i with
  | print out as status =>
    cases hb
    refine bind (output hS ht.2.1) fun (mode, path) (dest, ps) => given_any fun w => ?_
    exact pure ⟨fun h => ⟨_, (Known.Gives.two (.right (.left (.left .refl))) (.right .last)).of h⟩⟩
  | printf out format as status =>
    cases hb
    refine bind (output hS ht.2.1) fun (mode, path) (dest, ps) => given_any fun w => ?_
    refine bind (value hS format).any fun f fs => ?_
    rw [ht.2.2.1]
    exact pure
      ⟨fun h => ⟨_, (Known.Gives.cons (.left (.right (.left (.left .refl)))) (.two (.left (.right .last)) .last)).of h⟩⟩
  | sprintf dst format as =>
    cases hb
    refine bind (value hS format).any fun f fs => ?_
    rw [ht.2.1]
    exact pure ⟨fun h => ⟨_, (Known.Gives.cons .last .nil).of h⟩⟩
  | _ => cases hb

theorem reserve (hS : S.Sound) {p : Program} {ret : Ty} (ht : i.Typed p ret) (hb : i.block? = some (s, args))
    (words : Nat) (hwords : words < 2 ^ 60) :
    Realizes S K 1 (Native.reserve i words) (Direct.front i) fun v _ => Known.any fun wss => Known.any fun start =>
      ((Known.values S v.1 s.frontKinds wss).and (Known.value S v.2 .i64 [Memory.addressOf start])).and
      (spare S start words) := by
  unfold Native.reserve
  have hfront : Direct.front i = Direct.front i >>= fun u =>
    (Pure.pure () >>= fun _ => Pure.pure u : Direct Unit) := by simp
  rw [hfront]
  refine next (front hS ht hb) fun vs _ => given_any fun wss => ?_
  refine bind (argumentBlock hS words hwords) fun base _ => given_any fun start => ?_
  exact pure ⟨fun h => ⟨wss, start, ⟨h.1.2, h.2.1⟩, h.2.2⟩⟩

def block (S : Site) (s : Service) (i : Nat) (args : List Reg) (wss : List (List UInt64)) : Known S :=
  match s with
  | .printAll => (strings S i wss).and (Known.fact S (wss.length = args.length))
  | _ => arguments S i args wss

theorem fill (hS : S.Sound) (hs : s.readsMemory) (hargs : s = .printAll → ∀ r ∈ args, r.ty = .str) {start : Nat}
    {base : Value} (hi : K.Gives (spare S start (s.stride * args.length)))
    (hbase : K.Gives (Known.value S base .i64 [Memory.addressOf start]))
    (hK : K.Apart start (start + s.stride * args.length)) (hoff : 8 * (s.stride * args.length) < 2 ^ 31) :
    Realizes S K 0 (Native.fill s base args) (args.mapM Direct.value) fun v wss =>
      (block S s start args wss).and ((Known.value S v.1 .i64 Direct.contextWord).and
        (Known.value S v.2 .i64 [(Int64.ofNat args.length).toUInt64])) := by
  have hspill : Realizes S K 0 (Native.spill s base args) (args.mapM Direct.value) fun _ wss =>
      block S s start args wss := by
    cases s with
    | printAll => exact spillStrings hS (hargs rfl) 0 hi (by simp [Service.stride]) hbase hK hoff
    | printf => exact spillArgs hS 0 hi (by simp [Service.stride]) hbase hK hoff
    | sprintf => exact spillArgs hS 0 hi (by simp [Service.stride]) hbase hK hoff
    | _ => cases hs
  unfold Native.fill
  rw [← bind_pure (args.mapM Direct.value)]
  refine bind hspill fun _ wss => ?_
  refine first (context hS) fun ctx => ?_
  refine first (count args) fun num => ?_
  exact pure ⟨fun h => ⟨h.1.1.2, h.1.2, h.2⟩⟩

/-- The block is there: what comes before it, its address, and a memory that differs from `m₀` in the block alone. -/
def reserved (S : Site) (m₀ : Memory) (s : Service) (vs : List Value) (base : Value) (words : Nat)
    (wss : List (List UInt64)) (start : Nat) : Known S :=
  (((Known.values S vs s.frontKinds wss).and (Known.value S base .i64 [Memory.addressOf start])).and
    (spare S start words)).and
    (rest S m₀ start words)

theorem fill_reserved (hS : S.Sound) (hs : s.readsMemory) (hargs : s = .printAll → ∀ r ∈ args, r.ty = .str)
    (m₀ : Memory) (vs : List Value) (base : Value) (hoff : 8 * (s.stride * args.length) < 2 ^ 31)
    (wss : List (List UInt64)) (start : Nat) :
    Realizes S (reserved S m₀ s vs base (s.stride * args.length) wss start) 0 (Native.fill s base args)
      (args.mapM Direct.value)
      fun v us => (block S s start args us).and ((Known.value S v.1 .i64 Direct.contextWord).and
        (Known.value S v.2 .i64 [(Int64.ofNat args.length).toUInt64])) :=
  fill hS hs hargs (.left .last) (.left (.left .last)) (.and (.and (.and .values .value) .fact) rest_apart) hoff

theorem takeBack (hS : S.Sound) {p : Program} {ret : Ty} (ht : i.Typed p ret)
    (hb : i.block? = some (s, args)) {k : Kind} (hk : s.sig.returns = [k]) (v : Value) (ws : List UInt64) :
    ∃ D : Direct Unit, Realizes S (Known.value S v k ws) 0 (Native.takeBack i v) D fun _ _ => Known.nothing S := by
  cases i with
  | print out as status | printf out format as status =>
    cases hb
    cases hk
    exact ⟨_, bindReg hS status .refl (by rcases ht.1 with h | h <;> rw [h] <;> rfl)⟩
  | sprintf dst format as =>
    cases hb
    cases hk
    exact ⟨_, bindOwned hS dst .refl (by rw [ht.1]; rfl)⟩
  | _ => cases hb

theorem readsBack {i : Nat} {wss : List (List UInt64)} {d : FuncDraft} {c : Cells} {out : Outside Context}
    (h : (block S s i args wss).Holds d c out.memory) (hi : 0 < i) (hm : i + s.stride * args.length ≤ out.memory.length)
    (hmax : out.memory.length ≤ Memory.maxIndex) (hs : s.readsMemory) :
    s.ReadsBack args wss (Memory.addressOf i) out := by
  cases s with
  | printAll =>
    obtain ⟨⟨-, hat⟩, hlen⟩ := h
    have hlen : wss.length = args.length := hlen
    show Service.loadStrings _ args.length out = _
    rw [← hlen]
    exact Service.loadStrings_of hat hi (by rw [hlen]; exact hm) hmax
  | printf | sprintf => exact Service.loadArgs_of h.2 hi hm hmax
  | _ => cases hs

end Realizes

theorem Instr.Spills.block {i : Instr} {s : Service} {args : List Reg} (h : i.Spills) (hb : i.block? = some (s, args)) :
    8 * (s.stride * args.length) < 2 ^ 31 := by
  cases i <;> cases hb <;> simp only [Instr.Spills, Service.stride] at h ⊢ <;> omega

theorem Instr.Typed.block {i : Instr} {s : Service} {args : List Reg} {p : Program} {ret : Ty} (h : i.Typed p ret)
    (hb : i.block? = some (s, args)) :
    (∀ r ∈ args, ∃ t : Scalar, r.ty = t.ty) ∧ (s = .printAll → ∀ r ∈ args, r.ty = .str) := by
  cases i with
  | print =>
    cases hb
    exact ⟨fun r hr => ⟨.str, h.2.2 r hr⟩, fun _ => h.2.2⟩
  | printf =>
    cases hb
    exact ⟨h.2.2.2, nofun⟩
  | sprintf =>
    cases hb
    exact ⟨h.2.2, nofun⟩
  | _ => cases hb

theorem Service.returns_of_readsMemory {s : Service} (h : s.readsMemory) : ∃ k, s.sig.returns = [k] := by
  cases s <;> first | exact ⟨_, rfl⟩ | cases h

/-- The next instruction asks the host for a service, with these words. -/
def Site.Asks (S : Site) (b : BlockId) (n : Nat) (c : Cells) (s : Service) (ws : List UInt64) : Prop :=
  ∃ r us vs id d, (S.body.code b)[n]? = some ⟨.call r us, vs⟩ ∧ S.body.callees[r]? = some ⟨id, s.sig⟩
    ∧ S.module.funcs[id]? = some d
    ∧ d.host = some s ∧ c.words us = ws

theorem Site.Sound.asks {S : Site} (hS : S.Sound) {s : Service} {us : List Value} {v : Value} {q q' : Progress}
    {b : BlockId} (hq : S.Ongoing q b) (h : Native.ask s us S.given q = (.ok v, q')) :
    S.Ongoing q' b ∧ q'.literals = q.literals
      ∧ (q'.draft.body.Grows S.body → q.draft.body.Grows S.body ∧ ∀ c,
        S.Asks b (q.draft.body.code b).length c s (c.words us)) := by
  obtain ⟨id, e, d, hl, he, hes, hd, hhost, -⟩ := hS.services s
  obtain ⟨vs, q₂, hservice, hrest⟩ := Native.bind_eq_ok h
  have hcall :
    (do let ref ← Native.build (S.given.module.importInto id); Native.build (Build.call ref us) : Native (List Value))
      S.given q
      = (.ok vs, q₂) := by
    rw [← hservice, Native.Emits.service_apply, hl]
  obtain ⟨r, q₁, himport, hbuild⟩ := Native.bind_eq_ok hcall
  obtain ⟨d₁, himported, rfl⟩ := Native.build_eq_ok himport
  obtain ⟨d₂, hbuilt, rfl⟩ := Native.build_eq_ok hbuild
  have hext := hq.extends_imported he himported
  have hcallee := (hq.imported he himported).callee
  obtain ⟨e', he', happ⟩ := Build.wp_ok (Build.call_wp r us) hbuilt
  obtain rfl : e' = ⟨id, e.sig⟩ := Option.some.inj (he'.symm.trans hcallee)
  have hcallees : ∀ {r : Nat} {c : Callee}, d₁.body.callees[r]? = some c → ∃ e, S.given.module.funcs[c.id]? = some e
      ∧ e.sig = c.sig := by
    intro r c hc
    rcases (hq.imported he himported).others hc with hc | rfl
    · exact hq.callees hc
    · exact ⟨e, he, rfl⟩
  have hcalled := FuncDraft.Extends.of_appends hext.ready happ rfl (hS.returns he)
  obtain rfl : q' = ⟨d₂, q.literals⟩ := by
    rcases vs with _ | ⟨u, _ | ⟨_, _⟩⟩ <;> cases hrest
    rfl
  refine ⟨⟨hcalled.ready, fun hc => hcallees (happ.callees ▸ hc)⟩, rfl, fun hgrows =>
    ⟨hext.grows.trans (hcalled.grows.trans hgrows), ?_⟩⟩
  intro c
  refine ⟨r, us, vs, id, d, ?_, hes ▸ (hcalled.grows.trans hgrows).callees hcallee, hd, hhost, rfl⟩
  have hcode : d₂.body.code b = q.draft.body.code b ++ [⟨.call r us, vs⟩] := by
    rw [hcalled.code, hext.code, List.append_nil]
  obtain ⟨rest, hrest⟩ := hgrows.drop_code hcalled.ready.sound.body hcode
  rw [← Nat.add_zero (List.length _), ← List.getElem?_drop, ← hrest]
  rfl

/-- The code of an instruction that hands over a block: the block is reserved and filled, and then the host is asked. -/
structure Site.Block (S : Site) (p : Progress) (k : Nat) (b : BlockId) (i : Instr) (s : Service) (args : List Reg)
    (vs : List Value) (base ctx num : Value) (q₁ q₂ : Progress) : Prop where
  reserve : Native.reserve i (s.stride * args.length) S.given (S.given.stage p k) = (.ok (vs, base), q₁)
  fill : Native.fill s base args S.given q₁ = (.ok (ctx, num), q₂)
  reserved : S.Ongoing q₁ b
  filled : S.Ongoing q₂ b
  further : q₁.draft.body.Grows q₂.draft.body ∧ q₁.literals <+: q₂.literals
  grows : q₂.draft.body.Grows S.body
  literals : q₂.literals <+: S.literals
  asks : ∀ c, S.Asks b (q₂.draft.body.code b).length c s (c.words (ctx :: (vs ++ [base, num])))

theorem Site.Lowered.exists_block {S : Site} {p : Progress} (L : S.Lowered p) (hS : S.Sound) {k : Nat}
    {b : BlockId} {i : Instr} {s : Service} {args : List Reg} (hi : S.scope.func.body[k]? = some i) (hspills : i.Spills)
    (hblock : i.block? = some (s, args)) (hbefore : S.given.Before k b (S.given.stage p k)) :
    ∃ vs base ctx num q₁ q₂, S.Block p k b i s args vs base ctx num q₁ q₂ := by
  have hlt := (List.getElem?_eq_some_iff.1 hi).1
  have ht := L.fit.typed (List.mem_of_getElem? hi)
  have hs := Instr.readsMemory_of_block hblock
  have hoff := hspills.block hblock
  have hlower := L.lower hi
  rw [Native.lower_eq_block hblock] at hlower
  obtain ⟨⟨vs, base⟩, q₁, hreserve, hlower⟩ := Native.bind_eq_ok hlower
  obtain ⟨⟨ctx, num⟩, q₂, hfill, hlower⟩ := Native.bind_eq_ok hlower
  obtain ⟨v, q₃, hask, htake⟩ := Native.bind_eq_ok hlower
  have hreal₁ := Realizes.reserve (K := Known.nothing S) hS ht hblock (s.stride * args.length) (by omega)
  obtain ⟨hq₁, -, -⟩ := hreal₁.adds hbefore.ongoing hreserve
  have hreal₂ := Realizes.fill (K := (Realizes.spare S 0 (s.stride * args.length)).and
    (Known.value S base .i64 [Memory.addressOf 0])) hS hs
    (ht.block hblock).2 (.left .refl) .last (.and .fact .value) hoff
  obtain ⟨hq₂, ⟨_, hseg₂, -⟩, hlits₂⟩ := hreal₂.adds hq₁ hfill
  obtain ⟨hq₃, hlits₃, hasks⟩ := hS.asks hq₂ hask
  obtain ⟨kind, hkind⟩ := Service.returns_of_readsMemory hs
  obtain ⟨D, hreal₃⟩ := Realizes.takeBack hS ht hblock hkind v []
  obtain ⟨-, ⟨_, hseg₃, -⟩, hlits₄⟩ := hreal₃.adds hq₃ htake
  obtain ⟨hgrows, hasks⟩ := hasks (hseg₃.grows.trans (L.stage_grows hlt))
  exact ⟨vs, base, ctx, num, q₁, q₂, hreserve, hfill, hq₁, hq₂, ⟨hseg₂.grows, hlits₂⟩, hgrows,
    hlits₃ ▸ hlits₄.trans (L.stage_literals hlt), hasks⟩

/-- Where the code of an instruction asks the host, having put the arguments into a block. -/
structure Site.HandsOver (S : Site) (b : BlockId) (s : Service) (args : List Reg) (wss : List (List UInt64))
    (δ : Direct.Store) (out : Outside Context) (n : Nat) (c : Cells) (out' : Outside Context) (front : List UInt64)
    (start : Nat) : Prop where
  asks : S.Asks b n c s (front ++ [Memory.addressOf start, (Int64.ofNat args.length).toUInt64])
  length : (front ++ [Memory.addressOf start, (Int64.ofNat args.length).toUInt64]).length = Kind.total s.sig.params
  sound : S.Matches δ c out'
  spare : S.Spare start (s.stride * args.length)
  written : ∀ j, S.base ≤ j → j < start ∨ start + s.stride * args.length ≤ j → out'.memory.get j = out.memory.get j
  back : s.ReadsBack args wss (Memory.addressOf start) out'

namespace Site.Active

variable {S : Site} {p : Progress} {fn k n : Nat} {fr : CellFrame} {below : List CellFrame} {b : BlockId} {c : Cells}
  {out : Outside Context}

theorem visits (A : S.Active p fn fr) {seg : List Inst} (hne : seg ≠ []) (hcode : seg <+: (S.body.code b).drop n)
    {c' : Cells} {out' : Outside Context} (hexec : S.exec seg c out = some (.ok c', out')) :
    Visits (CellState.step S.module Service.perform) ⟨out, fr.to b n c :: below⟩
      ⟨out', fr.to b (n + seg.length) c' :: below⟩ := by
  have hbody : S.module.body? (fr.to b 0 c).func = some S.body := A.body
  have hstack : (fr.to b 0 c).stack = S.stack := A.stack
  have hrun : Proceeds (CellState.step S.module Service.perform) (fun _ => True)
    (· = ⟨out', fr.to b (n + seg.length) c' :: below⟩)
      (fun _ => False) ⟨out, fr.to b n c :: below⟩ :=
    Machine.Proceeds.segment hbody hne hcode (fun _ _ _ _ _ => trivial) (by
      rw [hstack, show Machine.execAll S.module Service.perform S.body S.stack seg c out
        = S.exec seg c out from rfl, hexec]
      rfl)
  obtain ⟨_, hvisits, rfl⟩ := hrun.visits
  exact hvisits

theorem hands_over (A : S.Active p fn fr) (hb : S.Starts p k b n) {δ : Direct.Store} (hm : S.Matches δ c out)
    {i : Instr} {s : Service} {args : List Reg} {wss : List (List UInt64)} (hi : S.scope.func.body[k]? = some i)
    (hblock : i.block? = some (s, args)) (hfront : Direct.front i S.setting δ = (.ok (), δ))
    (hargs : args.mapM Direct.value S.setting δ = (.ok wss, δ)) :
    ∃ n' c' out' front start, Visits (CellState.step S.module Service.perform) ⟨out, fr.to b n c :: below⟩
      ⟨out', fr.to b n' c' :: below⟩
      ∧ S.HandsOver b s args wss δ out n' c' out' front start := by
  obtain ⟨hlt, hbefore, rfl⟩ := hb
  have hS := A.sound
  have hmem := List.mem_of_getElem? hi
  have ht := A.lowered.fit.typed hmem
  have hs := Instr.readsMemory_of_block hblock
  have hoff := (A.spills i hmem).block hblock
  obtain ⟨vs, base, ctx, num, q₁, q₂, hB⟩ := A.lowered.exists_block hS hi (A.spills i hmem) hblock hbefore
  have hgrows := hB.grows
  have hreal₁ := Realizes.reserve (K := Realizes.rest S out.memory 0 0) hS ht hblock (s.stride * args.length) (by omega)
  have hreal₂ := Realizes.fill_reserved hS hs (ht.block hblock).2 out.memory vs base hoff
  -- The first two run, since all registers can be read.
  obtain ⟨seg₁, c₁, out₁, hseg₁, hlen₁, hexec₁, hm₁, hrest₁, wss₀, start, ⟨hvals, hbase⟩, hspare⟩ :=
    hreal₁.run hbefore.ongoing hB.reserve (hB.further.1.trans hgrows) (hB.further.2.trans hB.literals) hm
      (fun _ _ _ => rfl) hfront
  have hrest : (Realizes.rest S out.memory start (s.stride * args.length)).Holds q₁.draft c₁ out₁.memory :=
    fun j hj _ => hrest₁ j hj (.inr (Nat.zero_le _))
  obtain ⟨seg₂, c₂, out₂, hseg₂, -, hexec₂, hm₂, ⟨⟨⟨hvals, hbase⟩, -⟩, hwritten⟩, hfilled, hctx, hnum⟩ :=
    (hreal₂ wss₀ start).run hB.reserved hB.fill hgrows hB.literals hm₁ ⟨⟨⟨hvals, hbase⟩, hspare⟩, hrest⟩ hargs
  have hseg := hseg₁.trans hbefore.ongoing.ready hseg₂
  have hexec : S.exec (seg₁ ++ seg₂) c out = some (.ok c₂, out₂) := by
    rw [Site.exec_append, hexec₁]
    exact hexec₂
  refine ⟨_, c₂, out₂, (Direct.contextWord :: wss₀).flatten, start,
    A.visits (List.ne_nil_of_length_pos (by rw [List.length_append]; omega))
      (hgrows.drop_code hB.filled.ready.sound.body hseg.code) hexec, ?_⟩
  have hwords : c₂.words (ctx :: (vs ++ [base, num]))
      = (Direct.contextWord :: wss₀).flatten ++ [Memory.addressOf start, (Int64.ofNat args.length).toUInt64] := by
    rw [Cells.words, List.flatMap_def, List.map_cons, List.map_append, Known.value_words hctx, hvals.2.1, List.map_cons,
      List.map_singleton,
      Known.value_words hbase, Known.value_words hnum]
    simp
  have hspare : S.Spare start (s.stride * args.length) := hspare
  have hlow := hspare.base
  have hhigh := hspare.room
  have hpos := hS.positive
  refine ⟨?_, ?_, hm₂, hspare, hwritten, ?_⟩
  · have := hB.asks c₂
    rwa [hwords, hseg.code, List.length_append] at this
  · have hfront : wss₀.flatten.length = Kind.total s.frontKinds := by
      rw [List.length_flatten, hvals.2.2, List.sum, List.foldr_map]
      rfl
    have htotal : Kind.total s.sig.params = 1 + (Kind.total s.frontKinds + 2) := by
      rw [Service.params_of_readsMemory hs, Kind.total_cons, Kind.total_append]
      rfl
    have hctx : Direct.contextWord.length = 1 := rfl
    simp only [List.flatten_cons, List.length_append, List.length_cons, List.length_nil]
    omega
  · exact Realizes.readsBack hfilled (by omega) (by rw [hm₂.length]; omega) (hm₂.length ▸ hS.length) hs

end Site.Active

/-! ## The machine -/

namespace Machine

variable {ι σ : Type} {m : Module ι}

/-- The host function that the next step calls, and the words for it. -/
def State.asked? (m : Module ι) (st : State σ) : Option (ι × List UInt64) :=
  match st.frames with
  | ⟨_, _, _, .call callee scratch moves n _ :: _, _, words, _, _⟩ :: _ => do
    let h ← (← m.funcs[callee]?).host
    return (h, Frame.readSpan (Frame.writeAll words scratch (Frame.readSpans words moves)) ⟨scratch, n⟩)
  | _ => none

/-- The address and the number of words of a slot of a function whose stack area is at `stack`. A function with machine
code has no stack area. -/
def Module.slot? (m : Module ι) (func : FuncId) (stack : UInt64) (s : SlotId) : Option (UInt64 × Nat) := do
  let d ← m.funcs[func]?
  let c ← d.compiled
  let f ← d.source
  let w ← f.slots[s]?
  if c.machineCode.isSome then none else return (stack + f.slotPlace s 0, w.toInt.toNat)

theorem StateOf.asked {mst : State σ} {out : Outside σ} {cf : CellFrame} {below : List CellFrame}
    (hst : StateOf m mst ⟨out, cf :: below⟩) {f : Body} (hbody : m.body? cf.func = some f) {r : RefId}
    {us vs : List Value} (hcode : (f.code cf.block)[cf.next]? = some ⟨.call r us, vs⟩) {e : Callee}
    (he : f.callees[r]? = some e) {d : FuncDecl ι} (hd : m.funcs[e.id]? = some d) {h : ι} (hhost : d.host = some h) :
    mst.asked? m = some (h, cf.cells.words us) := by
  cases hst with
  | @cons _ g fr _ frs _ hfr _ =>
    obtain rfl : f = g := Option.some.inj (hbody.symm.trans hfr.body)
    obtain ⟨_, _, _, _, hf, -⟩ := hfr.code
    rcases hfr.at_code hcode with ⟨s, rest, n, n', hsteps, hlaid, hn, hn'⟩ | ⟨-, n, n', hexit, -⟩
    · obtain ⟨e', moves, dest, he', rfl, -, hmoves, hargs⟩ :=
        hfr.gathers (hf.wellFormed.fits (List.mem_of_getElem? hcode)) rfl hlaid hn'
      obtain rfl : e = e' := Option.some.inj (he.symm.trans he')
      obtain ⟨func, blocks, block, steps, exit, words, stack, results⟩ := fr
      subst hsteps
      simp only [State.asked?, hd, hhost, Option.bind_eq_bind, Option.bind_some]
      rw [hmoves, hargs]
      rfl
    · have hexit := hexit.elim (fun h => h) (fun h => h)
      simp [Lay.exit, Lay.failure_eq] at hexit

theorem Stacked.places {ks : List Kind} {at_ : Nat} {vs : List Value} {frs : List Frame} {cfs : List CellFrame}
    (h : Stacked m ks at_ vs frs cfs) :
    frs.map (fun fr => (fr.func, fr.stack)) = cfs.map fun cf => (cf.func, cf.stack) := by
  induction h with
  | nil => rfl
  | cons hfr _ _ ih => rw [List.map_cons, List.map_cons, ih, hfr.func, hfr.stack]

theorem StateOf.places {mst : State σ} {cst : CellState σ} (h : StateOf m mst cst) :
    mst.frames.map (fun fr => (fr.func, fr.stack)) = cst.frames.map fun cf => (cf.func, cf.stack) := by
  cases h with
  | nil => rfl
  | cons hfr hst =>
    dsimp only
    rw [List.map_cons, List.map_cons, hst.places, hfr.func, hfr.stack]

end Machine

/-! ## Slots of a compiled program -/

namespace Plan

variable {P : Plan} {length i area : Nat} {fr : CellFrame}

/-- A stack area is as large as the slots take: a function with slots asks the host, and then it has no machine code. -/
theorem Made.room_eq {all : Bool} (h : P.Made all) {f : Func} (hf : P.program.funcs[i]? = some f) :
    P.room i = (f.body.flatMap Instr.slotWords).sum := by
  obtain ⟨id, e, c, hH⟩ := h.holds hf
  cases hmachine : c.machineCode with
  | none => exact hH.whole hmachine
  | some code =>
    suffices hnone : f.body.flatMap Instr.slotWords = [] by
      have hslotted := hH.slotted
      rw [hnone] at hslotted ⊢
      exact Nat.le_zero.1 hslotted
    refine List.flatMap_eq_nil_iff.2 fun x hx => ?_
    cases hb : x.block? with
    | none => cases x <;> first | rfl | cases hb
    | some block =>
      have hmax : P.base + P.room i ≤ Memory.maxIndex := by
        have hbase := h.base_lt
        have hroom := hH.room
        have h59 : Nat.pow 2 59 = 576460752303423488 := rfl
        have harea : Machine.maxArea = 576460752303423488 := rfl
        have hindex : Memory.maxIndex = 1152921504606846976 := rfl
        omega
      have hS := h.site_sound hf (Nat.le_refl P.base) (Nat.le_refl _) hmax
      have L : (P.site (P.base + P.room i) i P.base).Lowered (P.entry i) := h.site_lowered hf
      obtain ⟨k, hk⟩ := List.mem_iff_getElem?.1 hx
      rw [← h.body_getElem? (P.base + P.room i) P.base hf] at hk
      obtain ⟨b, hbefore⟩ := L.before (Nat.le_of_lt (List.getElem?_eq_some_iff.1 hk).1)
      obtain ⟨vs, base, ctx, num, q₁, q₂, hB⟩ :=
        L.exists_block hS hk (h.sized.spills f (List.mem_of_getElem? hf) x hx) hb hbefore
      obtain ⟨r, us, ws, _, _, hcall, -⟩ := hB.asks (Cells.blank (P.body i))
      have hcovers := hH.covered (by rw [hmachine]; rfl) _ (Body.mem_code (List.mem_of_getElem? hcall))
      simp [Machine.X86.covers] at hcovers

theorem Sound.slot_eq (h : P.Sound) (hr : P.Runs length i area fr) {s : SlotId} {a : UInt64} {w : Nat}
    (hs : P.code.module.slot? fr.func fr.stack s = some (a, w)) : ∃ f, P.program.funcs[i]? = some f
      ∧ ∃ hlt : s < (f.body.flatMap Instr.slotWords).length,
        a = Memory.addressOf (area + ((f.body.flatMap Instr.slotWords).take s).sum)
        ∧ w = (f.body.flatMap Instr.slotWords)[s]
          ∧ (f.body.flatMap Instr.slotWords).sum = P.room i := by
  obtain ⟨f, hf⟩ := hr.func
  obtain ⟨id, e, c, hH⟩ := h.holds hf
  obtain rfl : id = fr.func := Option.some.inj (hH.func.symm.trans hr.id)
  obtain ⟨-, hslots⟩ := h.proper hf
  simp only [Machine.Module.slot?, hH.decl, hH.compiled, hH.source, Option.bind_eq_bind, Option.bind_some] at hs
  obtain ⟨x, hx, hs⟩ := Option.bind_eq_some_iff.1 hs
  split at hs
  · cases hs
  · next hcode =>
    cases hs
    obtain ⟨hlt, hw⟩ := Body.getElem?_slots hslots (h.sized.slots f (List.mem_of_getElem? hf)) hx
    refine ⟨f, hf, hlt, ?_, hw, (hH.whole (by simpa using hcode)).symm⟩
    rw [hr.stack, Body.slotPlace_eq_sum hslots hlt, Memory.addressOf_add]

/-- So many words from an index on have none in common with the slot at an address. -/
def Apart (start words : Nat) (a : UInt64) (w : Nat) :
    Prop :=
  ∃ q, a = Memory.addressOf q ∧ (q + w ≤ start ∨ start + words ≤ q)

theorem sum_take_le {ws : List Nat} {s t : Nat} (hs : s < ws.length) (hst : s < t) :
    (ws.take s).sum + ws[s] ≤ (ws.take t).sum := by
  have hsplit : (ws.take t).sum = (ws.take (s + 1)).sum + ((ws.take t).drop (s + 1)).sum := by
    rw [← Nat.min_eq_left (show s + 1 ≤ t from hst), ← List.take_take, ← List.sum_append,
      Nat.min_eq_left (show s + 1 ≤ t from hst),
      List.take_append_drop]
  rw [hsplit, List.take_succ_eq_append_getElem hs, List.sum_append, List.sum_singleton]
  omega

theorem Sound.slots_below (h : P.Sound) {callee : Nat} {dst : Reg} {vs : List Value} {dfrs : List Direct.Frame}
    {frs : List CellFrame} (hawaits : P.Awaits length callee dst vs area dfrs frs) : ∀ fr ∈ frs, ∀ s a w,
      P.code.module.slot? fr.func fr.stack s = some (a, w) → ∃ q, a = Memory.addressOf q ∧ q + w ≤ area := by
  induction hawaits with
  | nil => exact fun _ h => by cases h
  | @cons _ area _ _ dfr fr _ frs hwaits _ ih =>
    intro fr' hmem s a w hs
    rcases List.mem_cons.1 hmem with rfl | hmem
    · obtain ⟨f, -, hlt, rfl, rfl, hroom⟩ := h.slot_eq hwaits.runs hs
      have hsum := Machine.Body.sum_slots_at hlt
      exact ⟨_, rfl, by omega⟩
    · obtain ⟨q, rfl, hq⟩ := ih fr' hmem s a w hs
      exact ⟨q, rfl, by omega⟩

theorem Sound.slot_of_spare (h : P.Sound) (hlength : length < Memory.maxIndex) (hr : P.Runs length i area fr)
    {start words : Nat} (hspare : (P.site length i area).Spare start words) :
    ∃ s, P.code.module.slot? fr.func fr.stack s = some (Memory.addressOf start, max 1 words)
      ∧ area ≤ start ∧ ∀ s' a w, s' ≠ s → P.code.module.slot? fr.func fr.stack s' = some (a, w) →
        Apart start (max 1 words) a w := by
  obtain ⟨s, off, hslot, hplace, hstart, k, o, rs, hinst⟩ := hspare.slot
  obtain rfl : start = area + off := hstart
  obtain ⟨f, hf⟩ := hr.func
  obtain ⟨id, e, c, hH⟩ := h.holds hf
  obtain rfl : id = fr.func := Option.some.inj (hH.func.symm.trans hr.id)
  have hnone : c.machineCode = none := by
    by_contra hsome
    have hcovers := hH.covered (Option.isSome_iff_ne_none.2 hsome) _ hinst
    simp [Machine.X86.covers] at hcovers
  obtain ⟨-, hslots⟩ := h.proper hf
  have hsum := h.sized.slots f (List.mem_of_getElem? hf)
  have hslot : (P.body i).slots[s]? = some (max 1 words).toInt64 := hslot
  have hplace : (P.body i).slotPlace s 0 = UInt64.ofNat (8 * off) := hplace
  obtain ⟨hlt, hw⟩ := Body.getElem?_slots hslots hsum hslot
  have hmax : Memory.maxIndex = 1152921504606846976 := rfl
  have harea : Machine.maxArea = 576460752303423488 := rfl
  have hroom : area + off + words ≤ length := hspare.room
  have htotal := Machine.Body.sum_slots_at hlt
  have hoff : off = ((f.body.flatMap Instr.slotWords).take s).sum := by
    rw [Body.slotPlace_eq_sum hslots hlt] at hplace
    have hnat := congrArg UInt64.toNat hplace
    rw [UInt64.toNat_ofNat', UInt64.toNat_ofNat'] at hnat
    omega
  have hwidth : (max 1 words).toInt64.toInt.toNat = max 1 words := by
    rw [Nat.toInt64, Int64.toInt_ofNat_of_lt (by omega)]
    rfl
  rw [hwidth] at hw
  refine ⟨s, ?_, Nat.le_add_right .., fun s' a w hne hs' => ?_⟩
  · simp only [Machine.Module.slot?, hH.decl, hH.compiled, hH.source, Option.bind_eq_bind, Option.bind_some,
      hslot, hnone]
    rw [hr.stack, hplace, Memory.addressOf_add, hwidth]
    rfl
  · obtain ⟨f', hf', hlt', rfl, rfl, -⟩ := h.slot_eq hr hs'
    obtain rfl : f = f' := Option.some.inj (hf.symm.trans hf')
    refine ⟨_, rfl, ?_⟩
    rcases Nat.lt_or_gt_of_ne hne with hlow | hhigh
    · have := sum_take_le hlt' hlow
      exact .inl (by omega)
    · have := sum_take_le hlt hhigh
      exact .inr (by omega)

end Plan

/-! ## Reading the arguments -/

namespace Direct

variable {e : Setting} [he : e.Scoped] {i : Instr} {s : Service} {args : List Reg} {r : Reg}

theorem Setting.exists_binds_use (hi : i ∈ e.scope.func.body) (hr : r ∈ i.uses) (hnull : r.ty ≠ .null)
    (hiter : r.ty.isIter = false) :
    ∃ b, e.Binds r b := by
  refine Setting.exists_binds ?_ hiter
  by_cases hg : r ∈ e.program.globals
  · exact .inl hg
  · exact .inr
      (Scope.mem_locals.2 ⟨List.mem_append_right _ (List.mem_flatMap.2 ⟨i, hi, List.mem_append_right _ hr⟩), hnull, hg⟩)

theorem Setting.value_use (hi : i ∈ e.scope.func.body) (rs : List Reg) (huses : i.uses = Instr.nonNull rs) (hr : r ∈ rs)
    {t : Scalar} (ht : r.ty = t.ty) (δ : Store) : value r e δ = (.ok (δ.reads e r), δ) := by
  have hty : r.ty ≠ .null ∧ r.ty.isIter = false := by
    rw [ht]
    cases t <;> exact ⟨by decide, rfl⟩
  have huse : r ∈ i.uses := by
    rw [huses]
    exact List.mem_filter.2 ⟨hr, by simp [Reg.isNull, hty.1]⟩
  obtain ⟨b, hb⟩ := Setting.exists_binds_use hi huse hty.1 hty.2
  exact hb.value

omit he in
theorem exists_output {o : Option Output} (δ : Store) (h : ∀ p ∈ o, value p.path e δ = (.ok (δ.reads e p.path), δ)) :
    ∃ v, output o e δ = (.ok v, δ) := by
  cases o with
  | none => exact ⟨_, rfl⟩
  | some p => exact ⟨_, bind_ok (h p rfl)⟩

theorem front_apply (hi : i ∈ e.scope.func.body) (hb : i.block? = some (s, args)) (δ : Store) :
    front i e δ = (.ok (), δ) ∧ args.mapM value e δ = (.ok (args.map (δ.reads e)), δ) := by
  have ht : i.Typed e.program e.scope.func.ret := he.typed hi
  cases i with
  | print out as status =>
    cases hb
    have hread := fun r => Setting.value_use (e := e) (r := r) hi _ rfl
    obtain ⟨v, hout⟩ := exists_output (e := e) (o := out) δ fun p hp => by
      obtain rfl : out = some p := hp
      exact hread _ (.head _) (t := .str) (ht.2.1 p rfl) δ
    exact ⟨bind_ok hout, mapM_value fun r hr => hread _ (List.mem_append_right _ hr) (t := .str) (ht.2.2 r hr) δ⟩
  | printf out format as status =>
    cases hb
    have hread := fun r => Setting.value_use (e := e) (r := r) hi _ rfl
    obtain ⟨v, hout⟩ := exists_output (e := e) (o := out) δ fun p hp => by
      obtain rfl : out = some p := hp
      exact hread _ (.head _) (t := .str) (ht.2.1 p rfl) δ
    refine ⟨(bind_ok hout).trans (bind_ok (hread _ (List.mem_append_right _ (.head _)) (t := .str) ht.2.2.1 δ)),
      mapM_value fun r hr => ?_⟩
    obtain ⟨t, hr'⟩ := ht.2.2.2 r hr
    exact hread _ (List.mem_append_right _ (.tail _ hr)) hr' δ
  | sprintf dst format as =>
    cases hb
    have hread := fun r => Setting.value_use (e := e) (r := r) hi _ rfl
    refine ⟨bind_ok (hread _ (.head _) (t := .str) ht.2.1 δ), mapM_value fun r hr => ?_⟩
    obtain ⟨t, hr'⟩ := ht.2.2 r hr
    exact hread _ (.tail _ hr) hr' δ
  | _ => cases hb

end Direct

/-! ## Handing over -/

namespace Plan

variable {P : Plan}

/-- The machine has put the arguments into a block of memory and is about to ask the host, from a state in which the
registers held the words `wss`. -/
structure HandsOver (P : Plan) (s : Service) (args : List Reg) (wss : List (List UInt64))
    (mst mst' : Machine.State Context) (front : List UInt64) (start : Nat) (own : SlotId) : Prop where
  asks : mst'.asked? P.code.module = some (s, front ++ [Memory.addressOf start, (Int64.ofNat args.length).toUInt64])
  back : s.ReadsBack args wss (Memory.addressOf start) mst'.outside
  reads : Service.ReadsOnly (Service.Within (Memory.addressOf start) (s.stride * args.length))
    (Service.perform s (front ++ [Memory.addressOf start, (Int64.ofNat args.length).toUInt64]))
  host : mst'.outside.host = mst.outside.host
  written : ∀ j, 0 < j → j < start ∨ start + s.stride * args.length ≤ j →
    mst'.outside.memory.get j = mst.outside.memory.get j
  frames : mst'.frames.map (fun fr => (fr.func, fr.stack)) = mst.frames.map fun fr => (fr.func, fr.stack)
  inside : ∃ fr below, mst'.frames = fr :: below
    ∧ P.code.module.slot? fr.func fr.stack own = some (Memory.addressOf start, max 1 (s.stride * args.length))
  /-- Every other slot, of this frame or of one below, has no word of the block. -/
  apart : ∀ d fr s' a w, mst'.frames[d]? = some fr → P.code.module.slot? fr.func fr.stack s' = some (a, w) →
    (d, s') ≠ (0, own) →
    Apart start (max 1 (s.stride * args.length)) a w

theorem Carries.same_below {m m' : Memory} {globals : Reg → List UInt64} (hg : P.program.globals.Nodup)
    (h : P.Carries m globals) (h' : P.Carries m' globals) {j : Nat} (hpos : 0 < j) (hj : j < P.base) :
    m'.get j = m.get j := by
  obtain ⟨g, hmem, hlow, hhigh⟩ :=
    Declared.exists_before hg (show j - 1 < Declared.span P.program.globals by unfold base at hj; omega)
  obtain ⟨hlen, hholds⟩ := h g hmem
  obtain ⟨-, hholds'⟩ := h' g hmem
  obtain ⟨w, hw⟩ : ∃ w, (globals g)[j - 1 - Declared.before P.program.globals g]? = some w :=
    ⟨_, List.getElem?_eq_getElem (by omega)⟩
  have hindex : 1 + Declared.before P.program.globals g + (j - 1 - Declared.before P.program.globals g) = j := by omega
  have hm := hholds _ _ hw
  have hm' := hholds' _ _ hw
  rw [hindex] at hm hm'
  rw [hm, hm']

/-- From where an instruction starts that prints, the machine comes to where it asks the host. -/
theorem Sound.hands_over (h : P.Sound) {st : Direct.State} {mst : Machine.State Context}
    (hmax : mst.outside.memory.length < Memory.maxIndex) (hstands : P.Stands st mst) {i : Instr} {s : Service}
    {args : List Reg} (hi : st.frame.instr? P.program = some i) (hb : i.block? = some (s, args)) :
    ∃ k mst' front start own, Machine.State.run P.code.module Service.perform k mst = .next mst'
      ∧ P.HandsOver s args (args.map (st.reads P.program)) mst mst' front start own := by
  obtain ⟨_, hst, area, out, fr, below, rfl, hgo⟩ := hstands
  obtain ⟨f, hf, hinstr⟩ := Option.bind_eq_some_iff.1 hi
  have hout : mst.outside = out := by cases hst; rfl
  rw [hout] at hmax hgo
  have A := h.active hmax hgo.runs
  have hi' := (h.body_getElem? out.memory.length area hf st.frame.next).trans hinstr
  have hsetting : Direct.setting P.program P.code.literals st.frame.func f
      = (P.site out.memory.length st.frame.func area).setting :=
    h.setting_eq hf
  have he : (Direct.setting P.program P.code.literals st.frame.func f).Scoped :=
    Direct.setting_scoped h.checked h.distinct.globals hf
  obtain ⟨hfront, hargs⟩ := Direct.front_apply (e := Direct.setting P.program P.code.literals st.frame.func f)
    (List.mem_of_getElem? hinstr) hb st.store
  have hargs : args.mapM Direct.value (Direct.setting P.program P.code.literals st.frame.func f) st.store
      = (.ok (args.map (st.reads P.program)), st.store) := hargs
  rw [hsetting] at hfront hargs
  obtain ⟨n, c, out', front, start, ⟨k, hvisits⟩, hH⟩ := A.hands_over hgo.starts hgo.sound hi' hb hfront hargs
  have hgoes : OutcomeOf P.code.module (Machine.State.run P.code.module Service.perform k mst)
      (runs (CellState.step P.code.module Service.perform) k ⟨out, fr :: below⟩) := OutcomeOf.run _ h.laid hst k
  have hvisits : runs (CellState.step P.code.module Service.perform) k ⟨out, fr :: below⟩
    = .next ⟨out', fr.to fr.block n c :: below⟩ := hvisits
  rw [hvisits] at hgoes
  generalize hrun : Machine.State.run P.code.module Service.perform k mst = o at hgoes
  cases hgoes with
  | @next mst' _ hst' =>
    obtain ⟨own, hown, hlow, hother⟩ := h.slot_of_spare hmax hgo.runs hH.spare
    have hout' : mst'.outside = out' := by cases hst'; rfl
    have hplaces : mst'.frames.map (fun fr => (fr.func, fr.stack)) = (fr :: below).map fun cf =>
      (cf.func, cf.stack) := hst'.places
    refine ⟨k, mst', front, start, own, hrun, ?_⟩
    exact
      { asks := by
          obtain ⟨r, us, vs, id, d, hcode, hcallee, hd, hhost, hwords⟩ := hH.asks
          rw [← hwords]
          exact hst'.asked A.body hcode hcallee hd hhost
        back := by
          rw [hout']
          exact hH.back
        reads := by
          have hcount := (A.spills i (List.mem_of_getElem? hi')).block hb
          have hstride : 0 < s.stride := by cases s <;> exact Nat.succ_pos _
          have hlen : args.length ≤ s.stride * args.length := Nat.le_mul_of_pos_left _ hstride
          have hreads := Service.readsOnly_perform (Instr.readsMemory_of_block hb) hH.length
          rwa [Service.toNat_count (by omega)] at hreads
        host := by
          rw [hout', hout]
          exact hH.sound.host.trans hgo.sound.host.symm
        written := fun j hpos hj => by
          rw [hout', hout]
          rcases Nat.lt_or_ge j P.base with hlt | hge
          · exact (h.carries hf hgo.sound).same_below h.distinct.globals (h.carries hf hH.sound) hpos hlt
          · exact hH.written j hge hj
        frames := hplaces.trans hst.places.symm
        inside := by
          obtain ⟨top, rest, hframes, htop, -⟩ := List.map_eq_cons_iff.1 hplaces
          obtain ⟨hfunc, hstack⟩ := Prod.mk.inj htop
          exact ⟨top, rest, hframes, by rwa [hfunc, hstack]⟩
        apart := fun d top s' a w hframe hs' hne => by
          have hplace := congrArg (·[d]?) hplaces
          simp only [List.getElem?_map, hframe, Option.map_some] at hplace
          obtain ⟨cf, hcf, hplace⟩ := Option.map_eq_some_iff.1 hplace.symm
          obtain ⟨hfunc, hstack⟩ := Prod.mk.inj hplace
          rw [← hfunc, ← hstack] at hs'
          cases d with
          | zero =>
            obtain rfl : fr = cf := Option.some.inj hcf
            exact hother s' a w (fun heq => hne (heq ▸ rfl)) hs'
          | succ d =>
            obtain ⟨q, rfl, hq⟩ := h.slots_below hgo.awaits cf (List.mem_of_getElem? hcf) s' a w hs'
            exact ⟨q, rfl, .inl (by omega)⟩ }

section

variable {context : Context} {stackWords : Int64} {inst : Instance Service Context}

theorem Sound.length_lt (h : P.Sound) (hinst : Instance.ofModule P.code.module context stackWords = .ok inst) {n : Nat}
    {mst : Machine.State Context} (hpass : P.Passes inst.outside n mst) :
    mst.outside.memory.length < Memory.maxIndex := by
  have hdata : 0 ≤ 1 + P.code.module.dataWords := by
    rw [h.words, Int64.le_iff_toInt_le, Memory.toInt_base h.span_lt]
    exact Int.le_trans (Int.le_refl 0) (by omega)
  obtain ⟨hidle, hle, hmax⟩ := Instance.idle_ofModule hinst hdata
  have hgoes : inst.Goes Service.perform P.code.main [0] n mst := by
    obtain ⟨first, hcall, hrun⟩ := hpass
    rw [← hidle.module] at hcall hrun
    exact ⟨first, hcall, hrun⟩
  have horderly := hidle.goes (fun s args => Service.keepsShape_perform s args) hle hmax hgoes
  rw [horderly.length]
  exact hmax

theorem Sound.exists_first (h : P.Sound) (hinst : Instance.ofModule P.code.module context stackWords = .ok inst)
    (hroom : ¬P.Crowded inst.outside.memory.length []) {st : Direct.State}
    (hstart : Direct.start P.program P.code.literals inst.outside.host = .next st) :
    ∃ n mst, P.Passes inst.outside n mst ∧ P.Stands st mst := by
  obtain ⟨⟨f, hmain, -⟩, -⟩ := Check.check_eq_nil.1 h.checked
  have hfits : P.full inst.outside.memory.length [] P.program.main.toNat = false :=
    Bool.eq_false_iff.2 fun hfull => hroom (crowded_of_full (Program.place_of_func? hmain).2 hfull)
  have hfirst : Direct.startWithin P.program P.code.literals (P.full inst.outside.memory.length) inst.outside.host
      = .next st := by
    rw [Direct.startWithin, hfits]
    exact hstart
  exact h.reaches hinst (h.faithful _) (k := 0) ⟨st, hfirst, rfl⟩

end

end Plan

/-- Wherever a run comes to an instruction that prints, the block that it puts its arguments into is read back by the
host as what the registers held, lies in a slot of its own and leaves every other word alone. -/
theorem Program.argument_blocks_round_trip {p : Program} (hp : p.check = []) (hs : p.Sized) {x : Executable}
    (hx : p.compile = .ok x) {context : Context} {stackWords : Int64} {inst : Instance Service Context}
    (hinst : Instance.ofModule x.module context stackWords = .ok inst) :
    ∃ P : Plan, P.Sound ∧ P.program = p ∧ P.code = x ∧ P.Mirrors inst.outside
      ∧ ∀ n st mst i s args, P.Passes inst.outside n mst → P.Stands st mst → st.frame.instr? p = some i →
        i.block? = some (s, args) →
        ∃ k mst' front start own, P.Passes inst.outside (n + k) mst'
          ∧ P.HandsOver s args (args.map (st.reads p)) mst mst' front start own := by
  obtain ⟨P, hP, rfl, rfl⟩ := Plan.exists_of_compile hp hs hx
  refine ⟨P, hP, rfl, rfl, hP.mirrors hinst, fun n st mst i s args hpass hstands hi hb => ?_⟩
  obtain ⟨k, mst', front, start, own, hrun, hhands⟩ := hP.hands_over (hP.length_lt hinst hpass) hstands hi hb
  obtain ⟨first, hcall, hfirst⟩ := hpass
  exact ⟨k, mst', front, start, own, ⟨first, hcall, (Machine.State.run_of_next hfirst k).trans hrun⟩, hhands⟩

/-- A program that prints a number, a double and a text into a text. -/
def Program.mixing : Program where
  funcs := [{
    name := "main", ret := .null
    body := [.sprintf ⟨4, .str⟩ ⟨1, .str⟩ [⟨2, .int⟩, ⟨3, .float⟩, ⟨1, .str⟩], .ret ⟨0, .null⟩] }]

/-- The three arguments take nine words. -/
theorem Program.argument_blocks_of_mixing : mixing.check = [] ∧ mixing.Sized ∧ ∃ x inst, mixing.compile = .ok x
    ∧ Instance.ofModule x.module (Context.ofSettings {} {}) 0 = .ok inst ∧ ∃ P :
      Plan, P.Sound ∧ P.program = mixing ∧ P.code = x
    ∧ ∃ n st mst, P.Passes inst.outside n mst ∧ P.Stands st mst
      ∧ st.frame.instr? mixing = some (.sprintf ⟨4, .str⟩ ⟨1, .str⟩ [⟨2, .int⟩, ⟨3, .float⟩, ⟨1, .str⟩])
      ∧ ∃ k mst' front start own, P.Passes inst.outside (n + k) mst'
        ∧ P.HandsOver .sprintf [⟨2, .int⟩, ⟨3, .float⟩, ⟨1, .str⟩] [[0], [0], [0, 0]] mst mst' front start own := by
  have hp : mixing.check = [] := by decide +kernel
  have hs : mixing.Sized := sized_of_slots (by decide +kernel) (by decide +kernel)
  obtain ⟨x, inst, hx, hinst, hhost⟩ :=
    exists_running hp (by decide +kernel) (by decide +kernel) (by decide +kernel) hs (by decide +kernel)
    (Context.ofSettings {} {})
  obtain ⟨P, hP, hprogram, rfl, -, hall⟩ := argument_blocks_round_trip hp hs hx hinst
  have hstate : ∀ ls, (Direct.stateAt? mixing ls (Context.ofSettings {} {}) 0).map (fun st =>
      ((st.frame.func, st.frame.next), [⟨2, .int⟩, ⟨3, .float⟩, ⟨1, .str⟩].map (st.reads mixing)))
          = some ((0, 0), [[0], [0], [0, 0]]) :=
    fun ls => by rfl
  obtain ⟨st, hst, hat⟩ := Option.map_eq_some_iff.1 (hstate P.code.literals)
  simp only [Prod.mk.injEq] at hat
  obtain ⟨⟨hfunc, hnext⟩, hreads⟩ := hat
  rw [Direct.stateAt?_eq_some, ← hhost] at hst
  obtain ⟨first, hstart, hrun⟩ := hst
  obtain rfl : first = st := by cases hrun; rfl
  have hroom : ¬P.Crowded inst.outside.memory.length [] := by
    obtain ⟨-, -, hlength, -⟩ := hP.starts hinst
    have hstack : Plan.stackSize 0 = 65536 := by decide
    have hwords : ∀ f ∈ mixing.funcs, (f.body.flatMap Instr.slotWords).sum ≤ 9 := by decide
    rintro (hmany | ⟨i, f, hf, hfull⟩)
    · exact absurd hmany (by decide)
    · obtain ⟨id, e, c, hH⟩ := hP.holds hf
      have hslots := hwords f (List.mem_of_getElem? (hprogram ▸ hf))
      have htop : P.top [] = P.base := rfl
      have hroom := hH.slotted
      omega
  obtain ⟨n, mst, hpass, hstands⟩ := hP.exists_first hinst hroom (hprogram ▸ hstart)
  have hi : first.frame.instr? mixing = some (.sprintf ⟨4, .str⟩ ⟨1, .str⟩ [⟨2, .int⟩, ⟨3, .float⟩, ⟨1, .str⟩]) := by
    rw [Direct.Frame.instr?, hfunc, hnext]
    rfl
  have hhands := hall n first mst _ _ _ hpass hstands hi rfl
  rw [hreads] at hhands
  exact ⟨hp, hs, P.code, inst, hx, hinst, P, hP, hprogram, rfl, n, first, mst, hpass, hstands, hi, hhands⟩

end RecordMill

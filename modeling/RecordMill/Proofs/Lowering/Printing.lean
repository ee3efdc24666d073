import RecordMill.Proofs.Lowering.Spilling

/-!
# Printing

The code of the printing instructions hands a block of words to the host, which reads from it what the
registers held. So it prints what the direct emitter prints.
-/

namespace RecordMill

open Machine (Kind Value VarId BlockId Cells Outside Memory Body FuncDraft Build Inst Action Trap Callee)

namespace Service

variable {out : Outside Context} {i : Nat}

theorem loadArgs_of {rs : List Reg} {wss : List (List UInt64)} (h : Realizes.ArgsAt out.memory i rs wss) (hi : 0 < i)
    (hm : i + 3 * rs.length ≤ out.memory.length) (hmax : out.memory.length ≤ Memory.maxIndex) :
    loadArgs (Memory.addressOf i) rs.length out = lift (Direct.formatArgs rs wss) out := by
  induction rs generalizing i wss out with
  | nil =>
    cases wss with
    | nil => rfl
    | cons ws wss => exact h.elim
  | cons r rs ih =>
    cases wss with
    | nil => exact h.elim
    | cons ws wss =>
      obtain ⟨⟨hcode, hws, hlen⟩, h⟩ := h
      rw [List.length_cons] at hm
      have hargs : Direct.formatArgs (r :: rs) (ws :: wss) = do
          let a ← Direct.formatArg r.ty ws
          return a :: (← Direct.formatArgs rs wss) := by
        simp [Direct.formatArgs, List.zip_cons_cons]
      have hnext : Memory.addressOf i + 24 = Memory.addressOf (i + 3) := (Memory.addressOf_add i 3).symm
      rw [hargs, lift_bind, List.length_cons, loadArgs, bind_apply, bind_apply,
        loadArg_of hcode hws hlen hi (by omega) hmax]
      obtain ⟨m, host⟩ := out
      rw [lift_apply]
      rcases Direct.formatArg r.ty ws host with ⟨_ | a, host'⟩
      · rfl
      · have hroom : i + 3 * (rs.length + 1) ≤ m.length := hm
        have ih := @ih ⟨m, host'⟩ _ _ h (by omega) (show i + 3 + 3 * rs.length ≤ m.length by omega) hmax
        dsimp only
        rw [lift_bind, bind_apply, bind_apply, hnext, ih]
        rcases lift (Direct.formatArgs rs wss) ⟨m, host'⟩ with ⟨_ | as, out'⟩ <;> rfl

theorem toNat_count {n : Nat} (h : n < 2 ^ 64) : (Int64.ofNat n).toUInt64.toNat = n :=
  UInt64.toNat_ofNat_of_lt' h

section

variable {ps fs : List UInt64} {n : Nat} {rs : List Reg} {wss : List (List UInt64)}

theorem perform_printAll (w : UInt64) (hps : ps.length = 2) (h : Realizes.StringsAt out.memory i wss) (hi : 0 < i)
    (hm : i + 2 * wss.length ≤ out.memory.length) (hmax : out.memory.length ≤ Memory.maxIndex) :
    perform .printAll [Direct.contextWord, [w], ps, [Memory.addressOf i],
      [(Int64.ofNat wss.length).toUInt64]].flatten out
      = lift (do return ofInt (← Act.printAll (destination w) (Direct.packed ps) (wss.map Direct.packed))) out := by
  have hbound : wss.length < 2 ^ 64 := by
    have : Memory.maxIndex = 2 ^ 60 := rfl
    omega
  match ps, hps with
  | [lo, hi'], _ =>
    show (loadStrings (Memory.addressOf i) (Int64.ofNat wss.length).toUInt64.toNat >>= fun args => _) out = _
    rw [toNat_count hbound, bind_apply, loadStrings_of h hi hm hmax]
    rfl

theorem perform_printf (w : UInt64) (hps : ps.length = 2) (hfs : fs.length = 2)
    (h : Realizes.ArgsAt out.memory i rs wss) (hi : 0 < i) (hm : i + 3 * rs.length ≤ out.memory.length)
    (hmax : out.memory.length ≤ Memory.maxIndex) :
    perform .printf [Direct.contextWord, [w], ps, fs, [Memory.addressOf i],
      [(Int64.ofNat rs.length).toUInt64]].flatten out
      = lift ((Direct.formatArgs rs wss >>= fun args => Act.printf (destination w) (Direct.packed ps)
        (Direct.packed fs) args)
          >>= fun n => pure (ofInt n)) out := by
  have hbound : rs.length < 2 ^ 64 := by
    have : Memory.maxIndex = 2 ^ 60 := rfl
    omega
  match ps, fs, hps, hfs with
  | [lo, hi'], [a, b], _, _ =>
    show (loadArgs (Memory.addressOf i) (Int64.ofNat rs.length).toUInt64.toNat >>= fun args => _) out = _
    rw [toNat_count hbound, bind_apply, loadArgs_of h hi hm hmax, bind_assoc, lift_bind, bind_apply]
    rfl

theorem perform_sprintf (hfs : fs.length = 2) (h : Realizes.ArgsAt out.memory i rs wss) (hi : 0 < i)
    (hm : i + 3 * rs.length ≤ out.memory.length) (hmax : out.memory.length ≤ Memory.maxIndex) :
    perform .sprintf [Direct.contextWord, fs, [Memory.addressOf i], [(Int64.ofNat rs.length).toUInt64]].flatten out
      = lift ((Direct.formatArgs rs wss >>= fun args => Act.sprintf (Direct.packed fs) args)
          >>= fun s => pure (ofPacked s)) out := by
  have hbound : rs.length < 2 ^ 64 := by
    have : Memory.maxIndex = 2 ^ 60 := rfl
    omega
  match fs, hfs with
  | [a, b], _ =>
    show (loadArgs (Memory.addressOf i) (Int64.ofNat rs.length).toUInt64.toNat >>= fun args => _) out = _
    rw [toNat_count hbound, bind_apply, loadArgs_of h hi hm hmax, bind_assoc, lift_bind, bind_apply]
    rfl

end

end Service

instance : Nonempty Destination := ⟨.stdout⟩

namespace Realizes

variable {S : Site} {α β γ ε : Type} {K : Known S} {n m : Nat} {x : Native α} {D : Direct β} {R : α → β → Known S}

theorem act_apply {ι : Type} (a : Act ι) (f : ι → List UInt64) (s : Direct.Setting) (δ : Direct.Store) :
    (Direct.act a >>= fun r => Pure.pure (f r) : Direct (List UInt64)) s δ = match a δ.context with
      | (.ok r, context) => (.ok (f r), { δ with context })
      | (.error e, context) => (.error (.trap (Service.trapOf e)), { δ with context }) := by
  rw [Direct.bind_apply, Direct.act]
  rcases a δ.context with ⟨_ | r, context⟩ <;> rfl

theorem askAct (hS : S.Sound) (s : Service) {k : Kind} (hk : s.sig.returns = [k]) {args : List Value} {ks : List Kind}
    {wss : List (List UInt64)} (ha : K.Gives (Known.values S args ks wss)) {ι : Type} {a : Act ι} (f : ι → List UInt64)
    (hs : ∀ {d : FuncDraft} {c : Cells} {out : Outside Context}, out.memory.length = S.length → K.Holds d c out.memory →
      Service.perform s wss.flatten out = Service.lift (do return f (← a)) out)
    {g : Value → Native γ} {h : List UInt64 → Direct ε} {T : γ → ε → Known S}
    (hgh : ∀ v ws, Realizes S (K.and (Known.value S v k ws)) 0 (g v) (h ws) T) :
    Realizes S K 1 (Native.ask s args >>= g) (Direct.act a >>= fun r => h (f r)) T := by
  have hask : Realizes S K 1 (Native.ask s args) (Direct.act a >>= fun r => Pure.pure (f r))
      fun v ws => Known.value S v k ws := by
    refine single (hk ▸ serviceWith hS s ha fun {d δ c out} hmatch hK => ?_)
    rw [hs hmatch.length hK]
    obtain ⟨m, host⟩ := out
    have hhost : host = δ.context := hmatch.host
    rw [Service.lift_bind, Service.bind_apply, Service.lift_apply, hhost, act_apply]
    rcases a δ.context with ⟨_ | r, context⟩
    · rfl
    · exact ⟨rfl, rfl⟩
  have := hask.bind hgh
  simpa only [bind_assoc, pure_bind] using this

theorem output (hS : S.Sound) {o : Option Output} (ho : ∀ p ∈ o, p.path.ty = .str) :
    Realizes S K 0 (Native.output o) (Direct.output o) fun v d => Known.any fun w =>
      ((Known.value S v.1 .i32 [w]).and (Known.fact S (Service.destination w = d.1))).and
      (Known.value S v.2 .i128 d.2) := by
  cases o with
  | none =>
    unfold Native.output Direct.output
    refine first (constMode (-1)) fun mode => ?_
    refine bind (constStr []).any fun path ws => ?_
    exact pure ⟨fun h => ⟨_, ⟨h.1.2, rfl⟩, h.2⟩⟩
  | some p =>
    unfold Native.output Direct.output
    refine bind (value hS p.path).any fun path ws => ?_
    rw [ho p rfl]
    refine first (constMode (Int64.ofNat p.mode.code)).any fun mode => ?_
    exact pure ⟨fun h => ⟨_, ⟨h.2, rfl⟩, h.1.2⟩⟩

theorem count {ι : Type} (xs : List ι) :
    Realizes S K 1 (Native.count xs) (Pure.pure [(Int64.ofNat xs.length).toUInt64]) fun v ws =>
      Known.value S v .i64 ws :=
  constInt _

theorem printAll (hS : S.Sound) {status : Reg} {o : Option Output} {args : List Reg} (hstatus : status.ty.words = .i64)
    (ho : ∀ p ∈ o, p.path.ty = .str) (hargs : ∀ r ∈ args, r.ty = .str) (hlen : 16 * args.length < 2 ^ 31) :
    Realizes S (Known.nothing S) 1 (Native.printAll status o args) (Direct.printAll status o args)
      fun _ _ => Known.nothing S := by
  unfold Native.printAll Direct.printAll
  refine next (output hS ho) fun (mode, path) (dest, ps) => given_any fun w => ?_
  refine first (argumentBlock hS (2 * args.length) (by omega)) fun base => given_any fun i => ?_
  refine next (spillStrings hS hargs 0 (.right .last) (by omega) (.right (.left .refl)) ?_ (by omega)) fun _ wss => ?_
  · exact .and (.and .nothing (.and (.and .value .fact) .value)) (.and .value .fact)
  refine first (context hS) fun ctx => ?_
  refine first (count args) fun num => ?_
  refine askAct hS .printAll rfl (.cons (.left .last)
    (.cons (.left (.left (.left (.left (.right (.left (.left .refl))))))) (.cons
      (.left (.left (.left (.left (.right .last))))) (.two (.left (.left (.left (.right (.left .refl))))) .last))))
    Service.ofInt (fun {d c out} hlength hK => ?_) fun v ws => bindReg hS status .last (by rw [hstatus])
  obtain ⟨⟨⟨⟨⟨-, ⟨-, hdest⟩, hpath⟩, -, hspare⟩, hstrings, hcount⟩, -⟩, -⟩ := hK
  obtain rfl : Service.destination w = dest := hdest
  have hcount : wss.length = args.length := hcount
  rw [← hcount]
  exact Service.perform_printAll w (Known.value_length hpath) hstrings.2
    (by have := hS.positive; have := hspare.1; omega) (by have := hspare.2; omega) (hlength ▸ hS.length)

theorem formatBlock (hS : S.Sound) {args : List Reg} (hlen : 24 * args.length < 2 ^ 31) (hK : ∀ i j, K.Apart i j) :
    Realizes S K 0 (Native.formatBlock args) (args.mapM Direct.value) fun base wss => Known.any fun i =>
      ((Known.value S base .i64 [Memory.addressOf i]).and (spare S i (3 * args.length))).and
      (arguments S i args wss) := by
  unfold Native.formatBlock
  refine first (argumentBlock hS (3 * args.length) (by omega)).any fun base => given_any fun i => ?_
  rw [← bind_pure (args.mapM Direct.value)]
  refine bind (spillArgs hS 0 (.right .last) (by omega) (.right (.left .refl)) ?_ (by omega)) fun _ wss => ?_
  · exact .and (hK _ _) (.and .value .fact)
  · exact pure ⟨fun h => ⟨i, h.1.2, h.2⟩⟩

theorem printf (hS : S.Sound) {status format : Reg} {o : Option Output} {args : List Reg}
    (hstatus : status.ty.words = .i64) (ho : ∀ p ∈ o, p.path.ty = .str) (hformat : format.ty = .str)
    (hlen : 24 * args.length < 2 ^ 31) :
    Realizes S (Known.nothing S) 1 (Native.printf status o format args) (Direct.printf status o format args)
      fun _ _ => Known.nothing S := by
  unfold Native.printf Direct.printf
  refine next (output hS ho) fun (mode, path) (dest, ps) => given_any fun w => ?_
  refine next (value hS format) fun f fs => ?_
  rw [hformat]
  refine next (formatBlock hS hlen fun i j => ?_) fun base wss => given_any fun i => ?_
  · exact .and (.and .nothing (.and (.and .value .fact) .value)) .value
  refine first (context hS) fun ctx => ?_
  refine first (count args) fun num => ?_
  refine askAct hS .printf rfl (.cons (.left .last)
    (.cons (.left (.left (.left (.left (.right (.left (.left .refl)))))))
      (.cons (.left (.left (.left (.left (.right .last)))))
        (.cons (.left (.left (.left .last))) (.two (.left (.left (.right (.left (.left .refl))))) .last)))))
    Service.ofInt (fun {d c out} hlength hK => ?_) fun v ws => bindReg hS status .last (by rw [hstatus])
  obtain ⟨⟨⟨⟨⟨-, ⟨-, hdest⟩, hpath⟩, hf⟩, ⟨-, hspare⟩, hargs⟩, -⟩, -⟩ := hK
  obtain rfl : Service.destination w = dest := hdest
  exact Service.perform_printf w (Known.value_length hpath) (Known.value_length hf) hargs.2
    (by have := hS.positive; have := hspare.1; omega) (by have := hspare.2; omega) (hlength ▸ hS.length)

theorem sprintf (hS : S.Sound) {dst format : Reg} {args : List Reg} (hdst : dst.ty = .str) (hformat : format.ty = .str)
    (hlen : 24 * args.length < 2 ^ 31) :
    Realizes S (Known.nothing S) 1 (Native.sprintf dst format args) (Direct.sprintf dst format args)
      fun _ _ => Known.nothing S := by
  unfold Native.sprintf Direct.sprintf
  refine next (value hS format) fun f fs => ?_
  rw [hformat]
  refine next (formatBlock hS hlen fun i j => .and .nothing .value) fun base wss => given_any fun i => ?_
  refine first (context hS) fun ctx => ?_
  refine first (count args) fun num => ?_
  refine askAct hS .sprintf rfl (.cons (.left .last) (.cons (.left (.left (.left .last)))
    (.two (.left (.left (.right (.left (.left .refl))))) .last))) Direct.ofPacked (fun {d c out} hlength hK => ?_)
    fun v ws => bindOwned hS dst .last (by rw [hdst]; rfl)
  obtain ⟨⟨⟨⟨-, hf⟩, ⟨-, hspare⟩, hargs⟩, -⟩, -⟩ := hK
  exact Service.perform_sprintf (Known.value_length hf) hargs.2 (by have := hS.positive; have := hspare.1; omega)
    (by have := hspare.2; omega) (hlength ▸ hS.length)

end Realizes

end RecordMill

import RecordMill.Proofs.Machine.Building
import RecordMill.Proofs.Machine.Lockstep

/-!
# Machine code agrees with the blocks

The bytes of a body and its blocks of steps do the same: they return for the same frames, and with the
same words. Both go from block to block in lockstep, over frames that have the same values and variables;
only the scratch words differ.
-/

namespace RecordMill.Machine

def Body.codeBlocks? (f : Body) : Option (List CodeBlock) :=
  ((f.blocks.toList.mapM (Lay.block f (.ofBody f))).run (Layout.size f)).map (·.1)

def Action.matchesEntry (f : Body) : Action → Bool
  | .jump dest args => args.map (f.values[·]?) = (f.blocks.getD dest {}).params.map (f.values[·]?)
  | _ => true

def Body.JumpsMatch (f : Body) : Prop := ∀ i ∈ f.insts, i.action.matchesEntry f

instance (f : Body) : Decidable f.JumpsMatch :=
  inferInstanceAs (Decidable (∀ i ∈ f.insts, i.action.matchesEntry f = true))

namespace X86

/-! ## Straight-line parts -/

theorem Code.Near.mono {c : Code} {a b : Nat} (h : c.Near a) (hab : a ≤ b) : c.Near b := by
  cases c with
  | load r w => exact Nat.lt_of_lt_of_le h hab
  | store w r => exact Nat.lt_of_lt_of_le h hab
  | _ => trivial

variable {f : Body}

theorem act_insts {insts : List Inst} {steps : List Step} {css : List (List Code)} {n n' m m' : Nat}
    (hf : ∀ i ∈ insts, i.Fits f) (hv : ∀ k ∈ f.values, k ≠ .invalid) (hc : ∀ i ∈ insts, covers i.action)
    (hs : insts.mapM (Lay.step f (.ofBody f)) n = some (steps, n'))
    (hx : insts.mapM (code (.ofBody f)) m = some (css, m')) :
    (∀ c ∈ css.flatten, c.Near (Layout.size f))
      ∧ ∀ {v : View} {ws : Array UInt64}, Follows (Layout.size f) v.words ws → Layout.size f ≤ ws.size →
        ∃ v' ws', actAll css.flatten v = some v' ∧ (∀ stack mem, Step.runAll stack steps ws mem = (.ok ([], ws'), mem))
          ∧ ws'.size = ws.size ∧ Follows (Layout.size f) v'.words ws' := by
  induction insts generalizing steps css n n' m m' with
  | nil =>
    obtain ⟨rfl, -⟩ := Lay.pure_eq.1 hs
    obtain ⟨rfl, -⟩ := Lay.pure_eq.1 hx
    exact ⟨by simp, fun hw _ => ⟨_, _, rfl, fun _ _ => rfl, rfl, hw⟩⟩
  | cons i insts ih =>
    simp only [List.mapM_cons, Lay.bind_eq, Lay.pure_eq] at hs hx
    obtain ⟨s, n₁, hs₁, steps, n₂, hs₂, rfl, -⟩ := hs
    obtain ⟨cs, m₁, hx₁, css, m₂, hx₂, rfl, -⟩ := hx
    have hm := matches_code (hf i (by simp)) hv (hc i (by simp)) hs₁ hx₁
    obtain ⟨hn, hrest⟩ := ih (fun j hj => hf j (by simp [hj])) (fun j hj => hc j (by simp [hj])) hs₂ hx₂
    refine ⟨fun c hc => ?_, fun hw hsize => ?_⟩
    · rcases List.mem_append.1 (List.flatten_cons ▸ hc) with hc | hc
      · exact hm.near c hc
      · exact hn c hc
    · obtain ⟨v₁, ws₁, ha₁, hr₁, hz₁, hw₁⟩ := hm.run hw hsize
      obtain ⟨v₂, ws₂, ha₂, hr₂, hz₂, hw₂⟩ := hrest hw₁ (by omega)
      refine ⟨v₂, ws₂, ?_, fun stack mem => ?_, by omega, hw₂⟩
      · rw [List.flatten_cons, actAll_append, ha₁]
        exact ha₂
      · rw [Step.runAll, if_neg (by simp [hm.inside]), hr₁]
        exact hr₂ stack mem

/-! ## Exits -/

theorem total_zip {vs : List Value} {ks : List Kind} (h : vs.length = ks.length) :
    Span.total ((vs.zip ks).map fun (v, k) => ⟨f.valueAt v, k.words⟩) = Kind.total ks := by
  induction vs generalizing ks with
  | nil => cases ks <;> simp at h ⊢
  | cons v vs ih =>
    cases ks with
    | nil => simp at h
    | cons k ks => simp [ih (by simpa using h : vs.length = ks.length)]

theorem spans_within {vs : List Value} {ss : List Span} {n m : Nat}
    (h : Lay.spans (.ofBody f) vs n = some (ss, m)) : ∀ s ∈ ss, s.offset + s.words ≤ Layout.size f := by
  intro s hs
  have hm : some s ∈ vs.map ((Layout.ofBody f).values[·]?) := by
    rw [(Lay.spans_eq.1 h).1]
    exact List.mem_map_of_mem hs
  obtain ⟨v, -, hv⟩ := List.mem_map.1 hm
  rw [f.values_ofBody, Option.map_eq_some_iff] at hv
  obtain ⟨k, hk, rfl⟩ := hv
  exact f.valueAt_le_size hk

theorem total_spans {vs us : List Value} {ss ts : List Span} {n m n' m' : Nat}
    (hs : Lay.spans (.ofBody f) vs n = some (ss, m)) (ht : Lay.spans (.ofBody f) us n' = some (ts, m'))
    (h : vs.map (f.values[·]?) = us.map (f.values[·]?)) : Span.total ss = Span.total ts := by
  have key : ∀ {vs : List Value} {ss : List Span}, vs.map ((Layout.ofBody f).values[·]?) = ss.map some →
      (vs.map (f.values[·]?)).map (·.map Kind.words) = ss.map (some ·.words) := by
    intro vs ss e
    have := congrArg (List.map (Option.map Span.words)) e
    simpa [f.values_ofBody, Function.comp_def] using this
  have e := key (Lay.spans_eq.1 hs).1
  rw [h, key (Lay.spans_eq.1 ht).1] at e
  have : ∀ ss ts : List Span, ss.map (some ·.words) = ts.map (some ·.words) → Span.total ss = Span.total ts := by
    intro ss
    induction ss with
    | nil => intro ts e; cases ts <;> simp at e ⊢
    | cons s ss ih =>
      intro ts e
      cases ts with
      | nil => simp at e
      | cons t ts =>
        simp only [List.map_cons, List.cons.injEq, Option.some.injEq] at e
        rw [Span.total_cons, Span.total_cons, e.1, ih ts e.2]
  exact this ss ts e.symm

/-- The code that is left of a block passes control on from the view `v` as the exit does from the frame
`ws`, up to the words that are laid out. -/
def Leaves (f : Body) (returns : Nat) (v : View) (ws : Array UInt64) : Exit → List Code → Prop
  | .jump dest sources scratch targets, cs => cs = [.jump dest] ∧ dest < f.blocks.size
    ∧ ∃ ws', Frame.passArguments ws sources scratch targets = .ok ws' ∧ ws'.size = ws.size
      ∧ Follows (Layout.size f) v.words ws'
  | .branch cond dest alt, cs => cs = [.jumpNonZero dest, .jump alt] ∧ dest < f.blocks.size ∧ alt < f.blocks.size
    ∧ ∃ w, Frame.read? ws cond = .ok w ∧ v.flags = some (Cpu.logicFlags (w &&& w))
      ∧ Follows (Layout.size f) v.words ws
  | .ret sources, cs => cs = [.ret]
    ∧ row v.words returns (Kind.total f.sig.returns) = Frame.readSpans ws sources

theorem overrun?_eq_none {size at_ : Nat} {ss : List Span} (h : at_ + Span.total ss ≤ size) :
    Frame.overrun? size at_ ss = none := by
  induction ss generalizing at_ with
  | nil => rfl
  | cons s ss ih =>
    rw [Span.total_cons] at h
    rw [Frame.overrun?, if_neg (by omega), ih (by omega)]

variable {i : Inst} {e e' : Exit} {returns n n' m m' size : Nat}

theorem passArguments_eq {ws : Array UInt64} {sources targets : List Span} {scratch : Nat}
    (ht : Span.total sources = Span.total targets) (h : scratch + Span.total targets ≤ ws.size) :
    Frame.passArguments ws sources scratch targets
      = .ok (Frame.writeSpans (Frame.writeAll ws scratch (rows (Frame.read ws) sources)) targets
          (rows (Frame.read ws) sources)) := by
  rw [Frame.passArguments, overrun?_eq_none h, Frame.readSpans_eq]
  simp only
  rw [Frame.readSpan_eq, ← ht]
  have hrow : row (Frame.read (Frame.writeAll ws scratch (rows (Frame.read ws) sources))) scratch
      (rows (Frame.read ws) sources).length = rows (Frame.read ws) sources := Frame.row_writeAll (by simpa [ht] using h)
  rw [length_rows] at hrow
  rw [hrow]

theorem spans_inj {vs : List Value} {ss ts : List Span} (hs : Lay.spans (.ofBody f) vs n = some (ss, n'))
    (ht : Lay.spans (.ofBody f) vs m = some (ts, m')) : ss = ts := by
  have := (Lay.spans_eq.1 hs).1.symm.trans (Lay.spans_eq.1 ht).1
  exact List.map_inj_right (fun _ _ h => Option.some.inj h) |>.1 this

theorem leaves_jump {dest : BlockId} {args : List Value} (hd : dest < f.blocks.size)
    (hj : args.map (f.values[·]?) = (f.blocks.getD dest {}).params.map (f.values[·]?))
    (hs : Lay.exit f (.ofBody f) (.jump dest args) n = some (e, n'))
    (hx : exit f (.ofBody f) (.jump dest args) m = some (e', m'))
    (hn : Layout.size f ≤ n) (hm : Layout.size f ≤ m) (hn' : n' ≤ size) (hsize : m' ≤ size) :
    ∃ pre post, exitCode returns e' = pre ++ post ∧ (∀ c ∈ pre, c.Near size)
      ∧ ∀ {v : View} {ws : Array UInt64}, Follows (Layout.size f) v.words ws → size ≤ ws.size →
        ∃ v', actAll pre v = some v' ∧ Leaves f returns v' ws e post := by
  simp only [exit, Lay.bind_eq, Lay.alloc_eq, Lay.pure_eq] at hx
  obtain ⟨sources, _, hsrc, scratch, _, ⟨rfl, rfl⟩, targets, _, htgt, rfl, rfl⟩ := hx
  obtain rfl := (Lay.spans_eq.1 hsrc).2
  obtain rfl := (Lay.spans_eq.1 htgt).2
  have hsin := spans_within hsrc
  have htin := spans_within htgt
  have htotal := total_spans hsrc htgt hj
  have hgrow := (Lay.Mono.exit f _ _).le hs
  -- Without arguments the frame needs no scratch words.
  obtain ⟨at_, rfl, hat, hlow⟩ : ∃ at_, e = .jump dest sources at_ targets ∧ at_ + Span.total targets ≤ n'
      ∧ (Layout.size f ≤ at_ ∨ sources = []) := by
    cases args with
    | nil =>
      obtain ⟨rfl, rfl⟩ := Lay.pure_eq.1 hs
      obtain rfl : sources = [] := by simpa using ((Lay.spans_eq.1 hsrc).1).symm
      have hparams : (f.blocks.getD dest {}).params = [] := by simpa using hj.symm
      have htgt := (Lay.spans_eq.1 htgt).1
      rw [hparams] at htgt
      obtain rfl : targets = [] := by simpa using htgt.symm
      exact ⟨0, rfl, by simp, .inr rfl⟩
    | cons a args =>
      simp only [Lay.exit, Lay.bind_eq, Lay.alloc_eq, Lay.pure_eq] at hs
      obtain ⟨sources', _, hsrc', targets', _, htgt', at_, _, ⟨rfl, rfl⟩, rfl, rfl⟩ := hs
      obtain rfl := spans_inj hsrc hsrc'
      obtain rfl := spans_inj htgt htgt'
      have h₁ := (Lay.spans_eq.1 hsrc').2
      have h₂ := (Lay.spans_eq.1 htgt').2
      exact ⟨_, rfl, by omega, .inl (by omega)⟩
  refine ⟨gather _ sources ++ scatter _ targets, [.jump dest], rfl, ?_, fun {v ws} hv hws => ?_⟩
  · intro c hc
    rcases List.mem_append.1 hc with hc | hc
    · exact near_gather (fun s hs => by have := hsin s hs; omega) (by omega) c hc
    · exact near_scatter (fun s hs => by have := htin s hs; omega) (by omega) c hc
  · obtain ⟨v₁, h₁, hr₁, hk₁⟩ := act_gather (fun s hs => Nat.le_trans (hsin s hs) hm) v
    have hfol : Follows (Layout.size f) v₁.words (Frame.writeAll ws at_ (rows (Frame.read ws) sources)) := by
      intro i hi
      rw [hk₁ i (by omega), hv i hi]
      rcases hlow with hlow | rfl
      · rw [Frame.read_writeAll_of_not_mem (by omega)]
      · rfl
    obtain ⟨v₂, h₂, hfol₂⟩ := act_scatter htin hm hfol (by rw [Frame.size_writeAll]; omega)
    refine ⟨v₂, ?_, rfl, hd, _, passArguments_eq htotal (by omega), by simp, ?_⟩
    · rw [actAll_append, h₁]
      exact h₂
    · rwa [← htotal, hr₁, hv.rows hsin] at hfol₂

theorem leaves_brif {c : Value} {dest alt : BlockId} (hd : dest < f.blocks.size) (ha : alt < f.blocks.size)
    (hv : ∀ k ∈ f.values, k ≠ .invalid)
    (hs : Lay.exit f (.ofBody f) (.brif c dest alt) n = some (e, n'))
    (hx : exit f (.ofBody f) (.brif c dest alt) m = some (e', m')) (hsize : Layout.size f ≤ size) :
    ∃ pre post, exitCode returns e' = pre ++ post ∧ (∀ c ∈ pre, c.Near size)
      ∧ ∀ {v : View} {ws : Array UInt64}, Follows (Layout.size f) v.words ws → size ≤ ws.size →
        ∃ v', actAll pre v = some v' ∧ Leaves f returns v' ws e post := by
  simp only [exit, Lay.exit, Lay.bind_eq, Lay.place_eq, Lay.pure_eq] at hs hx
  obtain ⟨p, _, ⟨⟨s, hs, rfl⟩, rfl⟩, rfl, rfl⟩ := hs
  obtain ⟨p', _, ⟨⟨s', hs', rfl⟩, rfl⟩, rfl, rfl⟩ := hx
  obtain rfl : s = s' := Option.some.inj (hs.symm.trans hs')
  have hlt : s.offset < Layout.size f := by
    rw [f.values_ofBody, Option.map_eq_some_iff] at hs
    obtain ⟨k, hk, rfl⟩ := hs
    exact valueAt_lt hv hk
  refine ⟨[.load .ax s.offset, .test], [.jumpNonZero dest, .jump alt], rfl, ?_, fun {v ws} hw hws => ?_⟩
  · simp [Code.Near, Nat.lt_of_lt_of_le hlt hsize]
  · refine ⟨_, rfl, rfl, hd, ha, _, Frame.read?_eq (by omega), ?_, hw⟩
    rw [← hw _ hlt]

theorem leaves_ret {vs : List Value} (hf : vs.map (f.values[·]?) = f.sig.returns.map some)
    (hs : Lay.exit f (.ofBody f) (.ret vs) n = some (e, n')) (hx : exit f (.ofBody f) (.ret vs) m = some (e', m'))
    (hr : Layout.size f ≤ returns) (hsize : returns + Kind.total f.sig.returns ≤ size) :
    ∃ pre post, exitCode returns e' = pre ++ post ∧ (∀ c ∈ pre, c.Near size)
      ∧ ∀ {v : View} {ws : Array UInt64}, Follows (Layout.size f) v.words ws → size ≤ ws.size →
        ∃ v', actAll pre v = some v' ∧ Leaves f returns v' ws e post := by
  simp only [exit, Lay.exit, Lay.bind_eq, Lay.pure_eq] at hs hx
  obtain ⟨sources, _, hs, rfl, rfl⟩ := hs
  obtain ⟨sources', _, hx, rfl, rfl⟩ := hx
  obtain rfl := spans_inj hs hx
  have hin := spans_within hs
  have htotal : Span.total sources = Kind.total f.sig.returns := by
    rw [spans_inj hs (Lay.spans_ofBody hf n)]
    exact total_zip (by simpa using congrArg List.length hf)
  refine ⟨gather returns sources, [.ret], rfl, ?_, fun {v ws} hw hws => ?_⟩
  · exact near_gather (fun s hs => by have := hin s hs; omega) (by omega)
  · obtain ⟨v', h, hrow, -⟩ := act_gather (fun s hs => Nat.le_trans (hin s hs) hr) v
    refine ⟨v', h, rfl, ?_⟩
    rw [← htotal, hrow, hw.rows hin, Frame.readSpans_eq]

instance (l : Layout) (i : Inst) : Lay.Mono (code l i) := by
  unfold code
  split <;> infer_instance

instance (l : Layout) (a : Action) : Lay.Mono (exit f l a) := by
  unfold exit
  split <;> infer_instance

instance (l : Layout) (b : Block) : Lay.Mono (block f l returns b) := by
  unfold block
  infer_instance

theorem act_block {b : Block} {cb : CodeBlock} {cs : List Code} (hf : ∀ i ∈ f.instsOf b, i.Fits f)
    (hv : ∀ k ∈ f.values, k ≠ .invalid) (hc : ∀ i ∈ f.instsOf b, covers i.action) (hj : f.JumpsMatch)
    (hin : ∀ i ∈ f.instsOf b, i ∈ f.insts)
    (hs : Lay.block f (.ofBody f) b n = some (cb, n')) (hx : block f (.ofBody f) returns b m = some ((cs, e'), m'))
    (hn : Layout.size f ≤ n) (hr : n' ≤ returns) (hm : returns + Kind.total f.sig.returns ≤ m) (hsize : m' ≤ size) :
    ∃ pre post, cs = pre ++ post ∧ (∀ c ∈ pre, c.Near size)
      ∧ ∀ {v : View} {ws : Array UInt64}, Follows (Layout.size f) v.words ws → size ≤ ws.size →
        ∃ v' ws', actAll pre v = some v' ∧ (∀ stack mem, Step.runAll stack cb.steps ws mem = (.ok ([], ws'), mem))
          ∧ ws'.size = ws.size ∧ Leaves f returns v' ws' cb.exit post := by
  simp only [Lay.block, block, Lay.bind_eq, Lay.liftM_eq, Lay.pure_eq] at hs hx
  obtain ⟨steps, n₁, hs₁, last, _, ⟨hlast, rfl⟩, e, n₂, hs₂, rfl, rfl⟩ := hs
  obtain ⟨css, m₁, hx₁, last', _, ⟨hlast', rfl⟩, e'', m₂, hx₂, h, rfl⟩ := hx
  obtain rfl : last = last' := Option.some.inj (hlast.symm.trans hlast')
  obtain ⟨rfl, rfl⟩ := Prod.mk.inj h
  have hl := List.mem_of_getLast? hlast
  have hgrow₁ := Lay.Mono.le hs₁
  have hgrow₂ := Lay.Mono.le hs₂
  have hgrow₃ := Lay.Mono.le hx₁
  have hgrow₄ := Lay.Mono.le hx₂
  have hinner : ∀ i ∈ (f.instsOf b).dropLast, i ∈ f.instsOf b := fun i hi => (List.dropLast_sublist _).subset hi
  -- How the last instruction leaves the block.
  obtain ⟨pre, post, hpre, hnear, hleave⟩ : ∃ pre post, exitCode returns e' = pre ++ post
      ∧ (∀ c ∈ pre, c.Near size)
      ∧ ∀ {v : View} {ws : Array UInt64}, Follows (Layout.size f) v.words ws → size ≤ ws.size →
        ∃ v', actAll pre v = some v' ∧ Leaves f returns v' ws e post := by
    obtain ⟨first, ks, -, -, hfit⟩ := hf last hl
    cases ha : last.action <;> rw [ha] at hfit hs₂ hx₂
    case jump dest args =>
      have hj := hj last (hin last hl)
      simp only [ha, Action.matchesEntry, decide_eq_true_eq] at hj
      exact leaves_jump hfit.2 hj hs₂ hx₂ (by omega) (by omega) (by omega) hsize
    case brif c dest alt =>
      exact leaves_brif hfit.2.1 hfit.2.2 hv hs₂ hx₂ (by omega)
    case ret vs =>
      exact leaves_ret hfit.2 hs₂ hx₂ (by omega) (by omega)
    all_goals simp [Lay.exit, Lay.failure_eq] at hs₂
  obtain ⟨hnear', hinsts⟩ :=
    act_insts (fun i hi => hf i (hinner i hi)) hv (fun i hi => hc i (hinner i hi)) hs₁ hx₁
  refine ⟨css.flatten ++ pre, post, by rw [hpre, List.append_assoc], fun c hc => ?_, fun {v ws} hw hws => ?_⟩
  · rcases List.mem_append.1 hc with hc | hc
    · exact (hnear' c hc).mono (by omega)
    · exact hnear c hc
  · obtain ⟨v₁, ws₁, h₁, hr₁, hz₁, hw₁⟩ := hinsts hw (by omega)
    obtain ⟨v₂, h₂, hl₂⟩ := hleave hw₁ (by omega)
    refine ⟨v₂, ws₁, ?_, hr₁, hz₁, hl₂⟩
    rw [actAll_append, h₁]
    exact h₂

/-! ## Passing control on -/

variable {blocks : List (List Code)} {ip : Nat} {cpu : Cpu} {dest : BlockId} {cs : List Code}

theorem step_jump {bs : List Code} (h : Begins blocks ip (.jump dest :: cs)) (hip : cpu.ip = ip)
    (hb : blocks[dest]? = some bs) (hl : (encode blocks).length < 2147483648) :
    Cpu.step (encode blocks) cpu = some (.next { cpu with ip := (starts 0 blocks).toArray.getD dest 0 }) := by
  obtain ⟨at_, hat, hs⟩ := begins_block hb
  have h₁ := h.head_le
  have h₂ := hat.length_le
  rw [h.step hip trivial (by simp only [Code.Reaches, distance, hs]; omega) rfl]
  show Cpu.goTo _ _ = _
  rw [Cpu.goTo, if_pos (by simp only [distance, hs]; omega)]
  simp only [distance, hs]
  congr 4
  omega

theorem step_jumpNonZero {bs : List Code} {w : UInt64} (h : Begins blocks ip (.jumpNonZero dest :: cs))
    (hip : cpu.ip = ip) (hf : cpu.flags = some (Cpu.logicFlags (w &&& w))) (hb : blocks[dest]? = some bs)
    (hl : (encode blocks).length < 2147483648) :
    Cpu.step (encode blocks) cpu = some (.next { cpu with
      ip := if w ≠ 0 then (starts 0 blocks).toArray.getD dest 0 else ip + (Code.jumpNonZero dest).size }) := by
  obtain ⟨at_, hat, hs⟩ := begins_block hb
  have h₁ := h.head_le
  have h₂ := hat.length_le
  rw [h.step hip trivial (by simp only [Code.Reaches, distance, hs]; omega) rfl]
  show (cpu.flags.bind fun f => if (!f.zero) = true then Cpu.goTo _ _ else _) = _
  rw [hf, Option.bind_some]
  have hz : (Cpu.logicFlags (w &&& w)).zero = (w == 0) := by simp [Cpu.logicFlags]
  rw [hz]
  by_cases hw : w = 0
  · simp [hw]
  · rw [if_pos (by simp [hw]), if_pos hw, Cpu.goTo, if_pos (by simp only [distance, hs]; omega)]
    simp only [distance, hs]
    congr 4
    omega

/-! ## Lockstep -/

structure Paired (f : Body) (returns size : Nat) (steps : Array CodeBlock) (blocks : List (List Code)) : Prop where
  block : ∀ {b : Nat}, b < f.blocks.size → ∃ pre post, blocks[b]? = some (pre ++ post)
    ∧ (∀ c ∈ pre, c.Near size)
    ∧ ∀ {v : View} {ws : Array UInt64}, Follows (Layout.size f) v.words ws → size ≤ ws.size →
      ∃ v' ws', actAll pre v = some v'
        ∧ (∀ stack mem, Step.runAll stack (steps.getD b default).steps ws mem = (.ok ([], ws'), mem))
        ∧ ws'.size = ws.size ∧ Leaves f returns v' ws' (steps.getD b default).exit post
  small : size ≤ 268435456
  short : (encode blocks).length < 2147483648
  fits : Layout.size f ≤ size
  returns : returns + Kind.total f.sig.returns ≤ size

/-- The processor is at the start of block `b`, over the frame `ws`. -/
structure AtBlock (f : Body) (size : Nat) (blocks : List (List Code)) (b : BlockId) (cpu : Cpu) (ws : Array UInt64) :
    Prop where
  lt : b < f.blocks.size
  ip : cpu.ip = (starts 0 blocks).toArray.getD b 0
  words : Follows (Layout.size f) cpu.word ws
  size : size ≤ ws.size

variable {steps : Array CodeBlock} {ι σ : Type} (module : Module ι) (perform : ι → List UInt64 → HostM σ (List UInt64))
  (out : Outside σ) {fr : Frame} {b : BlockId} {ws : Array UInt64}

/-- From the start of a block both codes go to the start of the same block, or both return the same words. -/
theorem Paired.advance (hp : Paired f returns size steps blocks) (h : AtBlock f size blocks b cpu ws)
    (hfr : fr.blocks = steps) :
    (∃ n k cpu' b' ws', 0 < n ∧ 0 < k ∧ Cpu.run (encode blocks) n cpu = some (.next cpu')
        ∧ State.run module perform k ⟨out, [fr.atBlock b ws]⟩ = .next ⟨out, [fr.atBlock b' ws']⟩
        ∧ AtBlock f size blocks b' cpu' ws' ∧ cpu'.regs 7 = cpu.regs 7)
      ∨ ∃ n k s rs out', Cpu.run (encode blocks) n cpu = some (.returned s)
        ∧ State.run module perform k ⟨out, [fr.atBlock b ws]⟩ = .done rs out'
        ∧ row s.word returns (Kind.total f.sig.returns) = rs ∧ s.regs 7 = cpu.regs 7 := by
  obtain ⟨pre, post, hb, hnear, hact⟩ := hp.block h.lt
  obtain ⟨ip, hbegin, hip⟩ := begins_block hb
  have hshow : cpu.Shows size ⟨cpu.regs 0, cpu.regs 1, cpu.flags, cpu.word⟩ := ⟨rfl, rfl, rfl, fun _ _ => rfl⟩
  obtain ⟨v, ws₁, hpre, hsteps, hz₁, hleave⟩ := hact (v := ⟨cpu.regs 0, cpu.regs 1, cpu.flags, cpu.word⟩) h.words h.size
  obtain ⟨cpu₁, hrun, hshow₁, hip₁, hdi⟩ := hshow.run hp.small hbegin (h.ip.trans hip) hnear hpre
  have hpost := hbegin.right
  subst hfr
  obtain ⟨k, hk⟩ : State.Leads module perform ⟨out, [fr.atBlock b ws]⟩
      ⟨out, [{ fr.atBlock b ws with steps := [], words := ws₁ }]⟩ := .steps (hsteps fr.stack out.memory)
  have hword : ∀ i, i < Layout.size f → cpu₁.word i = v.words i := fun i hi =>
    hshow₁.words i (Nat.lt_of_lt_of_le hi hp.fits)
  cases he : (fr.blocks.getD b default).exit with
  | jump dest sources scratch targets =>
    rw [he] at hleave
    obtain ⟨rfl, hd, ws₂, hpass, hz₂, hw₂⟩ := hleave
    obtain ⟨_, _, hdest, -⟩ := hp.block hd
    left
    refine ⟨pre.length + 1, k + 1, { cpu₁ with ip := (starts 0 blocks).toArray.getD dest 0 }, dest, ws₂,
      by omega, by omega, ?_, ?_, ⟨hd, rfl, hw₂.congr hword, by have := h.size; omega⟩, hdi⟩
    · rw [Cpu.run_of_next hrun, Cpu.run, step_jump hpost hip₁ hdest hp.short]
      rfl
    · rw [State.run_of_next hk, State.run, State.step_jump rfl he hpass]
      rfl
  | branch cond dest alt =>
    rw [he] at hleave
    obtain ⟨rfl, hd, ha, w, hread, hflags, hw₂⟩ := hleave
    obtain ⟨_, _, hdest, -⟩ := hp.block hd
    obtain ⟨_, _, halt, -⟩ := hp.block ha
    left
    have hone := step_jumpNonZero hpost hip₁ (hshow₁.flags.trans hflags) hdest hp.short
    have hstep : State.run module perform (k + 1) ⟨out, [fr.atBlock b ws]⟩
        = .next ⟨out, [fr.atBlock (if w ≠ 0 then dest else alt) ws₁]⟩ := by
      rw [State.run_of_next hk, State.run, State.step_branch rfl he hread]
      rfl
    by_cases hw : w = 0
    · -- The second jump goes to the other block.
      rw [if_neg (fun h => h hw)] at hone hstep
      have hsecond : Begins blocks (ip + X86.size pre + (Code.jumpNonZero dest).size) [.jump alt] :=
        hpost.tail
      refine ⟨pre.length + 2, k + 1, { cpu₁ with ip := (starts 0 blocks).toArray.getD alt 0 }, alt, ws₁,
        by omega, by omega, ?_, hstep, ⟨ha, rfl, hw₂.congr hword, by have := h.size; omega⟩, hdi⟩
      rw [Cpu.run_of_next hrun, Cpu.run, hone]
      show Cpu.run _ 1 _ = _
      rw [Cpu.run, step_jump hsecond rfl halt hp.short]
      rfl
    · rw [if_pos hw] at hone hstep
      refine ⟨pre.length + 1, k + 1, { cpu₁ with ip := (starts 0 blocks).toArray.getD dest 0 }, dest, ws₁,
        by omega, by omega, ?_, hstep, ⟨hd, rfl, hw₂.congr hword, by have := h.size; omega⟩, hdi⟩
      rw [Cpu.run_of_next hrun, Cpu.run, hone]
      rfl
  | ret sources =>
    rw [he] at hleave
    obtain ⟨rfl, hrow⟩ := hleave
    right
    refine ⟨pre.length + 1, k + 1, { cpu₁ with ip := ip + X86.size pre + 1 }, Frame.readSpans ws₁ sources,
      { out with memory := out.memory.pop fr.stack }, ?_, ?_, ?_, hdi⟩
    · rw [Cpu.run_of_next hrun, Cpu.run, hpost.step hip₁ trivial trivial rfl]
      rfl
    · rw [State.run_of_next hk, State.run, State.step_ret rfl he]
      rfl
    · rw [← hrow]
      exact row_congr fun i _ hi => hshow₁.words i (by have := hp.returns; omega)

theorem Paired.returns_of_steps (hp : Paired f returns size steps blocks) (h : AtBlock f size blocks b cpu ws)
    (hfr : fr.blocks = steps) {k : Nat} {rs : List UInt64} {out' : Outside σ}
    (hk : State.run module perform k ⟨out, [fr.atBlock b ws]⟩ = .done rs out') :
    ∃ n s, Cpu.run (encode blocks) n cpu = some (.returned s) := by
  induction k using Nat.strongRecOn generalizing b cpu ws with
  | _ k ih =>
    rcases hp.advance module perform out h hfr with
      ⟨n, j, cpu', b', ws', -, hj, hn, hj', h', -⟩ | ⟨n, -, s, -, -, hn, -⟩
    · have hjk : j < k := Nat.lt_of_not_le fun hkj => by
        rw [State.run_of_done hk hkj] at hj'
        cases hj'
      obtain ⟨i, rfl⟩ := Nat.exists_eq_add_of_lt hjk
      rw [Nat.add_assoc, State.run_of_next hj'] at hk
      obtain ⟨n', s, hs⟩ := ih (i + 1) (by omega) h' hk
      exact ⟨n + n', s, by rw [Cpu.run_of_next hn, hs]⟩
    · exact ⟨n, s, hn⟩

/-- The blocks return if the processor does, and with the words that it leaves. -/
theorem Paired.steps_of_returns (hp : Paired f returns size steps blocks) (h : AtBlock f size blocks b cpu ws)
    (hfr : fr.blocks = steps) {n : Nat} {s : Cpu} (hn : Cpu.run (encode blocks) n cpu = some (.returned s)) :
    ∃ rs out', State.Returns module perform ⟨out, [fr.atBlock b ws]⟩ rs out'
      ∧ row s.word returns (Kind.total f.sig.returns) = rs ∧ s.regs 7 = cpu.regs 7 := by
  induction n using Nat.strongRecOn generalizing b cpu ws with
  | _ n ih =>
    rcases hp.advance module perform out h hfr with
      ⟨i, j, cpu', b', ws', hi, -, hi', hj, h', hdi⟩ | ⟨i, j, s', rs, out', hi, hj, hrow, hdi⟩
    · have hin : i < n := Nat.lt_of_not_le fun hni => by
        rw [Cpu.run_of_returned hn hni] at hi'
        cases hi'
      obtain ⟨k, rfl⟩ := Nat.exists_eq_add_of_lt hin
      rw [Nat.add_assoc, Cpu.run_of_next hi'] at hn
      obtain ⟨rs, out', ⟨l, hl⟩, hrow, hdi'⟩ := ih (k + 1) (by omega) h' hn
      exact ⟨rs, out', ⟨j + l, by rw [State.run_of_next hj, hl]⟩, hrow, hdi'.trans hdi⟩
    · have hs := Cpu.run_of_returned hn (Nat.le_max_left n i)
      rw [Cpu.run_of_returned hi (Nat.le_max_right n i)] at hs
      cases hs
      exact ⟨rs, out', ⟨j, hj⟩, hrow, hdi⟩

end X86

/-! ## Compiled bodies -/

theorem Body.lay_of_compile {f : Body} {t : Target} {c : Compiled} (h : f.compile t = .ok c) :
    0 < f.blocks.size ∧ ∃ n, f.lay t (Layout.size f) = some (c, n) := by
  unfold compile at h
  cases hb : f.blocks.isEmpty with
  | true => simp [hb] at h
  | false =>
    cases hu : f.unfinished? with
    | some cause => simp [hb, hu] at h
    | none =>
      cases he : f.entryError? with
      | some cause => simp [hb, hu, he] at h
      | none =>
        simp only [hb, hu, he, Bool.false_eq_true, if_false] at h
        split at h
        · next c' n hlay =>
          cases h
          exact ⟨Nat.pos_of_ne_zero (by simpa using hb), n, hlay⟩
        · cases h

theorem Body.paired {f : Body} {c : Compiled} {code : Bytes} {returns : Nat} (hf : f.WellFormed)
    (hv : ∀ k ∈ f.values, k ≠ .invalid) (hj : f.JumpsMatch) (hc : f.compile .native = .ok c)
    (hm : c.machineCode = some (code, returns)) (hsize : c.frameWords ≤ 268435456) (hlen : code.length < 2147483648) :
    ∃ steps blocks, f.codeBlocks? = some steps ∧ code = X86.encode blocks
      ∧ X86.Paired f returns c.frameWords steps.toArray blocks := by
  obtain ⟨-, n, h⟩ := lay_of_compile hc
  simp only [lay, Lay.bind_eq] at h
  obtain ⟨params, _, hparams, steps, n₁, hsteps, h⟩ := h
  obtain rfl := (Lay.spans_eq.1 hparams).2
  split at h
  · next hcond =>
    simp only [Lay.bind_eq] at h
    obtain ⟨⟨coded, returns'⟩, n₂, hcoded, _, _, hget, hpure⟩ := h
    cases hget
    cases hpure
    cases hm
    simp only [X86.blocks, Lay.bind_eq, Lay.alloc_eq, Lay.pure_eq] at hcoded
    obtain ⟨_, _, ⟨rfl, rfl⟩, _, _, hcs, hpair, rfl⟩ := hcoded
    cases hpair
    refine ⟨steps, coded.map (·.1), ?_, rfl, ?_⟩
    · show (((f.blocks.toList.mapM (Lay.block f (.ofBody f))) (Layout.size f)).map (·.1)) = _
      rw [hsteps]
      rfl
    · have hl₁ := Lay.Mono.le hsteps
      have hl₂ := Lay.Mono.le hcs
      obtain ⟨-, hs⟩ := Lay.mapM_eq hsteps
      obtain ⟨-, hx⟩ := Lay.mapM_eq hcs
      refine { block := fun {b} hb => ?_, small := hsize, short := hlen, fits := by dsimp only; omega, returns := hl₂ }
      have hblock : f.blocks.toList[b]? = some f.blocks[b] := by simp [hb]
      obtain ⟨cb, k, j, hcb, hk, hj', hlaid⟩ := hs b _ hblock
      obtain ⟨⟨cs, e⟩, k', j'', hcs', hk', hj'', hxlaid⟩ := hx b _ hblock
      have hins : ∀ i ∈ f.instsOf f.blocks[b], i ∈ f.insts := by
        intro i hi
        obtain ⟨x, -, hx⟩ := List.mem_filterMap.1 hi
        exact Array.mem_of_getElem? hx
      have hfit : ∀ i ∈ f.instsOf f.blocks[b], i.Fits f := by
        intro i hi
        obtain ⟨x, -, hx⟩ := List.mem_filterMap.1 hi
        exact hf.insts hx
      have hcov : ∀ i ∈ f.instsOf f.blocks[b], X86.covers i.action := fun i hi =>
        Array.all_eq_true_iff_forall_mem.1 hcond.2 i (hins i hi)
      obtain ⟨pre, post, rfl, hnear, hact⟩ := X86.act_block hfit hv hcov hj hins hlaid hxlaid hk hj' hk' hj''
      refine ⟨pre, post, by rw [List.getElem?_map, hcs']; rfl, hnear, ?_⟩
      have hget : steps.toArray.getD b default = cb := by
        rw [Array.getD_eq_getD_getElem?, List.getElem?_toArray, hcb]
        rfl
      rw [hget]
      exact @hact
  · obtain ⟨_, _, -, h⟩ := Lay.bind_eq.1 h
    obtain ⟨rfl, -⟩ := Lay.pure_eq.1 h
    cases hm

/-- The bytes of a body, begun at their first one over the words of a frame, return if and only if its
blocks do, begun at block 0 on the same frame; then they leave the same words. -/
theorem Body.machineCode_agrees {f : Body} (hf : f.Built) (hv : ∀ k ∈ f.values, k ≠ .invalid) (hj : f.JumpsMatch)
    {c : Compiled} (hc : f.compile .native = .ok c) {code : Bytes} {returns : Nat}
    (hm : c.machineCode = some (code, returns)) (hsize : c.frameWords < 268435456) (hlen : code.length < 2147483648) :
    ∃ blocks, f.codeBlocks? = some blocks
      ∧ ∀ {ι σ : Type} (m : Module ι) (perform : ι → List UInt64 → HostM σ (List UInt64)) (out : Outside σ)
          (fr : Frame) (words : Array UInt64) (cpu : Cpu),
        fr.blocks = blocks.toArray → c.frameWords ≤ words.size → cpu.ip = 0 →
        (∀ i, i < c.frameWords → cpu.word i = Frame.read words i) →
        ((∃ n s, Cpu.run code n cpu = some (.returned s))
            ↔ ∃ rs out', State.Returns m perform ⟨out, [fr.atBlock 0 words]⟩ rs out')
          ∧ ∀ n s rs out', Cpu.run code n cpu = some (.returned s) →
            State.Returns m perform ⟨out, [fr.atBlock 0 words]⟩ rs out' →
            s.regs 7 = cpu.regs 7 ∧ row s.word returns (Kind.total f.sig.returns) = rs := by
  obtain ⟨blocks, codes, hblocks, rfl, hp⟩ := paired hf.wellFormed hv hj hc hm (Nat.le_of_lt hsize) hlen
  refine ⟨blocks, hblocks, fun m perform out fr words cpu hfr hwords hip hword => ?_⟩
  obtain ⟨pre, post, hfirst, -⟩ := hp.block (lay_of_compile hc).1
  have hat : X86.AtBlock f c.frameWords codes 0 cpu words :=
    { lt := (lay_of_compile hc).1
      ip := by
        obtain ⟨rest, rfl⟩ : ∃ rest, codes = (pre ++ post) :: rest := by
          cases codes with
          | nil => cases hfirst
          | cons x rest => exact ⟨rest, by simpa using hfirst⟩
        exact hip
      words := fun i hi => hword i (Nat.lt_of_lt_of_le hi hp.fits)
      size := hwords }
  refine ⟨⟨fun ⟨n, s, hn⟩ => ?_, fun ⟨rs, out', k, hk⟩ => ?_⟩, fun n s rs out' hn hr => ?_⟩
  · obtain ⟨rs, out', h, -⟩ := hp.steps_of_returns m perform out hat hfr hn
    exact ⟨rs, out', h⟩
  · exact hp.returns_of_steps m perform out hat hfr hk
  · obtain ⟨rs', out'', h, hrow, hdi⟩ := hp.steps_of_returns m perform out hat hfr hn
    obtain ⟨rfl, -⟩ := h.unique hr
    exact ⟨hdi, hrow⟩

/-- Adds up the numbers from the parameter down to 1. -/
def Build.sumDown : Build Unit := do
  let entry ← createBlock
  functionParams entry
  let head ← createBlock
  let left ← blockParam head .i64
  let sum ← blockParam head .i64
  let body ← createBlock
  let last ← createBlock
  switchTo entry
  let none ← iconst .i64 0
  jump head [0, none]
  switchTo head
  brif left body last
  switchTo body
  let more ← int .add sum left
  let one ← iconst .i64 1
  let fewer ← int .sub left one
  jump head [fewer, more]
  switchTo last
  ret [sum]

theorem Build.recipe_sumDown : Recipe sumDown :=
  .bind .createBlock fun _ => .bind (.functionParams _) fun _ => .bind .createBlock fun _ =>
  .bind (.blockParam _ _) fun _ => .bind (.blockParam _ _) fun _ => .bind .createBlock fun _ =>
  .bind .createBlock fun _ => .bind (.switchTo _) fun _ => .bind (.iconst _ _) fun _ => .bind (.jump _ _) fun _ =>
  .bind (.switchTo _) fun _ => .bind (.brif _ _ _) fun _ => .bind (.switchTo _) fun _ => .bind (.int _ _ _) fun _ =>
  .bind (.iconst _ _) fun _ => .bind (.int _ _ _) fun _ => .bind (.jump _ _) fun _ => .bind (.switchTo _) fun _ =>
  .ret _

def Body.sumDown : Body := (Build.sumDown { body := { name := [115], sig := ⟨[.i64], [.i64]⟩ } }).2.body

theorem Body.built_sumDown : sumDown.Built := ⟨[115], ⟨[.i64], [.i64]⟩, Unit, _, Build.recipe_sumDown, rfl⟩

def Frame.ofBlocks (blocks : List CodeBlock) : Frame :=
  { func := 0, blocks := blocks.toArray, block := 0, steps := [], exit := .ret [], words := #[], stack := 0,
    results := 0 }

/-- The results of the blocks of a body for a frame, when nothing lies outside. -/
def Body.resultsOf? (blocks : List CodeBlock) (words : Array UInt64) (fuel : Nat) : Option (List UInt64) :=
  match State.run ({} : Module Unit) (fun _ _ => pure []) fuel
    ⟨⟨⟨#[], 0, 0, 0⟩, ()⟩, [(Frame.ofBlocks blocks).atBlock 0 words]⟩ with
  | .done rs _ => some rs
  | _ => none

theorem Body.returns_of_resultsOf? {blocks : List CodeBlock} {words : Array UInt64} {fuel : Nat} {rs : List UInt64}
    (h : resultsOf? blocks words fuel = some rs) :
    ∃ out, State.Returns ({} : Module Unit) (fun _ _ => pure [])
      ⟨⟨⟨#[], 0, 0, 0⟩, ()⟩, [(Frame.ofBlocks blocks).atBlock 0 words]⟩ rs out := by
  unfold resultsOf? at h
  split at h
  · next rs' out hrun =>
    obtain rfl := Option.some.inj h
    exact ⟨out, fuel, hrun⟩
  · cases h

/-- The bytes add 3, 2 and 1. -/
theorem Body.machineCode_agrees_sumDown :
    ∃ c code returns, sumDown.compile .native = .ok c ∧ c.machineCode = some (code, returns)
      ∧ ∃ n s, Cpu.run code n { regs := fun _ => 0, flags := none, memory := fun a => if a = 0 then 3 else 0, ip := 0 }
          = some (.returned s) ∧ row s.word returns 1 = [6] := by
  have hcompiled : ((sumDown.compile .native).toOption.bind fun c => c.machineCode.map fun m =>
      (c.frameWords, m.1.length, m.2)) = some (16, 240, 11) := by decide +kernel
  have hresults : sumDown.codeBlocks?.bind (resultsOf? · (#[3] ++ Array.replicate 15 0) 30) = some [6] := by
    decide +kernel
  cases hc : sumDown.compile .native with
  | error e => simp [hc, Except.toOption] at hcompiled
  | ok c =>
    obtain ⟨⟨code, returns⟩, hm, hsizes⟩ : ∃ m, c.machineCode = some m
        ∧ (c.frameWords, m.1.length, m.2) = (16, 240, 11) := by
      simpa [hc, Except.toOption, Option.map_eq_some_iff] using hcompiled
    simp only [Prod.mk.injEq] at hsizes
    obtain ⟨hwords, hlength, rfl⟩ := hsizes
    refine ⟨c, code, 11, rfl, hm, ?_⟩
    have hv : ∀ k ∈ sumDown.values, k ≠ .invalid := by decide +kernel
    have hj : sumDown.JumpsMatch := by decide +kernel
    obtain ⟨blocks, hblocks, h⟩ := machineCode_agrees built_sumDown hv hj hc hm (by omega) (by omega)
    rw [hblocks, Option.bind_some] at hresults
    obtain ⟨out, hreturns⟩ := returns_of_resultsOf? hresults
    obtain ⟨hiff, hsame⟩ := h {} (fun _ _ => pure []) ⟨⟨#[], 0, 0, 0⟩, ()⟩ (Frame.ofBlocks blocks)
      (#[3] ++ Array.replicate 15 0)
      { regs := fun _ => 0, flags := none, memory := fun a => if a = 0 then 3 else 0, ip := 0 } rfl
      (by rw [hwords]; decide) rfl (by rw [hwords]; decide +kernel)
    obtain ⟨n, s, hn⟩ := hiff.2 ⟨_, _, hreturns⟩
    have hwords : Kind.total sumDown.sig.returns = 1 := by decide +kernel
    exact ⟨n, s, hn, hwords ▸ (hsame n s _ _ hn hreturns).2⟩

end RecordMill.Machine

import RecordMill.Proofs.Machine.Flat

/-!
# Frames run like cells

A module whose functions were compiled from well-formed bodies runs step by step like the reference
evaluator: the same host calls, the same memory, the same results and traps.
-/

namespace RecordMill.Machine

/-! ## Compiled blocks -/

/-- How the instructions of a block were laid out in a frame of `size` words. -/
structure LaidBlock (f : Body) (size : Nat) (insts : List Inst) (cb : CodeBlock) : Prop where
  steps : ∃ last, insts = insts.dropLast ++ [last] ∧ cb.steps.length = insts.dropLast.length
    ∧ ∃ n n', (Lay.exit f (.ofBody f) last.action n = some (cb.exit, n')
        ∨ X86.exit f (.ofBody f) last.action n = some (cb.exit, n')) ∧ Layout.size f ≤ n ∧ n' ≤ size
  step : ∀ {j : Nat} {i : Inst}, insts.dropLast[j]? = some i → ∃ s n n', cb.steps[j]? = some s
    ∧ Lay.step f (.ofBody f) i n = some (s, n') ∧ Layout.size f ≤ n ∧ n' ≤ size

theorem eq_dropLast_append {α : Type} {xs : List α} {x : α} (h : xs.getLast? = some x) : xs = xs.dropLast ++ [x] := by
  obtain ⟨ys, rfl⟩ := List.getLast?_eq_some_iff.1 h
  simp

theorem LaidBlock.of_lay {f : Body} {b : Block} {cb : CodeBlock} {n n' size : Nat}
    (h : Lay.block f (.ofBody f) b n = some (cb, n')) (hn : Layout.size f ≤ n) (hn' : n' ≤ size) :
    LaidBlock f size (f.instsOf b) cb := by
  simp only [Lay.block, Lay.bind_eq, Lay.liftM_eq, Lay.pure_eq] at h
  obtain ⟨steps, n₁, hsteps, last, _, ⟨hlast, rfl⟩, e, n₂, hexit, rfl, rfl⟩ := h
  have h₁ := Lay.Mono.le hsteps
  have h₂ := Lay.Mono.le hexit
  obtain ⟨hlen, hstep⟩ := Lay.mapM_eq hsteps
  refine ⟨⟨last, eq_dropLast_append hlast, hlen, _, n', .inl hexit, by omega, hn'⟩, fun {j i} hi => ?_⟩
  obtain ⟨s, k, k', hs, hk, hk', hlaid⟩ := hstep j i hi
  exact ⟨s, k, k', hs, hlaid, by omega, by omega⟩

theorem LaidBlock.of_code {f : Body} {b : Block} {cb : CodeBlock} {n n' m m' returns size : Nat}
    {cs : List X86.Code} {e : Exit} (h : Lay.block f (.ofBody f) b n = some (cb, n'))
    (hx : X86.block f (.ofBody f) returns b m = some ((cs, e), m')) (hn : Layout.size f ≤ n) (hn' : n' ≤ size)
    (hm : Layout.size f ≤ m) (hm' : m' ≤ size) : LaidBlock f size (f.instsOf b) { cb with exit := e } := by
  obtain ⟨⟨last, hlast, hlen, -⟩, hstep⟩ := LaidBlock.of_lay h hn hn'
  simp only [X86.block, Lay.bind_eq, Lay.liftM_eq, Lay.pure_eq] at hx
  obtain ⟨css, m₁, hcss, last', _, ⟨hlast', rfl⟩, e', m₂, hexit, hpair, rfl⟩ := hx
  cases hpair
  obtain rfl : last = last' := by
    rw [hlast] at hlast'
    simpa using hlast'
  have h₁ := Lay.Mono.le hcss
  exact ⟨⟨last, hlast, hlen, _, m', .inr hexit, by omega, hm'⟩, hstep⟩

theorem Lay.of_spans {f : Body} {vs : List Value} {ss : List Span} {n m : Nat}
    (h : spans (.ofBody f) vs n = some (ss, m)) :
    ss = Shows.spansOf f vs ∧ (∀ v ∈ vs, v < f.values.size) ∧ m = n := by
  obtain ⟨hspans, hm⟩ := spans_eq.1 h
  clear h
  induction vs generalizing ss with
  | nil =>
    obtain rfl : ss = [] := by simpa using hspans.symm
    exact ⟨rfl, by simp, hm⟩
  | cons v vs ih =>
    cases ss with
    | nil => simp at hspans
    | cons s ss =>
      simp only [List.map_cons, List.cons.injEq, f.values_ofBody, Option.map_eq_some_iff] at hspans
      obtain ⟨⟨k, hk, rfl⟩, hrest⟩ := hspans
      obtain ⟨rfl, hlt, -⟩ := ih (by simpa [f.values_ofBody] using hrest)
      refine ⟨by simp [Shows.spansOf, Array.getD_eq_getD_getElem?, hk], ?_, hm⟩
      intro u hu
      rcases List.mem_cons.1 hu with rfl | hu
      · exact (Array.getElem?_eq_some_iff.1 hk).1
      · exact hlt u hu

theorem Body.laid_of_compile {f : Body} {t : Target} {c : Compiled} (h : f.compile t = .ok c) :
    Layout.size f ≤ c.frameWords ∧ c.params = Shows.spansOf f (f.blocks.getD 0 {}).params
      ∧ (∀ v ∈ (f.blocks.getD 0 {}).params, v < f.values.size)
      ∧ ∀ {b : Nat}, b < f.blocks.size → ∃ cb, c.blocks[b]? = some cb ∧ LaidBlock f c.frameWords (f.code b) cb := by
  obtain ⟨-, n, h⟩ := lay_of_compile h
  simp only [lay, Lay.bind_eq] at h
  obtain ⟨params, _, hparams, steps, n₁, hsteps, h⟩ := h
  obtain ⟨hp, hlt, rfl⟩ := Lay.of_spans hparams
  have hl₁ := Lay.Mono.le hsteps
  obtain ⟨hlen, hs⟩ := Lay.mapM_eq hsteps
  have hcode : ∀ {b : Nat} (hb : b < f.blocks.size), f.blocks.toList[b]? = some f.blocks[b]
      ∧ f.code b = f.instsOf f.blocks[b] := by
    intro b hb
    simp [Body.code, Array.getD_eq_getD_getElem?, hb]
  split at h
  · simp only [Lay.bind_eq] at h
    obtain ⟨⟨coded, returns⟩, n₂, hcoded, _, _, hget, hpure⟩ := h
    cases hget
    cases hpure
    simp only [X86.blocks, Lay.bind_eq, Lay.alloc_eq, Lay.pure_eq] at hcoded
    obtain ⟨_, _, ⟨rfl, rfl⟩, _, _, hcs, hpair, rfl⟩ := hcoded
    cases hpair
    have hl₂ := Lay.Mono.le hcs
    obtain ⟨-, hx⟩ := Lay.mapM_eq hcs
    refine ⟨by dsimp only; omega, hp, hlt, fun {b} hb => ?_⟩
    obtain ⟨hblock, hcode⟩ := hcode hb
    obtain ⟨cb, k, j, hcb, hk, hj, hlaid⟩ := hs b _ hblock
    obtain ⟨⟨cs, e⟩, k', j', hcs', hk', hj', hxlaid⟩ := hx b _ hblock
    refine ⟨{ cb with exit := e }, by simp [List.getElem?_zipWith, hcb, hcs'], ?_⟩
    rw [hcode]
    exact .of_code hlaid hxlaid hk (by dsimp only; omega) (by omega) hj'
  · obtain ⟨_, _, hget, hpure⟩ := Lay.bind_eq.1 h
    cases hget
    cases hpure
    refine ⟨hl₁, hp, hlt, fun {b} hb => ?_⟩
    obtain ⟨hblock, hcode⟩ := hcode hb
    obtain ⟨cb, k, j, hcb, hk, hj, hlaid⟩ := hs b _ hblock
    refine ⟨cb, by simpa using hcb, ?_⟩
    rw [hcode]
    exact .of_lay hlaid hk hj

/-! ## Modules -/

variable {ι σ : Type} {m : Module ι}

/-- A function with a body that fits it, and the code that was made of the body. -/
structure Module.Holds (m : Module ι) (d : FuncDecl ι) (f : Body) (c : Compiled) : Prop where
  host : d.host = none
  source : d.source = some f
  compiled : d.compiled = some c
  sig : f.sig = d.sig
  code : ∃ t, f.compile t = .ok c
  wellFormed : f.WellFormed
  valid : ∀ k ∈ f.values, k ≠ .invalid
  jumps : f.JumpsMatch
  callees : ∀ {r : RefId} {e : Callee}, f.callees[r]? = some e → ∃ d, m.funcs[e.id]? = some d ∧ d.sig = e.sig

/-- Every function with code has a body that fits it. -/
def Module.Laid (m : Module ι) : Prop :=
  ∀ {id : FuncId} {d : FuncDecl ι} {c : Compiled}, m.funcs[id]? = some d → d.host = none → d.compiled = some c →
    ∃ f, m.Holds d f c

/-! ## Frames -/

structure FrameOf (m : Module ι) (f : Body) (fr : Frame) (cf : CellFrame) : Prop where
  func : cf.func = fr.func
  block : cf.block = fr.block
  stack : cf.stack = fr.stack
  within : fr.block < f.blocks.size
  shows : Shows f fr.words cf.cells
  code : ∃ d c cb, m.funcs[fr.func]? = some d ∧ m.Holds d f c ∧ fr.blocks = c.blocks ∧ c.blocks[fr.block]? = some cb
    ∧ fr.steps = cb.steps.drop cf.next ∧ cf.next ≤ cb.steps.length ∧ fr.exit = cb.exit ∧ c.frameWords ≤ fr.words.size

/-- Results of kinds `ks` that go to a place of a frame go to values of its body. -/
def Lands (f : Body) (ks : List Kind) (at_ : Nat) (vs : List Value) : Prop :=
  ∃ first, vs = List.range' first ks.length ∧ (∀ j k, ks[j]? = some k → f.values[first + j]? = some k)
    ∧ at_ = match vs with
      | [] => 0
      | v :: _ => f.valueAt v

/-- Frames that await results. -/
inductive Stacked (m : Module ι) : List Kind → Nat → List Value → List Frame → List CellFrame → Prop
  | nil {ks : List Kind} {at_ : Nat} {vs : List Value} : Stacked m ks at_ vs [] []
  | cons {ks : List Kind} {at_ : Nat} {vs : List Value} {f : Body} {fr : Frame} {cf : CellFrame} {frs : List Frame}
      {cfs : List CellFrame} : FrameOf m f fr cf → Lands f ks at_ vs →
      Stacked m f.sig.returns fr.results cf.results frs cfs → Stacked m ks at_ vs (fr :: frs) (cf :: cfs)

theorem Stacked.length {ks : List Kind} {at_ : Nat} {vs : List Value} {frs : List Frame} {cfs : List CellFrame}
    (h : Stacked m ks at_ vs frs cfs) : frs.length = cfs.length := by
  induction h with
  | nil => rfl
  | cons _ _ _ ih => simp [ih]

/-- The innermost frame awaits nothing. -/
inductive StateOf (m : Module ι) : State σ → CellState σ → Prop
  | nil {out : Outside σ} : StateOf m ⟨out, []⟩ ⟨out, []⟩
  | cons {out : Outside σ} {f : Body} {fr : Frame} {cf : CellFrame} {frs : List Frame} {cfs : List CellFrame} :
      FrameOf m f fr cf → Stacked m f.sig.returns fr.results cf.results frs cfs →
      StateOf m ⟨out, fr :: frs⟩ ⟨out, cf :: cfs⟩

inductive OutcomeOf (m : Module ι) : Outcome σ → Turn (CellState σ) (End σ) → Prop
  | next {st : State σ} {cst : CellState σ} : StateOf m st cst → OutcomeOf m (.next st) (.next cst)
  | done {rs : List UInt64} {out : Outside σ} : OutcomeOf m (.done rs out) (.ended (.done rs out))
  | trapped {t : Trap} {out : Outside σ} : OutcomeOf m (.trapped t out) (.ended (.trapped t out))

/-! ## Results -/

theorem Shows.consecutive {f : Body} {ws : Array UInt64} {c : Cells} {first : Nat} {ks : List Kind} {rs : List UInt64}
    (h : Shows f ws c) (hv : ∀ j k, ks[j]? = some k → f.values[first + j]? = some k) (hl : rs.length ≤ Kind.total ks) :
    Shows f (Frame.writeAll ws (f.valueAt first) rs) (c.deal (List.range' first ks.length) rs) := by
  induction ks generalizing ws c first rs with
  | nil =>
    obtain rfl : rs = [] := List.length_eq_zero_iff.1 (by simpa using hl)
    exact h
  | cons k ks ih =>
    have hk : f.values[first]? = some k := hv 0 k rfl
    have hnext : f.valueAt (first + 1) = f.valueAt first + k.words := Kind.total_take_succ (by simpa using hk)
    have hset := h.setValue hk (List.length_take_le k.words rs)
    have hcells : c.setValue first (rs.take k.words) = c.setValue first rs := by
      unfold Cells.setValue
      rw [← h.length_value hk, Cells.fill_take]
    rw [hcells] at hset
    have hlater : ∀ j k', ks[j]? = some k' → f.values[first + 1 + j]? = some k' := fun j k' hj => by
      rw [Nat.add_assoc, Nat.add_comm 1 j]
      exact hv (j + 1) k' hj
    have hshorter : (rs.drop k.words).length ≤ Kind.total ks := by
      rw [List.length_drop]
      rw [Kind.total_cons] at hl
      omega
    have hrest := ih hset hlater hshorter
    have hwrite : Frame.writeAll ws (f.valueAt first) rs
        = Frame.writeAll (Frame.writeAll ws (f.valueAt first) (rs.take k.words)) (f.valueAt (first + 1))
            (rs.drop k.words) := by
      conv => lhs; rw [← List.take_append_drop k.words rs, Frame.writeAll_append]
      rcases Nat.le_total k.words rs.length with hle | hle
      · rw [List.length_take, Nat.min_eq_left hle, hnext]
      · rw [List.drop_eq_nil_of_le hle]
        rfl
    rw [hwrite, List.length_cons, List.range'_succ]
    simpa only [Cells.deal, h.length_value hk] using hrest

theorem Lands.shows {f : Body} {ks : List Kind} {at_ : Nat} {vs : List Value} {ws : Array UInt64} {c : Cells}
    {rs : List UInt64} (hl : Lands f ks at_ vs) (h : Shows f ws c) (hr : rs.length ≤ Kind.total ks) :
    Shows f (Frame.writeAll ws at_ rs) (c.deal vs rs) := by
  obtain ⟨first, rfl, hv, rfl⟩ := hl
  cases ks with
  | nil =>
    obtain rfl : rs = [] := List.length_eq_zero_iff.1 (by simpa using hr)
    exact h
  | cons k ks => exact h.consecutive hv hr

theorem FrameOf.setWords {f : Body} {fr : Frame} {cf : CellFrame} {ws : Array UInt64} {cells : Cells}
    (h : FrameOf m f fr cf) (hs : Shows f ws cells) (hw : ws.size = fr.words.size) :
    FrameOf m f { fr with words := ws } { cf with cells } where
  func := h.func
  block := h.block
  stack := h.stack
  within := h.within
  shows := hs
  code := by simpa only [hw] using h.code

theorem OutcomeOf.deliver {ks : List Kind} {at_ : Nat} {vs : List Value} {frs : List Frame} {cfs : List CellFrame}
    {rs : List UInt64} (h : Stacked m ks at_ vs frs cfs) (hr : rs.length ≤ Kind.total ks) (out : Outside σ) :
    OutcomeOf m (State.deliver rs at_ out frs) (CellState.deliver rs vs out cfs) := by
  cases h with
  | nil => exact .done
  | cons hfr hl hs => exact .next (.cons (hfr.setWords (hl.shows hfr.shows hr) (by simp)) hs)

/-! ## Calls -/

theorem row_replicate (n at_ k : Nat) : row (Frame.read (Array.replicate n 0)) at_ k = List.replicate k 0 := by
  have : Frame.read (Array.replicate n 0) = fun _ => 0 := by
    funext i
    simp only [Frame.read, Array.getD_eq_getD_getElem?, Array.getElem?_replicate]
    split <;> rfl
  rw [row, this, List.map_const', List.length_range']

theorem Shows.blank (f : Body) {n : Nat} (h : Layout.size f ≤ n) : Shows f (Array.replicate n 0) (Cells.blank f) where
  size := by simpa using h
  value {v k} hv := by
    rw [row_replicate]
    simp [Cells.blank, Array.getD_eq_getD_getElem?, hv]
  var {v k} hv := by
    rw [row_replicate]
    simp [Cells.blank, Array.getD_eq_getD_getElem?, hv]

theorem Compiled.frameWords_le (c : Compiled) : c.frameWords ≤ c.frameSize := by
  unfold frameSize
  split <;> omega

theorem OutcomeOf.call (hm : m.Laid) (perform : ι → List UInt64 → HostM σ (List UInt64)) {id : FuncId} {at_ : Nat}
    {vs : List Value} {frs : List Frame} {cfs : List CellFrame} (args : List UInt64) (out : Outside σ)
    (h : ∀ d, m.funcs[id]? = some d → Stacked m d.sig.returns at_ vs frs cfs) (hl : frs.length = cfs.length) :
    OutcomeOf m (State.call m perform id args at_ out frs) (CellState.call m perform id args vs out cfs) := by
  unfold State.call CellState.call
  cases hd : m.funcs[id]? with
  | none =>
    simp only [Module.perform_of_none hd, Module.enter, hd]
    exact .trapped
  | some d =>
    have hs := h d hd
    cases hh : d.host with
    | some f =>
      rw [Module.perform_of_host hd hh]
      simp only [hh]
      rcases (perform f args).run.run out with ⟨t | rs, out'⟩
      · exact .trapped
      · by_cases hlt : Kind.total d.sig.returns < rs.length
        · simp only [hlt, if_true]
          exact .trapped
        · simp only [hlt, if_false]
          exact .deliver hs (Nat.le_of_not_lt hlt) out'
    | none =>
      rw [Module.perform_of_body hd hh]
      simp only [hh]
      cases hc : d.compiled with
      | none =>
        cases hb : m.body? id <;> simp only [Module.enter, hd, hb, hc] <;> exact .trapped
      | some c =>
        obtain ⟨f, hf⟩ := hm hd hh hc
        obtain ⟨t, ht⟩ := hf.code
        obtain ⟨hsize, hparams, hlt, hblocks⟩ := Body.laid_of_compile ht
        have hbody : m.body? id = some f := by simp [Module.body?, hd, hf.source]
        simp only [Module.enter, hd, hbody, hc, Compiled.enter, hl]
        by_cases hdepth : maxDepth ≤ cfs.length
        · simp only [hdepth, if_true]
          exact .trapped
        · simp only [hdepth, if_false]
          cases hp : out.memory.push c.stackArea with
          | error t => exact .trapped
          | ok p =>
            obtain ⟨stack, memory⟩ := p
            have hpos := (Body.lay_of_compile ht).1
            obtain ⟨cb, hcb, -⟩ := hblocks hpos
            have hfirst : c.blocks.getD 0 default = cb := by simp [Array.getD_eq_getD_getElem?, hcb]
            refine .next (.cons (f := f) ⟨rfl, rfl, rfl, hpos, ?_, d, c, cb, hd, hf, rfl, hcb, ?_, ?_, ?_, ?_⟩ ?_)
            · dsimp only
              rw [hparams]
              exact (Shows.blank f (Nat.le_trans hsize c.frameWords_le)).deal hlt args
            · simp [hfirst]
            · exact Nat.zero_le _
            · simp [hfirst]
            · simpa using c.frameWords_le
            · rw [hf.sig]
              exact hs

/-! ## Steps -/

theorem Body.mem_code {f : Body} {b : BlockId} {i : Inst} (h : i ∈ f.code b) : i ∈ f.insts := by
  obtain ⟨x, -, hx⟩ := List.mem_filterMap.1 h
  exact Array.mem_of_getElem? hx

theorem Body.WellFormed.fits {f : Body} (h : f.WellFormed) {b : BlockId} {i : Inst} (hi : i ∈ f.code b) : i.Fits f := by
  obtain ⟨x, -, hx⟩ := List.mem_filterMap.1 hi
  exact h.insts hx

theorem Shows.length_words {f : Body} {ws : Array UInt64} {c : Cells} (h : Shows f ws c) {vs : List Value}
    {ks : List Kind} (hk : vs.map (f.values[·]?) = ks.map some) : (c.words vs).length = Kind.total ks := by
  induction vs generalizing ks with
  | nil =>
    obtain rfl : ks = [] := by simpa using hk.symm
    rfl
  | cons v vs ih =>
    cases ks with
    | nil => simp at hk
    | cons k ks =>
      simp only [List.map_cons, List.cons.injEq] at hk
      show (c.value v ++ c.words vs).length = k.words + Kind.total ks
      rw [List.length_append, h.length_value hk.1, ih hk.2]

section Step

variable {f : Body} {fr : Frame} {cf : CellFrame} {frs : List Frame} {cfs : List CellFrame} {i : Inst} {n n' : Nat}
  {e : Exit} {s : Step} (perform : ι → List UInt64 → HostM σ (List UInt64)) (out : Outside σ)

theorem FrameOf.advance (h : FrameOf m f fr cf) {rest : List Step} (hs : fr.steps = s :: rest) {ws : Array UInt64}
    {cells : Cells} (hsh : Shows f ws cells) (hw : ws.size = fr.words.size) :
    FrameOf m f { fr with steps := rest, words := ws } { cf with next := cf.next + 1, cells } where
  func := h.func
  block := h.block
  stack := h.stack
  within := h.within
  shows := hsh
  code := by
    obtain ⟨d, c, cb, hd, hf, hblocks, hcb, hsteps, hle, hexit, hsize⟩ := h.code
    refine ⟨d, c, cb, hd, hf, hblocks, hcb, ?_, ?_, hexit, by simpa only [hw] using hsize⟩
    · have : rest = (cb.steps.drop cf.next).drop 1 := by rw [← hsteps, hs]; rfl
      simpa using this
    · have : (cb.steps.drop cf.next).length ≠ 0 := by rw [← hsteps, hs]; simp
      rw [List.length_drop] at this
      dsimp only
      omega

theorem FrameOf.enterBlock (h : FrameOf m f fr cf) {b : BlockId} (hb : b < f.blocks.size) {ws : Array UInt64}
    {cells : Cells} (hsh : Shows f ws cells) (hw : ws.size = fr.words.size) :
    FrameOf m f (fr.atBlock b ws) { cf with block := b, next := 0, cells } where
  func := h.func
  block := rfl
  stack := h.stack
  within := hb
  shows := hsh
  code := by
    obtain ⟨d, c, cb, hd, hf, hblocks, -, -, -, -, hsize⟩ := h.code
    obtain ⟨t, ht⟩ := hf.code
    obtain ⟨cb', hcb', -⟩ := (Body.laid_of_compile ht).2.2.2 hb
    have hget : fr.blocks.getD b default = cb' := by rw [hblocks]; simp [Array.getD_eq_getD_getElem?, hcb']
    exact ⟨d, c, cb', hd, hf, hblocks, hcb',
      by simp [Frame.atBlock, hget], Nat.zero_le _, by simp [Frame.atBlock, hget],
      by simpa only [Frame.atBlock, hw] using hsize⟩

theorem Cells.deal_nil (c : Cells) (vs : List Value) : c.deal vs [] = c := by
  induction vs generalizing c with
  | nil => rfl
  | cons v vs ih =>
    have : c.setValue v [] = c := by
      unfold Cells.setValue
      congr 1
      funext u
      split
      · next h => rw [h, Cells.fill_nil]
      · rfl
    simp [Cells.deal, this, ih]

theorem Shows.passArguments {ws : Array UInt64} {c : Cells} (h : Shows f ws c) {dest : BlockId} {args : List Value}
    (hj : args.map (f.values[·]?) = (f.blocks.getD dest {}).params.map (f.values[·]?))
    (he : Lay.exit f (.ofBody f) (.jump dest args) n = some (e, n')
      ∨ X86.exit f (.ofBody f) (.jump dest args) n = some (e, n'))
    (hn : Layout.size f ≤ n) (hn' : n' ≤ ws.size) :
    ∃ sources scratch targets ws', e = .jump dest sources scratch targets
      ∧ Frame.passArguments ws sources scratch targets = .ok ws' ∧ ws'.size = ws.size
      ∧ Shows f ws' (c.deal (f.blocks.getD dest {}).params (c.words args)) := by
  have pass : ∀ {sources targets : List Span} {scratch k k' j j' : Nat},
      Lay.spans (.ofBody f) args k = some (sources, k') →
      Lay.spans (.ofBody f) (f.blocks.getD dest {}).params j = some (targets, j') →
      Layout.size f ≤ scratch → scratch + Span.total sources ≤ ws.size →
      ∃ ws', Frame.passArguments ws sources scratch targets = .ok ws' ∧ ws'.size = ws.size
        ∧ Shows f ws' (c.deal (f.blocks.getD dest {}).params (c.words args)) := by
    intro sources targets scratch k k' j j' hs ht hlow hhigh
    have htotal := X86.total_spans hs ht hj
    obtain ⟨rfl, hargs, -⟩ := Lay.of_spans hs
    obtain ⟨rfl, hparams, -⟩ := Lay.of_spans ht
    refine ⟨_, X86.passArguments_eq htotal (by omega), by simp, ?_⟩
    rw [h.words hargs]
    exact (h.scratch hlow _).deal hparams _
  rcases he with he | he
  · cases args with
    | nil =>
      obtain ⟨rfl, -⟩ := Lay.pure_eq.1 he
      refine ⟨[], 0, [], ws, rfl, rfl, rfl, ?_⟩
      simpa [Cells.words, Cells.deal_nil] using h
    | cons a args =>
      simp only [Lay.exit, Lay.bind_eq, Lay.alloc_eq, Lay.pure_eq] at he
      obtain ⟨sources, _, hs, targets, _, ht, scratch, _, ⟨rfl, rfl⟩, rfl, rfl⟩ := he
      have h₁ := (Lay.spans_eq.1 hs).2
      have h₂ := (Lay.spans_eq.1 ht).2
      obtain ⟨ws', hpass, hsize, hshow⟩ := pass hs ht (by omega) hn'
      exact ⟨_, _, _, ws', rfl, hpass, hsize, hshow⟩
  · simp only [X86.exit, Lay.bind_eq, Lay.alloc_eq, Lay.pure_eq] at he
    obtain ⟨sources, _, hs, scratch, _, ⟨rfl, rfl⟩, targets, _, ht, rfl, rfl⟩ := he
    have h₁ := (Lay.spans_eq.1 hs).2
    have h₂ := (Lay.spans_eq.1 ht).2
    obtain ⟨ws', hpass, hsize, hshow⟩ := pass hs ht (show Layout.size f ≤ scratch by omega) (by omega)
    exact ⟨_, _, _, ws', rfl, hpass, hsize, hshow⟩

theorem OutcomeOf.leave (h : FrameOf m f fr cf) (hst : Stacked m f.sig.returns fr.results cf.results frs cfs)
    (hi : i.Fits f) (hv : ∀ k ∈ f.values, k ≠ .invalid) (hj : i.action.matchesEntry f) (hs : fr.steps = [])
    (he : Lay.exit f (.ofBody f) i.action n = some (fr.exit, n') ∨ X86.exit f (.ofBody f) i.action n
      = some (fr.exit, n'))
    (hn : Layout.size f ≤ n) (hn' : n' ≤ fr.words.size) :
    i.exec m perform f cf.stack cf.cells out = none
      ∧ OutcomeOf m (State.step m perform ⟨out, fr :: frs⟩) (CellState.leave m perform f i out cf cfs) := by
  obtain ⟨first, ks, -, -, hfit⟩ := hi
  rcases hact : i.action <;> rw [hact] at hfit he
  case jump dest args =>
    simp only [hact, Action.matchesEntry, decide_eq_true_eq] at hj
    obtain ⟨sources, scratch, targets, ws', hexit, hpass, hsize, hshow⟩ := h.shows.passArguments hj he hn hn'
    refine ⟨by simp [Inst.exec, hact, Action.act], ?_⟩
    rw [State.step_jump hs hexit hpass]
    simp only [CellState.leave, hact]
    exact .next (.cons (h.enterBlock hfit.2 hshow hsize) hst)
  case brif c dest alt =>
    have he : Lay.exit f (.ofBody f) (.brif c dest alt) n = some (fr.exit, n') := he.elim id id
    simp only [Lay.exit, Lay.bind_eq, Lay.pure_eq] at he
    obtain ⟨at_, _, hplace, hexit, -⟩ := he
    obtain ⟨k, hc, rfl, -⟩ := Lay.of_place hplace
    have hk := hv k (Array.mem_of_getElem? hc)
    refine ⟨by simp [Inst.exec, hact, Action.act], ?_⟩
    rw [State.step_branch hs hexit (Frame.read?_eq (h.shows.lt_size hc hk)), h.shows.word hc hk]
    simp only [CellState.leave, hact]
    refine .next (.cons (h.enterBlock ?_ h.shows rfl) hst)
    split
    · exact hfit.2.1
    · exact hfit.2.2
  case ret vs =>
    have he : Lay.exit f (.ofBody f) (.ret vs) n = some (fr.exit, n') := he.elim id id
    simp only [Lay.exit, Lay.bind_eq, Lay.pure_eq] at he
    obtain ⟨sources, _, hspans, hexit, -⟩ := he
    obtain ⟨rfl, hvs, -⟩ := Lay.of_spans hspans
    refine ⟨by simp [Inst.exec, hact, Action.act], ?_⟩
    rw [State.step_ret hs hexit, Frame.readSpans_eq, h.shows.words hvs]
    simp only [CellState.leave, hact, h.stack]
    exact .deliver hst (Nat.le_of_eq (h.shows.length_words hfit.2)) _
  all_goals
    have he := he.elim (fun h => h) (fun h => h)
    simp [Lay.exit, Lay.failure_eq] at he

theorem FrameOf.gathers (h : FrameOf m f fr cf) {r : RefId} {args : List Value} (hi : i.Fits f)
    (ha : i.action = .call r args) (hlaid : Lay.step f (.ofBody f) i n = some (s, n')) (hn' : n' ≤ fr.words.size) :
    ∃ (e : Callee) (moves : List Span) (dest : Nat), f.callees[r]? = some e
      ∧ s = .call e.id n moves (Kind.total e.sig.params) dest
      ∧ Lands f e.sig.returns dest i.results ∧ Frame.readSpans fr.words moves = cf.cells.words args
      ∧ Frame.readSpan (Frame.writeAll fr.words n (cf.cells.words args)) ⟨n, Kind.total e.sig.params⟩
        = cf.cells.words args := by
  obtain ⟨first, ks, hres, hks, hfit⟩ := hi
  rw [ha] at hfit
  obtain ⟨e, he, rfl, hargs⟩ := hfit
  simp only [Lay.step, ha, Lay.call, Lay.bind_eq, Lay.liftM_eq, Lay.alloc_eq, he] at hlaid
  obtain ⟨e', _, ⟨hsome, rfl⟩, scratch, _, ⟨rfl, rfl⟩, moves, _, hmoves, hlast⟩ := hlaid
  obtain rfl : e = e' := Option.some.inj hsome
  obtain ⟨rfl, hvs, rfl⟩ := Lay.of_spans hmoves
  have hwords : (cf.cells.words args).length = Kind.total e.sig.params := h.shows.length_words hargs
  obtain ⟨at_, rfl, rfl, hlands⟩ : ∃ at_, s = .call e.id scratch (Shows.spansOf f args) (Kind.total e.sig.params) at_
      ∧ n' = scratch + Kind.total e.sig.params ∧ Lands f e.sig.returns at_ i.results := by
    cases hreturns : e.sig.returns with
    | nil =>
      rw [hreturns] at hres
      simp only [hres, List.length_nil, List.range'_zero, Lay.bind_eq, Lay.pure_eq] at hlast
      obtain ⟨_, _, ⟨rfl, rfl⟩, rfl, rfl⟩ := hlast
      exact ⟨0, rfl, rfl, first, hres, by simp, by rw [hres]; rfl⟩
    | cons k ks =>
      rw [hreturns] at hres hks
      simp only [hres, List.length_cons, List.range'_succ, Lay.bind_eq, Lay.pure_eq] at hlast
      obtain ⟨at_, _, hat, rfl, rfl⟩ := hlast
      obtain ⟨_, _, rfl, rfl⟩ := Lay.of_place hat
      exact ⟨_, rfl, rfl, first, hres, hks, by rw [hres]; rfl⟩
  refine ⟨e, _, at_, he, rfl, hlands, by rw [Frame.readSpans_eq, h.shows.words hvs], ?_⟩
  rw [Frame.readSpan_eq, ← hwords, Frame.row_writeAll (by simpa only [hwords] using hn')]

theorem FrameOf.at_code (h : FrameOf m f fr cf) (hi : (f.code cf.block)[cf.next]? = some i) :
    (∃ s rest n n', fr.steps = s :: rest ∧ Lay.step f (.ofBody f) i n = some (s, n') ∧ Layout.size f ≤ n
      ∧ n' ≤ fr.words.size)
    ∨ fr.steps = [] ∧ ∃ n n', (Lay.exit f (.ofBody f) i.action n = some (fr.exit, n')
        ∨ X86.exit f (.ofBody f) i.action n = some (fr.exit, n')) ∧ Layout.size f ≤ n ∧ n' ≤ fr.words.size := by
  obtain ⟨d, c, cb, hd, hf, hblocks, hcb, hsteps, hle, hexit, hsize⟩ := h.code
  obtain ⟨t, ht⟩ := hf.code
  obtain ⟨cb', hcb', ⟨last, hinsts, hlen, n, n', hlaid, hn, hn'⟩, hstep⟩ := (Body.laid_of_compile ht).2.2.2 h.within
  obtain rfl : cb = cb' := Option.some.inj (hcb.symm.trans hcb')
  rw [h.block, hinsts] at hi
  rcases Nat.lt_or_ge cf.next cb.steps.length with hlt | hge
  · rw [List.getElem?_append_left (by omega)] at hi
    obtain ⟨s, k, k', hs, hlaid, hk, hk'⟩ := hstep hi
    have hrest : fr.steps = s :: cb.steps.drop (cf.next + 1) := by
      obtain ⟨_, rfl⟩ := List.getElem?_eq_some_iff.1 hs
      rw [hsteps, List.drop_eq_getElem_cons hlt]
    exact .inl ⟨s, _, k, k', hrest, hlaid, hk, by omega⟩
  · have hnext : cf.next = (f.code fr.block).dropLast.length := by omega
    rw [hnext, List.getElem?_concat_length, Option.some.injEq] at hi
    subst hi
    exact .inr ⟨by rw [hsteps, List.drop_eq_nil_of_le hge], n, n', hexit ▸ hlaid, hn, by omega⟩

theorem FrameOf.exists_inst (h : FrameOf m f fr cf) : ∃ i, (f.code cf.block)[cf.next]? = some i := by
  obtain ⟨d, c, cb, hd, hf, hblocks, hcb, hsteps, hle, hexit, hsize⟩ := h.code
  obtain ⟨t, ht⟩ := hf.code
  obtain ⟨cb', hcb', ⟨last, hinsts, hlen, -⟩, -⟩ := (Body.laid_of_compile ht).2.2.2 h.within
  obtain rfl : cb = cb' := Option.some.inj (hcb.symm.trans hcb')
  refine ⟨_, List.getElem?_eq_getElem ?_⟩
  rw [h.block, hinsts, List.length_append, List.length_singleton]
  omega

theorem FrameOf.body (h : FrameOf m f fr cf) : m.body? cf.func = some f := by
  obtain ⟨d, c, cb, hd, hf, -⟩ := h.code
  simp [Module.body?, h.func, hd, hf.source]

theorem OutcomeOf.callStep (hm : m.Laid) (h : FrameOf m f fr cf)
    (hst : Stacked m f.sig.returns fr.results cf.results frs cfs) {r : RefId} {args : List Value}
    (hi : i.Fits f) (ha : i.action = .call r args) {rest : List Step} (hs : fr.steps = s :: rest)
    (hlaid : Lay.step f (.ofBody f) i n = some (s, n')) (hn : Layout.size f ≤ n) (hn' : n' ≤ fr.words.size)
    (hcallees : ∀ {r : RefId} {e : Callee}, f.callees[r]? = some e → ∃ d, m.funcs[e.id]? = some d ∧ d.sig = e.sig) :
    ∃ e, f.callees[r]? = some e ∧ OutcomeOf m (State.step m perform ⟨out, fr :: frs⟩)
      (CellState.call m perform e.id (cf.cells.words args) i.results out ({ cf with next := cf.next + 1 } :: cfs)) := by
  obtain ⟨e, moves, dest, he, rfl, hlands, hmoves, hargs⟩ := h.gathers hi ha hlaid hn'
  refine ⟨e, he, ?_⟩
  have hstep : State.step m perform ⟨out, fr :: frs⟩ = State.call m perform e.id (cf.cells.words args) dest out
      ({ fr with steps := rest, words := Frame.writeAll fr.words n (cf.cells.words args) } :: frs) := by
    obtain ⟨func, blocks, block, steps, exit, words, stack, results⟩ := fr
    subst hs
    simp only [State.step]
    rw [hmoves, hargs]
  rw [hstep]
  refine OutcomeOf.call hm perform _ _ (fun d hd => ?_) (by simpa using hst.length)
  obtain ⟨d', hd', hsig⟩ := hcallees he
  obtain rfl : d = d' := Option.some.inj (hd.symm.trans hd')
  rw [hsig]
  exact .cons (h.advance hs (h.shows.scratch hn _) (by simp)) hlands hst

theorem OutcomeOf.step (hm : m.Laid) {st : State σ} {cst : CellState σ} (h : StateOf m st cst) :
    OutcomeOf m (State.step m perform st) (CellState.step m perform cst) := by
  cases h with
  | nil => exact .done
  | @cons out f fr cf frs cfs hfr hst =>
    obtain ⟨d, c, cb, hd, hf, -⟩ := hfr.code
    obtain ⟨i, hcode⟩ := hfr.exists_inst
    have hmem := List.mem_of_getElem? hcode
    have hfits := hf.wellFormed.fits hmem
    rw [CellState.step_of_code hfr.body hcode]
    rcases hfr.at_code hcode with ⟨s, rest, n, n', hrest, hlaid, hn, hn'⟩ | ⟨hnil, n, n', hlaid, hn, hn'⟩
    · by_cases hcall : ∃ r args, i.action = .call r args
      · obtain ⟨r, args, ha⟩ := hcall
        obtain ⟨e, he, hout⟩ := OutcomeOf.callStep perform out hm hfr hst hfits ha hrest hlaid hn hn' hf.callees
        rw [Inst.exec_of_call ha he]
        cases hp : m.perform perform e.id (cf.cells.words args) out with
        | none => simpa only [Option.map_none, CellState.leave, ha, he] using hout
        | some p =>
          simp only [CellState.call, hp] at hout
          obtain ⟨_ | rs, out'⟩ := p <;> exact hout
      · have hcall : ∀ r args, i.action ≠ .call r args := fun r args ha => hcall ⟨r, args, ha⟩
        obtain ⟨hno, htracks⟩ := tracks_step hfits hf.valid hlaid hcall
        have hexec : i.exec m perform f cf.stack cf.cells out
            = (i.action.act f fr.stack cf.cells out.memory i.results).map fun p =>
                (p.1, { out with memory := p.2 }) := by
          rw [Inst.exec_of_act hcall, hfr.stack]
        rw [State.step_run hrest hno, hexec]
        have := htracks fr.words cf.cells fr.stack out.memory hfr.shows
        cases hact : i.action.act f fr.stack cf.cells out.memory i.results with
        | none =>
          rw [hact] at this
          exact this.elim
        | some p =>
          rw [hact] at this
          obtain ⟨t | cells, mem⟩ := p
          · dsimp only at this
            rw [this]
            exact .trapped
          · obtain ⟨ws', hrun, hw, hshow⟩ := this
            rw [hrun]
            exact .next (.cons (hfr.advance hrest hshow hw) hst)
    · obtain ⟨hnone, hout⟩ := OutcomeOf.leave perform out hfr hst hfits hf.valid
        (hf.jumps i (Body.mem_code hmem)) hnil hlaid hn hn'
      rw [hnone]
      exact hout

theorem OutcomeOf.run (hm : m.Laid) {st : State σ} {cst : CellState σ} (h : StateOf m st cst) (n : Nat) :
    OutcomeOf m (State.run m perform n st) (runs (CellState.step m perform) n cst) := by
  induction n generalizing st cst with
  | zero => exact .next h
  | succ n ih =>
    rw [State.run, runs]
    have hstep := OutcomeOf.step perform hm h
    generalize State.step m perform st = o at hstep
    generalize CellState.step m perform cst = t at hstep
    cases hstep with
    | next h => exact ih h
    | done => exact .done
    | trapped => exact .trapped

end Step

end RecordMill.Machine

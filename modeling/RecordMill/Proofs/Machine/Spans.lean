import RecordMill.Proofs.Machine.Reference

/-!
# Flat frames implement cells

The spans of a frame have no word in common: values, variables, the arguments of calls and jumps, and what
machine code takes beyond them. So calls of compiled functions come to what they come to on cells.
-/

namespace RecordMill.Machine

/-! ## Spans apart -/

namespace Span

def Covers (s : Span) (w : Nat) : Prop := s.offset ≤ w ∧ w < s.offset + s.words

def Apart (s t : Span) : Prop := ∀ w, ¬(s.Covers w ∧ t.Covers w)

/-- An empty span lies anywhere. -/
structure Within (s : Span) (n m : Nat) : Prop where
  start : n ≤ s.offset ∨ s.words = 0
  finish : s.offset + s.words ≤ m

/-- Spans apart from each other that were given out while `n` to `m` words were in use. -/
structure Taken (n m : Nat) (ss : List Span) : Prop where
  le : n ≤ m
  apart : ss.Pairwise Apart
  within : ∀ s ∈ ss, s.Within n m

namespace Taken

variable {n k m : Nat} {s : Span} {ss ts : List Span}

theorem nil (h : n ≤ m) : Taken n m [] := ⟨h, .nil, by simp⟩

theorem empty (h : n ≤ m) : Taken n m [⟨0, 0⟩] := ⟨h, by simp, by simpa using ⟨.inr rfl, Nat.zero_le m⟩⟩

theorem alloc (n words : Nat) : Taken n (n + words) [⟨n, words⟩] :=
  ⟨Nat.le_add_right _ _, by simp, by simpa using ⟨.inl (Nat.le_refl n), Nat.le_refl _⟩⟩

theorem append (h : Taken n k ss) (h' : Taken k m ts) : Taken n m (ss ++ ts) where
  le := Nat.le_trans h.le h'.le
  apart := by
    refine List.pairwise_append.2 ⟨h.apart, h'.apart, fun s hs t ht w ⟨hsw, htw⟩ => ?_⟩
    obtain ⟨-, hfinish⟩ := h.within s hs
    obtain ⟨hstart, -⟩ := h'.within t ht
    obtain ⟨h₁, h₂⟩ := hsw
    obtain ⟨h₃, h₄⟩ := htw
    omega
  within s hs := by
    rcases List.mem_append.1 hs with hs | hs
    · exact ⟨(h.within s hs).start, Nat.le_trans (h.within s hs).finish h'.le⟩
    · exact ⟨(h'.within s hs).start.imp_left (Nat.le_trans h.le), (h'.within s hs).finish⟩

theorem cons (h : Taken n k [s]) (h' : Taken k m ss) : Taken n m (s :: ss) := h.append h'

theorem mono (h : Taken n k ss) (hm : k ≤ m) : Taken n m ss := by
  simpa using h.append (nil hm)

end Taken

theorem taken_consecutive (n : Nat) (ks : List Kind) : Taken n (n + Kind.total ks) (consecutive n ks) := by
  induction ks generalizing n with
  | nil => exact .nil (Nat.le_refl _)
  | cons k ks ih =>
    rw [Kind.total_cons, ← Nat.add_assoc]
    exact (Taken.alloc n k.words).cons (ih _)

end Span

/-! ## Scratch words -/

def Step.scratch : Step → List Span
  | .call _ scratch _ words _ => [⟨scratch, words⟩]
  | _ => []

def Exit.scratch : Exit → List Span
  | .jump _ sources scratch _ => [⟨scratch, Span.total sources⟩]
  | _ => []

def CodeBlock.scratch (b : CodeBlock) : List Span := b.steps.flatMap (·.scratch) ++ b.exit.scratch

/-- Every span of a frame: values, variables, the scratch words of the blocks, and those of machine code,
which returns its results in words of their own and leaves blocks by way of words of their own. -/
def Body.spans (f : Body) (blocks : List CodeBlock) (c : Compiled) : List Span :=
  (Layout.ofBody f).values.toList ++ (Layout.ofBody f).vars.toList ++ blocks.flatMap (·.scratch)
    ++ match c.machineCode with
      | none => []
      | some (_, returns) => ⟨returns, Kind.total f.sig.returns⟩ :: c.blocks.toList.flatMap (·.exit.scratch)

namespace Lay

open Span (Taken)

variable {α β : Type} {f : Body} {n m : Nat}

theorem taken_mapM {g : α → Lay β} {scratch : β → List Span}
    (hg : ∀ {x n y m}, g x n = some (y, m) → Taken n m (scratch y)) {xs : List α} {ys : List β}
    (h : xs.mapM g n = some (ys, m)) : Taken n m (ys.flatMap scratch) := by
  induction xs generalizing n ys with
  | nil =>
    obtain ⟨rfl, rfl⟩ := pure_eq.1 h
    exact .nil (Nat.le_refl _)
  | cons x xs ih =>
    simp only [List.mapM_cons, bind_eq, pure_eq] at h
    obtain ⟨y, k, hy, zs, _, hzs, rfl, rfl⟩ := h
    exact (hg hy).append (ih hzs)

theorem taken_call {i : Inst} {r : RefId} {args : List Value} {s : Step}
    (h : call f (.ofBody f) i r args n = some (s, m)) : Taken n m s.scratch := by
  simp only [call, bind_eq, liftM_eq, alloc_eq] at h
  obtain ⟨e, _, ⟨-, rfl⟩, scratch, _, ⟨rfl, rfl⟩, moves, _, hmoves, h⟩ := h
  obtain rfl := (spans_eq.1 hmoves).2
  obtain ⟨out, rfl, rfl⟩ : ∃ out, s = .call e.id scratch moves (Kind.total e.sig.params) out
      ∧ m = scratch + Kind.total e.sig.params := by
    cases hr : i.results with
    | nil =>
      simp only [hr, bind_eq, pure_eq] at h
      obtain ⟨out, _, ⟨rfl, rfl⟩, rfl, rfl⟩ := h
      exact ⟨_, rfl, rfl⟩
    | cons v vs =>
      simp only [hr, bind_eq, place_eq, pure_eq] at h
      obtain ⟨out, _, ⟨-, rfl⟩, rfl, rfl⟩ := h
      exact ⟨_, rfl, rfl⟩
  exact .alloc _ _

theorem taken_step {i : Inst} {s : Step} (h : step f (.ofBody f) i n = some (s, m)) : Taken n m s.scratch := by
  have hle := Mono.le h
  cases ha : i.action with
  | call r args => exact taken_call (by simpa only [step, ha] using h)
  | jump | brif | ret => exact (failure_eq.1 (by simpa only [step, ha] using h)).elim
  | _ =>
    -- No other step takes scratch words.
    have hs : s.scratch = [] := by
      simp only [step, ha, bind_eq, liftM_eq, pure_eq] at h
      grind [Step.scratch]
    rw [hs]
    exact .nil hle

theorem taken_jump {dest : BlockId} {args : List Value} {e : Exit}
    (h : exit f (.ofBody f) (.jump dest args) n = some (e, m)) :
    Taken n m e.scratch := by
  cases args with
  | nil =>
    obtain ⟨rfl, rfl⟩ := pure_eq.1 h
    exact .empty (Nat.le_refl _)
  | cons a args =>
    simp only [exit, bind_eq, alloc_eq, pure_eq] at h
    obtain ⟨sources, _, hs, targets, _, ht, scratch, _, ⟨rfl, rfl⟩, rfl, rfl⟩ := h
    obtain rfl := (spans_eq.1 hs).2
    obtain rfl := (spans_eq.1 ht).2
    exact .alloc _ _

theorem taken_exit {a : Action} {e : Exit} (h : exit f (.ofBody f) a n = some (e, m)) : Taken n m e.scratch := by
  have hle := Mono.le h
  cases a with
  | jump dest args => exact taken_jump h
  | brif c dest alt =>
    simp only [exit, bind_eq, pure_eq] at h
    obtain ⟨_, _, -, rfl, -⟩ := h
    exact .nil hle
  | ret vs =>
    simp only [exit, bind_eq, pure_eq] at h
    obtain ⟨_, _, -, rfl, -⟩ := h
    exact .nil hle
  | _ => exact (failure_eq.1 h).elim

theorem taken_block {b : Block} {cb : CodeBlock} (h : block f (.ofBody f) b n = some (cb, m)) :
    Taken n m cb.scratch := by
  simp only [block, bind_eq, liftM_eq, pure_eq] at h
  obtain ⟨steps, _, hsteps, last, _, ⟨-, rfl⟩, e, _, he, rfl, rfl⟩ := h
  exact (taken_mapM taken_step hsteps).append (taken_exit he)

end Lay

namespace X86

open Span (Taken)

variable {f : Body} {n m : Nat}

theorem taken_exit {a : Action} {e : Exit} (h : exit f (.ofBody f) a n = some (e, m)) : Taken n m e.scratch := by
  unfold exit at h
  split at h
  · simp only [Lay.bind_eq, Lay.alloc_eq, Lay.pure_eq] at h
    obtain ⟨sources, _, hs, scratch, _, ⟨rfl, rfl⟩, targets, _, ht, rfl, rfl⟩ := h
    obtain rfl := (Lay.spans_eq.1 hs).2
    obtain rfl := (Lay.spans_eq.1 ht).2
    exact .alloc _ _
  · exact Lay.taken_exit h

theorem taken_block {returns : Nat} {b : Block} {p : List Code × Exit}
    (h : block f (.ofBody f) returns b n = some (p, m)) : Taken n m p.2.scratch := by
  simp only [block, Lay.bind_eq, Lay.liftM_eq, Lay.pure_eq] at h
  obtain ⟨css, _, hcss, last, _, ⟨-, rfl⟩, e, _, he, rfl, rfl⟩ := h
  have hle := Lay.Mono.le hcss
  exact (Taken.nil hle).append (taken_exit he)

end X86

theorem X86.exits_of_length {blocks : List CodeBlock} {coded : List (List Code × Exit)}
    (h : coded.length = blocks.length) :
    (blocks.zipWith (fun b p => { b with exit := p.2 }) coded).flatMap (·.exit.scratch)
      = coded.flatMap (·.2.scratch) := by
  induction blocks generalizing coded with
  | nil => simp [List.length_eq_zero_iff.1 h]
  | cons b blocks ih =>
    obtain ⟨p, coded, rfl⟩ := List.exists_cons_of_length_eq_add_one h
    simp [ih (by simpa using h)]

theorem Body.spans_taken {f : Body} {t : Target} {c : Compiled} (h : f.compile t = .ok c) :
    ∃ blocks, f.codeBlocks? = some blocks ∧ Span.Taken 0 c.frameWords (f.spans blocks c) := by
  obtain ⟨-, n, h⟩ := lay_of_compile h
  simp only [lay, Lay.bind_eq] at h
  obtain ⟨params, _, hparams, blocks, n₁, hblocks, h⟩ := h
  obtain rfl := (Lay.spans_eq.1 hparams).2
  have hfixed : Span.Taken 0 (Layout.size f) ((Layout.ofBody f).values.toList ++ (Layout.ofBody f).vars.toList) := by
    have hvalues := Span.taken_consecutive 0 f.values.toList
    rw [Nat.zero_add] at hvalues
    exact hvalues.append (Span.taken_consecutive _ _)
  have hlaid := hfixed.append (Lay.taken_mapM Lay.taken_block hblocks)
  refine ⟨blocks, ?_, ?_⟩
  · simp only [codeBlocks?, StateT.run, hblocks, Option.map_some]
  split at h
  · simp only [Lay.bind_eq] at h
    obtain ⟨⟨coded, returns⟩, n₂, hcoded, _, _, hget, hpure⟩ := h
    cases hget
    cases hpure
    simp only [X86.blocks, Lay.bind_eq, Lay.alloc_eq, Lay.pure_eq] at hcoded
    obtain ⟨_, _, ⟨rfl, rfl⟩, _, _, hcs, hpair, rfl⟩ := hcoded
    cases hpair
    have hlen : coded.length = blocks.length := by rw [(Lay.mapM_eq hcs).1, (Lay.mapM_eq hblocks).1]
    have hexits : (blocks.zipWith (fun b p => { b with exit := p.2 }) coded).flatMap (·.exit.scratch)
        = coded.flatMap (·.2.scratch) := X86.exits_of_length hlen
    have hcode := (Span.Taken.alloc _ (Kind.total f.sig.returns)).append (Lay.taken_mapM X86.taken_block hcs)
    simpa [spans, hexits] using hlaid.append hcode
  · obtain ⟨_, _, hget, hpure⟩ := Lay.bind_eq.1 h
    cases hget
    cases hpure
    simpa [spans] using hlaid

/-! ## Calls on cells -/

variable {ι σ : Type}

def Instance.callCells (perform : ι → List UInt64 → HostM σ (List UInt64)) (fuel : Nat) (inst : Instance ι σ)
    (id : FuncId) (args : List UInt64) : CallResult × Instance ι σ :=
  match inst with
  | ⟨m, out⟩ => match m.funcs[id]? with
    | none => (.unknownFunction id, ⟨m, out⟩)
    | some d =>
      if args.length ≠ Kind.total d.sig.params then
        (.refused (.about d.name (.wordCount args.length d.sig)), ⟨m, out⟩)
      else
        let last := match CellState.call m perform id args [] out [] with
          | .next st => runs (CellState.step m perform) fuel st
          | t => t
        match last with
        | .ended (.done rs out) =>
          (.returned (rs ++ List.replicate (Kind.total d.sig.returns - rs.length) 0), ⟨m, out⟩)
        | .ended (.trapped t out) => (.trapped (t.within d.name), ⟨m, { out with memory := out.memory.reset }⟩)
        | .next st => (.outOfFuel, ⟨m, st.outside⟩)

/-- Every function with code was compiled from a body that the builder made, of valid kinds, whose jumps pass
what their targets take and whose callees are functions of the module. -/
def Module.Compiles (m : Module ι) : Prop :=
  ∀ {id : FuncId} {d : FuncDecl ι} {c : Compiled}, m.funcs[id]? = some d → d.host = none → d.compiled = some c →
    ∃ f t, d.source = some f ∧ f.sig = d.sig ∧ f.compile t = .ok c ∧ f.Built ∧ (∀ k ∈ f.values, k ≠ .invalid)
      ∧ f.JumpsMatch
      ∧ ∀ {r : RefId} {e : Callee}, f.callees[r]? = some e → ∃ d, m.funcs[e.id]? = some d ∧ d.sig = e.sig

theorem Module.Compiles.laid {m : Module ι} (h : m.Compiles) : m.Laid := by
  intro id d c hd hhost hc
  obtain ⟨f, t, source, sig, code, built, valid, jumps, callees⟩ := h hd hhost hc
  exact ⟨f, hhost, source, hc, sig, ⟨t, code⟩, built.wellFormed, valid, jumps, callees⟩

theorem Instance.call_eq_callCells {inst : Instance ι σ} (h : inst.module.Laid)
    (perform : ι → List UInt64 → HostM σ (List UInt64)) (fuel : Nat) (id : FuncId) (args : List UInt64) :
    inst.call perform fuel id args = inst.callCells perform fuel id args := by
  obtain ⟨m, out⟩ := inst
  unfold call callCells
  cases hd : m.funcs[id]? with
  | none => simp only [hd]
  | some d =>
    simp only [hd]
    split
    · rfl
    · have first : OutcomeOf m (State.call m perform id args 0 out []) (CellState.call m perform id args [] out []) :=
        OutcomeOf.call h perform args out (fun _ _ => .nil) rfl
      generalize State.call m perform id args 0 out [] = o at first
      generalize CellState.call m perform id args [] out [] = t at first
      cases first with
      | done => rfl
      | trapped => rfl
      | next hst =>
        have last := OutcomeOf.run perform h hst fuel
        simp only
        generalize State.run m perform fuel _ = o at last
        generalize runs (CellState.step m perform) fuel _ = t at last
        cases last with
        | done => rfl
        | trapped => rfl
        | next hst => cases hst <;> rfl

/-- A flat frame implements cells. The spans of a compiled body have no word in common and lie inside its
frame; and calls in a module come to the same, with the same effects outside, as calls on cells. -/
theorem Module.frames_implement_cells {m : Module ι} (hm : m.Compiles) :
    (∀ {f : Body} {t : Target} {c : Compiled}, f.compile t = .ok c →
      ∃ blocks, f.codeBlocks? = some blocks ∧ (f.spans blocks c).Pairwise Span.Apart
        ∧ ∀ s ∈ f.spans blocks c, s.offset + s.words ≤ c.frameWords)
    ∧ ∀ {σ : Type} (perform : ι → List UInt64 → HostM σ (List UInt64)) (fuel : Nat) (out : Outside σ) (id : FuncId)
        (args : List UInt64), Instance.call perform fuel ⟨m, out⟩ id args
          = Instance.callCells perform fuel ⟨m, out⟩ id args := by
  refine ⟨fun {f t c} hc => ?_, fun perform fuel out id args => ?_⟩
  · obtain ⟨blocks, hblocks, taken⟩ := Body.spans_taken hc
    exact ⟨blocks, hblocks, taken.apart, fun s hs => (taken.within s hs).finish⟩
  · exact Instance.call_eq_callCells hm.laid perform fuel id args

def Module.single (f : Body) (c : Compiled) : Module Unit :=
  { funcs := #[{ name := f.name, linkage := .exported, sig := f.sig, source := some f, compiled := some c }] }

theorem Module.compiles_single {f : Body} {t : Target} {c : Compiled} (hc : f.compile t = .ok c) (hf : f.Built)
    (hv : ∀ k ∈ f.values, k ≠ .invalid) (hj : f.JumpsMatch) (hcallees : f.callees = #[]) : (single f c).Compiles := by
  intro id d c' hd _ hc'
  obtain ⟨hid, rfl⟩ := Array.getElem?_eq_some_iff.1 hd
  obtain rfl : id = 0 := by simpa [single] using hid
  obtain rfl : c = c' := Option.some.inj hc'
  exact ⟨f, t, rfl, rfl, hc, hf, hv, hj, fun he => by simp [hcallees] at he⟩

/-- A loop whose block takes its parameters from itself adds 3, 2 and 1 on cells. -/
theorem Module.frames_implement_cells_sumDown :
    ∃ c, Body.sumDown.compile .native = .ok c
      ∧ (Instance.callCells (fun _ _ => pure []) 30 ⟨.single Body.sumDown c,
        (⟨⟨#[], 0, 0, 0⟩, ()⟩ : Outside Unit)⟩ 0 [3]).1
        = .returned [6] := by
  have hcall : (Body.sumDown.compile .native).toOption.map (fun c =>
      (Instance.call (fun _ _ => pure []) 30 ⟨.single Body.sumDown c, (⟨⟨#[], 0, 0, 0⟩, ()⟩ : Outside Unit)⟩ 0 [3]).1)
      = some (.returned [6]) := by decide +kernel
  cases hc : Body.sumDown.compile .native with
  | error e =>
    rw [hc] at hcall
    cases hcall
  | ok c =>
    have hm : (single Body.sumDown c).Compiles :=
      compiles_single hc Body.built_sumDown (by decide +kernel) (by decide +kernel) (by decide +kernel)
    refine ⟨c, rfl, ?_⟩
    rw [hc] at hcall
    rw [← (frames_implement_cells hm).2]
    exact Option.some.inj hcall

end RecordMill.Machine

import RecordMill.Proofs.Plain.Blocks
import RecordMill.Proofs.Plain.Reports
import RecordMill.Program.Samples

/-!
# What a program prints

A small program that does not call itself runs to its end on the stack that is usual, so what it prints is what the
plain run prints.
-/

namespace RecordMill

/-- The environment says nothing about the stack and the output buffer. -/
structure Environment.Silent (env : Environment) : Prop where
  stack : env.get? "AWKJIT_STACK" = none
  buffer : env.get? "AWKJIT_OUTPUT_BUFFER" = none

/-- Given enough steps, the program compiles and goes through the text without a problem, and `out` is what it
prints. -/
def Program.Outputs (p : Program) (config : Config) (env : Environment) (world : World) (input out : Bytes) : Prop :=
  ∃ least, ∀ fuel, least ≤ fuel → ∃ s r, p.runAll fuel config env world [some input] = .ok s ∧ s.reports = [.ok r]
    ∧ r.ending = .returned ∧ r.message? = none ∧ r.context.world.sink.content = world.sink.content ++ out

/-! ## Configurations -/

/-- The configuration leaves the stack and the output buffer open. -/
structure Config.LeavesSizes (c : Config) : Prop where
  stack : c.stackSize = 0
  buffer : c.outputBuffer = []

theorem Options.bufferBytes_usual {o : Options} (h : o.outputBuffer = "64KiB") : o.bufferBytes = .ok 65536 := by
  have hsize : (Size.parse "64KiB").toOption = some 65536 := by decide +kernel
  unfold bufferBytes
  rw [h]
  cases hparse : Size.parse "64KiB" with
  | error e =>
    rw [hparse] at hsize
    cases hsize
  | ok n =>
    rw [hparse] at hsize
    obtain rfl : n = 65536 := Option.some.inj hsize
    rfl

theorem Config.resolve_usual {c : Config} (h : c.LeavesSizes) {env : Environment} (henv : env.Silent) :
    ∃ o, c.resolve env = .ok o
    ∧ o.fs = Settings.orElse c.fs " " ∧ o.ofs = Settings.orElse c.ofs " " ∧ o.ors = Settings.orElse c.ors "\n"
    ∧ o.stackSize = 0 ∧ o.bufferBytes = .ok 65536 := by
  have hstack : env.int "AWKJIT_STACK" 0 = 0 := by rw [Environment.int, henv.stack]; rfl
  have hresolve : ∃ o, c.resolve env = .ok o ∧ o.fs = Settings.orElse c.fs " " ∧ o.ofs = Settings.orElse c.ofs " "
      ∧ o.ors = Settings.orElse c.ors "\n" ∧ o.stackSize = 0 ∧ o.outputBuffer = "64KiB" := by
    unfold resolve
    simp only [h.stack, h.buffer, henv.buffer, hstack, if_true]
    exact ⟨_, rfl, rfl, rfl, rfl, rfl, rfl⟩
  obtain ⟨o, ho, hfs, hofs, hors, hsize, hbuffer⟩ := hresolve
  exact ⟨o, ho, hfs, hofs, hors, hsize, Options.bufferBytes_usual hbuffer⟩

theorem Settings.orElse_orElse {t : Bytes} (h : t ≠ []) (s u : Bytes) : orElse (orElse s t) u = orElse s t := by
  have hne : orElse s t ≠ [] := by
    unfold orElse
    split
    · exact h
    · next hs => exact fun e => hs (by rw [e]; rfl)
  rw [orElse, if_neg (by rwa [List.isEmpty_iff])]

/-! ## Small programs -/

/-- An instruction of function `k` that has nothing but a short literal, a variable there is, an output of a mode of one
byte, or a call to a function of a lower rank. -/
def Instr.isModest (rank : Nat → Nat) (k : Nat) (i : Instr) : Bool :=
  i.var?.all Variable.builtIn.contains && i.output?.all (·.mode.code < 256) && i.callee?.all
    (fun fn => rank fn.toNat < rank k)
    && match i with
      | .constStr _ s => s.length ≤ Packed.maxInline
      | _ => true

/-- What a look at the listing of a program decides. -/
structure Program.Modest (p : Program) (rank : Nat → Nat) (words : Nat) : Prop where
  checked : p.check = []
  types : p.KnownTypes
  distinct : p.Distinct
  known : ∀ f ∈ p.funcs, ∀ i ∈ f.body, i.unknown? = none
  slots : ∀ f ∈ p.funcs, (f.body.flatMap Instr.slotWords).sum ≤ words
  words : 8 * words < Nat.pow 2 31
  globals : p.globals.length < 2 ^ 16
  params : ∀ f ∈ p.funcs, ∀ r ∈ f.params, r ∉ p.globals
  uncalled : p.MainUncalled
  locals : ∀ f ∈ p.funcs, (f.locals p.globals).length ≤ 2 ^ 32
  instrs : ∀ x ∈ p.funcs.zipIdx, ∀ i ∈ x.1.body, i.isModest rank x.2

namespace Program.Modest

variable {p : Program} {rank : Nat → Nat} {words : Nat} (h : p.Modest rank words)

include h

theorem instr {k : Nat} {f : Func} (hf : p.funcs[k]? = some f) {i : Instr} (hi : i ∈ f.body) :
    (∀ v, i.var? = some v → v ∈ Variable.builtIn) ∧ (∀ o, i.output? = some o → o.mode.code < 256)
      ∧ (∀ fn, i.callee? = some fn → rank fn.toNat < rank k) ∧ ∀ d s, i = .constStr d s →
        s.length ≤ Packed.maxInline := by
  have hall := h.instrs (f, k) (List.mk_mem_zipIdx_iff_getElem?.2 hf) i hi
  unfold Instr.isModest at hall
  simp only [Bool.and_eq_true] at hall
  obtain ⟨⟨⟨hvar, houtput⟩, hcallee⟩, hliteral⟩ := hall
  refine ⟨fun v hv => ?_, fun o ho => ?_, fun fn hfn => ?_, fun d s hd => ?_⟩
  · rw [hv] at hvar
    simpa using hvar
  · rw [ho] at houtput
    simpa using houtput
  · rw [hfn] at hcallee
    simpa using hcallee
  · subst hd
    simpa using hliteral

theorem exists_bounded : ∃ x, p.Bounded x rank words := by
  obtain ⟨x, hx⟩ := exists_compile h.checked h.types h.distinct h.known
  have hpow : Nat.pow 2 58 = 288230376151711744 := rfl
  have hglobals := h.globals
  refine ⟨x, hx, h.checked, ?_, ?_, ?_, ?_, h.slots⟩
  · exact sized_of_slots (fun f hf => Nat.lt_of_le_of_lt (Nat.mul_le_mul_left 8 (h.slots f hf)) h.words) (by omega)
  · refine ⟨h.params, h.uncalled, fun f hf i hi => ?_, fun f hf i hi => ?_, by omega, h.locals⟩
    · obtain ⟨k, hk⟩ := List.mem_iff_getElem?.1 hf
      exact (h.instr hk hi).1
    · obtain ⟨k, hk⟩ := List.mem_iff_getElem?.1 hf
      exact (h.instr hk hi).2.1
  · intro f hf d s hd hlong
    obtain ⟨k, hk⟩ := List.mem_iff_getElem?.1 hf
    exact absurd ((h.instr hk hd).2.2.2 d s rfl) (Nat.not_le_of_lt hlong)
  · exact fun k f hf dst fn args hmem => (h.instr hf hmem).2.2.1 fn rfl

end Program.Modest

/-! ## Runs -/

theorem Program.Bounded.outputs {p : Program} {x : Executable} {rank : Nat → Nat} {words : Nat}
    (h : p.Bounded x rank words) {main : Func} (hmain : p.func? p.main = some main)
    (hspan : Declared.span p.globals < 35184372023295) (hafford : p.Affords rank words 0) {config : Config}
    (hsizes : config.LeavesSizes) {env : Environment} (henv : env.Silent) {world : World}
    (hlimit : world.sink.limit = none) {input out : Bytes}
    (hends : ∀ o : Settings, (Plain.Store.ofSettings o world).fs = Settings.orElse config.fs " " →
      (Plain.Store.ofSettings o world).ofs = Settings.orElse config.ofs " " →
      (Plain.Store.ofSettings o world).ors = Settings.orElse config.ors "\n" →
      (Plain.Store.ofSettings o world).toRecords.Streams world.sink.content [] input → ∃ s,
        s.toRecords.Streams world.sink.content out []
        ∧ Ends (Plain.State.step p) (.start p main o world) (.returned, s)) : p.Outputs config env world input out := by
  obtain ⟨o, hconfig, hfs, hofs, hors, hstack, hcapacity⟩ := Config.resolve_usual hsizes henv
  obtain ⟨P, hP, hprogram, hcode⟩ := Plan.exists_of_compile h.checked h.sized h.compiles
  subst hcode
  obtain ⟨inst, hinst⟩ := hP.exists_instance (by rw [hprogram]; exact hspan)
    (Context.ofSettings (o.settings P.code.literals (some input) 65536) world)
  have hblank : text " " ≠ [] := by decide
  have hnewline : text "\n" ≠ [] := by decide
  obtain ⟨s, hstreams, hends⟩ := hends (o.settings P.code.literals (some input) 65536)
    ((congrArg (Settings.orElse · " ") hfs).trans (Settings.orElse_orElse hblank ..))
    ((congrArg (Settings.orElse · " ") hofs).trans (Settings.orElse_orElse hblank ..))
    ((congrArg (Settings.orElse · "\n") hors).trans (Settings.orElse_orElse hnewline ..)) (.start rfl hlimit)
  obtain ⟨hclose, hcontent⟩ := hstreams.close
  have hzero : o.stackSize.toInt64 = 0 := by rw [hstack]; rfl
  obtain ⟨least, hruns⟩ := h.runAll hmain hconfig hcapacity (by decide) (by rw [hzero]; exact hafford)
    (by rw [hzero]; exact hinst) hends
  refine ⟨least, fun fuel hfuel => ?_⟩
  obtain ⟨session, r, hrun, hreports, hshows⟩ := hruns fuel hfuel
  refine ⟨session, r, hrun, hreports, hshows.ending, hshows.message hclose, ?_⟩
  rw [show r.context.world = r.context.toRecords.world from rfl, hshows.records]
  exact hcontent

end RecordMill

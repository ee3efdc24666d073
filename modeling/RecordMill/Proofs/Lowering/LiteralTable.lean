import RecordMill.Proofs.Lowering.Placement
import RecordMill.Proofs.Lowering.Slots

/-!
# The table of literals and the code

Lowering one function after another makes the table that lists the long text literals of the program, and every text
constant of the code can be had back from it.

Main statement: `Program.literals_of_compile`.
-/

namespace RecordMill

open Machine (Value BlockId Body Build FuncDraft FuncId FuncDecl Module)

/-! ## Tables without repetition -/

namespace Native

variable {table ts : List Bytes}

theorem extended_cons (table ts : List Bytes) (t : Bytes) :
    extended table (t :: ts) = extended (if t ∈ table then table else table ++ [t]) ts := rfl

theorem extended_eq (table ts : List Bytes) : extended table ts = table ++ (ts.filter (· ∉ table)).eraseDups := by
  induction ts generalizing table with
  | nil => simp
  | cons t ts ih =>
    rw [extended_cons]
    by_cases ht : t ∈ table
    · simp [ht, ih]
    · have hmore : ts.filter (· ∉ table ++ [t]) = (ts.filter (· ∉ table)).filter fun u => !u == t := by
        rw [List.filter_filter]
        refine List.filter_congr fun u _ => ?_
        simp [beq_eq_decide, Bool.and_comm]
      rw [if_neg ht, ih, hmore, List.filter_cons_of_pos (by simpa using ht), List.eraseDups_cons, List.append_assoc]
      rfl

theorem extended_nil_table (ts : List Bytes) : extended [] ts = ts.eraseDups := by
  rw [extended_eq]
  simp

theorem filter_extended (q : Bytes → Bool) (table ts : List Bytes) :
    (extended table ts).filter q = extended (table.filter q) (ts.filter q) := by
  induction ts generalizing table with
  | nil => rfl
  | cons t ts ih =>
    rw [extended_cons, ih, List.filter_cons]
    by_cases ht : t ∈ table <;> by_cases hq : q t <;> simp [ht, hq, extended_cons]

end Native

/-! ## Functions -/

def Func.texts (f : Func) : List Bytes := f.body.flatMap Instr.texts

theorem Program.literals_eq (p : Program) : p.literals = (p.funcs.flatMap Func.texts).eraseDups := by
  unfold Program.literals Func.texts
  simp only [List.filterMap_eq_flatMap_toList]
  congr 3
  funext f
  congr 1
  funext i
  cases i <;> rfl

namespace Declared

open Native (Writes extended long extended_append long_append prefix_extended)

variable {d d' : Declared} {f : Func} {i : Nat} {ls ls' : List Bytes}

theorem writes_of_lowerAll {s : Surroundings} {n : Nat} {is : List Instr} {p q : Progress}
    (h : lowerAll s n is p = .ok q) :
    Writes (is.flatMap Instr.texts) p q := by
  induction is generalizing n p with
  | nil =>
    cases h
    exact .refl _
  | cons i is ih =>
    obtain ⟨p', hone, hrest⟩ := bind_eq_ok h
    exact ((Lowering.takes_lower i).adds (advance_eq_ok hone)).trans (ih hrest)

/-- The pairs of the body stand for the texts in order, with more empty ones. -/
def Spells (body : Body) (table ts : List Bytes) : Prop :=
  ∃ us qs, Spaced ts us ∧ body.pairs = qs.map some ∧ List.Forall₂ (Packed.Means table) us qs

theorem lowerFunc_texts {all : Bool} {q : Progress} (h : d.lowerFuncCounting all i f ls = .ok q) :
    q.literals = extended ls (long f.texts) ∧ Spells q.draft.body q.literals f.texts := by
  obtain ⟨a, b, henter, hbody, hfinish⟩ := lowerFuncCounting_eq_ok h
  have hfunc : (d.surroundingsCounting all i f).scope.func = f := ((d.surroundings i f).scope.counting_alike all).func
  rw [show f.sig = (d.surroundingsCounting all i f).scope.func.sig from congrArg Func.sig hfunc.symm] at henter
  have hentered :=
    Site.enter_writes (S := ⟨d.surroundingsCounting all i f, d.module, q.draft.body, ls, 0, 0, 0, 0⟩) henter
  have hplain : Native.Plain (d.surroundingsCounting all i f) Native.finish := inferInstance
  have hwrites := (hentered.trans (writes_of_lowerAll hbody)).trans (hplain.adds hfinish)
  rw [List.nil_append, List.append_nil] at hwrites
  obtain ⟨is, us, qs, hinsts, hspaced, hpairs, hmeans⟩ := hwrites.insts
  refine ⟨hwrites.literals, us, qs, hspaced, ?_, hmeans⟩
  rw [Body.pairs, hinsts]
  exact hpairs none none

theorem defineAll_texts {all : Bool} {fs : List Func} (h : d.defineAllCounting all ls i fs = .ok (d', ls')) :
    ls' = extended ls (long (fs.flatMap Func.texts)) ∧ d.module.Leads d'.module
      ∧ ∀ {j f}, fs[j]? = some f → ∃ id e body, d.funcs[i + j]? = some id ∧ d'.module.funcs[id]? = some e
      ∧ e.source = some body
        ∧ Spells body ls' f.texts := by
  induction fs generalizing d ls i with
  | nil =>
    cases h
    exact ⟨rfl, .refl _, nofun⟩
  | cons g gs ih =>
    obtain ⟨⟨d₁, ls₁⟩, hdefine, hrest⟩ := bind_eq_ok h
    obtain ⟨q, id, m, hlower, hid, hm, rfl, rfl⟩ := defineFuncCounting_eq_ok hdefine
    obtain ⟨hliterals, us, qs, hspaced, hpairs, hmeans⟩ := lowerFunc_texts hlower
    obtain ⟨htable, hleads, hbodies⟩ := ih hrest
    obtain ⟨-, e, c, he, -, hnew, -, -, rfl⟩ := Machine.Module.defineFunc_cases hm
    refine ⟨?_, (Machine.Module.Leads.withBody he hnew _ c).trans hleads, fun {j f} hj => ?_⟩
    · rw [htable, hliterals, List.flatMap_cons, long_append, extended_append]
    cases j with
    | zero =>
      obtain rfl : g = f := by simpa using hj
      obtain ⟨e', he', -, -, hsame⟩ := hleads.funcs (Machine.Module.funcs_withBody he he)
      rw [if_pos rfl] at hsame
      obtain rfl := hsame rfl
      refine ⟨id, _, q.draft.body, hid, he', rfl, us, qs, hspaced, hpairs, hmeans.imp fun _ _ hq => hq.mono ?_⟩
      rw [htable]
      exact prefix_extended ..
    | succ j =>
      obtain ⟨id', e', body, hid', hrest'⟩ := hbodies (j := j) (by simpa using hj)
      exact ⟨id', e', body, by rw [← hid']; congr 1; omega, hrest'⟩

end Declared

theorem Declared.Spells.read {body : Body} {table ts : List Bytes} (h : Spells body table ts)
    (hsize : table.length ≤ 2 ^ 64) :
    ∃ us, Spaced ts us ∧ ∀ heap : Heap, heap.literals = table.toArray →
      body.pairs.map (·.map heap.string) = us.map fun t => some (Except.ok t) := by
  obtain ⟨us, qs, hspaced, hpairs, hmeans⟩ := h
  refine ⟨us, hspaced, fun heap hheap => ?_⟩
  rw [hpairs, List.map_map]
  clear hspaced hpairs
  induction hmeans with
  | nil => rfl
  | cons hq _ ih =>
    rw [List.map_cons, List.map_cons, ih]
    exact congrArg (· :: _) (congrArg some (hq.string hsize hheap))

theorem Program.compileCounting_eq_ok {p : Program} {all : Bool} {x : Executable} (hx : p.compileCounting all = .ok x) :
    ∃ d d' ls, Declared.ofProgram p = .ok d ∧ d.defineAllCounting all [] 0 p.funcs = .ok (d', ls)
      ∧ d'.finish ls = .ok x := by
  unfold compileCounting at hx
  generalize p.check = issues at hx
  cases issues with
  | cons => cases hx
  | nil =>
    obtain ⟨d, hd, hx⟩ := Declared.bind_eq_ok hx
    obtain ⟨⟨d', ls⟩, hall, hfinish⟩ := Declared.bind_eq_ok hx
    exact ⟨d, d', ls, hd, hall, hfinish⟩

theorem Declared.finish_table {d : Declared} {ls : List Bytes} {x : Executable} (h : d.finish ls = .ok x) :
    x.literals = ls ∧ x.module.funcs = d.module.funcs := by
  unfold finish at h
  split at h
  · next hm _ _ =>
    cases h
    rcases Module.finalize_cases hm with ⟨-, rfl⟩ | ⟨-, rfl⟩
    · exact ⟨rfl, rfl⟩
    · exact ⟨rfl, rfl⟩
  · cases h
  · cases h

namespace Program

variable {p : Program} {x : Executable}

theorem literals_table {all : Bool} (hx : p.compileCounting all = .ok x) :
    x.literals = p.literals.filter (Packed.maxInline < ·.length) := by
  obtain ⟨d, _, ls, -, hall, hfinish⟩ := compileCounting_eq_ok hx
  obtain ⟨htable, -⟩ := Declared.defineAll_texts hall
  rw [(Declared.finish_table hfinish).1, htable, p.literals_eq, ← Native.extended_nil_table, Native.filter_extended]
  rfl

/-- The table of a compiled program lists its long text literals in order, each once. In every heap with the table the
text constants of a function are the texts of its literals in order, besides empty ones. -/
theorem literals_of_compile (hx : p.compile = .ok x) (hsize : x.literals.length ≤ 2 ^ 64) :
    x.literals = p.literals.filter (Packed.maxInline < ·.length) ∧ x.literals.Nodup
      ∧ ∃ d, Declared.ofProgram p = .ok d ∧ ∀ {i : Nat} {f : Func}, p.funcs[i]? = some f →
        ∃ (id : FuncId) (e : FuncDecl Service) (body : Body) (us : List Bytes),
          d.funcs[i]? = some id ∧ x.module.funcs[id]? = some e ∧ e.source = some body ∧ Spaced f.texts us
            ∧ ∀ heap : Heap, heap.literals = x.literals.toArray →
              body.pairs.map (·.map heap.string) = us.map fun t => some (.ok t) := by
  have hx' := p.compile_eq_counting ▸ hx
  obtain ⟨d, d', ls, hd, hall, hfinish⟩ := compileCounting_eq_ok hx'
  obtain ⟨rfl, hfuncs⟩ := Declared.finish_table hfinish
  obtain ⟨-, -, hbodies⟩ := Declared.defineAll_texts hall
  refine ⟨literals_table hx', literals_table hx' ▸ (nodup_eraseDups _).filter _, d, hd, fun {i f} hf => ?_⟩
  obtain ⟨id, e, body, hid, he, hsource, hspells⟩ := hbodies hf
  obtain ⟨us, hspaced, hread⟩ := hspells.read hsize
  exact ⟨id, e, body, us, by rw [← hid, Nat.zero_add], by rw [hfuncs, he], hsource, hspaced, hread⟩

def greeter : Program where
  funcs := [
    { name := "main", ret := .null
      body := [.constStr ⟨1, .str⟩ "good morning, everyone", .constStr ⟨2, .str⟩ "hello", .call ⟨1, .str⟩ 1 [],
        .ret ⟨0, .null⟩] },
    { name := "evening", ret := .str
      body := [.constStr ⟨1, .str⟩ "good evening, everyone", .constStr ⟨2, .str⟩ "good morning, everyone",
        .ret ⟨1, .str⟩] }]

/-- The text that the second function has in common with the first keeps its place. -/
theorem literals_of_compile_greeter : ∃ x, greeter.compile = .ok x ∧ x.literals.length ≤ 2 ^ 64
    ∧ x.literals = [text "good morning, everyone", text "good evening, everyone"]
    ∧ ∃ d id e body us, Declared.ofProgram greeter = .ok d ∧ d.funcs[1]? = some id ∧ x.module.funcs[id]? = some e
    ∧ e.source = some body
      ∧ Spaced [text "good evening, everyone", text "good morning, everyone"] us
      ∧ ∀ heap :
        Heap, heap.literals = x.literals.toArray → body.pairs.map (·.map heap.string)
          = us.map fun t => some (.ok t) := by
  obtain ⟨x, hx⟩ := exists_compile (p := greeter) (by decide +kernel) (by decide +kernel) (by decide +kernel)
    (by decide +kernel)
  have hlist : greeter.literals.filter (Packed.maxInline < ·.length) = [text "good morning, everyone",
      text "good evening, everyone"] := by
    decide +kernel
  have hsize : x.literals.length ≤ 2 ^ 64 := by
    rw [literals_table (greeter.compile_eq_counting ▸ hx), hlist]
    decide
  obtain ⟨htable, -, d, hd, hbodies⟩ := literals_of_compile hx hsize
  obtain ⟨id, e, body, us, hid, he, hsource, hspaced, hread⟩ := hbodies (i := 1) (f := greeter.funcs[1]) rfl
  exact ⟨x, hx, hsize, htable.trans hlist, d, id, e, body, us, hd, hid, he, hsource, hspaced, hread⟩

end Program

end RecordMill

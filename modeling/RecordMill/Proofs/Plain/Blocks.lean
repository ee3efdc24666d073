import RecordMill.Proofs.Plain.Runs
import RecordMill.Proofs.Record.Streaming

/-!
# Stretches of instructions

Instructions that go on are run one after another, and a loop is run pass by pass. These are the means to follow the
plain run of a program that is known.
-/

namespace RecordMill

/-! ## Loops -/

theorem Visits.iterate {S R : Type} {step : S → Turn S R} {I : Nat → S → Prop} {n : Nat}
    (hpass : ∀ k < n, ∀ s, I k s → ∃ t, Visits step s t ∧ I (k + 1) t) {s : S} (h : I 0 s) :
    ∃ t, Visits step s t ∧ I n t := by
  induction n with
  | zero => exact ⟨s, .refl s, h⟩
  | succ n ih =>
    obtain ⟨t, ht, hI⟩ := ih fun k hk => hpass k (Nat.lt_succ_of_lt hk)
    obtain ⟨u, hu, hI'⟩ := hpass n (Nat.lt_succ_self n) t hI
    exact ⟨u, ht.trans hu, hI'⟩

namespace Plain

@[simp] theorem Val.toInt_int (n : Int64) : (Val.int n).toInt = n := rfl

@[simp] theorem Val.toStr_str (s : Bytes) : (Val.str s).toStr = s := rfl

@[simp] theorem Val.toRef_map (ref : Nat) : (Val.map ref).toRef = ref := rfl

end Plain

namespace Plain.State

variable {p : Program} {σ τ : Plain.State}

/-! ## Stretches -/

def execs (p : Program) : List Instr → Plain.State → Except Halt Plain.State
  | [], σ => .ok σ
  | i :: is, σ => match σ.exec p i with
    | .ok τ => execs p is τ
    | .error h => .error h

@[simp] theorem goto_goto (m n : Nat) : (σ.goto m).goto n = σ.goto n := rfl

@[simp] theorem get_goto (n : Nat) (r : Reg) : (σ.goto n).get p r = σ.get p r := rfl

theorem set_goto (n : Nat) (r : Reg) (v : Val) : (σ.goto n).set p r v = (σ.set p r v).goto n := by
  unfold set
  split
  · rfl
  · split <;> rfl

theorem withStore_goto (n : Nat) (s : Store) : (σ.goto n).withStore s = (σ.withStore s).goto n := rfl

theorem setCursor_goto (n : Nat) (r : Reg) (c : Cursor) : (σ.goto n).setCursor r c = (σ.setCursor r c).goto n := rfl

theorem output_goto (n : Nat) (o : Option Output) : (σ.goto n).output p o = σ.output p o := rfl

theorem exec_goto (n : Nat) (i : Instr) : (σ.goto n).exec p i = (σ.exec p i).map (·.goto n) := by
  have hstore : (σ.goto n).store = σ.store := rfl
  have hcursors : (σ.goto n).frame.cursors = σ.frame.cursors := rfl
  cases i <;> simp only [exec, get_goto, output_goto, hstore, hcursors, set_goto, withStore_goto, setCursor_goto]
  case arith =>
    split
    · rfl
    · split <;> rfl
  all_goals first
    | rfl
    | split <;> rfl

theorem execs_goto (n : Nat) (is : List Instr) : execs p is (σ.goto n) = (execs p is σ).map (·.goto n) := by
  induction is generalizing σ with
  | nil => rfl
  | cons i is ih =>
    rw [execs, execs, exec_goto]
    cases σ.exec p i with
    | error h => rfl
    | ok τ => exact ih

variable {f : Func}

theorem getElem?_of_stretch {i : Instr} {is : List Instr} {k : Nat} (h : i :: is <+: f.body.drop k) :
    f.body[k]? = some i ∧ is <+: f.body.drop (k + 1) := by
  obtain ⟨rest, hrest⟩ := h
  refine ⟨?_, rest, ?_⟩
  · rw [← List.head?_drop, ← hrest]
    rfl
  · rw [← List.tail_drop, ← hrest]
    rfl

theorem visits_execs {is : List Instr} (hf : p.funcs[σ.frame.func]? = some f) (hat : is <+: f.body.drop σ.frame.next)
    (hon : is.all Instr.goesOn) (h : execs p is σ = .ok τ) : Visits (step p) σ (τ.goto (σ.frame.next + is.length)) := by
  induction is generalizing σ τ with
  | nil =>
    cases h
    exact .refl σ
  | cons i is ih =>
    obtain ⟨hi, hat⟩ := getElem?_of_stretch hat
    obtain ⟨hone, hon⟩ : i.goesOn ∧ is.all Instr.goesOn := by simpa using hon
    have hstep := step_exec hf hi hone
    rw [execs] at h
    cases hexec : σ.exec p i with
    | error e =>
      rw [hexec] at h
      cases h
    | ok υ =>
      rw [hexec] at h hstep
      have hfunc : υ.frame.func = σ.frame.func := congrArg (·.1) (site_exec hexec)
      have hlater : execs p is (υ.goto (σ.frame.next + 1)) = .ok (τ.goto (σ.frame.next + 1)) := by
        rw [execs_goto]
        exact congrArg (Except.map _) h
      have hrest := ih (by rw [← hf, ← hfunc]; rfl) hat hon hlater
      rw [List.length_cons, Nat.add_comm is.length, ← Nat.add_assoc]
      exact (Visits.of_step hstep).trans hrest

theorem visits_jmp {l : Label} (hf : p.funcs[σ.frame.func]? = some f) (hi : f.body[σ.frame.next]? = some (.jmp l)) :
    Visits (step p) σ (σ.goto (f.target l)) := by
  refine .of_step ?_
  unfold step
  rw [hf]
  dsimp only
  rw [hi]

theorem visits_jmpIf {c : Reg} {l : Label} (hf : p.funcs[σ.frame.func]? = some f)
    (hi : f.body[σ.frame.next]? = some (.jmpIf c l)) :
    Visits (step p) σ (σ.goto (if (σ.get p c).toInt ≠ 0 then f.target l else σ.frame.next + 1)) := by
  refine .of_step ?_
  unfold step
  rw [hf]
  dsimp only
  rw [hi]

section

variable {s s' : Store} {i k : Nat} {regs regs' : Reg → Val} {cursors cursors' : Reg → Option Cursor} {dst : Reg}
  {below : List Frame}
  {is : List Instr} (hf : p.funcs[i]? = some f)

include hf

theorem visits_stretch (hat : is <+: f.body.drop k) (hon : is.all Instr.goesOn)
    (h : execs p is ⟨s, ⟨i, k, regs, cursors, dst⟩, below⟩ = .ok ⟨s', ⟨i, k, regs', cursors', dst⟩, below⟩) :
    Visits (step p) ⟨s, ⟨i, k, regs, cursors, dst⟩, below⟩ ⟨s', ⟨i, k + is.length, regs', cursors', dst⟩, below⟩ :=
  visits_execs (σ := ⟨s, ⟨i, k, regs, cursors, dst⟩, below⟩) hf hat hon h

omit hf in
theorem getElem?_after {j : Instr} (hat : is ++ [j] <+: f.body.drop k) : f.body[k + is.length]? = some j := by
  obtain ⟨rest, hrest⟩ := hat
  rw [← List.getElem?_drop, ← hrest, List.append_assoc, List.getElem?_append_right (Nat.le_refl _), Nat.sub_self]
  rfl

theorem visits_leap {l : Label} (hat : is ++ [.jmp l] <+: f.body.drop k) (hon : is.all Instr.goesOn)
    (h : execs p is ⟨s, ⟨i, k, regs, cursors, dst⟩, below⟩ = .ok ⟨s', ⟨i, k, regs', cursors', dst⟩, below⟩) :
    Visits (step p) ⟨s, ⟨i, k, regs, cursors, dst⟩, below⟩ ⟨s', ⟨i, f.target l, regs', cursors', dst⟩, below⟩ :=
  (visits_stretch hf ((List.prefix_append _ _).trans hat) hon h).trans
    (visits_jmp (σ := ⟨s', ⟨i, k + is.length, regs', cursors', dst⟩, below⟩) hf (getElem?_after hat))

theorem visits_branch {c : Reg} {l : Label} (hat : is ++ [.jmpIf c l] <+: f.body.drop k) (hon : is.all Instr.goesOn)
    (h : execs p is ⟨s, ⟨i, k, regs, cursors, dst⟩, below⟩ = .ok ⟨s', ⟨i, k, regs', cursors', dst⟩, below⟩)
    (hc : c.ty ≠ .null) (hg : c ∉ p.globals) {b : Prop} [Decidable b] (hb : regs' c = .ofBool b) :
    Visits (step p) ⟨s, ⟨i, k, regs, cursors, dst⟩, below⟩
      ⟨s', ⟨i, if b then f.target l else k + is.length + 1, regs', cursors', dst⟩, below⟩ := by
  have hjump := visits_jmpIf (σ := ⟨s', ⟨i, k + is.length, regs', cursors', dst⟩, below⟩) hf (getElem?_after hat)
  have hget : get p ⟨s', ⟨i, k + is.length, regs', cursors', dst⟩, below⟩ c = .ofBool b := by
    rw [← hb]
    simp [get, Reg.isNull, hc, hg]
  rw [hget] at hjump
  refine (visits_stretch hf ((List.prefix_append _ _).trans hat) hon h).trans ?_
  by_cases hyes : b <;> simpa [hyes, Val.ofBool, goto] using hjump

theorem visits_label {l : Label} (hi : f.body[k]? = some (.label l)) :
    Visits (step p) ⟨s, ⟨i, k, regs, cursors, dst⟩, below⟩ ⟨s, ⟨i, k + 1, regs, cursors, dst⟩, below⟩ :=
  .of_step (step_exec (σ := ⟨s, ⟨i, k, regs, cursors, dst⟩, below⟩) hf hi rfl)

theorem visits_call {d : Reg} {fn : Int} {args : List Reg} {callee : Func} (hi : f.body[k]? = some (.call d fn args))
    (hfn : p.func? fn = some callee) {vs : List Val}
    (hargs : args.map (get p ⟨s, ⟨i, k, regs, cursors, dst⟩, below⟩) = vs) :
    Visits (step p) ⟨s, ⟨i, k, regs, cursors, dst⟩, below⟩
      ⟨(enter p callee fn.toNat vs d s).1, (enter p callee fn.toNat vs d s).2,
        ⟨i, k + 1, regs, cursors, dst⟩ :: below⟩ := by
  refine .of_step ?_
  unfold step
  dsimp only
  rw [hf]
  dsimp only
  rw [hi]
  dsimp only
  rw [hfn, ← hargs]

theorem visits_ret {r : Reg} (hi : f.body[k]? = some (.ret r)) (hr : r.ty ≠ .null) (hg : r ∉ p.globals)
    {frame : Frame} :
    Visits (step p) ⟨s, ⟨i, k, regs, cursors, dst⟩, frame :: below⟩ (set p ⟨s, frame, below⟩ dst (regs r)) := by
  refine .of_step ?_
  unfold step
  dsimp only
  rw [hf]
  dsimp only
  rw [hi]
  simp [result, get, Reg.isNull, hr, hg]

theorem ends_ret (hi : f.body[k]? = some (.ret .null)) (hret : f.ret = .null) :
    Ends (step p) ⟨s, ⟨i, k, regs, cursors, dst⟩, []⟩ (.returned, s) := by
  refine ⟨1, ?_⟩
  have hstep : step p ⟨s, ⟨i, k, regs, cursors, dst⟩, []⟩ = .ended (.returned, s) := by
    unfold step
    dsimp only
    rw [hf]
    dsimp only
    rw [hi]
    simp [result, Reg.isNull, hret, Store.zero, Reg.null]
  rw [runs, hstep]

end

/-! ## Locals -/

section

variable {s : Store} {i k : Nat} {regs : Reg → Val} {cursors : Reg → Option Cursor} {dst : Reg}
  {below : List Frame} {r : Reg}
  (hr : r.ty ≠ .null) (hg : r ∉ p.globals)

include hr hg

theorem set_local (v : Val) : set p ⟨s, ⟨i, k, regs, cursors, dst⟩, below⟩ r v
    = ⟨s, ⟨i, k, fun u => if u = r then v else regs u, cursors, dst⟩, below⟩ := by
  simp [set, Reg.isNull, hr, hg]

theorem get_local : get p ⟨s, ⟨i, k, regs, cursors, dst⟩, below⟩ r = regs r := by
  simp [get, Reg.isNull, hr, hg]

end

theorem get_global {r : Reg} (hr : r.ty ≠ .null) (hg : r ∈ p.globals) : σ.get p r = σ.store.globals r := by
  simp [get, Reg.isNull, hr, hg]

theorem set_null (v : Val) : σ.set p .null v = σ := rfl

end Plain.State

/-! ## Counts -/

namespace Plain

def Table.counts (m : Entries .str .int) : Table := ⟨.str, .int, m⟩

section

variable {m : Entries .str .int} {x : Val}

theorem Table.lookup_counts : (counts m).lookup x = .int ((m[x.toStr]?).getD 0) := rfl

theorem Table.insert_counts {y : Val} : (counts m).insert x y = counts (m.insert x.toStr y.toInt) := rfl

theorem Table.contains_counts : (counts m).contains x = m.contains x.toStr := rfl

theorem contains_insert_counts (t u : Bytes) (n : Int64) : (m.insert t n).contains u = (u == t || m.contains u) := by
  rw [Std.ExtTreeMap.contains_insert, Bool.eq_iff_iff]
  simp only [Bool.or_eq_true, beq_iff_eq, Std.LawfulEqCmp.compare_eq_iff_eq, eq_comm (a := t)]

theorem getElem?_insert_counts (t u : Bytes) (n : Int64) :
    ((m.insert t n)[u]?).getD 0 = if u = t then n else (m[u]?).getD 0 := by
  simp only [Std.ExtTreeMap.getElem?_insert, Std.LawfulEqCmp.compare_eq_iff_eq, eq_comm (a := t)]
  split <;> rfl

end

section

variable {s : Store} {t u : Table}

theorem Store.table_one (h : s.tables = #[t, u]) : s.table (.map 1) = u := by
  simp [table, h]

theorem Store.setTable_one (h : s.tables = #[t, u]) (v : Table) :
    s.setTable (.map 1) v = { s with tables := #[t, v] } := by
  simp [setTable, h]

end

end Plain

/-! ## Records -/

namespace Plain

/-- The store once `line` is the record. -/
def Store.filled (s : Store) (reader : Reader) (line : Bytes) :
    Store := { s with toRecords := s.toRecords.filled reader line }

def Store.finished (s : Store) : Store := { s with toRecords := { s.toRecords with reader := none } }

/-- Fields are words. The text `rest` is to be read, and `out` was printed so far. -/
structure Store.Streams (base out rest : Bytes) (s : Store) : Prop where
  records : s.toRecords.Streams base out rest
  blank : s.fs = [32]

namespace Store.Streams

variable {base out rest : Bytes} {s : Store}

theorem nextLine_end (h : s.Streams base out rest) (hrest : Reader.lines rest = []) :
    s.nextLine = (0, s.finished) ∧ s.finished.Streams base out [] := by
  obtain ⟨hnext, hstreams⟩ := h.records.nextLine_end hrest
  have hrecord : s.record (Records.nextLine s.fs) = ((0, []), s.finished) := by
    rw [← h.blank] at hnext
    unfold record
    rw [hnext]
    rfl
  refine ⟨?_, hstreams, h.blank⟩
  unfold nextLine
  rw [hrecord]
  rfl

theorem nextLine_line (h : s.Streams base out rest) {t : Bytes} {later : List Bytes}
    (hrest : Reader.lines rest = t :: later) :
    ∃ reader more, s.nextLine = (1, s.filled reader t) ∧ Reader.lines more = later
      ∧ (s.filled reader t).Streams base out more := by
  obtain ⟨reader, more, hnext, hmore, hstreams⟩ := h.records.nextLine_line hrest
  have hrecord : s.record (Records.nextLine s.fs) = ((1, []), s.filled reader t) := by
    rw [← h.blank] at hnext
    unfold record
    rw [hnext]
    rfl
  refine ⟨reader, more, ?_, hmore, hstreams, h.blank⟩
  unfold nextLine
  rw [hrecord]
  rfl

theorem print (h : s.Streams base out rest) (text : Bytes) :
    ∃ n records, s.print .stdout [] text = (n, { s with toRecords := records })
      ∧ ({ s with toRecords := records } : Store).Streams base (out ++ text) rest :=
  ⟨_, _, rfl, h.records.write text, h.blank⟩

end Store.Streams

/-- At `k` begins what asks for the next record, and leaves for the label `done` when there is none. -/
structure RecordLoop (p : Program) (f : Func) (k : Nat) (done : Label) (more zero eof : Reg) : Prop where
  stretch : [.nextLine more, .constInt zero 0, .compare eof .lte more zero, .jmpIf eof done] <+: f.body.drop k
  ints : more.ty = .int ∧ zero.ty = .int ∧ eof.ty = .int
  locals : more ∉ p.globals ∧ zero ∉ p.globals ∧ eof ∉ p.globals
  apart : more ≠ zero

namespace RecordLoop

variable {p : Program} {f : Func} {i k : Nat} {done : Label} {more zero eof : Reg}
  (h : RecordLoop p f k done more zero eof)
  (hf : p.funcs[i]? = some f) {s : Store} {base : Bytes}

include h hf

theorem asks {n : Int64} {s' : Store} (hnext : s.nextLine = (n, s')) (regs : Reg → Val)
    (cursors : Reg → Option Cursor) (dst : Reg) (below : List Frame) :
    ∃ regs', (∀ u, u ≠ more → u ≠ zero → u ≠ eof → regs' u = regs u)
    ∧ Visits (State.step p) ⟨s, ⟨i, k, regs, cursors, dst⟩, below⟩
      ⟨s', ⟨i, if n ≤ 0 then f.target done else k + 4, regs', cursors, dst⟩, below⟩ := by
  have hexecs : State.execs p [.nextLine more, .constInt zero 0, .compare eof .lte more zero]
    ⟨s, ⟨i, k, regs, cursors, dst⟩, below⟩
      = .ok ⟨s', ⟨i, k, fun u =>
        if u = eof then .ofBool (n ≤ 0) else if u = zero then .int 0 else if u = more then .int n else regs u,
        cursors, dst⟩, below⟩ := by
    simp [State.execs, State.exec, hnext, State.withStore, State.set_local, State.get_local, h.locals, h.ints, h.apart,
      compareVals,
      compareInts]
  refine ⟨_, ?_, State.visits_branch (b := n ≤ 0) hf h.stretch rfl hexecs (by rw [h.ints.2.2]; decide) h.locals.2.2
    (if_pos rfl)⟩
  intro u hmore hzero heof
  simp [hmore, hzero, heof]

/-- The loop goes through the lines of the text. Its body, which is behind the question, keeps an invariant that tells
what is printed for so many lines. -/
theorem runs {lines : List Bytes} (I : Nat → Store → (Reg → Val) → Prop) (printed : Nat → Bytes)
    (cursors : Reg → Option Cursor) (dst : Reg) (below : List Frame)
    (hbody : ∀ j t s regs regs' reader rest, lines[j]? = some t → I j s regs →
      (∀ u, u ≠ more → u ≠ zero → u ≠ eof → regs' u = regs u) →
      (s.filled reader t).Streams base (printed j) rest → ∃ s' regs'', I (j + 1) s' regs''
        ∧ s'.Streams base (printed (j + 1)) rest
        ∧ Visits (State.step p) ⟨s.filled reader t, ⟨i, k + 4, regs', cursors, dst⟩, below⟩
          ⟨s', ⟨i, k, regs'', cursors, dst⟩, below⟩)
    {rest : Bytes} (hlines : Reader.lines rest = lines) {s : Store} (hs : s.Streams base (printed 0) rest)
    (regs : Reg → Val) (hI : I 0 s regs) :
    ∃ s' regs' regs'', I lines.length s' regs' ∧ (∀ u, u ≠ more → u ≠ zero → u ≠ eof → regs'' u = regs' u)
      ∧ s'.finished.Streams base (printed lines.length) []
      ∧ Visits (State.step p) ⟨s, ⟨i, k, regs, cursors, dst⟩, below⟩ ⟨s'.finished,
        ⟨i, f.target done, regs'', cursors, dst⟩, below⟩ := by
  have hpass : ∀ j < lines.length, ∀ σ, (∃ s regs rest, σ = ⟨s, ⟨i, k, regs, cursors, dst⟩, below⟩ ∧ I j s regs
      ∧ s.Streams base (printed j) rest ∧ Reader.lines rest = lines.drop j) → ∃ τ, Visits (State.step p) σ τ
        ∧ ∃ s regs rest, τ = ⟨s, ⟨i, k, regs, cursors, dst⟩, below⟩ ∧ I (j + 1) s regs
        ∧ s.Streams base (printed (j + 1)) rest
          ∧ Reader.lines rest = lines.drop (j + 1) := by
    rintro j hj _ ⟨s, regs, rest, rfl, hI, hs, hrest⟩
    rw [List.drop_eq_getElem_cons hj] at hrest
    obtain ⟨reader, more', hnext, hmore, hs'⟩ := hs.nextLine_line hrest
    obtain ⟨regs', hsame, hasks⟩ := h.asks hf hnext regs cursors dst below
    rw [if_neg (by decide)] at hasks
    obtain ⟨s'', regs'', hI', hs'', hvisits⟩ :=
      hbody j _ s regs regs' reader more' (List.getElem?_eq_getElem hj) hI hsame hs'
    exact ⟨_, hasks.trans hvisits, s'', regs'', more', rfl, hI', hs'', hmore⟩
  obtain ⟨τ, hvisits, s', regs', rest', rfl, hI', hs', hrest'⟩ :=
    Visits.iterate hpass ⟨s, regs, rest, rfl, hI, hs, hlines⟩
  rw [List.drop_length] at hrest'
  obtain ⟨hnext, hs''⟩ := hs'.nextLine_end hrest'
  obtain ⟨regs'', hsame, hasks⟩ := h.asks hf hnext regs' cursors dst below
  rw [if_pos (by decide)] at hasks
  exact ⟨s', regs', regs'', hI', hsame, hs'', hvisits.trans hasks⟩

end RecordLoop

end Plain

end RecordMill

import RecordMill.Proofs.Samples.Outputs

/-!
# Each line once

The program keeps the lines that it has seen in a map, which the function that is asked about a line writes.
-/

namespace RecordMill.Samples.Uniq

open Plain

/-! ## The listing -/

abbrev seen : Reg := ⟨1, .map .str .int⟩
abbrev line : Reg := ⟨2, .str⟩
abbrev duplicate : Reg := ⟨3, .int⟩
abbrev fresh : Reg := ⟨4, .int⟩
abbrev record : Reg := ⟨10, .str⟩
abbrev isNew : Reg := ⟨11, .int⟩
abbrev old : Reg := ⟨13, .int⟩

def first : Func where
  name := "first"
  ret := .int
  params := [line]
  body := [.contains duplicate seen line, .constInt ⟨5, .int⟩ 1, .store seen line ⟨5, .int⟩, .constInt ⟨6, .int⟩ 0,
    .compare fresh .eq duplicate ⟨6, .int⟩, .ret fresh]

def main : Func where
  name := "main"
  ret := .null
  body := [.label 1, .nextLine ⟨7, .int⟩, .constInt ⟨9, .int⟩ 0, .compare ⟨8, .int⟩ .lte ⟨7, .int⟩ ⟨9, .int⟩,
    .jmpIf ⟨8, .int⟩ 2,
    .constInt ⟨12, .int⟩ 0, .getColumn record ⟨12, .int⟩, .call isNew 1 [record],
    .constInt ⟨14, .int⟩ 0, .compare old .eq isNew ⟨14, .int⟩, .jmpIf old 3, .print none [record] .null,
    .label 3, .jmp 1, .label 2, .ret .null]

theorem modest : uniq.Modest (fun i => 1 - i) 2 where
  checked := by decide +kernel
  types := by decide +kernel
  distinct := by decide +kernel
  known := by decide +kernel
  slots := by decide +kernel
  words := by decide
  globals := by decide
  params := by decide +kernel
  uncalled := by decide +kernel
  locals := by decide +kernel
  instrs := by decide +kernel

theorem affords : uniq.Affords (fun i => 1 - i) 2 0 := ⟨by decide, by decide⟩

theorem globals_eq : uniq.globals = [seen] := rfl

theorem main_at : uniq.funcs[0]? = some main := rfl

theorem first_at : uniq.funcs[1]? = some first := rfl

theorem loop : RecordLoop uniq main 1 2 ⟨7, .int⟩ ⟨9, .int⟩ ⟨8, .int⟩ where
  stretch := ⟨_, rfl⟩
  ints := ⟨rfl, rfl, rfl⟩
  locals := by decide
  apart := by decide

theorem get_seen (σ : Plain.State) : σ.get uniq seen = σ.store.globals seen := State.get_global (by decide) (by decide)

/-! ## One line -/

section

variable {s : Store} {a : Table} {m : Entries .str .int} (hseen : s.globals seen = .map 1)
  (htables : s.tables = #[a, .counts m])

include hseen htables

theorem first_runs (t : Bytes) (regs : Reg → Val) (d : Reg) (frame : Plain.Frame) (below : List Plain.Frame) :
    Visits (State.step uniq) ⟨s, ⟨1, 0, fun u => if u = line then .str t else regs u, fun _ => none, d⟩, frame :: below⟩
      (State.set uniq ⟨{ s with tables := #[a, .counts (m.insert t 1)] }, frame, below⟩ d (.ofBool !m.contains t)) := by
  obtain ⟨regs', hexecs, hfresh⟩ : ∃ regs', State.execs uniq (first.body.take 5)
      ⟨s, ⟨1, 0, fun u => if u = line then .str t else regs u, fun _ => none, d⟩, frame :: below⟩
        = .ok ⟨{ s with tables := #[a, .counts (m.insert t 1)] }, ⟨1, 0, regs', fun _ => none, d⟩, frame :: below⟩
      ∧ regs' fresh = .ofBool !m.contains t := by
    simp [first, State.execs, State.exec, State.set_local, State.get_local, get_seen, globals_eq, hseen,
      State.withStore,
      Store.table_one htables, Store.setTable_one htables, Table.contains_counts, Table.insert_counts, compareVals,
        compareInts]
    cases hc : m.contains t <;> simp [Val.ofBool]
  have hret : Visits (State.step uniq) ⟨{ s with tables := #[a, .counts (m.insert t 1)] },
    ⟨1, 5, regs', fun _ => none, d⟩, frame :: below⟩
      (State.set uniq ⟨{ s with tables := #[a, .counts (m.insert t 1)] }, frame, below⟩ d (regs' fresh)) :=
    State.visits_ret first_at rfl (by decide) (by decide)
  rw [hfresh] at hret
  exact (State.visits_stretch first_at ⟨_, rfl⟩ rfl hexecs).trans hret

theorem asks_first (regs : Reg → Val) (cursors : Reg → Option Plain.Cursor) (d : Reg) (below : List Plain.Frame) :
    ∃ regs', regs' record = .str s.line ∧ regs' isNew = .ofBool !m.contains s.line
      ∧ Visits (State.step uniq) ⟨s, ⟨0, 5, regs, cursors, d⟩, below⟩
        ⟨{ s with tables := #[a, .counts (m.insert s.line 1)] }, ⟨0, 8, regs', cursors, d⟩, below⟩ := by
  obtain ⟨regs', hexecs, hrecord⟩ : ∃ regs', State.execs uniq [.constInt ⟨12, .int⟩ 0, .getColumn record ⟨12, .int⟩]
      ⟨s, ⟨0, 5, regs, cursors, d⟩, below⟩ = .ok ⟨s, ⟨0, 5, regs', cursors, d⟩, below⟩
          ∧ regs' record = .str s.line := by
    simp [State.execs, State.exec, State.set_local, State.get_local, globals_eq, State.withStore, Store.record,
      Records.column_zero]
  have hcall : Visits (State.step uniq) ⟨s, ⟨0, 7, regs', cursors, d⟩, below⟩
      ⟨s, ⟨1, 0, fun u => if u = line then .str s.line else State.initial u, fun _ => none, isNew⟩,
          ⟨0, 8, regs', cursors, d⟩ :: below⟩ :=
    State.visits_call main_at rfl (show uniq.func? 1 = some first from rfl) (show _ = [Val.str s.line] by
      simp [State.get_local, globals_eq, hrecord])
  have hfirst := first_runs hseen htables s.line State.initial isNew ⟨0, 8, regs', cursors, d⟩ below
  rw [State.set_local (by decide) (by decide)] at hfirst
  refine ⟨_, ?_, ?_, (State.visits_stretch main_at ⟨_, rfl⟩ rfl hexecs).trans (hcall.trans hfirst)⟩
  · rw [if_neg (by decide), hrecord]
  · rw [if_pos rfl]

theorem pass {base out rest : Bytes} (hors : s.ors = text "\n") (hstreams : s.Streams base out rest) (regs : Reg → Val)
    (cursors : Reg → Option Plain.Cursor) (d : Reg) (below : List Plain.Frame) :
    ∃ s' regs', s'.ors = text "\n" ∧ s'.globals seen = .map 1
      ∧ s'.tables = #[a, .counts (m.insert s.line 1)]
      ∧ s'.Streams base (out ++ if m.contains s.line then [] else s.line ++ text "\n") rest
      ∧ Visits (State.step uniq) ⟨s, ⟨0, 5, regs, cursors, d⟩, below⟩ ⟨s', ⟨0, 1, regs', cursors, d⟩, below⟩ := by
  let s₁ : Store := { s with tables := #[a, .counts (m.insert s.line 1)] }
  have hstreams₁ : s₁.Streams base out rest := ⟨hstreams.records, hstreams.blank⟩
  obtain ⟨regs₁, hrecord, hnew, hasks⟩ := asks_first hseen htables regs cursors d below
  obtain ⟨regs₂, hexecs, hrecord₂, hold⟩ : ∃ regs',
    State.execs uniq [.constInt ⟨14, .int⟩ 0, .compare old .eq isNew ⟨14, .int⟩]
      ⟨s₁, ⟨0, 8, regs₁, cursors, d⟩, below⟩ = .ok ⟨s₁, ⟨0, 8, regs', cursors, d⟩, below⟩
      ∧ regs' record = .str s.line ∧ regs' old = .ofBool (m.contains s.line) := by
    simp [State.execs, State.exec, State.set_local, State.get_local, globals_eq, hnew, hrecord, compareVals,
      compareInts]
    cases hc : m.contains s.line <;> simp [Val.ofBool]
  have hbranch := State.visits_branch (b := m.contains s.line) main_at ⟨_, rfl⟩ rfl hexecs (by decide) (by decide)
    (by rw [hold, Bool.decide_coe])
  have hback := State.visits_jmp (p := uniq) (σ := ⟨s₁, ⟨0, 13, regs₂, cursors, d⟩, below⟩) main_at rfl
  by_cases hc : m.contains s.line
  · rw [if_pos hc] at hbranch ⊢
    rw [List.append_nil]
    exact ⟨s₁, regs₂, hors, hseen, rfl, hstreams₁, hasks.trans (hbranch.trans hback)⟩
  · rw [if_neg hc] at hbranch ⊢
    obtain ⟨n, records, hprint, hprinted⟩ := hstreams₁.print (s.line ++ text "\n")
    have hexecs : State.execs uniq [.print none [record] .null, .label 3] ⟨s₁, ⟨0, 11, regs₂, cursors, d⟩, below⟩
        = .ok ⟨{ s₁ with toRecords := records }, ⟨0, 11, regs₂, cursors, d⟩, below⟩ := by
      simp [State.execs, State.exec, State.output, State.get_local, globals_eq, hrecord₂, Bytes.join,
        show s₁.ors = text "\n" from hors, hprint, State.withStore, State.set_null]
    exact ⟨{ s₁ with toRecords := records }, regs₂, hors, hseen, rfl, hprinted,
      hasks.trans (hbranch.trans (State.visits_leap (l := 1) main_at ⟨_, rfl⟩ rfl hexecs))⟩

end

/-! ## All lines -/

/-- The lines without those that came before, each with a newline. -/
def printed (lines : List Bytes) : Bytes := lines.eraseDups.flatMap (· ++ text "\n")

theorem printed_append (lines : List Bytes) (t : Bytes) :
    printed (lines ++ [t]) = printed lines ++ if lines.contains t then [] else t ++ text "\n" := by
  unfold printed
  rw [List.eraseDups_append, List.flatMap_append]
  congr 1
  by_cases h : t ∈ lines
  · simp [List.removeAll, h]
  · simp [List.removeAll, h, List.eraseDups_cons]

def Sees (lines : List Bytes) (s : Store) : Prop :=
  s.ors = text "\n" ∧ s.globals seen = .map 1 ∧ ∃ a m, s.tables = #[a, .counts m] ∧ ∀ t, m.contains t = lines.contains t

def begun (o : Settings) (world : World) : Store :=
  { Store.ofSettings o world with
    tables := #[⟨.int, .str, o.arguments⟩, .counts ∅]
    globals := fun u => if u = seen then .map 1 else State.initial u }

theorem begun_seen (o : Settings) (world : World) : (begun o world).globals seen = .map 1 := by simp [begun]

theorem start_eq (o : Settings) (world : World) : Plain.State.start uniq main o world
    = ⟨begun o world, ⟨0, 0, State.initial, fun _ => none, .null⟩, []⟩ := rfl

theorem ends {o : Settings} {world : World} {input : Bytes} (hfs : (Store.ofSettings o world).fs = text " ")
    (hors : (Store.ofSettings o world).ors = text "\n")
    (hstreams : (Store.ofSettings o world).toRecords.Streams world.sink.content [] input) :
    ∃ s : Store, s.toRecords.Streams world.sink.content (printed (Reader.lines input)) []
      ∧ Ends (State.step uniq) (.start uniq main o world) (.returned, s) := by
  rw [start_eq]
  have hsees : Sees ((Reader.lines input).take 0) (begun o world) :=
    ⟨hors, begun_seen o world, _, ∅, rfl, fun t => by simp⟩
  have hlabel : Visits (State.step uniq) ⟨begun o world, ⟨0, 0, State.initial, fun _ => none, .null⟩, []⟩
      ⟨begun o world, ⟨0, 1, State.initial, fun _ => none, .null⟩, []⟩ := State.visits_label main_at rfl
  obtain ⟨s, -, regs, -, -, hs, hruns⟩ := loop.runs main_at (fun j s _ => Sees ((Reader.lines input).take j) s)
    (fun j => printed ((Reader.lines input).take j)) (fun _ => none) .null []
    (fun j t s regs regs' reader rest hj ⟨hors, hseen, a, m, htables, hm⟩ _ hs => by
      obtain ⟨s', regs'', hors', hseen', htables', hs', hvisits⟩ :=
        pass (s := s.filled reader t) hseen htables hors hs regs' (fun _ => none) .null []
      have htake : (Reader.lines input).take (j + 1) = (Reader.lines input).take j
        ++ [t] := by rw [List.take_add_one, hj]; rfl
      refine ⟨s', regs'', ⟨hors', hseen', a, _, htables', fun u => ?_⟩, ?_, hvisits⟩
      · rw [contains_insert_counts, hm, htake, List.contains_append, Bool.or_comm]
        exact congrArg _ (Bool.or_false _).symm
      · rw [htake, printed_append, ← hm t]
        exact hs') (show Reader.lines input = _ from rfl) (s := begun o world) ⟨hstreams, hfs⟩ State.initial hsees
  rw [List.take_length] at hs
  exact ⟨s.finished, hs.records, hlabel.ends (hruns.ends (State.ends_ret main_at rfl rfl))⟩

/-- The program prints each line once, in the order in which they are first met. -/
theorem prints_each_line_once {env : Environment} (henv : env.Silent) {world : World} (hlimit : world.sink.limit = none)
    (input : Bytes) :
    uniq.Outputs {} env world input ((Reader.lines input).eraseDups.flatMap (· ++ text "\n")) := by
  obtain ⟨x, hx⟩ := modest.exists_bounded
  exact hx.outputs rfl (by decide +kernel) affords ⟨rfl, rfl⟩ henv hlimit fun o hfs _ hors hstreams =>
    ends hfs hors hstreams

theorem prints_each_line_once_of_four : Environment.Silent [] ∧ ({} : World).sink.limit = none
    ∧ uniq.Outputs {} [] {} (text "b\na b\nb\r\na") (text "b\na b\na\n") :=
  ⟨⟨rfl, rfl⟩, rfl, prints_each_line_once ⟨rfl, rfl⟩ rfl (text "b\na b\nb\r\na")⟩

end RecordMill.Samples.Uniq

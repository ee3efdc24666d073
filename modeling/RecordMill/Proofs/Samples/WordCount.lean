import Mathlib
import RecordMill.Proofs.Format.Directives
import RecordMill.Proofs.Record.Splitting
import RecordMill.Proofs.Samples.Outputs

/-!
# How often each field occurs

The program counts the fields of all lines in a map, and then goes through the keys of the map.
-/

namespace RecordMill.Samples.WordCount

open Plain

/-! ## The listing -/

abbrev counts : Reg := ⟨1, .map .str .int⟩
abbrev nf : Reg := ⟨5, .int⟩
abbrev index : Reg := ⟨7, .int⟩
abbrev beyond : Reg := ⟨8, .int⟩
abbrev word : Reg := ⟨9, .str⟩
abbrev count : Reg := ⟨10, .int⟩
abbrev format : Reg := ⟨13, .str⟩
abbrev keys : Reg := ⟨14, .iter .str⟩
abbrev more : Reg := ⟨15, .int⟩
abbrev done : Reg := ⟨16, .int⟩
abbrev key : Reg := ⟨18, .str⟩
abbrev total : Reg := ⟨19, .int⟩

def main : Func where
  name := "main"
  ret := .null
  body := [.label 1, .nextLine ⟨2, .int⟩, .constInt ⟨4, .int⟩ 0, .compare ⟨3, .int⟩ .lte ⟨2, .int⟩ ⟨4, .int⟩,
    .jmpIf ⟨3, .int⟩ 2,
    .loadVar nf .nf, .constInt ⟨6, .int⟩ 1, .mov index ⟨6, .int⟩,
    .label 3, .compare beyond .gt index nf, .jmpIf beyond 4,
    .getColumn word index, .lookup count counts word, .constInt ⟨11, .int⟩ 1, .arith count .add [count, ⟨11, .int⟩],
    .store counts word count, .constInt ⟨12, .int⟩ 1, .arith index .add [index, ⟨12, .int⟩], .jmp 3,
    .label 4, .jmp 1,
    .label 2, .constStr format (text "%s %d\n"), .iterBegin keys counts,
    .label 5, .iterHasNext more keys, .constInt ⟨17, .int⟩ 0, .compare done .eq more ⟨17, .int⟩, .jmpIf done 6,
    .iterGetNext key keys, .lookup total counts key, .printf none format [key, total] .null, .jmp 5,
    .label 6, .ret .null]

theorem modest : wordCount.Modest (fun _ => 0) 6 where
  checked := by decide +kernel
  types := by decide +kernel
  distinct := by decide +kernel
  known := by decide +kernel
  slots := by decide +kernel
  words := by decide
  globals := by decide
  params := by decide +kernel
  uncalled := by decide +kernel
  locals := by decide +kernel
  instrs := by decide +kernel

theorem affords : wordCount.Affords (fun _ => 0) 6 0 := ⟨by decide, by decide⟩

theorem globals_eq : wordCount.globals = [] := rfl

theorem main_at : wordCount.funcs[0]? = some main := rfl

theorem loop : RecordLoop wordCount main 1 2 ⟨2, .int⟩ ⟨4, .int⟩ ⟨3, .int⟩ where
  stretch := ⟨_, rfl⟩
  ints := ⟨rfl, rfl, rfl⟩
  locals := by decide
  apart := by decide

/-! ## Counts -/

/-- The map holds how often each of some words occurs. -/
def Counts (m : Entries .str .int) (ws : List Bytes) : Prop :=
  ∀ w : Bytes, (m[w]?).getD 0 = Int64.ofNat (ws.count w) ∧ m.contains w = ws.contains w

def sorted (ws : List Bytes) : List Bytes := ws.dedup.mergeSort fun v w => (compare v w).isLE

theorem isLE_total (v w : Bytes) : (compare v w).isLE || (compare w v).isLE := by
  rw [show compare w v = (compare v w).swap from Std.OrientedCmp.eq_swap]
  cases compare v w <;> rfl

theorem Counts.empty : Counts ∅ [] := fun w => ⟨by simp, by simp⟩

theorem Counts.add {m : Entries .str .int} {ws : List Bytes} (h : Counts m ws) (w : Bytes) :
    Counts (m.insert w ((m[w]?).getD 0 + 1)) (ws ++ [w]) := by
  refine fun u => ⟨?_, ?_⟩
  · rw [getElem?_insert_counts, List.count_append, Int64.ofNat_add, ← (h u).1]
    by_cases hu : u = w
    · subst hu
      rw [if_pos rfl, List.count_singleton_self]
      rfl
    · rw [if_neg hu, List.count_singleton, if_neg (by simpa using Ne.symm hu)]
      exact (Int64.add_zero _).symm
  · rw [contains_insert_counts, (h u).2, List.contains_append, Bool.or_comm]
    exact congrArg _ (Bool.or_false _).symm

theorem mem_sorted {ws : List Bytes} {w : Bytes} : w ∈ sorted ws ↔ w ∈ ws := by
  rw [sorted, List.mem_mergeSort, List.mem_dedup]

theorem Counts.keys_eq {m : Entries .str .int} {ws : List Bytes} (h : Counts m ws) : m.keys = sorted ws := by
  have hperm : m.keys.Perm (sorted ws) := by
    refine (List.perm_ext_iff_of_nodup ?_ ?_).2 fun w => ?_
    · refine (Std.ExtTreeMap.distinct_keys (t := m)).imp fun hne he => ?_
      exact hne (Std.LawfulEqCmp.compare_eq_iff_eq.2 he)
    · exact ((List.mergeSort_perm ..).nodup_iff).2 (List.nodup_dedup ws)
    · rw [Std.ExtTreeMap.mem_keys, mem_sorted, ← Std.ExtTreeMap.contains_iff_mem, (h w).2, List.contains_iff_mem]
  have hkeys : m.keys.Pairwise fun v w => (compare v w).isLE :=
    (Std.ExtTreeMap.ordered_keys (t := m)).imp fun hlt => by rw [hlt]; rfl
  have hsorted : (sorted ws).Pairwise fun v w => (compare v w).isLE :=
    List.pairwise_mergeSort (fun _ _ _ => Std.TransCmp.isLE_trans) isLE_total _
  refine hperm.eq_of_pairwise (fun v w _ _ hvw hwv => ?_) hkeys hsorted
  have heq : compare v w = .eq := Std.OrientedCmp.isLE_antisymm hvw hwv
  exact Std.LawfulEqCmp.compare_eq_iff_eq.1 heq

/-! ## One line -/

/-- The first `n` fields of the record are counted, beside the words before. -/
structure Counted (ws fields : List Bytes) (n : Nat) (s : Store) (regs : Reg → Val) : Prop where
  tables : ∃ a m, s.tables = #[a, .counts m] ∧ Counts m (ws ++ fields.take n)
  record : s.fields = .ofList fields
  counts : regs counts = .map 1
  nf : regs nf = .int (Int64.ofNat fields.length)
  index : regs index = .int (Int64.ofNat (n + 1))

section

variable {ws fields : List Bytes} {s : Store} {regs : Reg → Val} {n : Nat} {base rest : Bytes}
  (hlen : fields.length + 1 < 2 ^ 63)
  (cursors : Reg → Option Plain.Cursor) (d : Reg) (below : List Plain.Frame)

theorem asks {i c : Int64} (hindex : regs index = .int i) (hnf : regs nf = .int c) (s : Store) :
    ∃ regs', (∀ u, u ≠ beyond → regs' u = regs u) ∧ Visits (State.step wordCount) ⟨s, ⟨0, 9, regs, cursors, d⟩, below⟩
      ⟨s, ⟨0, if c < i then 20 else 11, regs', cursors, d⟩, below⟩ := by
  have hexecs : State.execs wordCount [.compare beyond .gt index nf] ⟨s, ⟨0, 9, regs, cursors, d⟩, below⟩
      = .ok ⟨s, ⟨0, 9, fun u => if u = beyond then .ofBool (c < i) else regs u, cursors, d⟩, below⟩ := by
    simp [State.execs, State.exec, State.set_local, State.get_local, globals_eq, hindex, hnf, compareVals, compareInts]
  refine ⟨_, ?_, State.visits_branch (b := c < i) (l := 4) main_at ⟨_, rfl⟩ rfl hexecs (by decide) (by decide)
    (if_pos rfl)⟩
  exact fun u hu => if_neg hu

include hlen

theorem counts_next (hn : n < fields.length) (h : Counted ws fields n s regs) (hstreams : s.Streams base [] rest) :
    ∃ s' regs', Counted ws fields (n + 1) s' regs' ∧ s'.Streams base [] rest
      ∧ Visits (State.step wordCount) ⟨s, ⟨0, 9, regs, cursors, d⟩, below⟩ ⟨s', ⟨0, 9, regs', cursors, d⟩, below⟩ := by
  obtain ⟨a, m, htables, hm⟩ := h.tables
  have hint : (Int64.ofNat (n + 1)).toInt = (n + 1 : Nat) := Int64.toInt_ofNat_of_lt (by omega)
  have hcount : (Int64.ofNat fields.length).toInt = fields.length := Int64.toInt_ofNat_of_lt (by omega)
  obtain ⟨regs₁, hsame, hasks⟩ := asks cursors d below h.index h.nf s
  rw [if_neg (by rw [Int64.lt_iff_toInt_lt, hint, hcount]; omega)] at hasks
  have hindex₁ := (hsame index (by decide)).trans h.index
  have hnf₁ := (hsame nf (by decide)).trans h.nf
  have hcounts₁ := (hsame counts (by decide)).trans h.counts
  have hcolumn : s.record (Records.column (Int64.ofNat (n + 1))) = (fields[n], s) := by
    have hpos : 0 < Int64.ofNat (n + 1) := by rw [Int64.lt_iff_toInt_lt, hint]; exact Int.ofNat_lt.2 (Nat.succ_pos n)
    rw [Store.record, Records.column_field h.record hpos, hint, Int.toNat_natCast, Nat.add_sub_cancel,
      List.getElem?_eq_getElem hn]
    rfl
  have hafter : Int64.ofNat (n + 1) + 1 = Int64.ofNat (n + 1 + 1) := (Int64.ofNat_add (n + 1) 1).symm
  generalize Int64.ofNat (n + 1) = i at hindex₁ hcolumn hafter
  obtain ⟨regs₂, hexecs, hindex₂, hnf₂, hcounts₂⟩ : ∃ regs',
    State.execs wordCount [.getColumn word index, .lookup count counts word,
      .constInt ⟨11, .int⟩ 1, .arith count .add [count, ⟨11, .int⟩], .store counts word count, .constInt ⟨12, .int⟩ 1,
      .arith index .add [index, ⟨12, .int⟩]] ⟨s, ⟨0, 11, regs₁, cursors, d⟩, below⟩
        = .ok ⟨{ s with tables := #[a, .counts (m.insert fields[n] ((m[fields[n]]?).getD 0 + 1))] },
          ⟨0, 11, regs', cursors, d⟩, below⟩
      ∧ regs' index = .int (i + 1) ∧ regs' nf = .int (Int64.ofNat fields.length) ∧ regs' counts = .map 1 := by
    simp [State.execs, State.exec, State.set_local, State.get_local, globals_eq, State.withStore, hindex₁, hnf₁,
      hcounts₁, hcolumn,
      Store.table_one htables, Store.setTable_one htables, Table.lookup_counts, Table.insert_counts, arithInts]
  refine ⟨{ s with tables := #[a, .counts (m.insert fields[n] ((m[fields[n]]?).getD 0 + 1))] }, regs₂,
    ⟨⟨a, _, rfl, ?_⟩, h.record, hcounts₂, hnf₂, by rw [hindex₂, hafter]⟩, ⟨hstreams.records, hstreams.blank⟩,
    hasks.trans (State.visits_leap (l := 3) main_at ⟨_, rfl⟩ rfl hexecs)⟩
  rw [List.take_add_one, List.getElem?_eq_getElem hn, Option.toList_some, ← List.append_assoc]
  exact hm.add _

theorem pass {a : Table} {m : Entries .str .int} (htables : s.tables = #[a, .counts m]) (hm : Counts m ws)
    (hrecord : s.fields = .ofList fields) (hnf : s.nf = Int64.ofNat fields.length) (hcounts : regs counts = .map 1)
    (hstreams : s.Streams base [] rest) :
    ∃ s' regs', regs' counts = .map 1 ∧ (∃ a m, s'.tables = #[a, .counts m] ∧ Counts m (ws ++ fields))
      ∧ s'.Streams base [] rest
      ∧ Visits (State.step wordCount) ⟨s, ⟨0, 5, regs, cursors, d⟩, below⟩ ⟨s', ⟨0, 1, regs', cursors, d⟩, below⟩ := by
  obtain ⟨regs₁, hexecs, hindex₁, hnf₁, hcounts₁⟩ : ∃ regs',
    State.execs wordCount [.loadVar nf .nf, .constInt ⟨6, .int⟩ 1,
      .mov index ⟨6, .int⟩, .label 3] ⟨s, ⟨0, 5, regs, cursors, d⟩, below⟩ = .ok ⟨s, ⟨0, 5, regs', cursors, d⟩, below⟩
      ∧ regs' index = .int 1 ∧ regs' nf = .int (Int64.ofNat fields.length) ∧ regs' counts = .map 1 := by
    simp [State.execs, State.exec, State.set_local, State.get_local, globals_eq, Store.load, hnf, hcounts]
  have hbegun : Counted ws fields 0 s regs₁ :=
    ⟨⟨a, m, htables, by rwa [List.take_zero, List.append_nil]⟩, hrecord, hcounts₁, hnf₁, hindex₁⟩
  have hpass : ∀ n < fields.length, ∀ σ,
    (∃ s regs, σ = ⟨s, ⟨0, 9, regs, cursors, d⟩, below⟩ ∧ Counted ws fields n s regs
      ∧ s.Streams base [] rest) → ∃ τ, Visits (State.step wordCount) σ τ ∧ ∃ s regs,
        τ = ⟨s, ⟨0, 9, regs, cursors, d⟩, below⟩
        ∧ Counted ws fields (n + 1) s regs ∧ s.Streams base [] rest := by
    rintro n hn _ ⟨s, regs, rfl, h, hs⟩
    obtain ⟨s', regs', h', hs', hvisits⟩ := counts_next hlen cursors d below hn h hs
    exact ⟨_, hvisits, s', regs', rfl, h', hs'⟩
  obtain ⟨_, hvisits, s', regs₂, rfl, h, hs⟩ := Visits.iterate hpass ⟨s, regs₁, rfl, hbegun, hstreams⟩
  have hint : (Int64.ofNat (fields.length + 1)).toInt = (fields.length + 1 : Nat) := Int64.toInt_ofNat_of_lt hlen
  have hcount : (Int64.ofNat fields.length).toInt = fields.length := Int64.toInt_ofNat_of_lt (by omega)
  obtain ⟨regs₃, hsame, hasks⟩ := asks cursors d below h.index h.nf s'
  rw [if_pos (by rw [Int64.lt_iff_toInt_lt, hint, hcount]; omega)] at hasks
  obtain ⟨a', m', htables', hm'⟩ := h.tables
  rw [List.take_length] at hm'
  refine ⟨s', regs₃, (hsame _ (by decide)).trans h.counts, ⟨a', m', htables', hm'⟩, hs, ?_⟩
  have hback := State.visits_jmp (p := wordCount) (σ := ⟨s', ⟨0, 20, regs₃, cursors, d⟩, below⟩) main_at rfl
  exact (State.visits_stretch main_at ⟨_, rfl⟩ rfl hexecs).trans (hvisits.trans (hasks.trans hback))

end

/-! ## The keys -/

def printedWord (ws : List Bytes) (w : Bytes) : Bytes := w ++ (text " " ++ (Bytes.decimal (ws.count w) ++ text "\n"))

/-- The first `n` keys are printed. -/
structure Printing (ws : List Bytes) (m : Entries .str .int) (base rest : Bytes) (n : Nat) (s : Store)
    (regs : Reg → Val) (cursors : Reg → Option Plain.Cursor) : Prop where
  tables : ∃ a, s.tables = #[a, .counts m]
  counts : regs counts = .map 1
  format : regs format = .str (text "%s %d\n")
  cursor : cursors keys = some ⟨.str, m.keys, Int64.ofNat n⟩
  streams : s.Streams base (((sorted ws).take n).flatMap (printedWord ws)) rest

section

variable {ws : List Bytes} {m : Entries .str .int} (hm : Counts m ws) (hlen : ws.length < 2 ^ 63) {base rest : Bytes}
  {d : Reg} {below : List Plain.Frame}

theorem asks_more {regs : Reg → Val} {cursors : Reg → Option Plain.Cursor} {c : Plain.Cursor}
    (hcursor : cursors keys = some c) (s : Store) (d : Reg) (below : List Plain.Frame) :
    ∃ regs', (∀ u, u ≠ more → u ≠ ⟨17, .int⟩ → u ≠ done → regs' u = regs u)
      ∧ Visits (State.step wordCount) ⟨s, ⟨0, 25, regs, cursors, d⟩, below⟩
        ⟨s, ⟨0, if c.hasNext = false then 34 else 29, regs', cursors, d⟩, below⟩ := by
  have hexecs : State.execs wordCount [.iterHasNext more keys, .constInt ⟨17, .int⟩ 0,
    .compare done .eq more ⟨17, .int⟩]
      ⟨s, ⟨0, 25, regs, cursors, d⟩, below⟩ = .ok ⟨s, ⟨0, 25, fun u => if u = done then .ofBool (c.hasNext = false)
        else if u = ⟨17, .int⟩ then .int 0 else if u = more then .ofBool c.hasNext else regs u, cursors, d⟩,
            below⟩ := by
    cases hc : c.hasNext <;>
      simp [State.execs, State.exec, State.set_local, State.get_local, globals_eq, hcursor, hc, compareVals,
        compareInts, Val.ofBool]
  refine ⟨_, ?_, State.visits_branch (b := c.hasNext = false) (l := 6) main_at ⟨_, rfl⟩ rfl hexecs (by decide)
    (by decide) (if_pos rfl)⟩
  intro u hmore hzero hdone
  simp [hmore, hzero, hdone]

include hm hlen

theorem length_keys : m.keys.length < 2 ^ 63 := by
  rw [hm.keys_eq, sorted, List.length_mergeSort]
  exact Nat.lt_of_le_of_lt (List.dedup_sublist ws).length_le hlen

theorem hasNext_keys {n : Nat} (hn : n ≤ m.keys.length) :
    (⟨.str, m.keys, Int64.ofNat n⟩ : Plain.Cursor).hasNext = decide (n < m.keys.length) := by
  have hkeys := length_keys hm hlen
  have hint : (Int64.ofNat n).toInt = n := Int64.toInt_ofNat_of_lt (by omega)
  have hint' : (Int64.ofNat m.keys.length).toInt = m.keys.length := Int64.toInt_ofNat_of_lt hkeys
  rw [Cursor.hasNext, decide_eq_decide, Int64.lt_iff_toInt_lt, hint, hint', Int.ofNat_lt]

theorem integer_count (w : Bytes) : Bytes.integer ((m[w]?).getD 0).toInt = Bytes.decimal (ws.count w) := by
  have hcount : ws.count w ≤ ws.length := List.count_le_length
  rw [(hm w).1, Int64.toInt_ofNat_of_lt (by omega), Bytes.integer, if_neg (Int.not_lt.2 (Int.natCast_nonneg _)),
    Int.natAbs_natCast]

theorem prints_next {n : Nat} (hn : n < (sorted ws).length) {s : Store} {regs : Reg → Val}
    {cursors : Reg → Option Plain.Cursor} (h : Printing ws m base rest n s regs cursors) :
    ∃ s' regs' cursors', Printing ws m base rest (n + 1) s' regs' cursors'
      ∧ Visits (State.step wordCount) ⟨s, ⟨0, 25, regs, cursors, d⟩, below⟩
        ⟨s', ⟨0, 25, regs', cursors', d⟩, below⟩ := by
  obtain ⟨a, htables⟩ := h.tables
  have hlt : n < m.keys.length := by rwa [hm.keys_eq]
  have hkeys := length_keys hm hlen
  obtain ⟨regs₁, hsame, hasks⟩ := asks_more h.cursor s d below
  rw [hasNext_keys hm hlen (Nat.le_of_lt hlt), if_neg (by simpa using hlt)] at hasks
  have hcounts₁ := (hsame counts (by decide) (by decide) (by decide)).trans h.counts
  have hformat₁ := (hsame format (by decide) (by decide) (by decide)).trans h.format
  have hcurrent : (⟨.str, m.keys, Int64.ofNat n⟩ : Plain.Cursor).current = .str (sorted ws)[n] := by
    have hint : (Int64.ofNat n).toInt = n := Int64.toInt_ofNat_of_lt (by omega)
    have hnot : ¬Int64.ofNat n < 0 := by
      rw [Int64.lt_iff_toInt_lt, hint]
      exact Int.not_lt.2 (Int.natCast_nonneg _)
    rw [Cursor.current, if_neg hnot, Int64.toNatClampNeg_ofNat_of_lt (by omega), hm.keys_eq,
      List.getElem?_eq_getElem hn]
    rfl
  have hadvance : (⟨.str, m.keys, Int64.ofNat n⟩ : Plain.Cursor).advance = ⟨.str, m.keys, Int64.ofNat (n + 1)⟩ := by
    rw [Cursor.advance, Int64.ofNat_add]
    rfl
  obtain ⟨k, records, hprint, hprinted⟩ := h.streams.print (printedWord ws (sorted ws)[n])
  have hline : Format.sprintf (text "%s %d\n") [.str (sorted ws)[n], .int ((m[(sorted ws)[n]]?).getD 0)]
      = printedWord ws (sorted ws)[n] := by
    rw [Format.sprintf_pair, integer_count hm hlen, printedWord]
  generalize hw : (sorted ws)[n] = w at hcurrent hprint hline
  obtain ⟨regs₂, hexecs, hcounts₂, hformat₂⟩ : ∃ regs',
    State.execs wordCount [.iterGetNext key keys, .lookup total counts key,
      .printf none format [key, total] .null] ⟨s, ⟨0, 29, regs₁, cursors, d⟩, below⟩
        = .ok ⟨{ s with toRecords := records }, ⟨0, 29, regs',
          fun u => if u = keys then some ⟨.str, m.keys, Int64.ofNat (n + 1)⟩ else cursors u, d⟩, below⟩
      ∧ regs' counts = .map 1 ∧ regs' format = .str (text "%s %d\n") := by
    simp [State.execs, State.exec, State.set_local, State.get_local, globals_eq, State.withStore, State.setCursor,
      State.output, State.set_null,
      h.cursor, hcurrent, hadvance, hcounts₁, hformat₁, Store.table_one htables, Table.lookup_counts, formatArg,
        hline, hprint]
  refine ⟨{ s with toRecords := records }, regs₂, _, ⟨⟨a, htables⟩, hcounts₂, hformat₂, if_pos rfl, ?_⟩,
    hasks.trans (State.visits_leap (l := 5) main_at ⟨_, rfl⟩ rfl hexecs)⟩
  rw [List.take_add_one, List.getElem?_eq_getElem hn, Option.toList_some, List.flatMap_append, List.flatMap_singleton]
  exact hprinted

theorem prints_keys {a : Table} {s : Store} (htables : s.tables = #[a, .counts m]) (hstreams : s.Streams base [] rest)
    {regs : Reg → Val} (hcounts : regs counts = .map 1) (cursors : Reg → Option Plain.Cursor) (d : Reg)
    (below : List Plain.Frame) :
    ∃ s' regs' cursors', s'.Streams base ((sorted ws).flatMap (printedWord ws)) rest
      ∧ Visits (State.step wordCount) ⟨s, ⟨0, 22, regs, cursors, d⟩, below⟩
        ⟨s', ⟨0, 34, regs', cursors', d⟩, below⟩ := by
  obtain ⟨regs₁, hexecs, hbegun⟩ : ∃ regs',
    State.execs wordCount [.constStr format (text "%s %d\n"), .iterBegin keys counts, .label 5]
      ⟨s, ⟨0, 22, regs, cursors, d⟩, below⟩
        = .ok ⟨s, ⟨0, 22, regs', fun u => if u = keys then some (.ofTable (.counts m)) else cursors u, d⟩, below⟩
      ∧ regs' format = .str (text "%s %d\n") ∧ regs' counts = .map 1 := by
    simp [State.execs, State.exec, State.set_local, State.get_local, globals_eq, State.setCursor, hcounts,
      Store.table_one htables]
  have hpass : ∀ n < (sorted ws).length, ∀ σ, (∃ s regs cursors, σ = ⟨s, ⟨0, 25, regs, cursors, d⟩, below⟩
      ∧ Printing ws m base rest n s regs cursors) → ∃ τ, Visits (State.step wordCount) σ τ
        ∧ ∃ s regs cursors, τ = ⟨s, ⟨0, 25, regs, cursors, d⟩, below⟩
        ∧ Printing ws m base rest (n + 1) s regs cursors := by
    rintro n hn _ ⟨s, regs, cursors, rfl, h⟩
    obtain ⟨s', regs', cursors', h', hvisits⟩ := prints_next hm hlen hn h
    exact ⟨_, hvisits, s', regs', cursors', rfl, h'⟩
  have hfirst : Printing ws m base rest 0 s regs₁ fun u =>
      if u = keys then some (.ofTable (.counts m)) else cursors u :=
    ⟨⟨a, htables⟩, hbegun.2, hbegun.1, if_pos rfl, by rw [List.take_zero]; exact hstreams⟩
  obtain ⟨_, hvisits, s', regs₂, cursors', rfl, h⟩ := Visits.iterate hpass ⟨s, regs₁, _, rfl, hfirst⟩
  obtain ⟨regs₃, -, hasks⟩ := asks_more h.cursor s' d below
  rw [hasNext_keys hm hlen (by rw [hm.keys_eq]), if_pos (by rw [hm.keys_eq]; simp)] at hasks
  have hstreams' := h.streams
  rw [List.take_length] at hstreams'
  exact ⟨s', regs₃, cursors', hstreams', (State.visits_stretch main_at ⟨_, rfl⟩ rfl hexecs).trans (hvisits.trans hasks)⟩

end

/-! ## All lines -/

def begun (o : Settings) (world : World) : Store :=
  { Store.ofSettings o world with tables := #[⟨.int, .str, o.arguments⟩, .counts ∅] }

theorem start_eq (o : Settings) (world : World) : Plain.State.start wordCount main o world
    = ⟨begun o world, ⟨0, 0, fun u => if u = counts then .map 1 else State.initial u, fun _ => none, .null⟩, []⟩ := rfl

theorem ends {o : Settings} {world : World} {input : Bytes} (hfs : (Store.ofSettings o world).fs = text " ")
    (hstreams : (Store.ofSettings o world).toRecords.Streams world.sink.content [] input)
    (hsize : input.length < 2 ^ 63) :
    ∃ s :
      Store, s.toRecords.Streams world.sink.content
        ((sorted (Reader.words input)).flatMap (printedWord (Reader.words input))) []
      ∧ Ends (State.step wordCount) (.start wordCount main o world) (.returned, s) := by
  rw [start_eq]
  have hlabel : Visits (State.step wordCount)
      ⟨begun o world, ⟨0, 0, fun u => if u = counts then .map 1 else State.initial u, fun _ => none, .null⟩, []⟩
      ⟨begun o world, ⟨0, 1, fun u => if u = counts then .map 1 else State.initial u, fun _ => none, .null⟩, []⟩ :=
    State.visits_label main_at rfl
  obtain ⟨s, regs, regs', ⟨hcounts, a, m, htables, hm⟩, hsame, hs, hruns⟩ := loop.runs main_at
    (fun j s regs => regs counts = .map 1 ∧ ∃ a m, s.tables = #[a, .counts m]
      ∧ Counts m (((Reader.lines input).take j).flatMap Utf8.words))
    (fun _ => []) (fun _ => none) .null []
    (fun j t s regs regs' reader rest hj ⟨hcounts, a, m, htables, hm⟩ hsame hs => by
      have hline := Reader.length_words_of_mem (List.mem_of_getElem? hj)
      obtain ⟨s', regs'', hcounts', htables', hs', hvisits⟩ :=
        pass (s := s.filled reader t) (by omega) (fun _ => none) .null [] htables hm
        (show _ = LazyVec.ofList (Utf8.words t) from rfl) rfl
          ((hsame _ (by decide) (by decide) (by decide)).trans hcounts) hs
      refine ⟨s', regs'', ⟨hcounts', ?_⟩, hs', hvisits⟩
      rw [List.take_add_one, hj, Option.toList_some, List.flatMap_append, List.flatMap_singleton]
      exact htables') (show Reader.lines input = _ from rfl) (s := begun o world) ⟨hstreams, hfs⟩
    (fun u => if u = counts then .map 1 else State.initial u) ⟨if_pos rfl, _, ∅, rfl, .empty⟩
  rw [List.take_length] at hm
  have hwords := Reader.length_words input
  obtain ⟨s', regs₂, cursors, hs', hkeys⟩ :=
    prints_keys (s := s.finished) hm (Nat.lt_of_le_of_lt hwords hsize) htables hs
    ((hsame _ (by decide) (by decide) (by decide)).trans hcounts) (fun _ => none) .null []
  exact ⟨s', hs'.records, hlabel.ends (hruns.ends (hkeys.ends (State.ends_ret main_at rfl rfl)))⟩

/-- The program prints each field that occurs, in ascending order, with the number of its occurrences. -/
theorem prints_counts {env : Environment} (henv : env.Silent) {world : World} (hlimit : world.sink.limit = none)
    {input : Bytes} (hsize : input.length < 2 ^ 63) : wordCount.Outputs {} env world input
      ((sorted ((Reader.lines input).flatMap Utf8.words)).flatMap fun w =>
        w ++ (text " " ++ (Bytes.decimal (((Reader.lines input).flatMap Utf8.words).count w) ++ text "\n"))) := by
  obtain ⟨x, hx⟩ := modest.exists_bounded
  exact hx.outputs rfl (by decide +kernel) affords ⟨rfl, rfl⟩ henv hlimit fun o hfs _ _ hstreams =>
    ends hfs hstreams hsize

theorem prints_counts_of_six :
    Environment.Silent [] ∧ ({} : World).sink.limit = none ∧ (text "b a  c\n\ta b\r\nb").length < 2 ^ 63
    ∧ wordCount.Outputs {} [] {} (text "b a  c\n\ta b\r\nb") (text "a 2\nb 3\nc 1\n") := by
  have hwords : (Reader.lines (text "b a  c\n\ta b\r\nb")).flatMap Utf8.words
      = [text "b", text "a", text "c", text "a", text "b", text "b"] := by
    decide +kernel
  have hout : text "a 2\nb 3\nc 1\n"
      = (sorted [text "b", text "a", text "c", text "a", text "b", text "b"]).flatMap fun w =>
      w ++ (text " " ++ (Bytes.decimal ([text "b", text "a", text "c", text "a", text "b", text "b"].count w)
          ++ text "\n")) := by
    rw [show sorted [text "b", text "a", text "c", text "a", text "b", text "b"]
      = [text "a", text "b", text "c"] by cbv]
    decide +kernel
  have hprints := @prints_counts [] ⟨rfl, rfl⟩ {} rfl (text "b a  c\n\ta b\r\nb") (by decide)
  rw [hwords, ← hout] at hprints
  exact ⟨⟨rfl, rfl⟩, rfl, by decide, hprints⟩

end RecordMill.Samples.WordCount

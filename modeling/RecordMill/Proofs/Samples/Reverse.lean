import RecordMill.Proofs.Record.Splitting
import RecordMill.Proofs.Samples.Outputs

/-!
# Fields last to first

The program puts the fields of a record together from the last one down to the first. A record without fields is
printed as it is.
-/

namespace RecordMill.Samples.Reverse

open Plain

/-! ## The listing -/

abbrev nf : Reg := ⟨4, .int⟩
abbrev previous : Reg := ⟨5, .int⟩
abbrev gathered : Reg := ⟨6, .str⟩
abbrev ofs : Reg := ⟨7, .str⟩
abbrev least : Reg := ⟨9, .int⟩
abbrev index : Reg := ⟨10, .int⟩
abbrev done : Reg := ⟨11, .int⟩
abbrev field : Reg := ⟨12, .str⟩

def main : Func where
  name := "main"
  ret := .null
  body := [.label 1, .nextLine ⟨1, .int⟩, .constInt ⟨3, .int⟩ 0, .compare ⟨2, .int⟩ .lte ⟨1, .int⟩ ⟨3, .int⟩,
    .jmpIf ⟨2, .int⟩ 2,
    .loadVar nf .nf, .loadVar ofs .ofs, .getColumn gathered nf, .constInt ⟨8, .int⟩ 1,
      .arith previous .minus [nf, ⟨8, .int⟩],
    .constInt least 1, .mov index previous,
    .label 3, .compare done .lt index least, .jmpIf done 4,
    .getColumn field index, .concat gathered gathered ofs, .concat gathered gathered field,
    .constInt ⟨13, .int⟩ (-1), .arith index .add [index, ⟨13, .int⟩], .jmp 3,
    .label 4, .print none [gathered] .null, .jmp 1, .label 2, .ret .null]

theorem modest : reverse.Modest (fun _ => 0) 2 where
  checked := by decide +kernel
  types := by decide +kernel
  distinct := by decide +kernel
  known := by decide +kernel
  slots := by decide +kernel
  words := by decide
  globals := by decide
  params := by decide +kernel
  uncalled := by decide +kernel
  locals := by decide +kernel
  instrs := by decide +kernel

theorem affords : reverse.Affords (fun _ => 0) 2 0 := ⟨by decide, by decide⟩

theorem globals_eq : reverse.globals = [] := rfl

theorem main_at : reverse.funcs[0]? = some main := rfl

theorem loop : RecordLoop reverse main 1 2 ⟨1, .int⟩ ⟨3, .int⟩ ⟨2, .int⟩ where
  stretch := ⟨_, rfl⟩
  ints := ⟨rfl, rfl, rfl⟩
  locals := by decide
  apart := by decide

/-! ## One field -/

theorem join_append (sep : Bytes) {l : List Bytes} (h : l ≠ []) (t : Bytes) :
    Bytes.join sep (l ++ [t]) = Bytes.join sep l ++ sep ++ t := by
  cases l with
  | nil => exact absurd rfl h
  | cons a l => simp [Bytes.join]

theorem ofNat_sub_one (n : Nat) : Int64.ofNat (n + 1) + -1 = Int64.ofNat n := by
  rw [Int64.ofNat_add, Int64.add_assoc]
  exact Int64.add_zero _

/-- The last `n + 1` fields are gathered, and the index is that of the field before them. -/
structure Gathers (ws : List Bytes) (sep : Bytes) (n : Nat) (regs : Reg → Val) : Prop where
  gathered : regs gathered = .str (Bytes.join sep (ws.reverse.take (n + 1)))
  index : regs index = .int (Int64.ofNat (ws.length - (n + 1)))
  ofs : regs ofs = .str sep
  least : regs least = .int 1

section

variable {s : Store} {ws : List Bytes} {sep : Bytes} {n : Nat} {regs : Reg → Val}

theorem asks {i : Int64} (hindex : regs index = .int i) (hleast : regs least = .int 1) (s : Store)
    (cursors : Reg → Option Plain.Cursor) (d : Reg) (below : List Plain.Frame) :
    ∃ regs', (∀ u, u ≠ done → regs' u = regs u)
      ∧ Visits (State.step reverse) ⟨s, ⟨0, 13, regs, cursors, d⟩, below⟩
        ⟨s, ⟨0, if i < 1 then 22 else 15, regs', cursors, d⟩, below⟩ := by
  have hexecs : State.execs reverse [.compare done .lt index least] ⟨s, ⟨0, 13, regs, cursors, d⟩, below⟩
      = .ok ⟨s, ⟨0, 13, fun u => if u = done then .ofBool (i < 1) else regs u, cursors, d⟩, below⟩ := by
    simp [State.execs, State.exec, State.set_local, State.get_local, globals_eq, hindex, hleast, compareVals,
      compareInts]
  refine ⟨_, ?_, State.visits_branch (b := i < 1) (l := 4) main_at ⟨_, rfl⟩ rfl hexecs (by decide) (by decide)
    (if_pos rfl)⟩
  exact fun u hu => if_neg hu

theorem gathers_next (hfields : s.fields = .ofList ws) (hlen : ws.length < 2 ^ 63) (hn : n + 1 < ws.length)
    (h : Gathers ws sep n regs) (cursors : Reg → Option Plain.Cursor) (d : Reg) (below : List Plain.Frame) :
    ∃ regs', Gathers ws sep (n + 1) regs'
      ∧ Visits (State.step reverse) ⟨s, ⟨0, 13, regs, cursors, d⟩, below⟩ ⟨s, ⟨0, 13, regs', cursors, d⟩, below⟩ := by
  obtain ⟨m, hm⟩ : ∃ m, ws.length = n + 1 + (m + 1) := ⟨ws.length - (n + 1) - 1, by omega⟩
  have hindex := h.index
  rw [hm, Nat.add_sub_cancel_left] at hindex
  have hint : (Int64.ofNat (m + 1)).toInt = (m + 1 : Nat) := Int64.toInt_ofNat_of_lt (by omega)
  have hone : (1 : Int64).toInt = 1 := rfl
  obtain ⟨regs₁, hsame, hasks⟩ := asks hindex h.least s cursors d below
  rw [if_neg (by rw [Int64.lt_iff_toInt_lt, hint, hone]; omega)] at hasks
  -- The field at the index is the next one from behind.
  have hcolumn : s.record (Records.column (Int64.ofNat (m + 1))) = ((ws.reverse[n + 1]?).getD [], s) := by
    have hpos : 0 < Int64.ofNat (m + 1) := by rw [Int64.lt_iff_toInt_lt, hint]; exact Int.ofNat_lt.2 (Nat.succ_pos m)
    rw [Store.record, Records.column_field hfields hpos, hint, List.getElem?_reverse hn]
    rw [show (((m + 1 : Nat) : Int)).toNat - 1 = ws.length - 1 - (n + 1) by omega]
  have hbefore : Int64.ofNat (m + 1) + -1 = Int64.ofNat (ws.length - (n + 1 + 1)) := by
    rw [ofNat_sub_one, show ws.length - (n + 1 + 1) = m by omega]
  generalize Int64.ofNat (m + 1) = i at hindex hcolumn hbefore
  obtain ⟨regs₂, hexecs, hgathered₂, hindex₂, hofs₂, hleast₂⟩ : ∃ regs',
    State.execs reverse [.getColumn field index, .concat gathered gathered ofs,
      .concat gathered gathered field, .constInt ⟨13, .int⟩ (-1), .arith index .add [index, ⟨13, .int⟩]]
        ⟨s, ⟨0, 15, regs₁, cursors, d⟩, below⟩ = .ok ⟨s, ⟨0, 15, regs', cursors, d⟩, below⟩
      ∧ regs' gathered = .str (Bytes.join sep (ws.reverse.take (n + 1)) ++ sep ++ (ws.reverse[n + 1]?).getD [])
      ∧ regs' index = .int (i + -1) ∧ regs' ofs = .str sep ∧ regs' least = .int 1 := by
    have hgathered₁ := (hsame gathered (by decide)).trans h.gathered
    have hindex₁ := (hsame index (by decide)).trans hindex
    have hofs₁ := (hsame ofs (by decide)).trans h.ofs
    have hleast₁ := (hsame least (by decide)).trans h.least
    simp [State.execs, State.exec, State.set_local, State.get_local, globals_eq, State.withStore, hgathered₁, hindex₁,
      hofs₁, hleast₁,
      hcolumn, arithInts]
  refine ⟨regs₂, ⟨?_, ?_, hofs₂, hleast₂⟩, hasks.trans (State.visits_leap (l := 3) main_at ⟨_, rfl⟩ rfl hexecs)⟩
  · rw [hgathered₂, List.take_add_one (i := n + 1), List.getElem?_eq_getElem (by simpa using hn)]
    rw [Option.getD_some, Option.toList_some, join_append]
    exact List.ne_nil_of_length_pos (by rw [List.length_take, List.length_reverse]; omega)
  · rw [hindex₂, hbefore]

/-! ## One record -/

/-- The fields last to first, or the whole line when it has none. -/
def reversed (sep line : Bytes) (ws : List Bytes) : Bytes := if ws = [] then line else Bytes.join sep ws.reverse

theorem begins (hfields : s.fields = .ofList ws) (hnf : s.nf = Int64.ofNat ws.length) (hlen : ws.length < 2 ^ 63)
    (hsep : s.ofs = sep) (regs : Reg → Val) (cursors : Reg → Option Plain.Cursor) (d : Reg) (below : List Plain.Frame) :
    ∃ regs',
      (if ws = [] then regs' gathered = .str s.line ∧ regs' index = .int (-1) ∧ regs' least = .int 1
        else Gathers ws sep 0 regs')
      ∧ Visits (State.step reverse) ⟨s, ⟨0, 5, regs, cursors, d⟩, below⟩ ⟨s, ⟨0, 13, regs', cursors, d⟩, below⟩ := by
  obtain ⟨t, hcolumn, ht⟩ : ∃ t, s.record (Records.column s.nf) = (t, s)
      ∧ t = if ws = [] then s.line else Bytes.join sep (ws.reverse.take 1) := by
    by_cases hws : ws = []
    · refine ⟨s.line, ?_, (if_pos hws).symm⟩
      rw [Store.record, hnf, hws]
      rfl
    · have hpos : 0 < ws.length := List.length_pos_iff.2 hws
      have hint : (Int64.ofNat ws.length).toInt = ws.length := Int64.toInt_ofNat_of_lt hlen
      have hpos' : 0 < s.nf := by
        rw [hnf, Int64.lt_iff_toInt_lt, hint]
        exact Int.ofNat_lt.2 hpos
      refine ⟨_, by rw [Store.record, Records.column_field hfields hpos'], ?_⟩
      rw [if_neg hws, hnf, hint, Int.toNat_natCast, ← List.getLast?_eq_getElem?, ← List.head?_reverse]
      cases hlast : ws.reverse with
      | nil => exact absurd (List.reverse_eq_nil_iff.1 hlast) hws
      | cons t back => simp [Bytes.join]
  obtain ⟨regs', hexecs, hgathered, hindex, hofs, hleast⟩ : ∃ regs',
    State.execs reverse [.loadVar nf .nf, .loadVar ofs .ofs,
      .getColumn gathered nf, .constInt ⟨8, .int⟩ 1, .arith previous .minus [nf, ⟨8, .int⟩], .constInt least 1,
        .mov index previous, .label 3]
        ⟨s, ⟨0, 5, regs, cursors, d⟩, below⟩ = .ok ⟨s, ⟨0, 5, regs', cursors, d⟩, below⟩
      ∧ regs' gathered = .str t ∧ regs' index = .int (s.nf - 1) ∧ regs' ofs = .str sep ∧ regs' least = .int 1 := by
    simp [State.execs, State.exec, State.set_local, State.get_local, globals_eq, State.withStore, Store.load, hsep,
      hcolumn, arithInts]
  refine ⟨regs', ?_, State.visits_stretch main_at ⟨_, rfl⟩ rfl hexecs⟩
  split
  · next hws =>
    rw [if_pos hws] at ht
    rw [hnf, hws] at hindex
    exact ⟨ht ▸ hgathered, hindex, hleast⟩
  · next hws =>
    rw [if_neg hws] at ht
    obtain ⟨m, hm⟩ := Nat.exists_eq_succ_of_ne_zero (mt List.length_eq_zero_iff.1 hws)
    refine ⟨ht ▸ hgathered, ?_, hofs, hleast⟩
    rw [hindex, hnf, hm, Int64.sub_eq_add_neg]
    exact congrArg Val.int (ofNat_sub_one m)

theorem gathers_all (hfields : s.fields = .ofList ws) (hlen : ws.length < 2 ^ 63)
    (hbegun :
      if ws = [] then regs gathered = .str s.line ∧ regs index = .int (-1) ∧ regs least = .int 1
      else Gathers ws sep 0 regs)
    (cursors : Reg → Option Plain.Cursor) (d : Reg) (below : List Plain.Frame) :
    ∃ regs', regs' gathered = .str (reversed sep s.line ws)
      ∧ Visits (State.step reverse) ⟨s, ⟨0, 13, regs, cursors, d⟩, below⟩ ⟨s, ⟨0, 22, regs', cursors, d⟩, below⟩ := by
  unfold reversed
  split at hbegun
  · next hws =>
    obtain ⟨hline, hindex, hleast⟩ := hbegun
    obtain ⟨regs', hsame, hasks⟩ := asks hindex hleast s cursors d below
    rw [if_pos (by decide)] at hasks
    exact ⟨regs', by rw [hsame _ (by decide), if_pos hws, hline], hasks⟩
  · next hws =>
    have hpos : 0 < ws.length := List.length_pos_iff.2 hws
    have hpass : ∀ n < ws.length - 1, ∀ σ, (∃ regs, σ = ⟨s, ⟨0, 13, regs, cursors, d⟩, below⟩ ∧ Gathers ws sep n regs) →
        ∃ τ, Visits (State.step reverse) σ τ ∧ ∃ regs, τ = ⟨s, ⟨0, 13, regs, cursors, d⟩, below⟩
            ∧ Gathers ws sep (n + 1) regs := by
      rintro n hn _ ⟨regs, rfl, h⟩
      obtain ⟨regs', h', hvisits⟩ := gathers_next hfields hlen (by omega) h cursors d below
      exact ⟨_, hvisits, regs', rfl, h'⟩
    obtain ⟨_, hvisits, regs₁, rfl, h⟩ := Visits.iterate hpass ⟨regs, rfl, hbegun⟩
    have hindex := h.index
    have hgathered := h.gathered
    rw [Nat.sub_add_cancel hpos] at hindex hgathered
    rw [Nat.sub_self] at hindex
    obtain ⟨regs', hsame, hasks⟩ := asks hindex h.least s cursors d below
    rw [if_pos (by decide)] at hasks
    refine ⟨regs', ?_, hvisits.trans hasks⟩
    rw [hsame _ (by decide), if_neg hws, hgathered, List.take_of_length_le (by rw [List.length_reverse])]

theorem pass (hfields : s.fields = .ofList ws) (hnf : s.nf = Int64.ofNat ws.length) (hlen : ws.length < 2 ^ 63)
    (hsep : s.ofs = sep) {ors : Bytes} (hors : s.ors = ors) {base out rest : Bytes} (hstreams : s.Streams base out rest)
    (regs : Reg → Val) (cursors : Reg → Option Plain.Cursor) (d : Reg) (below : List Plain.Frame) :
    ∃ s' regs', s'.ofs = sep ∧ s'.ors = ors
      ∧ s'.Streams base (out ++ (reversed sep s.line ws ++ ors)) rest
      ∧ Visits (State.step reverse) ⟨s, ⟨0, 5, regs, cursors, d⟩, below⟩ ⟨s', ⟨0, 1, regs', cursors, d⟩, below⟩ := by
  obtain ⟨regs₁, hbegun, hbegins⟩ := begins hfields hnf hlen hsep regs cursors d below
  obtain ⟨regs₂, hgathered, hloop⟩ := gathers_all hfields hlen hbegun cursors d below
  obtain ⟨n, records, hprint, hprinted⟩ := hstreams.print (reversed sep s.line ws ++ ors)
  have hexecs : State.execs reverse [.print none [gathered] .null] ⟨s, ⟨0, 22, regs₂, cursors, d⟩, below⟩
      = .ok ⟨{ s with toRecords := records }, ⟨0, 22, regs₂, cursors, d⟩, below⟩ := by
    simp [State.execs, State.exec, State.output, State.get_local, globals_eq, hgathered, Bytes.join, hors, hprint,
      State.withStore,
      State.set_null]
  exact ⟨{ s with toRecords := records }, regs₂, hsep, hors, hprinted,
    hbegins.trans (hloop.trans (State.visits_leap (l := 1) main_at ⟨_, rfl⟩ rfl hexecs))⟩

end

/-! ## All records -/

def printed (sep ors : Bytes) (lines : List Bytes) :
    Bytes := lines.flatMap fun t => reversed sep t (Utf8.words t) ++ ors

theorem ends {o : Settings} {world : World} {input sep ors : Bytes} (hfs : (Store.ofSettings o world).fs = text " ")
    (hsep : (Store.ofSettings o world).ofs = sep) (hors : (Store.ofSettings o world).ors = ors)
    (hstreams : (Store.ofSettings o world).toRecords.Streams world.sink.content [] input)
    (hlen : ∀ t ∈ Reader.lines input, (Utf8.words t).length < 2 ^ 63) :
    ∃ s : Store, s.toRecords.Streams world.sink.content (printed sep ors (Reader.lines input)) []
      ∧ Ends (State.step reverse) (.start reverse main o world) (.returned, s) := by
  have hstart : Plain.State.start reverse main o world = ⟨Store.ofSettings o world,
    ⟨0, 0, State.initial, fun _ => none, .null⟩, []⟩ := rfl
  have hlabel : Visits (State.step reverse) ⟨Store.ofSettings o world, ⟨0, 0, State.initial, fun _ => none, .null⟩, []⟩
      ⟨Store.ofSettings o world, ⟨0, 1, State.initial, fun _ => none, .null⟩, []⟩ :=
    State.visits_label main_at rfl
  obtain ⟨s, -, regs, -, -, hs, hruns⟩ := loop.runs main_at (fun _ s _ => s.ofs = sep ∧ s.ors = ors)
    (fun j => printed sep ors ((Reader.lines input).take j)) (fun _ => none) .null []
    (fun j t s regs regs' reader rest hj ⟨hsep, hors⟩ _ hs => by
      obtain ⟨s', regs'', hsep', hors', hs', hvisits⟩ :=
        pass (s := s.filled reader t) (show _ = LazyVec.ofList (Utf8.words t) from rfl) rfl
        (hlen t (List.mem_of_getElem? hj)) hsep hors hs regs' (fun _ => none) .null []
      refine ⟨s', regs'', ⟨hsep', hors'⟩, ?_, hvisits⟩
      rw [List.take_add_one, hj, Option.toList_some, printed, List.flatMap_append, List.flatMap_singleton]
      exact hs') (show Reader.lines input = _ from rfl) (s := Store.ofSettings o world) ⟨hstreams, hfs⟩ State.initial
        ⟨hsep, hors⟩
  rw [List.take_length] at hs
  rw [hstart]
  exact ⟨s.finished, hs.records, hlabel.ends (hruns.ends (State.ends_ret main_at rfl rfl))⟩

/-- The program prints the fields of each line last to first, and lines without fields as they are. -/
theorem prints_fields_reversed {ofs ors : Bytes} (hofs : ofs ≠ []) (hors : ors ≠ []) {env : Environment}
    (henv : env.Silent) {world : World} (hlimit : world.sink.limit = none) {input : Bytes}
    (hsize : input.length < 2 ^ 63) :
    reverse.Outputs { ofs, ors } env world input ((Reader.lines input).flatMap fun line =>
      (if Utf8.words line = [] then line else Bytes.join ofs (Utf8.words line).reverse) ++ ors) := by
  obtain ⟨x, hx⟩ := modest.exists_bounded
  refine hx.outputs rfl (by decide +kernel) affords ⟨rfl, rfl⟩ henv hlimit fun o hfs hsep hend hstreams => ?_
  rw [Settings.orElse, if_neg (by rwa [List.isEmpty_iff])] at hsep hend
  refine ends hfs hsep hend hstreams fun line hmem => ?_
  have hline := Reader.length_words_of_mem hmem
  omega

theorem prints_fields_reversed_of_four :
    text ":" ≠ [] ∧ text "|" ≠ [] ∧ Environment.Silent [] ∧ ({} : World).sink.limit = none
    ∧ (text " a b  c\n \t\nd\r\ne f").length < 2 ^ 63
    ∧ reverse.Outputs { ofs := ":", ors := "|" } [] {} (text " a b  c\n \t\nd\r\ne f") (text "c:b:a| \t|d|f:e|") := by
  have hout : text "c:b:a| \t|d|f:e|" = (Reader.lines (text " a b  c\n \t\nd\r\ne f")).flatMap fun line =>
      (if Utf8.words line = [] then line else Bytes.join (text ":") (Utf8.words line).reverse) ++ text "|" := by
        decide +kernel
  rw [hout]
  exact ⟨by
    decide, by
      decide, ⟨rfl, rfl⟩, rfl, by decide, @prints_fields_reversed (text ":") (text "|") (by decide) (by decide) []
    ⟨rfl, rfl⟩ {} rfl (text " a b  c\n \t\nd\r\ne f") (by decide)⟩

end RecordMill.Samples.Reverse

import RecordMill.Proofs.Host.Lines
import RecordMill.Proofs.Record.StandardOutput

/-!
# From the input to the standard output

A program that does nothing but read its records and print keeps to one state: what is left of the given text, and what
was printed so far. Nothing can fail on the way.
-/

namespace RecordMill

open StandardOutput (Prints)

/-! ## Sinks without a limit -/

theorem Sink.take_unlimited {k : Sink} (h : k.limit = none) (s : Bytes) :
    k.take s = (none, { k with taken := k.taken.push s }) := by
  unfold take
  rw [h]

namespace Writer

variable {w : Writer} {k : Sink}

theorem write_unlimited (hw : w.failure = none) (hk : k.limit = none) (s : Bytes) :
    (w.write s k).1 = none ∧ (w.write s k).2.1.failure = none ∧ (w.write s k).2.2.limit = none := by
  unfold write
  rw [hw]
  dsimp only
  split
  · exact ⟨rfl, rfl, hk⟩
  · rw [Sink.take_unlimited hk]
    exact ⟨rfl, rfl, hk⟩

theorem flush_unlimited (hw : w.failure = none) (hk : k.limit = none) : (w.flush k).1 = none := by
  unfold flush
  rw [hw]
  dsimp only
  split
  · rfl
  · rw [Sink.take_unlimited hk]

end Writer

namespace Records

/-! ## Words -/

theorem split_blank (s : Bytes) (r : Records) : split s [32] r = (.ok (Utf8.words s), r) := by
  unfold split
  split
  · next h =>
    rw [List.isEmpty_iff.1 h, Utf8.words, Utf8.units]
    rfl
  · rw [if_pos rfl]
    rfl

/-- What the next record makes of the records, with a reader that goes on with `reader`. -/
def filled (r : Records) (reader : Reader) (line : Bytes) : Records :=
  { r with
    reader := some reader
    nr := r.nr + 1
    line
    fields := .ofList (Utf8.words line)
    nf := Int64.ofNat (Utf8.words line).length }

theorem setRecord_blank (line : Bytes) (r : Records) : setRecord [32] line r
    = (1, { r with line, fields := .ofList (Utf8.words line), nf := Int64.ofNat (Utf8.words line).length }) := by
  simp only [setRecord, bind, StateT.bind, pure, modify, modifyGet, MonadStateOf.modifyGet, StateT.modifyGet,
    split_blank]
  rfl

theorem column_zero (r : Records) : column 0 r = (r.line, r) := rfl

theorem column_field {r : Records} {fields : List Bytes} (h : r.fields = .ofList fields) {i : Int64} (hi : 0 < i) :
    column i r = ((fields[i.toInt.toNat - 1]?).getD [], r) := by
  have hpos : 0 < i.toInt := Int64.lt_iff_toInt_lt.1 hi
  have hne : i ≠ 0 := fun e => by rw [e] at hpos; exact absurd hpos (by decide)
  have hnot : ¬ i < 0 := Int64.not_lt.2 (Int64.le_of_lt hi)
  have hget : r.fields.get? (i.toInt - 1) = fields[i.toInt.toNat - 1]? := by
    rw [h]
    show (if i.toInt - 1 < 0 then none else fields.toArray[(i.toInt - 1).toNat]?) = _
    rw [if_neg (by omega), List.getElem?_toArray, show (i.toInt - 1).toNat = i.toInt.toNat - 1 by omega]
  unfold column
  rw [if_neg hne, if_neg hnot]
  show ((r.fields.get? (i.toInt - 1)).getD [], r) = _
  rw [hget]

/-! ## Streams -/

/-- The text `rest` is to be read, and `out` was printed beyond what the sink held, which is `base`. -/
structure Streams (base out rest : Bytes) (r : Records) : Prop where
  prints : Prints base out r
  unlimited : r.world.sink.limit = none
  unfailed : r.out.failure = none
  files : r.outputs.files.entries = []
  inputs : r.inputs = []
  reader : match r.reader with
    | some reader => reader.Yields r.world.disk rest
    | none => rest = []

namespace Streams

variable {base out rest : Bytes} {r : Records}

theorem start {s : Settings} {given : Bytes} (hinput : s.input = some given) {world : World}
    (hlimit : world.sink.limit = none) :
    Streams world.sink.content [] given (s.records world) := by
  refine ⟨⟨⟨[], [], by simp [Settings.records], rfl, fun _ => rfl⟩, rfl⟩, hlimit, rfl, rfl, ?_, ?_⟩
  · rw [Settings.records, hinput]
    rfl
  · rw [Settings.records, hinput]
    exact .ofText rfl rfl rfl

theorem nextLine_end (h : Streams base out rest r) (hrest : Reader.lines rest = []) :
    nextLine [32] r = ((0, []), { r with reader := none }) ∧ Streams base out [] { r with reader := none } := by
  refine ⟨?_, ⟨h.prints.passes, h.prints.pipes⟩, h.unlimited, h.unfailed, h.files, h.inputs, rfl⟩
  have hnext : ∀ r', openNext [32] r.inputs r' = ((0, []), r') := by
    rw [h.inputs]
    exact fun _ => rfl
  have hyields := h.reader
  split at hyields
  · next reader hreader =>
    have hgathered := Reader.yields_line hyields
    rcases hline : reader.line r.world.disk with ⟨result, reader'⟩
    rw [hline] at hgathered
    obtain ⟨-, hresult⟩ | ⟨t, more, -, hlines, -⟩ := hgathered
    · obtain rfl : result = .ok none := hresult
      simp only [nextLine, readRecord, bind, StateT.bind, get, getThe, MonadStateOf.get, StateT.get, pure, hreader,
        hline, modify,
        modifyGet, MonadStateOf.modifyGet, StateT.modifyGet, hnext]
    · rw [hrest] at hlines
      cases hlines
  · next hreader =>
    simp only [nextLine, bind, StateT.bind, get, getThe, MonadStateOf.get, StateT.get, pure, hreader, hnext]
    rw [← hreader]

theorem nextLine_line (h : Streams base out rest r) {t : Bytes} {later : List Bytes}
    (hrest : Reader.lines rest = t :: later) :
    ∃ reader more, nextLine [32] r = ((1, []), r.filled reader t) ∧ Reader.lines more = later
      ∧ Streams base out more (r.filled reader t) := by
  have hyields := h.reader
  split at hyields
  · next reader hreader =>
    have hgathered := Reader.yields_line hyields
    rcases hline : reader.line r.world.disk with ⟨result, reader'⟩
    rw [hline] at hgathered
    obtain ⟨rfl, -⟩ | ⟨t', more, hresult, hlines, hmore⟩ := hgathered
    · cases hrest
    · rw [hrest] at hlines
      obtain ⟨rfl, rfl⟩ := List.cons.inj hlines
      obtain rfl : result = .ok (some t) := hresult
      refine ⟨reader', more, ?_, rfl, ⟨h.prints.passes, h.prints.pipes⟩, h.unlimited, h.unfailed, h.files,
        h.inputs, hmore⟩
      simp only [nextLine, readRecord, bind, StateT.bind, get, getThe, MonadStateOf.get, StateT.get, pure, hreader,
        hline, modify,
        modifyGet, MonadStateOf.modifyGet, StateT.modifyGet, setRecord_blank]
      rfl
  · rw [hyields] at hrest
    cases hrest

theorem write (h : Streams base out rest r) (s : Bytes) :
    Streams base (out ++ s) rest (Records.write .stdout [] s r).2 := by
  obtain ⟨hnone, hfailure, hlimit⟩ := Writer.write_unlimited h.unfailed h.unlimited s
  have hsend : send .stdout [] s r = ((r.out.write s r.world.sink).1, { r with
      out := (r.out.write s r.world.sink).2.1
      world := { r.world with sink := (r.out.write s r.world.sink).2.2 } }) := rfl
  have hwrite : Records.write .stdout [] s r = (0, { r with
      out := (r.out.write s r.world.sink).2.1
      world := { r.world with sink := (r.out.write s r.world.sink).2.2 } }) := by
    simp only [Records.write, bind, StateT.bind, hsend, hnone]
    rfl
  have hprints := h.prints.write [] s
  rw [hwrite] at hprints ⊢
  exact ⟨hprints, hlimit, hfailure, h.files, h.inputs, h.reader⟩

theorem close (h : Streams base out rest r) :
    (Records.close r).1 = [] ∧ (Records.close r).2.world.sink.content = base ++ out := by
  have hnone : (Records.close r).1 = [] := by
    show (r.out.flush r.world.sink).1.toList
      ++ (r.outputs.close { r.world with sink := (r.out.flush r.world.sink).2.2 }).1 = []
    rw [Writer.flush_unlimited h.unfailed h.unlimited, Outputs.close_eq _ _ h.prints.pipes]
    unfold Outputs.flush
    rw [h.files]
    rfl
  exact ⟨hnone, h.prints.closed hnone⟩

end Streams

end Records

end RecordMill

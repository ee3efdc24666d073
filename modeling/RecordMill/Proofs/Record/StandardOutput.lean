import RecordMill.Proofs.Host.Files
import RecordMill.Proofs.Record.Steps

/-!
# Standard output

Texts go to the standard output in the order of the calls that produce them. Whatever the size of the buffer and
wherever the sink fails, the sink holds a part from the front of what was printed, and all of it once closing has
reported no failure.
-/

namespace RecordMill.StandardOutput

/-! ## Uses -/

/-- Whatever else a program does between two uses of the standard output, without starting a command. -/
structure Aside where
  step : Context → Context
  out : ∀ c, (step c).out = c.out
  sink : ∀ c, (step c).world.sink = c.world.sink
  pipes : ∀ c, (step c).outputs.pipes = c.outputs.pipes

inductive Op where
  | write (path : Packed) (s : Bytes)
  | print (path : Packed) (args : List Packed)
  | printf (path format : Packed) (args : List Format.Arg)
  | flush
  | close
  | aside (a : Aside)

def Op.run : Op → Context → Context
  | .write path s, c => (Act.write .stdout path s c).2
  | .print path args, c => (Act.printAll .stdout path args c).2
  | .printf path format args, c => (Act.printf .stdout path format args c).2
  | .flush, c => (Act.flush c).2
  | .close, c => (Act.close c).2
  | .aside a, c => a.step c

/-- The arguments with the separators of the moment. -/
def printed (h : Heap) (ofs ors : Packed) (args : List Packed) : Except HeapFault Bytes := do
  let ofs ← h.string ofs
  let parts ← args.mapM h.string
  return Bytes.join ofs parts ++ (← h.string ors)

/-- The text that a use produces. A use that is refused, because a string is not there, produces none. -/
def Op.text (c : Context) : Op → Bytes
  | .write _ s => s
  | .print _ args => (printed c.heap c.ofs c.ors args).toOption.getD []
  | .printf _ format args => ((c.heap.string format).toOption.map fun f => Format.sprintf f args).getD []
  | .flush | .close | .aside _ => []

def after (c : Context) (ops : List Op) : Context := ops.foldl (fun c op => op.run c) c

def texts : Context → List Op → Bytes
  | _, [] => []
  | c, op :: ops => op.text c ++ texts (op.run c) ops

/-! ## One use -/

variable {c : Context} {r : Records} {base s : Bytes}

/-- The text `s` was printed, and no command runs. -/
structure Prints (base s : Bytes) (r : Records) : Prop where
  passes : r.out.Passes base r.world.sink s
  pipes : r.outputs.pipes.entries = []

namespace Prints

theorem write (h : Prints base s r) (path more : Bytes) :
    Prints base (s ++ more) (Records.write .stdout path more r).2 := by
  have hpasses := h.passes.write more
  have hsend : Records.send .stdout path more r = ((r.out.write more r.world.sink).1, { r with
      out := (r.out.write more r.world.sink).2.1
      world := { r.world with sink := (r.out.write more r.world.sink).2.2 } }) := rfl
  simp only [Records.write, bind, StateT.bind, hsend]
  cases (r.out.write more r.world.sink).1 <;> exact ⟨hpasses, h.pipes⟩

theorem flush (h : Prints base s r) : Prints base s (Records.flush r).2 := by
  refine ⟨h.passes.flush, ?_⟩
  show r.outputs.pipes.entries.map _ = []
  rw [h.pipes]
  rfl

theorem close_eq (h : r.outputs.pipes.entries = []) : (Records.close r).2.out = (r.out.flush r.world.sink).2.1
    ∧ (Records.close r).2.world.sink = (r.out.flush r.world.sink).2.2
    ∧ ∃ errors, (Records.close r).1 = (r.out.flush r.world.sink).1.toList ++ errors := by
  refine ⟨rfl, ?_, _, rfl⟩
  show (r.outputs.close { r.world with sink := (r.out.flush r.world.sink).2.2 }).2.2.sink = _
  rw [Outputs.close_eq _ _ h]
  rfl

theorem close (h : Prints base s r) : Prints base s (Records.close r).2 := by
  obtain ⟨hout, hsink, -⟩ := close_eq h.pipes
  refine ⟨?_, rfl⟩
  rw [hout, hsink]
  exact h.passes.flush

theorem closed (h : Prints base s r) (hclose : (Records.close r).1 = []) :
    (Records.close r).2.world.sink.content = base ++ s := by
  obtain ⟨-, hsink, errors, herrors⟩ := close_eq h.pipes
  rw [hsink]
  rw [herrors] at hclose
  refine h.passes.flushed ?_
  cases hflush : (r.out.flush r.world.sink).1 with
  | none => rfl
  | some e => simp [hflush] at hclose

end Prints

/-! ## Whole runs -/

theorem print_eq (path : Packed) (args : List Packed) (c : Context) : Act.printAll .stdout path args c
    = match printed c.heap c.ofs c.ors args with
      | .ok s => Act.write .stdout path s c
      | .error e => (.error (.heap e), c) := by
  have hofs := Act.look_eq (·.string c.ofs) c
  have hargs := Act.mapM_bytes args c
  have hors := Act.look_eq (·.string c.ors) c
  unfold Act.printAll printed
  rw [Act.bind_ok (Act.get_ok c)]
  cases h₁ : c.heap.string c.ofs with
  | error e =>
    rw [h₁] at hofs
    exact Act.bind_error hofs
  | ok ofs =>
    rw [h₁] at hofs
    rw [Act.bind_ok (x := Act.bytes c.ofs) hofs]
    cases h₂ : args.mapM c.heap.string with
    | error e =>
      rw [h₂] at hargs
      exact Act.bind_error hargs
    | ok parts =>
      rw [h₂] at hargs
      rw [Act.bind_ok hargs]
      cases h₃ : c.heap.string c.ors with
      | error e =>
        rw [h₃] at hors
        exact Act.bind_error hors
      | ok ors =>
        rw [h₃] at hors
        exact Act.bind_ok hors

theorem printf_eq (path format : Packed) (args : List Format.Arg) (c : Context) : Act.printf .stdout path format args c
    = match c.heap.string format with
      | .ok f => Act.write .stdout path (Format.sprintf f args) c
      | .error e => (.error (.heap e), c) := by
  have hformat := Act.look_eq (·.string format) c
  unfold Act.printf
  cases h : c.heap.string format with
  | error e =>
    rw [h] at hformat
    exact Act.bind_error hformat
  | ok f =>
    rw [h] at hformat
    exact Act.bind_ok hformat

theorem Prints.run (h : Prints base s c.toRecords) (op : Op) : Prints base (s ++ op.text c) (op.run c).toRecords := by
  cases op with
  | write path more => exact h.write [] more
  | print path args =>
    simp only [Op.run, Op.text, print_eq]
    cases printed c.heap c.ofs c.ors args with
    | error e => simpa [Except.toOption] using h
    | ok more => exact h.write [] more
  | printf path format args =>
    simp only [Op.run, Op.text, printf_eq]
    cases c.heap.string format with
    | error e => simpa [Except.toOption] using h
    | ok f => exact h.write [] (Format.sprintf f args)
  | flush =>
    rw [Op.text, List.append_nil]
    exact h.flush
  | close =>
    rw [Op.text, List.append_nil]
    unfold Op.run
    rw [Act.toRecords_close]
    exact h.close
  | aside a =>
    rw [Op.text, List.append_nil]
    have hpasses := h.passes
    rw [← a.out c, ← a.sink c] at hpasses
    exact ⟨hpasses, by rw [← h.pipes, ← a.pipes c]; rfl⟩

theorem Prints.after (h : Prints base s c.toRecords) (ops : List Op) :
    Prints base (s ++ texts c ops) (after c ops).toRecords := by
  induction ops generalizing c s with
  | nil =>
    rw [texts, List.append_nil]
    exact h
  | cons op ops ih =>
    have hrest := ih (h.run op)
    rwa [List.append_assoc] at hrest

/-- Whatever is printed on a standard output that was not used before, in the midst of whatever else a program does but
start commands: at every moment the sink holds, beyond what it held at first, a part from the front of the texts
printed so far, one after another. When closing reports no failure the sink holds all of them. -/
theorem stdout_in_order (c : Context) (hpending : c.out.pending.bytes = [])
    (hpipes : c.outputs.pipes.entries = []) (ops : List Op) :
    (∀ n, ∃ t, (after c (ops.take n)).world.sink.content = c.world.sink.content ++ t ∧ t <+: texts c (ops.take n))
      ∧ ((Act.close (after c ops)).1 = .ok [] →
        (after c (ops ++ [.close])).world.sink.content = c.world.sink.content ++ texts c ops) := by
  have hstart : Prints c.world.sink.content [] c.toRecords := by
    refine ⟨⟨[], [], by simp, rfl, fun _ => ?_⟩, hpipes⟩
    rw [hpending]
  constructor
  · intro n
    simpa using (hstart.after (ops.take n)).passes.front
  · intro hclose
    have hdone := (hstart.after ops).closed (Act.errors_close hclose)
    rw [after, List.foldl_append]
    show (Act.close (after c ops)).2.toRecords.world.sink.content = _
    rw [Act.toRecords_close]
    exact hdone

/-- Three bytes are buffered, and the sink takes `limit` of them at most. -/
def narrow (limit : Nat) :
    Context := Context.ofSettings { capacity := 3, ofs := text "-" } { sink := { limit := some limit } }

def narrowUses :
    List Op := [.write .empty (text "ab"), .print .empty [.inline (text "cd"), .inline (text "efgh")], .flush,
  .printf .empty (.inline (text "%d!")) [.int 12]]

/-- A sink for seven bytes fails in the midst of the second text, and the third text is not offered any more. A sink for
thirteen bytes takes everything. -/
theorem stdout_in_order_narrow : texts (narrow 7) narrowUses = text "abcd-efgh\n12!"
    ∧ (after (narrow 7) narrowUses).world.sink.content = text "abcd-ef"
    ∧ (∃ t, (after (narrow 7) narrowUses).world.sink.content = (narrow 7).world.sink.content ++ t
      ∧ t <+: texts (narrow 7) narrowUses)
    ∧ (Act.close (after (narrow 13) narrowUses)).1 = .ok []
    ∧ (after (narrow 13) (narrowUses ++ [.close])).world.sink.content
      = (narrow 13).world.sink.content ++ texts (narrow 13) narrowUses := by
  have hclose : (Act.close (after (narrow 13) narrowUses)).1 = .ok [] := by
    have hquiet : (Act.close (after (narrow 13) narrowUses)).1.toOption = some [] := by decide +kernel
    cases h : (Act.close (after (narrow 13) narrowUses)).1 with
    | error e => simp [h, Except.toOption] at hquiet
    | ok errors => simpa [h, Except.toOption] using hquiet
  have hfront := (stdout_in_order (narrow 7) rfl rfl narrowUses).1 narrowUses.length
  rw [List.take_length] at hfront
  exact ⟨by
    decide +kernel, by decide +kernel, hfront, hclose, (stdout_in_order (narrow 13) rfl rfl narrowUses).2 hclose⟩

end RecordMill.StandardOutput

import RecordMill.Proofs.Record.MainInput
import RecordMill.Proofs.Record.Ownership

/-!
# Lines that cannot be split

Main statement: `failed_split_keeps_fields`. When the field separator is a pattern that does not compile, a record that
is assigned or read leaves the fields and their number as they were. The line is the new one all the same. -/

/-! ## What the next record comes to

A call for the next record takes what the input comes to, and nothing else. -/

namespace RecordMill.Records

open FieldList (Coming Input)

variable {fs : Bytes}

def receive (fs : Bytes) : Coming × Input → Recording Int64
  | (.record line, i) => do
    modify fun r => { r with reader := i.reader, inputs := i.names, nr := r.nr + 1 }
    setRecord fs line
  | (.nothing, i) => do
    modify fun r => { r with reader := i.reader, inputs := i.names }
    return 0
  | (.failure e, i) => do
    modify fun r => { r with reader := i.reader, inputs := i.names }
    fail .nextLine e

theorem receive_congr (x : Coming × Input) (r : Records) (reader : Option Reader) (names : List Bytes) :
    receive fs x { r with reader, inputs := names } = receive fs x r := by
  obtain ⟨_ | _ | _, i⟩ := x <;> rfl

/-- The answer without the names of the inputs that were opened. -/
def answer (x : (Int64 × List Bytes) × Records) : Int64 × Records := (x.1.1, x.2)

theorem answer_readRecord {next : Recording (Int64 × List Bytes)} {later : Coming × Input} (r : Records)
    (reader : Reader) (hnext : answer (next { r with reader := none }) = receive fs later r) :
    answer (readRecord fs reader next r) = receive fs (Input.ofReader r.world.disk reader r.inputs later) r := by
  simp only [readRecord, Input.ofReader, bind, StateT.bind, get, getThe, MonadStateOf.get, StateT.get, pure,
    modify, modifyGet,
    MonadStateOf.modifyGet]
  rcases reader.line r.world.disk with ⟨e | _ | line, reader'⟩
  · rfl
  · exact hnext
  · rfl

theorem answer_openNext (names : List Bytes) (r : Records) (hreader : r.reader = none) (hnames : r.inputs = names) :
    answer (openNext fs names r) = receive fs (Input.ofFiles r.world.disk names) r := by
  induction names generalizing r with
  | nil =>
    rw [MainInput.openNext_nil, Input.ofFiles]
    show (0, r) = (0, { r with reader := none, inputs := [] })
    rw [← hreader, ← hnames]
  | cons name names ih =>
    rw [MainInput.openNext_cons, Input.ofFiles]
    cases Reader.openFile r.world.disk name with
    | error e =>
      show ((-1 : Int64), { r with inputs := names, noted := ⟨.nextLine, e⟩ :: r.noted })
        = (-1, { r with reader := none, inputs := names, noted := ⟨.nextLine, e⟩ :: r.noted })
      rw [← hreader]
    | ok reader =>
      have hrest := ih { r with inputs := names, reader := none } rfl rfl
      rw [receive_congr _ _ _ names] at hrest
      exact (answer_readRecord { r with inputs := names } reader
        (hrest.trans (receive_congr _ r r.reader names).symm)).trans
        (receive_congr _ r r.reader names)

theorem answer_nextLine (r : Records) :
    answer (nextLine fs r) = receive fs (Input.next r.world.disk ⟨r.reader, r.inputs⟩) r := by
  simp only [nextLine, Input.next, bind, StateT.bind, get, getThe, MonadStateOf.get, StateT.get, pure]
  cases hreader : r.reader with
  | none => exact answer_openNext _ r hreader rfl
  | some reader =>
    refine answer_readRecord r reader ?_
    exact (answer_openNext _ { r with reader := none } rfl rfl).trans (receive_congr _ r none r.inputs)

end RecordMill.Records

namespace RecordMill

open Act (Along Lasting SameRecords)
open FieldList (Coherent pieces? Input)

variable {longest : Bool} {r : Records}

/-! ## Patterns that are kept -/

theorem FieldList.Coherent.get_error {ps : Pattern.Patterns} (h : Coherent longest ps) {key : Bytes}
    {e : Pattern.ParseError} (he : Pattern.compile longest key = .error e) : ps.get key = .error e := by
  have hnone : ps.compiled.find? key = none := by
    cases hf : ps.compiled.find? key with
    | none => rfl
    | some p =>
      rw [h.found key p hf] at he
      cases he
  simp only [Pattern.Patterns.get, Cache.get, hnone, h.mode, he]
  rfl

theorem FieldList.Coherent.of_get {ps ps' : Pattern.Patterns} {key : Bytes} {p : Pattern} (h : Coherent longest ps)
    (hget : ps.get key = .ok (p, ps')) : Coherent longest ps' := by
  cases hc : Pattern.compile longest key with
  | error e =>
    rw [h.get_error hc] at hget
    cases hget
  | ok q =>
    obtain ⟨ps'', hget', h'⟩ := h.get hc
    rw [hget'] at hget
    cases hget
    exact h'

/-- What is kept of a pattern stays what compiling it yields. -/
class Recording.Coheres {α : Type} (act : Recording α) : Prop where
  coherent : ∀ {longest : Bool} {r : Records}, Coherent longest r.patterns → Coherent longest (act r).2.patterns

namespace Recording.Coheres

variable {α β : Type} {act : Recording α} {f : α → Recording β}

theorem of_same (h : ∀ r, (act r).2.patterns = r.patterns) : Coheres act := ⟨fun {_ r} hr => (h r).symm ▸ hr⟩

instance (a : α) : Coheres (pure a : Recording α) := .of_same fun _ => rfl

instance : Coheres (get : Recording Records) := .of_same fun _ => rfl

theorem of_modify {g : Records → Records} (h : ∀ r, (g r).patterns = r.patterns) :
    Coheres (modify g : Recording Unit) := .of_same h

instance (priority := low) [hact : Coheres act] [hf : ∀ a, Coheres (f a)] : Coheres (act >>= f) :=
  ⟨fun hr => (hf _).coherent (hact.coherent hr)⟩

instance {p : Prop} [Decidable p] {other : Recording α} [hact : Coheres act] [hother : Coheres other] :
    Coheres (if p then act else other) := by
  split
  · exact hact
  · exact hother

end Recording.Coheres

namespace Records

open Recording (Coheres)

instance (during : Operation) (e : Failure) : Coheres (fail during e) := .of_same fun _ => rfl

instance (s separator : Bytes) : Coheres (split.byPattern s separator) := by
  constructor
  intro longest r h
  simp only [split.byPattern, bind, StateT.bind, get, getThe, MonadStateOf.get, StateT.get, pure]
  cases hsplit : r.patterns.split separator s with
  | error e => exact h
  | ok x =>
    unfold Pattern.Patterns.split at hsplit
    cases hget : r.patterns.get separator with
    | error e =>
      rw [hget] at hsplit
      cases hsplit
    | ok y =>
      rw [hget] at hsplit
      cases hsplit
      exact h.of_get hget

instance (s separator : Bytes) : Coheres (split s separator) := by
  unfold split
  have hwhole : Coheres (match separator with
      | [] => (return .ok (Utf8.characters s) : Recording (Except Failure (List Bytes)))
      | [c] => if c = 92 then split.byPattern s separator else return .ok (Bytes.cutAt c s)
      | _ => split.byPattern s separator) := by
    split <;> infer_instance
  infer_instance

instance (s pattern : Bytes) : Coheres (isMatch s pattern) := by
  constructor
  intro longest r h
  simp only [isMatch, bind, StateT.bind, get, getThe, MonadStateOf.get, StateT.get, pure]
  cases hmatch : r.patterns.isMatch pattern s with
  | error e => exact h
  | ok x =>
    unfold Pattern.Patterns.isMatch at hmatch
    cases hget : r.patterns.get pattern with
    | error e =>
      rw [hget] at hmatch
      cases hmatch
    | ok y =>
      rw [hget] at hmatch
      cases hmatch
      exact h.of_get hget

instance (s separator : Bytes) : Coheres (pieces s separator) := by
  unfold pieces
  have hnext : ∀ x : Except Failure (List Bytes), Coheres (match x with
      | .error e => do
        let _ ← fail .splitting e
        return none
      | .ok parts => return some parts : Recording (Option (List Bytes))) := by
    intro x
    split <;> infer_instance
  infer_instance

instance (fs line : Bytes) : Coheres (setRecord fs line) := by
  unfold setRecord
  have hfirst : Coheres (modify fun r => { r with line } : Recording Unit) := .of_modify fun _ => rfl
  have hnext : ∀ x : Except Failure (List Bytes), Coheres (match x with
      | .error e => fail .fieldSplitting e
      | .ok parts => do
        modify fun r => { r with fields := .ofList parts, nf := Int64.ofNat parts.length }
        return 1 : Recording Int64) := by
    intro x
    split
    · infer_instance
    · exact .of_same fun _ => rfl
  infer_instance

instance (i : Int64) : Coheres (column i) := by
  unfold column
  infer_instance

instance (ofs : Bytes) (i : Int64) (s : Bytes) : Coheres (setField ofs i s) := .of_same fun _ => rfl

instance (ofs : Bytes) (n : Int64) : Coheres (setCount ofs n) := .of_same fun _ => rfl

instance (fs : Bytes) : Coheres (nextLine fs) := by
  constructor
  intro longest r h
  have hanswer : (nextLine fs r).2 = (receive fs (Input.next r.world.disk ⟨r.reader, r.inputs⟩) r).2 :=
    congrArg Prod.snd (answer_nextLine r)
  rw [hanswer]
  rcases Input.next r.world.disk ⟨r.reader, r.inputs⟩ with ⟨line | _ | e, i⟩
  · have hset : Coheres (setRecord fs line) := inferInstance
    exact hset.coherent (r := { r with reader := i.reader, inputs := i.names, nr := r.nr + 1 }) h
  · exact h
  · exact h

instance (name : Bytes) : Coheres (fileLine name) := by
  refine .of_same fun r => ?_
  simp only [fileLine, bind, StateT.bind, get, getThe, MonadStateOf.get, StateT.get, pure, set, StateT.set,
    MonadStateOf.set]
  rcases r.reads.line r.world.disk name with ⟨e | _ | line, reads⟩ <;> rfl

instance (op : Writer → Sink → Option Failure × Writer × Sink) : Coheres (onStdout op) := .of_same fun _ => rfl

instance {α : Type} (op : Outputs → World → α × Outputs × World) : Coheres (onOutputs op) := .of_same fun _ => rfl

instance (dest : Destination) (path s : Bytes) : Coheres (write dest path s) := by
  have hsend : Coheres (send dest path s) := by
    unfold send flushStdout
    have hpipe : ∀ e : Option Failure, Coheres (match e with
        | some e => return some e
        | none => onOutputs fun o w => (none, o.writePipe path s, w) : Recording (Option Failure)) := by
      intro e
      split <;> infer_instance
    split <;> infer_instance
  unfold write
  have hnext : ∀ e : Option Failure, Coheres (match e with
      | none => return 0
      | some e => fail .write e : Recording Int64) := by
    intro e
    split <;> infer_instance
  infer_instance

instance : Coheres flush := by
  unfold flush flushStdout
  infer_instance

instance : Coheres close := by
  unfold close flushStdout
  have hlast : Coheres (modify fun c => { c with reads := {}, reader := c.reader.map Reader.close } : Recording Unit) :=
    .of_modify fun _ => rfl
  infer_instance

end Records

/-! ## Calls -/

namespace Act

/-- Whatever is kept of patterns before the step is so afterwards. -/
def Coheres (c c' : Context) : Prop := ∀ longest, Coherent longest c.patterns → Coherent longest c'.patterns

instance : Lasting Coheres := ⟨fun _ _ => id, fun h h' longest hc => h' longest (h longest hc)⟩

theorem along_of_same {α : Type} {x : Act α} (h : ∀ c, (x c).2.patterns = c.patterns) : Along Coheres x :=
  ⟨fun c _ hc => (h c).symm ▸ hc⟩

instance {α : Type} (act : Recording α) [hact : Recording.Coheres act] :
    Along Coheres (onRecords act) := ⟨fun _ _ hc => hact.coherent hc⟩

instance (g : Heap → Except HeapFault Heap) : Along Coheres (change g) :=
  along_of_same fun c => congrArg Records.patterns ((inferInstance : Along SameRecords (change g)).along c)

instance : Along Coheres giveBack :=
  along_of_same fun c => congrArg Records.patterns ((inferInstance : Along SameRecords giveBack).along c)

instance (s : Bytes) : Along Coheres (newStr s) := along_of_same fun _ => rfl

instance (s : Packed) : Along Coheres (bytes s) := inferInstanceAs (Along Coheres (look _))

instance : Along Coheres fieldSeparator := by
  unfold fieldSeparator
  infer_instance

instance : Along Coheres outputSeparator := by
  unfold outputSeparator
  infer_instance

instance (v : Variable) (s : Packed) : Along Coheres (modify (placeStr v s) : Act Unit) := .of_modify fun c => by
  cases v <;> exact fun _ => id

instance (i : Int64) (s : Packed) : Along Coheres (setColumn i s) := by
  unfold setColumn
  infer_instance

instance (k : Key) (key : Nat → k.Carrier) (s : Packed) (m : UInt64) (p : Packed) :
    Along Coheres (splitInto k key s m p) := by
  unfold splitInto
  have hset : ∀ parts : Option (List Bytes), Along Coheres (match parts with
      | none => (return -1 : Act Int64)
      | some parts => do
        change (·.updateMap k .str m fun _ => numbered k key parts)
        return Int64.ofNat parts.length) := by
    intro parts
    split <;> infer_instance
  infer_instance

instance (n : Int64) : Along Coheres (setCount n) := by
  unfold setCount
  infer_instance

instance (v : Variable) : Along Coheres (loadInt v) := by
  unfold loadInt
  refine .bind inferInstance fun c => ?_
  split <;> infer_instance

instance (v : Variable) (n : Int64) : Along Coheres (storeInt v n) := by
  unfold storeInt
  split
  · exact .of_modify fun _ _ => id
  · infer_instance
  · exact .of_modify fun _ _ => id
  · infer_instance

instance (v : Variable) : Along Coheres (loadStr v) := by
  unfold loadStr
  refine .bind inferInstance fun c => ?_
  split <;> infer_instance

instance (v : Variable) (s : Packed) : Along Coheres (storeStr v s) := by
  unfold storeStr
  infer_instance

instance (v : Variable) : Along Coheres (loadMap v) := by
  unfold loadMap
  split <;> infer_instance

instance (v : Variable) (m : UInt64) : Along Coheres (storeMap v m) := by
  unfold storeMap
  split
  · exact .bind inferInstance fun _ => .bind inferInstance fun _ => .bind (.of_modify fun _ _ => id) fun _ =>
      inferInstance
  · infer_instance

instance (dest : Destination) (path : Packed) (s : Bytes) : Along Coheres (write dest path s) := by
  unfold write pathOf
  infer_instance

instance (names : List Bytes) : Along SameRecords (names.forM takeName) := by
  induction names with
  | nil => exact inferInstanceAs (Along SameRecords (pure ()))
  | cons name rest ih =>
    have hnew : Along SameRecords (newStr name) := ⟨fun _ => rfl⟩
    have hname : Along SameRecords (takeName name) := by
      unfold takeName setFilename
      exact hnew.bind fun _ => .bind inferInstance fun _ => .bind (.of_modify fun _ => rfl) fun _ => inferInstance
    exact hname.bind fun _ => ih

instance (names : List Bytes) : Along Coheres (names.forM takeName) :=
  along_of_same fun c => congrArg Records.patterns ((inferInstance : Along SameRecords (names.forM takeName)).along c)

instance : Along Coheres nextLine :=
  .bind inferInstance fun _ => .bind inferInstance fun x =>
    .bind (inferInstanceAs (Along Coheres (x.2.forM takeName))) fun _ => inferInstance

instance : Along Coheres close := by
  rw [close_eq]
  infer_instance

end Act

namespace Ownership

open Act (Along)

instance {α : Type} (x : Act α) [hx : Along Act.Coheres x] : Along Act.Coheres (keepNone x) := by
  unfold keepNone
  infer_instance

instance (x : Act Packed) [hx : Along Act.Coheres x] : Along Act.Coheres (keepStr x) := by
  unfold keepStr
  infer_instance

instance (x : Call) : Along Act.Coheres x.act := by
  cases x with
  | nextLine => exact inferInstanceAs (Along Act.Coheres (keepNone Act.nextLine))
  | column i =>
    unfold Call.act Act.column
    infer_instance
  | setColumn i s => exact inferInstanceAs (Along Act.Coheres (keepNone (Act.setColumn i s)))
  | isMatch s pattern =>
    unfold Call.act Act.isMatch
    infer_instance
  | splitInt s map separator =>
    exact inferInstanceAs (Along Act.Coheres (keepNone (Act.splitInto .int Int64.ofNat s map separator)))
  | splitStr s map separator =>
    exact inferInstanceAs (Along Act.Coheres (keepNone (Act.splitInto .str Bytes.decimal s map separator)))
  | concat a b =>
    unfold Call.act Act.concat
    infer_instance
  | compareStr a b =>
    unfold Call.act Act.compareStr
    infer_instance
  | readFileLine path =>
    unfold Call.act Act.readFileLine
    infer_instance
  | write dest path s => exact inferInstanceAs (Along Act.Coheres (keepNone (Act.write dest path s)))
  | printAll dest path args =>
    unfold Call.act Act.printAll
    infer_instance
  | printf dest path format args =>
    unfold Call.act Act.printf
    infer_instance
  | sprintf format args =>
    unfold Call.act Act.sprintf
    infer_instance
  | loadInt v => exact inferInstanceAs (Along Act.Coheres (keepNone (Act.loadInt v)))
  | storeInt v n => exact inferInstanceAs (Along Act.Coheres (keepNone (Act.storeInt v n)))
  | loadStr v => exact inferInstanceAs (Along Act.Coheres (keepNone (Act.loadStr v)))
  | storeStr v s => exact inferInstanceAs (Along Act.Coheres (keepNone (Act.storeStr v s)))
  | loadMap v => exact inferInstanceAs (Along Act.Coheres (keepNone (Act.loadMap v)))
  | storeMap v m => exact inferInstanceAs (Along Act.Coheres (keepNone (Act.storeMap v m)))
  | flush => exact inferInstanceAs (Along Act.Coheres (keepNone (Act.onRecords Records.flush)))
  | close => exact inferInstanceAs (Along Act.Coheres (keepNone Act.close))

theorem Reachable.coherent {c : Context} (h : Reachable c) : ∃ longest, Coherent longest c.patterns := by
  induction h with
  | start s world => exact ⟨s.longest, rfl, fun key p hp => by cases hp⟩
  | call x _ _ ih =>
    obtain ⟨longest, hc⟩ := ih
    have hx : Along Act.Coheres x.act := inferInstance
    exact ⟨longest, hx.along _ longest hc⟩
  | use d _ _ ih => exact ih
  | outside world _ ih => exact ih

end Ownership

/-! ## Separators that do not split -/

namespace FieldList

/-- The separator is a pattern, and it does not compile. -/
structure Unfit (longest : Bool) (separator : Bytes) : Prop where
  nonempty : separator ≠ []
  space : separator ≠ [32]
  single : ∀ c, separator = [c] → c = 92
  fails : ∃ e, Pattern.compile longest separator = .error e

theorem pieces?_eq_none {s separator : Bytes} :
    pieces? longest s separator = none ↔ s ≠ [] ∧ Unfit longest separator := by
  have hpattern : pieces?.byPattern longest s separator = none ↔ ∃ e, Pattern.compile longest separator = .error e := by
    unfold pieces?.byPattern
    cases Pattern.compile longest separator <;> simp [Except.toOption]
  unfold pieces?
  by_cases hs : s = []
  · simp [hs]
  rw [if_neg (by simpa using hs)]
  by_cases hspace : separator = [32]
  · rw [if_pos hspace]
    exact iff_of_false (Option.some_ne_none _) fun h => h.2.space hspace
  rw [if_neg hspace]
  rcases separator with _ | ⟨c, _ | ⟨d, rest⟩⟩
  · exact iff_of_false (Option.some_ne_none _) fun h => h.2.nonempty rfl
  · dsimp only
    by_cases hc : c = 92
    · rw [if_pos hc, hpattern]
      exact ⟨fun he => ⟨hs, List.cons_ne_nil _ _, hspace, fun d hd => by cases hd; exact hc, he⟩, fun h => h.2.fails⟩
    · rw [if_neg hc]
      exact iff_of_false (Option.some_ne_none _) fun h => hc (h.2.single c rfl)
  · exact hpattern.trans ⟨fun he => ⟨hs, List.cons_ne_nil _ _, hspace, fun e he => (by cases he), he⟩,
      fun h => h.2.fails⟩

theorem split_of_unfit (h : Coherent longest r.patterns) {s separator : Bytes} (hs : s ≠ [])
    (hunfit : Unfit longest separator) :
    Records.split s separator r = (.error .pattern, r) := by
  obtain ⟨e, he⟩ := hunfit.fails
  have hpattern : Records.split.byPattern s separator r = (.error .pattern, r) := by
    have hsplit : r.patterns.split separator s = .error e := by
      unfold Pattern.Patterns.split
      rw [h.get_error he]
      rfl
    simp only [Records.split.byPattern, bind, StateT.bind, get, getThe, MonadStateOf.get, StateT.get, pure, hsplit,
      StateT.pure]
  unfold Records.split
  rw [if_neg (by simpa using hs), if_neg hunfit.space]
  match separator, hunfit with
  | [], hunfit => exact absurd rfl hunfit.nonempty
  | [c], hunfit =>
    dsimp only
    rw [if_pos (hunfit.single c rfl)]
    exact hpattern
  | _ :: _ :: _, _ => exact hpattern

theorem setRecord_of_unfit (h : Coherent longest r.patterns) {fs line : Bytes} (hline : line ≠ [])
    (hunfit : Unfit longest fs) :
    Records.setRecord fs line r = (-1, { r with line, noted := ⟨.fieldSplitting, .pattern⟩ :: r.noted }) := by
  have hsplit := split_of_unfit (r := { r with line }) h hline hunfit
  simp only [Records.setRecord, bind, StateT.bind, modify, modifyGet, MonadStateOf.modifyGet, StateT.modifyGet,
    pure, hsplit]
  rfl

/-! ## What a failed split leaves behind -/

variable {c : Context} {fs t : Bytes}

theorem setColumn_of_unfit (hc : Coherent longest c.patterns) (hfs : c.heap.string c.fs = .ok fs)
    (hunfit : Unfit longest fs) (ht : t ≠ []) {s : Packed} (hs : c.heap.string s = .ok t) :
    Act.setColumn 0 s c = (.ok (), { c with line := t, noted := ⟨.fieldSplitting, .pattern⟩ :: c.noted }) := by
  have hseparator : Act.fieldSeparator c = (.ok fs, c) := (Act.bind_ok (Act.get_ok c)).trans (Act.look_ok hfs)
  have hline : Act.bytes s c = (.ok t, c) := Act.look_ok hs
  unfold Act.setColumn
  rw [if_pos rfl, Act.bind_ok hline, Act.bind_ok hseparator]
  exact (Act.bind_ok (Act.onRecords_eq (setRecord_of_unfit hc ht hunfit))).trans rfl

/-- Beyond what the records make of it, a call for the next record changes the heap and the file name only. -/
theorem nextLine_of_answer {held : UInt64 → Nat} (b : c.Books held) (hfs : c.heap.string c.fs = .ok fs) {n : Int64}
    {r' : Records} (hanswer : Records.answer (Records.nextLine fs c.toRecords) = (n, r'))
    (hsize : (Act.nextLine c).2.heap.slots.size < UInt64.size) :
    ∃ c', Act.nextLine c = (.ok n, c') ∧ c'.toRecords = r' := by
  have hseparator : Act.fieldSeparator c = (.ok fs, c) := (Act.bind_ok (Act.get_ok c)).trans (Act.look_ok hfs)
  rcases hnext : Records.nextLine fs c.toRecords with ⟨⟨m, names⟩, r₁⟩
  rw [hnext] at hanswer
  cases hanswer
  obtain ⟨c₁, hc₁⟩ : ∃ c₁ : Context, c₁ = { c with toRecords := r₁ } := ⟨_, rfl⟩
  have hrun : Act.nextLine c = (names.forM Act.takeName >>= fun _ => pure m) c₁ :=
    hc₁ ▸ (Act.bind_ok hseparator).trans (Act.bind_ok (Act.onRecords_eq hnext))
  have b₁ : c₁.Books held := hc₁ ▸ ⟨b.orderly, b.count⟩
  have hroom : (names.forM Act.takeName c₁).2.heap.slots.size < UInt64.size := by
    rcases hnames : names.forM Act.takeName c₁ with ⟨e | _, c'⟩
    · rwa [hrun, Act.bind_error hnames] at hsize
    · rwa [hrun, Act.bind_ok hnames] at hsize
  obtain ⟨c', hnames, -⟩ := Act.takeNames_books names b₁ hroom
  have hsame : Along SameRecords (names.forM Act.takeName) := inferInstance
  have hrecords := hsame.along c₁
  rw [hnames] at hrecords
  exact ⟨c', hrun.trans ((Act.bind_ok hnames).trans rfl), hrecords.trans (hc₁ ▸ rfl)⟩

theorem nextLine_of_unfit (hc : Ownership.Reachable c) (hpatterns : Coherent longest c.patterns)
    (hfs : c.heap.string c.fs = .ok fs) (hunfit : Unfit longest fs) (ht : t ≠ []) {i : Input}
    (hi : Input.next c.world.disk ⟨c.reader, c.inputs⟩ = (.record t, i))
    (hsize : (Act.nextLine c).2.heap.slots.size < UInt64.size) : ∃ c', Act.nextLine c = (.ok (-1), c')
      ∧ c'.toRecords = { c.toRecords with
        reader := i.reader, inputs := i.names, nr := c.nr + 1, line := t,
          noted := ⟨.fieldSplitting, .pattern⟩ :: c.noted } := by
  obtain ⟨held, b⟩ := hc.books
  refine nextLine_of_answer b hfs ?_ hsize
  rw [Records.answer_nextLine, hi]
  exact setRecord_of_unfit
    (r := { c.toRecords with reader := i.reader, inputs := i.names, nr := c.nr + 1 }) hpatterns ht hunfit

/-- A record that cannot be split, because the separator is a pattern that does not compile, leaves the fields and their
number as they were, and one failure is noted. The line becomes the new one, whether it was assigned or read. -/
theorem failed_split_keeps_fields (hc : Ownership.Reachable c) (hfs : c.heap.string c.fs = .ok fs)
    (hfails : pieces? c.patterns.longest t fs = none) :
    (∀ s, c.heap.string s = .ok t →
      Act.setColumn 0 s c = (.ok (), { c with line := t, noted := ⟨.fieldSplitting, .pattern⟩ :: c.noted }))
    ∧ ∀ i, Input.next c.world.disk ⟨c.reader, c.inputs⟩ = (.record t, i) →
      (Act.nextLine c).2.heap.slots.size < UInt64.size →
      ∃ c', Act.nextLine c = (.ok (-1), c') ∧ c'.toRecords = { c.toRecords with
        reader := i.reader, inputs := i.names, nr := c.nr + 1, line := t,
            noted := ⟨.fieldSplitting, .pattern⟩ :: c.noted } := by
  obtain ⟨longest, hpatterns⟩ := hc.coherent
  rw [hpatterns.mode] at hfails
  obtain ⟨ht, hunfit⟩ := pieces?_eq_none.1 hfails
  exact ⟨fun s hs => setColumn_of_unfit hpatterns hfs hunfit ht hs,
    fun i hi hsize => nextLine_of_unfit hc hpatterns hfs hunfit ht hi hsize⟩

/-- The field separator is an unclosed group, and one record can be read. -/
def unclosed : Context := Context.ofSettings { fs := text "((", input := some (text "ab\n") } {}

theorem unfit_unclosed : pieces? unclosed.patterns.longest (text "ab") (text "((") = none := by decide +kernel

/-- Nothing was read before, so that there are no fields. -/
theorem failed_split_keeps_fields_unclosed :
    Ownership.Reachable unclosed ∧ unclosed.heap.string unclosed.fs = .ok (text "((")
    ∧ pieces? unclosed.patterns.longest (text "ab") (text "((") = none
    ∧ (Act.nextLine unclosed).2.heap.slots.size < UInt64.size
    ∧ (∃ c', Act.setColumn 0 (.inline (text "ab")) unclosed = (.ok (), c') ∧ c'.nf = 0 ∧ c'.line = text "ab"
      ∧ c'.noted.length = 1)
    ∧ ∃ c', Act.nextLine unclosed = (.ok (-1), c') ∧ c'.nf = 0 ∧ c'.nr = 1 ∧ c'.line = text "ab"
    ∧ c'.noted.length = 1 := by
  have hreach : Ownership.Reachable unclosed := .start _ _
  have hfs : unclosed.heap.string unclosed.fs = .ok (text "((") := rfl
  have hsize : (Act.nextLine unclosed).2.heap.slots.size < UInt64.size := by decide +kernel
  obtain ⟨hset, hnext⟩ := failed_split_keeps_fields hreach hfs unfit_unclosed
  obtain ⟨c', hrun, hrecords⟩ := hnext _ rfl hsize
  have hfields : ∀ {α : Type} (f : Records → α), f c'.toRecords = f _ := fun f => congrArg f hrecords
  exact ⟨hreach, hfs, unfit_unclosed, hsize, ⟨_, hset _ rfl, rfl, rfl, rfl⟩, c', hrun, hfields (·.nf), hfields (·.nr),
    hfields (·.line),
    hfields (·.noted.length)⟩

/-- So the line is not what it was. -/
theorem failed_split_replaces_line : ¬ ∀ c, Ownership.Reachable c → ∀ fs t s, c.heap.string c.fs = .ok fs →
    pieces? c.patterns.longest t fs = none → c.heap.string s = .ok t → (Act.setColumn 0 s c).2.line = c.line := by
  intro hkept
  have hline := hkept unclosed (.start _ _) (text "((") (text "ab") (.inline (text "ab")) rfl unfit_unclosed rfl
  exact absurd hline (by decide +kernel)

end FieldList

end RecordMill

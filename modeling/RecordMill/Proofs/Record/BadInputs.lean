import RecordMill.Proofs.Record.FailedSplit

/-!
# Inputs that cannot be read

Main statement: `calls_follow_inputs`. An input that cannot be opened takes one call, which fails, and the inputs after
it follow. An input that breaks off while it is read is never left: every later call meets the same failure. -/

namespace RecordMill.BadInputs

open FieldList (Coming Input Coherent pieces? Unfit)
open MainInput (Named after)
open Reader (Gives found lines linesUpTo gathered_line)

/-! ## What is to come -/

inductive Event where
  | line (s : Bytes)
  | refused (e : Failure)

def Event.coming : Event → Coming
  | .line s => .record s
  | .refused e => .failure e

/-- What one call after another comes to, and the failure that all calls after these meet, if there is one. -/
structure Course where
  events : List Event := []
  stuck : Option Failure := none

namespace Course

def last (x : Course) : Coming := x.stuck.elim .nothing .failure

def nth (x : Course) (k : Nat) : Coming := x.events[k]?.elim x.last Event.coming

def drop (x : Course) (k : Nat) : Course := { x with events := x.events.drop k }

/-- Unless something broke it off, a text is followed by what comes next. -/
def ofText (s : Bytes) (e : Option Failure) (next : Course) : Course :=
  match e with
  | none => { next with events := (linesUpTo s none).map .line ++ next.events }
  | some e => { events := (linesUpTo s (some e)).map .line, stuck := some e }

def ofNames (d : Disk) : List Bytes → Course
  | [] => {}
  | name :: names => match found d name with
    | .error e => { ofNames d names with events := .refused e :: (ofNames d names).events }
    | .ok out => ofText out.text out.failure (ofNames d names)

def ofSettings (s : Settings) (d : Disk) : Course :=
  match s.input with
  | some given => ofText given none {}
  | none => ofNames d s.args

/-- What a single input comes to when nothing breaks it off. -/
def ofName (d : Disk) (name : Bytes) : List Event :=
  match found d name with
  | .error e => [.refused e]
  | .ok out => (lines out.text).map .line

/-- Nothing breaks off these inputs while they are read; some of them may be impossible to open. -/
def Whole (d : Disk) (names : List Bytes) : Prop := ∀ name ∈ names, ∀ out, found d name = .ok out → out.failure = none

variable {s : Bytes} {e : Option Failure} {next : Course}

theorem ofText_end (h : linesUpTo s e = []) : ofText s e next = e.elim next fun e => { stuck := some e } := by
  cases e with
  | none =>
    rw [ofText, h]
    rfl
  | some e =>
    rw [ofText, h]
    rfl

theorem ofText_line {t rest : Bytes} (h : linesUpTo s e = t :: linesUpTo rest e) :
    ofText s e next = { ofText rest e next with events := .line t :: (ofText rest e next).events } := by
  cases e with
  | none =>
    rw [ofText, h]
    rfl
  | some e =>
    rw [ofText, h]
    rfl

theorem ofNames_append {d : Disk} {before : List Bytes} (h : Whole d before) (later : List Bytes) :
    ofNames d (before ++ later)
    = { ofNames d later with events := before.flatMap (ofName d) ++ (ofNames d later).events } := by
  induction before with
  | nil => rfl
  | cons name before ih =>
    have hrest := ih fun n hn => h n (List.mem_cons_of_mem _ hn)
    rw [List.cons_append, ofNames, List.flatMap_cons, hrest, ofName]
    cases hfound : found d name with
    | error e => rfl
    | ok out =>
      dsimp only
      rw [h name List.mem_cons_self out hfound, ofText, List.append_assoc]
      rfl

theorem ofNames_whole {d : Disk} {names : List Bytes} (h : Whole d names) :
    ofNames d names = { events := names.flatMap (ofName d) } := by
  have happend := ofNames_append h []
  rw [List.append_nil] at happend
  rw [happend]
  exact congrArg (fun events => ({ events } : Course)) (List.append_nil _)

theorem ofNames_broken {d : Disk} {before : List Bytes} (h : Whole d before) {name : Bytes} {out : Readout}
    {e : Failure} (hout : found d name = .ok out) (he : out.failure = some e) (later : List Bytes) :
    ofNames d (before ++ name :: later)
      = { events := before.flatMap (ofName d) ++ (linesUpTo out.text (some e)).map .line, stuck := some e } := by
  rw [ofNames_append h, ofNames, hout]
  dsimp only
  rw [he]
  rfl

end Course

open Course (ofText ofNames ofSettings ofName Whole)

/-! ## The input -/

variable {d : Disk} {x : Course}

def Remains (d : Disk) (i : Input) (x : Course) : Prop :=
  match i.reader with
  | none => x = ofNames d i.names
  | some r => ∃ s e, r.Gives d s e ∧ x = ofText s e (ofNames d i.names)

def Comes (d : Disk) (x : Course) (result : Coming × Input) : Prop := result.1 = x.nth 0 ∧ Remains d result.2 (x.drop 1)

theorem comes_ofReader {r : Reader} {s : Bytes} {e : Option Failure} {names : List Bytes} {next : Coming × Input}
    (hgives : r.Gives d s e) (hnext : Comes d (ofNames d names) next) :
    Comes d (ofText s e (ofNames d names)) (Input.ofReader d r names next) := by
  have hgathered := gathered_line hgives
  unfold Input.ofReader
  rcases hline : r.line d with ⟨result, r'⟩
  rw [hline] at hgathered
  obtain ⟨hnil, hresult, hrest⟩ | ⟨t, rest, hresult, hcons, hrest⟩ := hgathered
  · rw [Course.ofText_end hnil]
    cases e with
    | none =>
      obtain rfl : result = .ok none := hresult
      exact hnext
    | some e =>
      -- The reader stays in its place.
      obtain rfl : result = .error e := hresult
      exact ⟨rfl, [], some e, hrest, rfl⟩
  · obtain rfl : result = .ok (some t) := hresult
    rw [Course.ofText_line hcons]
    exact ⟨rfl, rest, e, hrest, rfl⟩

theorem comes_ofFiles (d : Disk) (names : List Bytes) : Comes d (ofNames d names) (Input.ofFiles d names) := by
  induction names with
  | nil => exact ⟨rfl, rfl⟩
  | cons name names ih =>
    have hopened := Reader.openFile_found d name
    unfold ofNames Input.ofFiles
    cases hfound : found d name with
    | error e =>
      rw [hfound] at hopened
      rw [hopened]
      exact ⟨rfl, rfl⟩
    | ok out =>
      rw [hfound] at hopened
      obtain ⟨r, hopen, hgives⟩ := hopened
      rw [hopen]
      exact comes_ofReader hgives ih

theorem comes_next {i : Input} (h : Remains d i x) : Comes d x (Input.next d i) := by
  obtain ⟨reader, names⟩ := i
  cases reader with
  | none =>
    obtain rfl : x = ofNames d names := h
    exact comes_ofFiles d names
  | some r =>
    obtain ⟨s, e, hgives, rfl⟩ := h
    exact comes_ofReader hgives (comes_ofFiles d names)

/-! ## Calls -/

variable {longest : Bool} {fs : Bytes} {r r' : Records} {a : Int64}

def Splits (r : Records) (a : Int64) (r' : Records) : Option (List Bytes) → Prop
  | some parts => a = 1 ∧ r'.fields = .ofList parts ∧ r'.nf = Int64.ofNat parts.length ∧ r'.noted = r.noted
  | none => a = -1 ∧ r'.fields = r.fields ∧ r'.nf = r.nf ∧ r'.noted = ⟨.fieldSplitting, .pattern⟩ :: r.noted

/-- What a call answers and leaves behind. A line that cannot be split is the record all the same. -/
def Answers (longest : Bool) (fs : Bytes) (r : Records) (a : Int64) (r' : Records) : Coming → Prop
  | .record s => r'.line = s ∧ r'.nr = r.nr + 1 ∧ Splits r a r' (pieces? longest s fs)
  | .nothing => a = 0 ∧ r'.line = r.line ∧ r'.nr = r.nr ∧ r'.fields = r.fields ∧ r'.nf = r.nf ∧ r'.noted = r.noted
  | .failure e => a = -1 ∧ r'.line = r.line ∧ r'.nr = r.nr ∧ r'.fields = r.fields ∧ r'.nf = r.nf
    ∧ r'.noted = ⟨.nextLine, e⟩ :: r.noted

theorem receive_answers (h : Coherent longest r.patterns) (coming : Coming) (i : Input) :
    ∃ a r', Records.receive fs (coming, i) r = (a, r') ∧ Answers longest fs r a r' coming
      ∧ r'.reader = i.reader ∧ r'.inputs = i.names ∧ r'.world = r.world ∧ Coherent longest r'.patterns := by
  cases coming with
  | nothing => exact ⟨_, _, rfl, ⟨rfl, rfl, rfl, rfl, rfl, rfl⟩, rfl, rfl, rfl, h⟩
  | failure e => exact ⟨_, _, rfl, ⟨rfl, rfl, rfl, rfl, rfl, rfl⟩, rfl, rfl, rfl, h⟩
  | record s =>
    have hcounted : Coherent longest
      ({ r with reader := i.reader, inputs := i.names, nr := r.nr + 1 } : Records).patterns := h
    cases hparts : pieces? longest s fs with
    | some parts =>
      obtain ⟨ps, hps, hset⟩ := MainInput.setRecord hcounted hparts
      exact ⟨_, _, hset, ⟨rfl, rfl, hparts ▸ ⟨rfl, rfl, rfl, rfl⟩⟩, rfl, rfl, rfl, hps⟩
    | none =>
      obtain ⟨hne, hunfit⟩ := FieldList.pieces?_eq_none.1 hparts
      exact ⟨_, _, FieldList.setRecord_of_unfit hcounted hne hunfit, ⟨rfl, rfl, hparts ▸ ⟨rfl, rfl, rfl, rfl⟩⟩, rfl,
        rfl, rfl, h⟩

/-- The records, the reader and the names are where the course has got to. -/
structure Follows (longest : Bool) (d : Disk) (fs : Bytes) (x : Course) (c : Context) : Prop where
  disk : c.world.disk = d
  patterns : Coherent longest c.patterns
  remains : Remains d ⟨c.reader, c.inputs⟩ x
  named : ∃ name, Named fs name c

theorem Follows.step {c : Context} (h : Follows longest d fs x c) : ∃ a c', Act.nextLine c = (.ok a, c')
    ∧ Answers longest fs c.toRecords a c'.toRecords (x.nth 0) ∧ Follows longest d fs (x.drop 1) c' := by
  obtain ⟨name, hnamed⟩ := h.named
  obtain ⟨hcoming, hremains⟩ := comes_next h.remains
  obtain ⟨a, r', hreceive, hanswers, hreader, hinputs, hworld, hpatterns⟩ :=
    @receive_answers longest fs c.toRecords h.patterns
    (Input.next d ⟨c.reader, c.inputs⟩).1 (Input.next d ⟨c.reader, c.inputs⟩).2
  have hanswer : Records.answer (Records.nextLine fs c.toRecords) = (a, r') := by
    rw [Records.answer_nextLine, h.disk]
    exact hreceive
  rcases hnext : Records.nextLine fs c.toRecords with ⟨⟨a', opened⟩, r₁⟩
  rw [hnext] at hanswer
  cases hanswer
  have hrecords := Act.onRecords_eq hnext
  obtain ⟨c', hrun, hsame, hnamed'⟩ := Named.rename_all (c := { c with toRecords := r₁ }) hnamed opened
  dsimp only at hsame hnamed'
  refine ⟨a', c', ?_, ?_, ?_, ?_, ?_, opened.getLastD name, hnamed'⟩
  · unfold Act.nextLine
    rw [Act.bind_ok hnamed.fieldSeparator, Act.bind_ok hrecords]
    exact (Act.bind_ok hrun).trans rfl
  · rw [hsame, ← hcoming]
    exact hanswers
  · rw [hsame, hworld, h.disk]
  · rw [hsame]
    exact hpatterns
  · rw [hsame, hreader, hinputs]
    exact hremains

/-! ## Whole runs -/

theorem follows_start (s : Settings) (w : World) :
    Follows s.longest w.disk (Settings.orElse s.fs " ") (ofSettings s w.disk) (Context.ofSettings s w) := by
  refine ⟨rfl, ⟨rfl, fun key p h => by cases h⟩, ?_, [], Named.start s w⟩
  show Remains w.disk ⟨(s.records w).reader, (s.records w).inputs⟩ _
  unfold ofSettings Settings.records
  cases s.input with
  | none => exact rfl
  | some given => exact ⟨given, none, .ofText rfl rfl rfl, rfl⟩

theorem follows_after {c : Context} (h : Follows longest d fs x c) (k : Nat) :
    Follows longest d fs (x.drop k) (after c k) := by
  induction k with
  | zero => exact h
  | succ k ih =>
    obtain ⟨a, c', hrun, -, hfollows⟩ := ih.step
    have hdrop : (x.drop k).drop 1 = x.drop (k + 1) := by simp [Course.drop]
    rw [after, hrun, ← hdrop]
    exact hfollows

theorem Follows.nth {c : Context} (h : Follows longest d fs x c) (k : Nat) : ∃ a, (Act.nextLine (after c k)).1 = .ok a
    ∧ Answers longest fs (after c k).toRecords a (after c (k + 1)).toRecords (x.nth k) := by
  obtain ⟨a, c', hrun, hanswers, -⟩ := (follows_after h k).step
  have hnth : (x.drop k).nth 0 = x.nth k := by simp [Course.drop, Course.nth, Course.last]
  rw [after, hrun, ← hnth]
  exact ⟨a, rfl, hanswers⟩

/-- The `k`-th call comes to the `k`-th event of the inputs. When nothing breaks them off, these are the lines of each
input that can be opened and one failure for each that cannot, in the order of the inputs, and all later calls answer 0.
An input that is broken off is the last one: its whole lines come, and all later calls meet the failure. -/
theorem calls_follow_inputs (s : Settings) (w : World) :
    (∀ k, ∃ a, (Act.nextLine (after (Context.ofSettings s w) k)).1 = .ok a
      ∧ Answers s.longest (Settings.orElse s.fs " ") (after (Context.ofSettings s w) k).toRecords a
        (after (Context.ofSettings s w) (k + 1)).toRecords ((ofSettings s w.disk).nth k))
    ∧ (s.input = none → Whole w.disk s.args → ofSettings s w.disk = { events := s.args.flatMap (ofName w.disk) })
    ∧ (s.input = none → ∀ before name later out e, s.args = before ++ name :: later → Whole w.disk before →
      found w.disk name = .ok out → out.failure = some e →
        ofSettings s w.disk
          = { events := before.flatMap (ofName w.disk) ++ (linesUpTo out.text (some e)).map .line,
              stuck := some e }) := by
  have hnames : s.input = none → ofSettings s w.disk = ofNames w.disk s.args := by
    intro hinput
    rw [ofSettings, hinput]
  refine ⟨(follows_start s w).nth, fun hinput hwhole => ?_,
    fun hinput before name later out e hargs hwhole hout he => ?_⟩
  · rw [hnames hinput, Course.ofNames_whole hwhole]
  · rw [hnames hinput, hargs, Course.ofNames_broken hwhole hout he]

def someWorld : World := { disk := .ofEntries [(text "d/", []), (text "f", text "x\n")] }

def missingFirst : Settings := { args := [text "gone", text "f"] }

def directoryFirst : Settings := { args := [text "d", text "f"] }

theorem whole_missingFirst : Whole someWorld.disk missingFirst.args := by
  intro name hname out hout
  obtain rfl | rfl : name = text "gone" ∨ name = text "f" := by simpa [missingFirst] using hname
  · exact absurd hout nofun
  · obtain rfl : { text := text "x\n" } = out := Except.ok.inj hout
    rfl

theorem directoryFirst_stuck :
    ofSettings directoryFirst someWorld.disk = { stuck := some (.read (text "d") .isDirectory) } := rfl

/-- The missing file takes the first call, the second one reads the line, and the third one is at the end. -/
theorem calls_follow_inputs_past_missing : Whole someWorld.disk missingFirst.args
    ∧ (∃ a, (Act.nextLine (after (Context.ofSettings missingFirst someWorld) 0)).1 = .ok a
      ∧ Answers true [32] (after (Context.ofSettings missingFirst someWorld) 0).toRecords a
        (after (Context.ofSettings missingFirst someWorld) 1).toRecords (.failure (.openRead (text "gone") .notFound)))
    ∧ (∃ a, (Act.nextLine (after (Context.ofSettings missingFirst someWorld) 1)).1 = .ok a
      ∧ Answers true [32] (after (Context.ofSettings missingFirst someWorld) 1).toRecords a
        (after (Context.ofSettings missingFirst someWorld) 2).toRecords (.record (text "x")))
    ∧ (∃ a, (Act.nextLine (after (Context.ofSettings missingFirst someWorld) 2)).1 = .ok a
      ∧ Answers true [32] (after (Context.ofSettings missingFirst someWorld) 2).toRecords a
        (after (Context.ofSettings missingFirst someWorld) 3).toRecords .nothing)
    ∧ ofSettings directoryFirst someWorld.disk = { stuck := some (.read (text "d") .isDirectory) } := by
  obtain ⟨hcalls, hwhole, -⟩ := calls_follow_inputs missingFirst someWorld
  have hcourse : ofSettings missingFirst someWorld.disk
      = { events := [.refused (.openRead (text "gone") .notFound), .line (text "x")] } := hwhole rfl whole_missingFirst
  rw [hcourse] at hcalls
  refine ⟨whole_missingFirst, hcalls 0, hcalls 1, hcalls 2, ?_⟩
  exact (calls_follow_inputs directoryFirst someWorld).2.2 rfl [] (text "d") [text "f"]
    { failure := some (.read (text "d") .isDirectory) } _ rfl nofun rfl rfl

/-- Behind a directory the end of the input is never reached. -/
theorem directory_hides_rest : ¬ ∀ (s : Settings) (w : World), s.input = none →
    ∃ k, (Act.nextLine (after (Context.ofSettings s w) k)).1 = .ok 0 := by
  intro hends
  obtain ⟨k, hend⟩ := hends directoryFirst someWorld rfl
  obtain ⟨a, hcall, hanswers⟩ := (follows_start directoryFirst someWorld).nth k
  have hnth : (ofSettings directoryFirst someWorld.disk).nth k = .failure (.read (text "d") .isDirectory) := by
    rw [directoryFirst_stuck]
    rfl
  rw [hnth] at hanswers
  obtain ⟨rfl, -⟩ := hanswers
  rw [hcall] at hend
  exact absurd (Except.ok.inj hend) (by decide)

end RecordMill.BadInputs

import RecordMill.Proofs.Host.Lines
import RecordMill.Proofs.Record.FieldList
import RecordMill.Proofs.Record.Owners

/-!
# The main input is read line by line

Asking for one record after another goes through the lines of all inputs, in order and to the end. A file that is
missing takes one call, which fails.
-/

namespace RecordMill.MainInput

open FieldList (Coherent pieces? split_eq)

/-! ## What there is to read -/

/-- What a call for the next record comes to. -/
inductive Event where
  | line (name s : Bytes)
  | missing (name : Bytes) (cause : PathError)

/-- The name of a regular file that needs no unpacking, or of nothing. -/
inductive Readable (d : Disk) (name : Bytes) : Prop where
  | file {l : Location} (h : d.openRead name = .ok (.file l)) (hxz : ¬ text ".xz" <:+ name)
      (hlz4 : ¬ text ".lz4" <:+ name)
  | missing {cause : PathError} (h : d.openRead name = .error cause)

def ofFile (d : Disk) (name : Bytes) : List Event :=
  match d.openRead name with
  | .ok (.file l) => (Reader.lines ((d.content? l).getD [])).map (.line name)
  | .ok _ => []
  | .error cause => [.missing name cause]

def ofFiles (d : Disk) (names : List Bytes) : List Event := names.flatMap (ofFile d)

def ofSettings (s : Settings) (d : Disk) : List Event :=
  match s.input with
  | some given => (Reader.lines given).map (.line [])
  | none => ofFiles d s.args

theorem ofFile_file {d : Disk} {name : Bytes} {l : Location} (h : d.openRead name = .ok (.file l)) :
    ofFile d name = (Reader.lines ((d.content? l).getD [])).map (.line name) := by
  unfold ofFile
  rw [h]

theorem ofFile_missing {d : Disk} {name : Bytes} {cause : PathError} (h : d.openRead name = .error cause) :
    ofFile d name = [.missing name cause] := by
  unfold ofFile
  rw [h]

def Splits (longest : Bool) (fs : Bytes) (events : List Event) : Prop :=
  ∀ name s, .line name s ∈ events → ∃ parts, pieces? longest s fs = some parts

def Happens (r : Records) : Option Event → Int64 → Records → Prop
  | some (.line _ s), a, r' => a = 1 ∧ r'.nr = r.nr + 1 ∧ r'.line = s ∧ r'.noted = r.noted
  | some (.missing name cause), a, r' =>
    a = -1 ∧ r'.nr = r.nr ∧ r'.line = r.line ∧ r'.noted = ⟨.nextLine, .openRead name cause⟩ :: r.noted
  | none, a, r' => a = 0 ∧ r'.nr = r.nr ∧ r'.line = r.line ∧ r'.noted = r.noted

/-! ## Records -/

variable {longest : Bool} {d : Disk} {fs : Bytes} {r : Records} {events : List Event}

/-- What was opened last has this name, and these events are to come. -/
structure Ahead (longest : Bool) (d : Disk) (name : Bytes) (events : List Event) (r : Records) : Prop where
  disk : r.world.disk = d
  patterns : Coherent longest r.patterns
  readable : ∀ n ∈ r.inputs, Readable d n
  events : ∃ s, (match r.reader with
    | some reader => reader.Yields d s
    | none => s = []) ∧ events = (Reader.lines s).map (.line name) ++ ofFiles d r.inputs

theorem setRecord (hpatterns : Coherent longest r.patterns) {s : Bytes} {parts : List Bytes}
    (hparts : pieces? longest s fs = some parts) :
    ∃ ps, Coherent longest ps ∧ Records.setRecord fs s r
      = (1, { r with line := s, patterns := ps, fields := .ofList parts, nf := Int64.ofNat parts.length }) := by
  obtain ⟨ps, hsplit, hps⟩ := split_eq (r := { r with line := s }) hpatterns hparts
  refine ⟨ps, hps, ?_⟩
  simp only [Records.setRecord, bind, StateT.bind, pure, StateT.pure, modify, modifyGet, MonadStateOf.modifyGet,
    StateT.modifyGet, hsplit]

theorem readRecord {reader : Reader} {s name : Bytes} (hyields : reader.Yields d s) (hdisk : r.world.disk = d)
    (hpatterns : Coherent longest r.patterns) (hsplits : Splits longest fs ((Reader.lines s).map (.line name)))
    (next : Recording (Int64 × List Bytes)) :
    (s = [] ∧ Records.readRecord fs reader next r = next { r with reader := none })
      ∨ ∃ t rest r', Reader.lines s = t :: Reader.lines rest ∧ Records.readRecord fs reader next r = ((1, []), r')
        ∧ Happens r (some (.line name t)) 1 r' ∧ r'.inputs = r.inputs ∧ r'.world = r.world
        ∧ Coherent longest r'.patterns
        ∧ ∃ reader', r'.reader = some reader' ∧ reader'.Yields d rest := by
  have hgathered := Reader.yields_line hyields
  rcases hline : reader.line d with ⟨result, reader'⟩
  rw [hline] at hgathered
  rcases hgathered with ⟨rfl, hresult⟩ | ⟨t, rest, hresult, hlines, hrest⟩
  · obtain rfl : result = .ok none := hresult
    refine .inl ⟨rfl, ?_⟩
    simp only [Records.readRecord, bind, StateT.bind, get, getThe, MonadStateOf.get, StateT.get, pure, hdisk,
      hline, modify,
      modifyGet, MonadStateOf.modifyGet, StateT.modifyGet]
  · obtain rfl : result = .ok (some t) := hresult
    obtain ⟨parts, hparts⟩ := hsplits name t (by simp [hlines])
    obtain ⟨ps, hps, hset⟩ := setRecord (r := { r with reader := some reader', nr := r.nr + 1 }) hpatterns hparts
    refine .inr ⟨t, rest, { r with
        reader := some reader'
        nr := r.nr + 1
        line := t
        patterns := ps
        fields := .ofList parts
        nf := Int64.ofNat parts.length }, hlines, ?_, ⟨rfl, rfl, rfl, rfl⟩, rfl, rfl, hps, reader', rfl, hrest⟩
    simp only [Records.readRecord, bind, StateT.bind, get, getThe, MonadStateOf.get, StateT.get, pure, hdisk,
      hline, modify,
      modifyGet, MonadStateOf.modifyGet, StateT.modifyGet, hset, StateT.pure]

/-- The answer to one call, the names of the files opened by it, and what is left to come. -/
def Reads (longest : Bool) (d : Disk) (current : Bytes) (events : List Event) (r : Records)
    (result : (Int64 × List Bytes) × Records) : Prop :=
  Happens r events.head? result.1.1 result.2 ∧ Ahead longest d (result.1.2.getLastD current) events.tail result.2
    ∧ ∀ name s, events.head? = some (.line name s) → result.1.2.getLastD current = name

theorem Happens.congr {r₁ r' : Records} {a : Int64} {event : Option Event} (h : Happens r₁ event a r')
    (hnr : r₁.nr = r.nr) (hline : r₁.line = r.line) (hnoted : r₁.noted = r.noted) : Happens r event a r' := by
  unfold Happens at h ⊢
  rwa [hnr, hline, hnoted] at h

theorem Reads.opened {r₁ : Records} {name current : Bytes} {result : (Int64 × List Bytes) × Records}
    (h : Reads longest d name events r₁ result) (hnr : r₁.nr = r.nr) (hline : r₁.line = r.line)
    (hnoted : r₁.noted = r.noted) :
    Reads longest d current events r ((result.1.1, name :: result.1.2), result.2) := by
  obtain ⟨hhappens, hahead, hname⟩ := h
  unfold Reads
  rw [List.getLastD_cons]
  exact ⟨hhappens.congr hnr hline hnoted, hahead, hname⟩

theorem openNext_nil (r : Records) : Records.openNext fs [] r = ((0, []), r) := rfl

theorem openNext_cons (name : Bytes) (names : List Bytes) (r : Records) : Records.openNext fs (name :: names) r
    = match Reader.openFile r.world.disk name with
      | .error e => ((-1, []), { r with inputs := names, noted := ⟨.nextLine, e⟩ :: r.noted })
      | .ok reader => match Records.readRecord fs reader (Records.openNext fs names) { r with inputs := names } with
        | ((n, opened), r) => ((n, name :: opened), r) := by
  simp only [Records.openNext, bind, StateT.bind, get, getThe, MonadStateOf.get, StateT.get, pure, modify, modifyGet,
    MonadStateOf.modifyGet, StateT.modifyGet]
  cases Reader.openFile r.world.disk name <;> rfl

theorem openNext (names : List Bytes) (current : Bytes) (hdisk : r.world.disk = d)
    (hpatterns : Coherent longest r.patterns) (hreadable : ∀ n ∈ names, Readable d n) (hinputs : r.inputs = names)
    (hreader : r.reader = none) (hsplits : Splits longest fs (ofFiles d names)) :
    Reads longest d current (ofFiles d names) r (Records.openNext fs names r) := by
  induction names generalizing r current with
  | nil =>
    refine ⟨⟨rfl, rfl, rfl, rfl⟩, ⟨hdisk, hpatterns, by simp [openNext_nil, hinputs], [], ?_, ?_⟩,
      fun _ _ h => by cases h⟩
    · rw [openNext_nil, hreader]
    · rw [openNext_nil, hinputs]
      rfl
  | cons name names ih =>
    have hrest : ∀ n ∈ names, Readable d n := fun n hn => hreadable n (List.mem_cons_of_mem _ hn)
    have hevents : ofFiles d (name :: names) = ofFile d name ++ ofFiles d names := List.flatMap_cons
    have hlater : Splits longest fs (ofFiles d names) := fun n s hs =>
      hsplits n s (hevents ▸ List.mem_append_right _ hs)
    rw [openNext_cons, hdisk]
    cases hreadable name List.mem_cons_self with
    | @missing cause h =>
      have hopen : Reader.openFile d name = .error (.openRead name cause) := by rw [Reader.openFile, h]
      rw [hevents, ofFile_missing h, hopen]
      exact ⟨⟨rfl, rfl, rfl, rfl⟩, ⟨hdisk, hpatterns, hrest, [], by rw [hreader], rfl⟩, fun _ _ h => by cases h⟩
    | file h hxz hlz4 =>
      obtain ⟨reader, hopen, hyields⟩ := Reader.yields_openFile h hxz hlz4
      have hlines : Splits longest fs ((Reader.lines _).map (.line name)) :=
        fun n s hs => hsplits n s (hevents ▸ List.mem_append_left _ (ofFile_file h ▸ hs))
      rw [hevents, ofFile_file h, hopen]
      dsimp only
      rcases readRecord (r := { r with inputs := names }) hyields hdisk hpatterns hlines (Records.openNext fs names)
        with ⟨hnil, hread⟩ | ⟨t, rest, r', hcons, hread, hhappens, hinputs', hworld, hpatterns', reader',
          hreader', hrest'⟩
      · -- An empty file yields nothing, and the next one is opened in the same call.
        rw [hread, hnil]
        have hnext := @ih { r with inputs := names, reader := none } name hdisk hpatterns hrest rfl rfl hlater
        exact hnext.opened rfl rfl rfl
      · rw [hread, hcons]
        refine ⟨hhappens, ⟨hworld ▸ hdisk, hpatterns', hinputs' ▸ hrest, rest, ?_, ?_⟩, fun n s hs => ?_⟩
        · rw [hreader']
          exact hrest'
        · rw [hinputs']
          rfl
        · cases hs
          rfl

theorem nextLine {current : Bytes} (h : Ahead longest d current events r) (hsplits : Splits longest fs events) :
    Reads longest d current events r (Records.nextLine fs r) := by
  obtain ⟨s, hs, rfl⟩ := h.events
  have hlines : Splits longest fs ((Reader.lines s).map (.line current)) :=
    fun n t ht => hsplits n t (List.mem_append_left _ ht)
  have hlater : Splits longest fs (ofFiles d r.inputs) := fun n t ht => hsplits n t (List.mem_append_right _ ht)
  simp only [Records.nextLine, bind, StateT.bind, get, getThe, MonadStateOf.get, StateT.get, pure]
  cases hreader : r.reader with
  | none =>
    simp only [hreader] at hs
    rw [hs]
    exact openNext r.inputs current h.disk h.patterns h.readable rfl hreader hlater
  | some reader =>
    simp only [hreader] at hs
    rcases readRecord hs h.disk h.patterns hlines (Records.openNext fs r.inputs)
      with ⟨rfl, hread⟩ | ⟨t, rest, r', hcons, hread, hhappens, hinputs', hworld, hpatterns', reader', hreader', hrest'⟩
    · dsimp only
      rw [hread]
      have hnext :=
        @openNext _ _ _ { r with reader := none } r.inputs current h.disk h.patterns h.readable rfl rfl hlater
      exact hnext
    · dsimp only
      rw [hread, hcons]
      refine ⟨hhappens, ⟨hworld ▸ h.disk, hpatterns', hinputs' ▸ h.readable, rest, ?_, ?_⟩, fun n s hs => ?_⟩
      · rw [hreader']
        exact hrest'
      · rw [hinputs']
        rfl
      · cases hs
        rfl

/-! ## The context -/

/-- Every variable owns what it holds, and these are the field separator and the name of the file. -/
def Named (fs name : Bytes) (c : Context) : Prop :=
  ∃ Γ T, c.heap.Ledger Γ T c.owners ∧ c.fs.Stands c.heap.literals Γ fs ∧ c.filename.Stands c.heap.literals Γ name

namespace Named

variable {c : Context} {name : Bytes}

theorem start (s : Settings) (w : World) : Named (Settings.orElse s.fs " ") [] (Context.ofSettings s w) := by
  obtain ⟨Γ, T, l, -, hfs, -⟩ := Context.Owns.start s w
  exact ⟨Γ, T, l, hfs, Packed.stands_empty ..⟩

theorem fieldSeparator (h : Named fs name c) : Act.fieldSeparator c = (.ok fs, c) := by
  obtain ⟨Γ, T, l, hfs, -⟩ := h
  have hbytes : c.heap.string c.fs = .ok fs := l.string hfs (.inr (by simp [Context.owners]))
  exact (Act.bind_ok (Act.get_ok c)).trans (Act.look_ok hbytes)

theorem filename (h : Named fs name c) : c.heap.string c.filename = .ok name := by
  obtain ⟨Γ, T, l, -, hname⟩ := h
  exact l.string hname (.inr (by simp [Context.owners]))

theorem rename (h : Named fs name c) (s : Bytes) :
    ∃ c', (do Act.setFilename (← Act.newStr s) : Act Unit) c = (.ok (), c')
    ∧ c'.toRecords = c.toRecords ∧ Named fs s c' := by
  obtain ⟨Γ, T, l, hfs, -⟩ := h
  have hmany : c.owners.length < Heap.maxOwners := by
    have hmax : Heap.maxOwners = 4611686018427387904 := rfl
    simp [Context.owners, hmax]
  obtain ⟨p, heap, Γ', hnew, l', hp, hsame, hliterals⟩ := l.newStr hmany s
  have hperm : (c.filename.handle :: ({ c with heap, filename := p } : Context).owners).Perm
      (p.handle :: c.owners) := by
    refine List.perm_iff_count.2 fun a => ?_
    simp only [Context.owners, List.count_cons]
    omega
  obtain ⟨heap', hdrop, l'', hliterals'⟩ := (l'.perm hperm).drop
  refine ⟨{ c with heap := heap', filename := p }, ?_, rfl, Γ', T, l'', ?_, ?_⟩
  · have hmade := Act.newStr_ok hnew
    have hplace : (modify fun c => { c with filename := p } : Act Unit) { c with heap }
        = (.ok (), { c with heap, filename := p }) := rfl
    rw [Act.bind_ok hmade]
    unfold Act.setFilename
    rw [Act.bind_ok (Act.get_ok _), Act.bind_ok hplace]
    exact Act.change_ok (g := (·.dropStr c.filename)) (c := { c with heap, filename := p }) hdrop
  · rw [hliterals', hliterals]
    exact hfs.mono (hsame _ (by simp [Context.owners]))
  · rw [hliterals']
    exact hp

theorem rename_all (h : Named fs name c) (names : List Bytes) :
    ∃ c', (names.forM fun name => do Act.setFilename (← Act.newStr name)) c = (.ok (), c')
      ∧ c'.toRecords = c.toRecords ∧ Named fs (names.getLastD name) c' := by
  induction names generalizing c name with
  | nil => exact ⟨c, rfl, rfl, h⟩
  | cons n names ih =>
    obtain ⟨c₁, hrun₁, hrecords₁, h₁⟩ := h.rename n
    obtain ⟨c', hrun, hrecords, h'⟩ := ih h₁
    refine ⟨c', (Act.bind_ok hrun₁).trans hrun, hrecords.trans hrecords₁, ?_⟩
    rw [List.getLastD_cons]
    exact h'

end Named

def Follows (longest : Bool) (d : Disk) (fs : Bytes) (events : List Event) (c : Context) : Prop :=
  ∃ name, Ahead longest d name events c.toRecords ∧ Named fs name c

theorem Follows.step {c : Context} (h : Follows longest d fs events c) (hsplits : Splits longest fs events) :
    ∃ a c', Act.nextLine c = (.ok a, c') ∧ Happens c.toRecords events.head? a c'.toRecords
      ∧ (∀ name s, events.head? = some (.line name s) → c'.heap.string c'.filename = .ok name)
      ∧ Follows longest d fs events.tail c' := by
  obtain ⟨name, hahead, hnamed⟩ := h
  have hreads := nextLine hahead hsplits
  rcases hnext : Records.nextLine fs c.toRecords with ⟨⟨a, opened⟩, r⟩
  rw [hnext] at hreads
  obtain ⟨hhappens, htail, hname⟩ := hreads
  have hrecords := Act.onRecords_eq hnext
  obtain ⟨c', hrun, hsame, hnamed'⟩ := Named.rename_all (c := { c with toRecords := r }) hnamed opened
  dsimp only at hhappens htail hname
  refine ⟨a, c', ?_, ?_, fun n s hs => ?_, opened.getLastD name, ?_, hnamed'⟩
  · unfold Act.nextLine
    rw [Act.bind_ok hnamed.fieldSeparator, Act.bind_ok hrecords]
    exact (Act.bind_ok hrun).trans rfl
  · rw [hsame]
    exact hhappens
  · rw [← hname n s hs]
    exact hnamed'.filename
  · rw [hsame]
    exact htail

/-! ## Whole runs -/

/-- After `k` calls. -/
def after (c : Context) : Nat → Context
  | 0 => c
  | k + 1 => (Act.nextLine (after c k)).2

theorem follows_start {s : Settings} {w : World} (hreadable : s.input = none → ∀ name ∈ s.args, Readable w.disk name) :
    Follows s.longest w.disk (Settings.orElse s.fs " ") (ofSettings s w.disk) (Context.ofSettings s w) := by
  have hpatterns : Coherent s.longest (s.records w).patterns := ⟨rfl, fun key p h => by cases h⟩
  refine ⟨[], ?_, Named.start s w⟩
  show Ahead s.longest w.disk [] (ofSettings s w.disk) (s.records w)
  unfold ofSettings
  cases hinput : s.input with
  | none =>
    refine ⟨rfl, hpatterns, fun n hn => ?_, [], ?_, ?_⟩
    · rw [Settings.records, hinput] at hn
      exact hreadable hinput n hn
    · rw [Settings.records, hinput]
      rfl
    · rw [Settings.records, hinput]
      rfl
  | some given =>
    refine ⟨rfl, hpatterns, fun n hn => ?_, given, ?_, ?_⟩
    · rw [Settings.records, hinput] at hn
      cases hn
    · rw [Settings.records, hinput]
      exact .ofText rfl rfl rfl
    · rw [Settings.records, hinput]
      exact (List.append_nil _).symm

theorem Splits.tail (h : Splits longest fs events) : Splits longest fs events.tail :=
  fun name s hs => h name s (List.mem_of_mem_tail hs)

theorem follows_after {c : Context} (h : Follows longest d fs events c) (hsplits : Splits longest fs events) (k : Nat) :
    Follows longest d fs (events.drop k) (after c k) ∧ Splits longest fs (events.drop k) := by
  induction k with
  | zero => exact ⟨h, hsplits⟩
  | succ k ih =>
    obtain ⟨a, c', hrun, -, -, hfollows⟩ := ih.1.step ih.2
    rw [← List.tail_drop, after, hrun]
    exact ⟨hfollows, ih.2.tail⟩

/-- When every input is a file that can be read as it is, or is missing, and every line can be split, the `k`-th call
comes to the `k`-th of all lines and missing files. A line is the new record, the count of records grows by one, and
the file name is that of the line's file. -/
theorem main_input_in_order (s : Settings) (w : World)
    (hreadable : s.input = none → ∀ name ∈ s.args, Readable w.disk name)
    (hsplits : Splits s.longest (Settings.orElse s.fs " ") (ofSettings s w.disk)) (k : Nat) :
    ∃ a, (Act.nextLine (after (Context.ofSettings s w) k)).1 = .ok a
      ∧ Happens (after (Context.ofSettings s w) k).toRecords (ofSettings s w.disk)[k]? a
        (after (Context.ofSettings s w) (k + 1)).toRecords
      ∧ ∀ name t, (ofSettings s w.disk)[k]? = some (.line name t) →
        (after (Context.ofSettings s w) (k + 1)).heap.string (after (Context.ofSettings s w) (k + 1)).filename
          = .ok name := by
  obtain ⟨hfollows, hrest⟩ := follows_after (follows_start hreadable) hsplits k
  obtain ⟨a, c', hrun, hhappens, hname, -⟩ := hfollows.step hrest
  rw [List.head?_drop] at hhappens hname
  rw [after, hrun]
  exact ⟨a, rfl, hhappens, hname⟩

/-- A file whose last line does not end, an empty file, a file that starts with an empty line, and a missing one. -/
def someFiles : World :=
  { disk := .ofEntries [(text "a", text "one 1\r\ntwo"), (text "b", []), (text "c", text "\nx\r\r\n")] }

def someNames : Settings := { args := [text "a", text "gone", text "b", text "c", text "b"] }

theorem readable_someNames : ∀ name ∈ someNames.args, Readable someFiles.disk name := by
  have ha : Readable someFiles.disk (text "a") := .file (l := Disk.home ++ [text "a"]) rfl (by decide) (by decide)
  have hb : Readable someFiles.disk (text "b") := .file (l := Disk.home ++ [text "b"]) rfl (by decide) (by decide)
  have hc : Readable someFiles.disk (text "c") := .file (l := Disk.home ++ [text "c"]) rfl (by decide) (by decide)
  have hnot : someFiles.disk.openRead (text "gone") = .error .notFound := rfl
  have hgone : Readable someFiles.disk (text "gone") := .missing hnot
  intro name hname
  obtain rfl | rfl | rfl | rfl | rfl : name = text "a" ∨ name = text "gone" ∨ name = text "b" ∨ name = text "c"
      ∨ name = text "b" := by
    simpa [someNames] using hname
  all_goals assumption

example : ofSettings someNames someFiles.disk = [.line (text "a") (text "one 1"), .line (text "a") (text "two"),
    .missing (text "gone") .notFound, .line (text "c") [], .line (text "c") (text "x\r")] := rfl

/-- The fourth call goes from the missing file past the empty one to the first line of the next, which is empty. -/
theorem main_input_in_order_past_empty :
    (∀ name ∈ someNames.args, Readable someFiles.disk name) ∧ Splits true [32] (ofSettings someNames someFiles.disk)
      ∧ (ofSettings someNames someFiles.disk)[3]? = some (.line (text "c") [])
      ∧ ∃ a, (Act.nextLine (after (Context.ofSettings someNames someFiles) 3)).1 = .ok a
        ∧ Happens (after (Context.ofSettings someNames someFiles) 3).toRecords (some (.line (text "c") [])) a
          (after (Context.ofSettings someNames someFiles) 4).toRecords
        ∧ (after (Context.ofSettings someNames someFiles) 4).heap.string
          (after (Context.ofSettings someNames someFiles) 4).filename = .ok (text "c") := by
  have hsplits : Splits true [32] (ofSettings someNames someFiles.disk) := by
    intro name s hs
    unfold pieces?
    split
    · exact ⟨_, rfl⟩
    · exact ⟨_, if_pos rfl⟩
  obtain ⟨a, ha, hhappens, hname⟩ := main_input_in_order someNames someFiles (fun _ => readable_someNames) hsplits 3
  exact ⟨readable_someNames, hsplits, rfl, a, ha, hhappens, hname _ _ rfl⟩

end RecordMill.MainInput

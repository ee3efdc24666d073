import Mathlib
import RecordMill.Proofs.Heap.Packing
import RecordMill.Proofs.Record.LazyVec
import RecordMill.Record.Fields

/-!
# A record is a list of fields

What a program sees of the record is a line and a plain list of fields. Reading a record and assigning
the line split it; assigning a field or the number of fields joins the line anew.
-/

namespace RecordMill.FieldList

/-! ## Plain records -/

structure Row where
  line : Bytes := []
  fields : List Bytes := []

/-- The first `n` fields, with empty ones where there are not so many. -/
def padded (fields : List Bytes) (n : Nat) : List Bytes :=
  fields.take n ++ List.replicate (n - fields.length) []

namespace Row

def ofFields (ofs : Bytes) (fields : List Bytes) : Row := { line := Bytes.join ofs fields, fields }

/-- Field `i`, from 1 on; what is missing up to it is empty. -/
def setField (ofs : Bytes) (r : Row) (i : Nat) (s : Bytes) : Row :=
  ofFields ofs ((padded r.fields (max r.fields.length i)).set (i - 1) s)

def setCount (ofs : Bytes) (r : Row) (n : Nat) : Row := ofFields ofs (padded r.fields n)

/-- Field 0 is the line; past the end fields are empty. -/
def column (r : Row) (i : Nat) : Bytes := if i = 0 then r.line else (r.fields[i - 1]?).getD []

end Row

/-- The pieces of a text; `none` when the separator is a pattern that does not compile. -/
def pieces? (longest : Bool) (s separator : Bytes) : Option (List Bytes) :=
  if s.isEmpty then some []
  else if separator = [32] then some (Utf8.words s)
  else match separator with
    | [] => some (Utf8.characters s)
    | [c] => if c = 92 then byPattern else some (Bytes.cutAt c s)
    | _ => byPattern
where
  byPattern : Option (List Bytes) := (Pattern.compile longest separator).toOption.map (·.split s (-1))

/-! ## The input -/

/-- What reading the input comes to. -/
inductive Coming where
  | record (line : Bytes)
  | nothing
  | failure (e : Failure)

/-- What is being read, and the names of the files that come after it. -/
structure Input where
  reader : Option Reader
  names : List Bytes

/-- A line of `r`; at its end goes on with `next`. -/
def Input.ofReader (d : Disk) (r : Reader) (names : List Bytes) (next : Coming × Input) : Coming × Input :=
  match r.line d with
  | (.error e, r) => (.failure e, ⟨some r, names⟩)
  | (.ok (some line), r) => (.record line, ⟨some r, names⟩)
  | (.ok none, _) => next

def Input.ofFiles (d : Disk) : List Bytes → Coming × Input
  | [] => (.nothing, ⟨none, []⟩)
  | name :: rest => match Reader.openFile d name with
    | .error e => (.failure e, ⟨none, rest⟩)
    | .ok r => Input.ofReader d r rest (Input.ofFiles d rest)

def Input.next (d : Disk) (i : Input) : Coming × Input :=
  match i.reader with
  | some r => Input.ofReader d r i.names (Input.ofFiles d i.names)
  | none => Input.ofFiles d i.names

/-! ## Uses of a record -/

inductive Separator where
  | field
  | output

inductive Op where
  | nextLine
  | setColumn (i : Int64) (s : Bytes)
  | storeCount (n : Int64)
  | column (i : Int64)
  | loadCount
  | setSeparator (which : Separator) (s : Bytes)

inductive Answer where
  | done
  | number (n : Int64)
  | text (s : Bytes)
  | refused (f : Fault)
  deriving DecidableEq

structure State where
  row : Row := {}
  fs : Bytes
  ofs : Bytes
  input : Input
  noted : List Incident := []

namespace State

def note (m : State) (during : Operation) (e : Failure) : State := { m with noted := ⟨during, e⟩ :: m.noted }

/-- `none` when the line cannot be split, or into more pieces than can be counted. -/
def setLine (longest : Bool) (m : State) (line : Bytes) : Option State :=
  match pieces? longest line m.fs with
  | none => none
  | some fields => if fields.length < 2 ^ 63 then some { m with row := { line, fields } } else none

/-- What reading the input comes to for the record: 1, 0 at the end of the input, or -1. -/
def read (longest : Bool) (m : State) : Coming × Input → Option (Int64 × State)
  | (.record line, input) => (setLine longest { m with input } line).map (1, ·)
  | (.nothing, input) => some (0, { m with input })
  | (.failure e, input) => some (-1, note { m with input } .nextLine e)

def assign (longest : Bool) (m : State) (i : Int64) (s : Bytes) : Option State :=
  if i = 0 then m.setLine longest s
  else if i < 0 then some (m.note .setColumn (.fieldAccess i.toInt))
  else some { m with row := m.row.setField m.ofs i.toInt.toNat s }

/-- More fields than can be held are refused, and nothing changes. -/
def step (longest : Bool) (d : Disk) (m : State) : Op → Option (Answer × State)
  | .nextLine => (m.read longest (m.input.next d)).map fun (n, m) => (.number n, m)
  | .setColumn i s => (m.assign longest i s).map (.done, ·)
  | .storeCount n =>
    if n < 0 then some (.done, m.note .storeCount (.fieldCount n.toInt))
    else if n.toInt.toNat > Records.maxFields then some (.refused .tooManyFields, m)
    else some (.done, { m with row := m.row.setCount m.ofs n.toInt.toNat })
  | .column i =>
    if i < 0 then some (.text [], m.note .getColumn (.fieldAccess i.toInt))
    else some (.text (m.row.column i.toInt.toNat), m)
  | .loadCount => some (.number (Int64.ofNat m.row.fields.length), m)
  | .setSeparator .field s => some (.done, { m with fs := s })
  | .setSeparator .output s => some (.done, { m with ofs := s })

def steps (longest : Bool) (d : Disk) (m : State) : List Op → Option (List Answer × State)
  | [] => some ([], m)
  | op :: ops => do
    let (a, m) ← m.step longest d op
    let (as, m) ← steps longest d m ops
    return (a :: as, m)

end State

/-! ## The same uses of a context -/

def Separator.variable : Separator → Variable
  | .field => .fs
  | .output => .ofs

/-- Texts are handed in as new strings, which are given back at the end, as are those handed out. -/
def Op.act : Op → Act Answer
  | .nextLine => return .number (← Act.nextLine)
  | .setColumn i s => do
    Act.withStr s (Act.setColumn i)
    return .done
  | .storeCount n => do
    Act.storeInt .nf n
    return .done
  | .column i => return .text (← Act.takeBytes (← Act.column i))
  | .loadCount => return .number (← Act.loadInt .nf)
  | .setSeparator which s => do
    Act.withStr s (Act.storeStr which.variable)
    return .done

def Op.run (op : Op) (c : Context) : Answer × Context :=
  match op.act c with
  | (.ok a, c) => (a, c)
  | (.error f, c) => (.refused f, c)

def run (c : Context) : List Op → List Answer × Context
  | [] => ([], c)
  | op :: ops =>
    let (a, c) := op.run c
    let (as, c) := run c ops
    (a :: as, c)

/-! ## Patterns kept by their text -/

/-- What is kept of a pattern is what compiling it yields. -/
structure Coherent (longest : Bool) (ps : Pattern.Patterns) : Prop where
  mode : ps.longest = longest
  found : ∀ key p, ps.compiled.find? key = some p → Pattern.compile longest key = .ok p

variable {longest : Bool} {d : Disk}

theorem Coherent.get {ps : Pattern.Patterns} (h : Coherent longest ps) {key : Bytes} {p : Pattern}
    (hp : Pattern.compile longest key = .ok p) : ∃ ps', ps.get key = .ok (p, ps') ∧ Coherent longest ps' := by
  cases hf : ps.compiled.find? key with
  | some q =>
    have hq := h.found key q hf
    rw [hp] at hq
    cases hq
    exact ⟨ps, by simp only [Pattern.Patterns.get, Cache.get, hf]; rfl, h⟩
  | none =>
    refine ⟨{ ps with compiled := ⟨ps.compiled.entries ++ [(key, p)]⟩ }, ?_, h.mode, fun k q hq => ?_⟩
    · simp only [Pattern.Patterns.get, Cache.get, hf, h.mode, hp]
      rfl
    · simp only [Cache.find?, List.lookup_append] at hq hf
      by_cases hk : k = key
      · subst hk
        rw [hf] at hq
        simp only [Option.none_or, List.lookup_cons_self, Option.some.injEq] at hq
        exact hq ▸ hp
      · have hb : (k == key) = false := by simpa using hk
        rw [List.lookup_cons, hb] at hq
        exact h.found k q (by simpa [Cache.find?] using hq)

theorem byPattern_eq {r : Records} (h : Coherent longest r.patterns) {s separator : Bytes} {parts : List Bytes}
    (hp : pieces?.byPattern longest s separator = some parts) :
    ∃ ps, Records.split.byPattern s separator r = (.ok parts, { r with patterns := ps }) ∧ Coherent longest ps := by
  obtain ⟨p, hc, hparts⟩ := Option.map_eq_some_iff.1 hp
  cases hcompile : Pattern.compile longest separator with
  | error e =>
    rw [hcompile] at hc
    cases hc
  | ok q =>
    rw [hcompile] at hc
    cases hc
    obtain ⟨ps, hget, hps⟩ := h.get hcompile
    have hsplit : r.patterns.split separator s = .ok (parts, ps) := by
      simp only [Pattern.Patterns.split, hget, ← hparts]
      rfl
    refine ⟨ps, ?_, hps⟩
    simp only [Records.split.byPattern, bind, StateT.bind, get, getThe, MonadStateOf.get, StateT.get, pure, hsplit,
      modify, modifyGet, MonadStateOf.modifyGet, StateT.modifyGet, StateT.pure]

theorem split_eq {r : Records} (h : Coherent longest r.patterns) {s separator : Bytes} {parts : List Bytes}
    (hp : pieces? longest s separator = some parts) :
    ∃ ps, Records.split s separator r = (.ok parts, { r with patterns := ps }) ∧ Coherent longest ps := by
  have hplain : ∀ {xs : List Bytes}, some xs = some parts →
      ∃ ps, ((Except.ok xs, r) : Except Failure (List Bytes) × Records) = (.ok parts, { r with patterns := ps })
        ∧ Coherent longest ps := fun hx => ⟨r.patterns, by cases hx; rfl, h⟩
  unfold pieces? at hp
  unfold Records.split
  split at hp
  · next hempty =>
    rw [if_pos hempty]
    exact hplain hp
  · next hempty =>
    rw [if_neg hempty]
    split at hp
    · next hspace =>
      rw [if_pos hspace]
      exact hplain hp
    · next hspace =>
      rw [if_neg hspace]
      match separator with
      | [] => exact hplain hp
      | [c] =>
        dsimp only at hp ⊢
        split at hp
        · next hc =>
          rw [if_pos hc]
          exact byPattern_eq h hp
        · next hc =>
          rw [if_neg hc]
          exact hplain hp
      | _ :: _ :: _ => exact byPattern_eq h hp

/-! ## Fields in a lazy vector -/

section Padding

variable {fields : List Bytes} {n : Nat}

theorem length_padded (fields : List Bytes) (n : Nat) : (padded fields n).length = n := by
  simp only [padded, List.length_append, List.length_take, List.length_replicate]
  omega

theorem getElem?_padded (fields : List Bytes) (n i : Nat) :
    (padded fields n)[i]? = if i < n then some ((fields[i]?).getD []) else none := by
  by_cases hi : i < n
  · rw [if_pos hi, padded, List.getElem?_append, List.length_take]
    by_cases hlen : i < fields.length
    · rw [if_pos (by omega), List.getElem?_take_of_lt hi, List.getElem?_eq_getElem hlen]
      rfl
    · rw [if_neg (by omega), List.getElem?_replicate, if_pos (by omega), List.getElem?_eq_none (by omega)]
      rfl
  · rw [if_neg hi, List.getElem?_eq_none (by rw [length_padded]; omega)]

theorem padded_of_length (h : fields.length = n) : padded fields n = fields := by
  simp [padded, ← h]

/-- The vector holds the fields, and nothing past them. -/
def Agree (v : LazyVec Bytes) (fields : List Bytes) : Prop := ∀ i : Nat, v.at_ i = (fields[i]?).getD []

theorem Agree.firstFields {v : LazyVec Bytes} (h : Agree v fields) (n : Nat) :
    Records.firstFields v n = padded fields n := by
  refine List.ext_getElem? fun i => ?_
  rw [getElem?_padded, ← h i, Records.firstFields, List.getElem?_map]
  by_cases hi : i < n
  · rw [List.getElem?_range hi, if_pos hi]
    rfl
  · rw [List.getElem?_eq_none (by rw [List.length_range]; omega), if_neg hi]
    rfl

theorem agree_ofList (fields : List Bytes) : Agree (.ofList fields) fields := fun i => LazyVec.at_ofList fields i

theorem Agree.set {v v' : LazyVec Bytes} (h : Agree v fields) {k : Nat} {s : Bytes}
    (hv : ∀ j, v'.at_ j = if j = (k : Int) then s else v.at_ j) (hk : k < n) (hn : fields.length ≤ n) :
    Agree v' ((padded fields n).set k s) := fun i => by
  rw [hv, List.getElem?_set, length_padded]
  by_cases hi : i = k
  · subst hi
    simp [hk]
  · rw [if_neg (by omega), if_neg (Ne.symm hi), h i, getElem?_padded]
    by_cases hin : i < n
    · rw [if_pos hin]
      rfl
    · rw [if_neg hin, List.getElem?_eq_none (by omega)]

end Padding

/-! ## Records -/

/-- The record, its input and what was noted are as the plain state has them. -/
structure Shows (longest : Bool) (d : Disk) (m : State) (r : Records) : Prop where
  line : r.line = m.row.line
  count : r.nf = Int64.ofNat m.row.fields.length
  countable : m.row.fields.length < 2 ^ 63
  fields : Agree r.fields m.row.fields
  reader : r.reader = m.input.reader
  names : r.inputs = m.input.names
  noted : r.noted = m.noted
  disk : r.world.disk = d
  patterns : Coherent longest r.patterns

namespace Shows

variable {m m' : State} {r : Records}

theorem fail (h : Shows longest d m r) (during : Operation) (e : Failure) :
    ∃ r', Records.fail during e r = (-1, r') ∧ Shows longest d (m.note during e) r' :=
  ⟨_, rfl, { h with noted := congrArg (⟨during, e⟩ :: ·) h.noted }⟩

theorem setRecord (h : Shows longest d m r) {line : Bytes} (hm : m.setLine longest line = some m') :
    ∃ r', Records.setRecord m.fs line r = (1, r') ∧ Shows longest d m' r' := by
  unfold State.setLine at hm
  split at hm
  · cases hm
  · next fields hfields =>
    split at hm
    · next hcount =>
      cases hm
      obtain ⟨ps, hsplit, hps⟩ := split_eq (r := { r with line }) h.patterns hfields
      refine ⟨{ r with line, patterns := ps, fields := .ofList fields, nf := Int64.ofNat fields.length }, ?_, ?_⟩
      · simp only [Records.setRecord, bind, StateT.bind, pure, StateT.pure, modify, modifyGet, MonadStateOf.modifyGet,
          StateT.modifyGet, hsplit]
      · exact { h with line := rfl, count := rfl, countable := hcount, fields := agree_ofList fields, patterns := hps }
    · cases hm

theorem rebuild (h : Shows longest d m r) (ofs : Bytes) :
    ∃ r', Records.rebuild ofs r = ((), r') ∧ Shows longest d { m with row := .ofFields ofs m.row.fields } r' := by
  refine ⟨_, rfl, { h with line := ?_ }⟩
  have hcount : r.nf.toInt.toNat = m.row.fields.length := by
    rw [h.count, Int64.toInt_ofNat_of_lt h.countable, Int.toNat_natCast]
  show Bytes.join ofs (Records.firstFields r.fields r.nf.toInt.toNat) = _
  rw [hcount, h.fields.firstFields, padded_of_length rfl]
  rfl

theorem setField (h : Shows longest d m r) {i : Int64} (hi : 0 < i) (ofs s : Bytes) :
    ∃ r', Records.setField ofs i s r = ((), r')
      ∧ Shows longest d { m with row := m.row.setField ofs i.toInt.toNat s } r' := by
  have hpos : 0 < i.toInt := Int64.lt_iff_toInt_lt.1 hi
  have hlt := i.toInt_lt
  have hcountable := h.countable
  have hk : i.toInt - 1 = ((i.toInt.toNat - 1 : Nat) : Int) := by omega
  obtain ⟨v, hv, hat⟩ := r.fields.insert?_at (show (0 : Int) ≤ i.toInt - 1 by omega) s
  rw [hk] at hat
  have hagree := h.fields.set (n := max m.row.fields.length i.toInt.toNat) hat (by omega) (by omega)
  have hlength : ((padded m.row.fields (max m.row.fields.length i.toInt.toNat)).set (i.toInt.toNat - 1) s).length
      = max m.row.fields.length i.toInt.toNat := by rw [List.length_set, length_padded]
  have hcount : (if r.nf < i then i else r.nf) = Int64.ofNat (max m.row.fields.length i.toInt.toNat) := by
    rw [h.count]
    by_cases hmore : m.row.fields.length < i.toInt.toNat
    · rw [if_pos, Nat.max_eq_right (by omega)]
      · exact (Int64.ofNat_toNatClampNeg i (Int64.le_iff_toInt_le.2 (Int.le_of_lt hpos))).symm
      · rw [Int64.lt_iff_toInt_lt, Int64.toInt_ofNat_of_lt hcountable]
        omega
    · rw [if_neg, Nat.max_eq_left (by omega)]
      rw [Int64.lt_iff_toInt_lt, Int64.toInt_ofNat_of_lt hcountable]
      omega
  have hset : Shows longest d
      { m with row := ⟨r.line, (padded m.row.fields (max m.row.fields.length i.toInt.toNat)).set
        (i.toInt.toNat - 1) s⟩ }
      { r with fields := v, nf := if r.nf < i then i else r.nf } :=
    { h with
      line := rfl
      count := by rw [hlength]; exact hcount
      countable := by rw [hlength]; omega
      fields := hagree }
  obtain ⟨r', hr', h'⟩ := rebuild hset ofs
  refine ⟨r', ?_, h'⟩
  rw [← hr']
  simp only [Records.setField, bind, StateT.bind, modify, modifyGet, MonadStateOf.modifyGet, StateT.modifyGet, pure, hv]
  rfl

theorem setCount (h : Shows longest d m r) {n : Int64} (hn : 0 ≤ n) (ofs : Bytes) :
    ∃ r', Records.setCount ofs n r = ((), r')
      ∧ Shows longest d { m with row := m.row.setCount ofs n.toInt.toNat } r' := by
  have hpos : 0 ≤ n.toInt := Int64.le_iff_toInt_le.1 hn
  have hlt := n.toInt_lt
  have hset : Shows longest d { m with row := ⟨r.line, padded m.row.fields n.toInt.toNat⟩ }
      { r with fields := .ofList (Records.firstFields r.fields n.toInt.toNat), nf := n } :=
    { h with
      line := rfl
      count := by rw [length_padded]; exact (Int64.ofNat_toNatClampNeg n hn).symm
      countable := by rw [length_padded]; omega
      fields := by rw [h.fields.firstFields]; exact agree_ofList _ }
  exact rebuild hset ofs

theorem column (h : Shows longest d m r) {i : Int64} (hi : 0 ≤ i) :
    Records.column i r = (m.row.column i.toInt.toNat, r) := by
  have hpos : 0 ≤ i.toInt := Int64.le_iff_toInt_le.1 hi
  by_cases h0 : i = 0
  · subst h0
    show (r.line, r) = _
    rw [h.line]
    rfl
  · have hneg : ¬ i < 0 := by
      rw [Int64.lt_iff_toInt_lt]
      exact Int.not_lt.2 hpos
    have hne : i.toInt ≠ 0 := fun e => h0 (Int64.toInt_inj.1 e)
    have hk : i.toInt - 1 = ((i.toInt.toNat - 1 : Nat) : Int) := by omega
    have hfield := h.fields (i.toInt.toNat - 1)
    rw [← hk] at hfield
    simp only [Records.column, h0, hneg, if_false, Row.column, if_neg (show ¬ i.toInt.toNat = 0 by omega)]
    rw [← hfield]
    rfl

/-! ### Reading -/

theorem readRecord (h : Shows longest d m r) {reader : Reader} {next : Recording (Int64 × List Bytes)}
    {nextInput : Coming × Input} {a : Int64}
    (hnext : ∀ {r}, Shows longest d { m with input := ⟨none, m.input.names⟩ } r →
      m.read longest nextInput = some (a, m') → ∃ opened r', next r = ((a, opened), r') ∧ Shows longest d m' r')
    (hm : m.read longest (Input.ofReader d reader m.input.names nextInput) = some (a, m')) :
    ∃ opened r', Records.readRecord m.fs reader next r = ((a, opened), r') ∧ Shows longest d m' r' := by
  unfold Input.ofReader at hm
  simp only [Records.readRecord, bind, StateT.bind, get, getThe, MonadStateOf.get, StateT.get, pure, h.disk]
  rcases hline : reader.line d with ⟨e | _ | line, reader'⟩
  · rw [hline] at hm
    cases hm
    obtain ⟨r', hr', h'⟩ := fail (m := { m with input := ⟨some reader', m.input.names⟩ })
      (r := { r with reader := some reader' }) { h with reader := rfl, names := h.names } .nextLine e
    exact ⟨[], r', congrArg (fun p : Int64 × Records => ((p.1, ([] : List Bytes)), p.2)) hr', h'⟩
  · rw [hline] at hm
    have hnone : Shows longest d { m with input := ⟨none, m.input.names⟩ } { r with reader := none } :=
      { h with reader := rfl, names := h.names }
    exact hnext hnone hm
  · rw [hline] at hm
    obtain ⟨m₁, hm₁, hm⟩ := Option.map_eq_some_iff.1 hm
    cases hm
    obtain ⟨r', hr', h'⟩ := setRecord (m := { m with input := ⟨some reader', m.input.names⟩ })
      (r := { r with reader := some reader', nr := r.nr + 1 }) { h with reader := rfl, names := h.names } hm₁
    exact ⟨[], r', congrArg (fun p : Int64 × Records => ((p.1, ([] : List Bytes)), p.2)) hr', h'⟩

theorem openNext (names : List Bytes) (h : Shows longest d m r) (hreader : m.input = ⟨none, names⟩) {a : Int64}
    (hm : m.read longest (Input.ofFiles d names) = some (a, m')) :
    ∃ opened r', Records.openNext m.fs names r = ((a, opened), r') ∧ Shows longest d m' r' := by
  induction names generalizing m r with
  | nil =>
    cases hm
    exact ⟨[], r, rfl, hreader ▸ h⟩
  | cons name names ih =>
    have hrest : Shows longest d { m with input := ⟨none, names⟩ } { r with inputs := names } :=
      { h with reader := by rw [h.reader, hreader], names := rfl }
    unfold Input.ofFiles at hm
    simp only [Records.openNext, bind, StateT.bind, get, getThe, MonadStateOf.get, StateT.get, pure, h.disk, modify,
      modifyGet, MonadStateOf.modifyGet, StateT.modifyGet]
    cases hopen : Reader.openFile d name with
    | error e =>
      rw [hopen] at hm
      cases hm
      obtain ⟨r', hr', h'⟩ := hrest.fail .nextLine e
      exact ⟨[], r', congrArg (fun p : Int64 × Records => ((p.1, ([] : List Bytes)), p.2)) hr', h'⟩
    | ok reader =>
      rw [hopen] at hm
      have hm : State.read longest { m with input := ⟨none, names⟩ }
        (Input.ofReader d reader names (Input.ofFiles d names))
          = some (a, m') := hm
      obtain ⟨opened, r', hr', h'⟩ := hrest.readRecord (fun h₁ hm₁ => ih h₁ rfl hm₁) hm
      exact ⟨name :: opened, r', congrArg (fun p : (Int64 × List Bytes) × Records =>
        ((p.1.1, name :: p.1.2), p.2)) hr', h'⟩

theorem nextLine (h : Shows longest d m r) {a : Int64} (hm : m.read longest (m.input.next d) = some (a, m')) :
    ∃ opened r', Records.nextLine m.fs r = ((a, opened), r') ∧ Shows longest d m' r' := by
  unfold Input.next at hm
  simp only [Records.nextLine, bind, StateT.bind, get, getThe, MonadStateOf.get, StateT.get, pure, h.reader, h.names]
  split at hm
  · next reader hreader =>
    simp only [hreader]
    exact h.readRecord (fun h₁ hm₁ => openNext m.input.names h₁ rfl hm₁) hm
  · next hreader =>
    simp only [hreader]
    exact openNext m.input.names h (by rw [← hreader]) hm

end Shows

end RecordMill.FieldList

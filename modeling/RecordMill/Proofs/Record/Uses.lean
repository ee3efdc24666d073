import RecordMill.Proofs.Record.FieldList
import RecordMill.Proofs.Record.Owners

/-!
# Uses of the record, one after another

Whatever a program does with the record through its context, what it is told is what the plain list of
fields says.
-/

namespace RecordMill

open FieldList

namespace FieldList

variable {longest : Bool} {d : Disk} {m m' : State}

namespace State

theorem setLine_separators {line : Bytes} (hm : m.setLine longest line = some m') : m'.fs = m.fs ∧ m'.ofs = m.ofs := by
  unfold setLine at hm
  split at hm
  · cases hm
  · split at hm
    · cases hm
      exact ⟨rfl, rfl⟩
    · cases hm

theorem read_separators {a : Int64} {next : Coming × Input} (hm : m.read longest next = some (a, m')) :
    m'.fs = m.fs ∧ m'.ofs = m.ofs := by
  obtain ⟨line | _ | e, input⟩ := next
  · obtain ⟨m₁, hm₁, hm⟩ := Option.map_eq_some_iff.1 hm
    cases hm
    exact setLine_separators (m := { m with input }) hm₁
  all_goals
    cases hm
    exact ⟨rfl, rfl⟩

end State

/-! ## One use -/

def Represents (longest : Bool) (d : Disk) (m : State) (held : List (Packed × Bytes)) (c : Context) : Prop :=
  Shows longest d m c.toRecords ∧ c.Owns held m.fs m.ofs

namespace Represents

variable {c : Context} {held : List (Packed × Bytes)} {p : Packed} {s : Bytes}

theorem onRecords {α : Type} {act : Recording α} {a : α} {r : Records} (h : Represents longest d m held c)
    (hact : act c.toRecords = (a, r)) (hshows : Shows longest d m' r) (hsep : m'.fs = m.fs ∧ m'.ofs = m.ofs) :
    ∃ c', Act.onRecords act c = (.ok a, c') ∧ Represents longest d m' held c' := by
  refine ⟨_, Act.onRecords_eq hact, hshows, ?_⟩
  rw [hsep.1, hsep.2]
  exact h.2

theorem column (h : Represents longest d m [] c) {i : Int64} {a : Answer}
    (hm : m.step longest d (.column i) = some (a, m')) :
    ∃ c', (Op.column i).act c = (.ok a, c') ∧ Represents longest d m' [] c' := by
  have hread : ∃ text c₁, Act.onRecords (Records.column i) c = (.ok text, c₁) ∧ a = .text text
      ∧ Represents longest d m' [] c₁ := by
    simp only [State.step] at hm
    split at hm
    · next hi =>
      cases hm
      obtain ⟨r, hr, hshows⟩ := h.1.fail .getColumn (.fieldAccess i.toInt)
      have hne : i ≠ 0 := fun e => by simp [e] at hi
      have hcolumn : Records.column i c.toRecords = ([], r) := by
        simp only [Records.column, if_neg hne, if_pos hi, bind, StateT.bind, hr, pure, StateT.pure]
      obtain ⟨c₁, hc₁, h₁⟩ := h.onRecords hcolumn hshows ⟨rfl, rfl⟩
      exact ⟨[], c₁, hc₁, rfl, h₁⟩
    · next hi =>
      cases hm
      obtain ⟨c₁, hc₁, h₁⟩ := h.onRecords (h.1.column (Int64.not_lt.1 hi)) h.1 ⟨rfl, rfl⟩
      exact ⟨_, c₁, hc₁, rfl, h₁⟩
  obtain ⟨text, c₁, hc₁, rfl, hshows, hown⟩ := hread
  obtain ⟨p, h₂, hnew, hown₂⟩ := hown.newStr (by simp) text
  obtain ⟨h₃, htake, hown₃⟩ := hown₂.takeBytes
  refine ⟨{ c₁ with heap := h₃ }, ?_, hshows, hown₃⟩
  have hcolumn : Act.column i c = (.ok p, { c₁ with heap := h₂ }) := (Act.bind_ok hc₁).trans hnew
  exact (Act.bind_ok hcolumn).trans ((Act.bind_ok htake).trans rfl)

theorem withStr {f : Packed → Act Unit} (h : Represents longest d m [] c) (s : Bytes)
    (hf : ∀ p c₁, Represents longest d m [(p, s)] c₁ → ∃ c₂, f p c₁ = (.ok (), c₂)
      ∧ Represents longest d m' [(p, s)] c₂) :
    ∃ c', Act.withStr s f c = (.ok (), c') ∧ Represents longest d m' [] c' := by
  obtain ⟨p, h₁, hnew, hown₁⟩ := h.2.newStr (by simp) s
  obtain ⟨c₂, hrun, hshows, hown₂⟩ := hf p { c with heap := h₁ } ⟨h.1, hown₁⟩
  obtain ⟨h₃, hdrop, hown₃⟩ := hown₂.dropStr
  exact ⟨{ c₂ with heap := h₃ }, (Act.bind_ok hnew).trans (Act.tryFinally_eq hrun hdrop), hshows, hown₃⟩

theorem setColumn (h : Represents longest d m ((p, s) :: held) c) {i : Int64} (hm : m.assign longest i s = some m') :
    ∃ c', Act.setColumn i p c = (.ok (), c') ∧ Represents longest d m' ((p, s) :: held) c' := by
  have hbytes := h.2.bytes (List.mem_cons_self ..)
  unfold State.assign at hm
  unfold Act.setColumn
  split at hm
  · next hi =>
    obtain ⟨r, hr, hshows⟩ := h.1.setRecord hm
    obtain ⟨c', hc', h'⟩ := h.onRecords hr hshows (State.setLine_separators hm)
    refine ⟨c', ?_, h'⟩
    rw [if_pos hi]
    exact (Act.bind_ok hbytes).trans ((Act.bind_ok h.2.fieldSeparator).trans ((Act.bind_ok hc').trans rfl))
  · next hi =>
    split at hm
    · next hneg =>
      cases hm
      obtain ⟨r, hr, hshows⟩ := h.1.fail .setColumn (.fieldAccess i.toInt)
      obtain ⟨c', hc', h'⟩ := h.onRecords hr hshows ⟨rfl, rfl⟩
      refine ⟨c', ?_, h'⟩
      rw [if_neg hi, if_pos hneg]
      exact (Act.bind_ok hc').trans rfl
    · next hneg =>
      cases hm
      have hpos : 0 < i := Int64.lt_of_le_of_ne (Int64.not_lt.1 hneg) (Ne.symm hi)
      obtain ⟨r, hr, hshows⟩ := h.1.setField hpos m.ofs s
      obtain ⟨c', hc', h'⟩ := h.onRecords hr hshows ⟨rfl, rfl⟩
      refine ⟨c', ?_, h'⟩
      rw [if_neg hi, if_neg hneg]
      exact (Act.bind_ok hbytes).trans ((Act.bind_ok h.2.outputSeparator).trans hc')

theorem storeCount (h : Represents longest d m [] c) {n : Int64} {a : Answer}
    (hm : m.step longest d (.storeCount n) = some (a, m')) :
    ∃ c', (Op.storeCount n).run c = (a, c') ∧ Represents longest d m' [] c' := by
  simp only [State.step] at hm
  split at hm
  · next hneg =>
    cases hm
    obtain ⟨r, hr, hshows⟩ := h.1.fail .storeCount (.fieldCount n.toInt)
    obtain ⟨c', hc', h'⟩ := h.onRecords hr hshows ⟨rfl, rfl⟩
    have hcount : Act.storeInt .nf n c = (.ok (), c') := by
      show Act.setCount n c = _
      unfold Act.setCount
      rw [if_pos hneg]
      exact (Act.bind_ok hc').trans rfl
    have hact : (Op.storeCount n).act c = (.ok .done, c') := (Act.bind_ok hcount).trans rfl
    exact ⟨c', by simp only [Op.run, hact], h'⟩
  · next hneg =>
    split at hm
    · next hmany =>
      cases hm
      have hcount : Act.storeInt .nf n c = (.error .tooManyFields, c) := by
        show Act.setCount n c = _
        unfold Act.setCount
        rw [if_neg hneg, if_pos hmany]
        rfl
      have hact : (Op.storeCount n).act c = (.error .tooManyFields, c) := Act.bind_error hcount
      exact ⟨c, by simp only [Op.run, hact], h⟩
    · next hmany =>
      cases hm
      obtain ⟨r, hr, hshows⟩ := h.1.setCount (Int64.not_lt.1 hneg) m.ofs
      obtain ⟨c', hc', h'⟩ := h.onRecords hr hshows ⟨rfl, rfl⟩
      have hcount : Act.storeInt .nf n c = (.ok (), c') := by
        show Act.setCount n c = _
        unfold Act.setCount
        rw [if_neg hneg, if_neg hmany]
        exact (Act.bind_ok h.2.outputSeparator).trans hc'
      have hact : (Op.storeCount n).act c = (.ok .done, c') := (Act.bind_ok hcount).trans rfl
      exact ⟨c', by simp only [Op.run, hact], h'⟩

/-- The names of inputs just opened come into the place of the file name one after another. -/
theorem filenames (names : List Bytes) (h : Represents longest d m [] c) :
    ∃ c', (names.forM fun name => do Act.setFilename (← Act.newStr name)) c = (.ok (), c')
      ∧ Represents longest d m [] c' := by
  induction names generalizing c with
  | nil => exact ⟨c, rfl, h⟩
  | cons name names ih =>
    obtain ⟨p, h₁, hnew, hown₁⟩ := h.2.newStr (by simp) name
    obtain ⟨h₂, hset, hown₂⟩ := hown₁.setFilename
    obtain ⟨c', hc', h'⟩ := ih (c := { c with filename := p, heap := h₂ }) ⟨h.1, hown₂⟩
    exact ⟨c', (Act.bind_ok ((Act.bind_ok hnew).trans hset)).trans hc', h'⟩

theorem nextLine (h : Represents longest d m [] c) {a : Answer} (hm : m.step longest d .nextLine = some (a, m')) :
    ∃ c', Op.nextLine.act c = (.ok a, c') ∧ Represents longest d m' [] c' := by
  obtain ⟨⟨n, m₁⟩, hread, hm⟩ := Option.map_eq_some_iff.1 hm
  cases hm
  obtain ⟨names, r, hr, hshows⟩ := h.1.nextLine hread
  obtain ⟨c₁, hc₁, h₁⟩ := h.onRecords hr hshows (State.read_separators hread)
  obtain ⟨c', hc', h'⟩ := h₁.filenames names
  refine ⟨c', ?_, h'⟩
  have hline : Act.nextLine c = (.ok n, c') :=
    (Act.bind_ok h.2.fieldSeparator).trans ((Act.bind_ok hc₁).trans ((Act.bind_ok hc').trans rfl))
  exact (Act.bind_ok hline).trans rfl

theorem step (h : Represents longest d m [] c) {op : Op} {a : Answer} (hm : m.step longest d op = some (a, m')) :
    ∃ c', op.run c = (a, c') ∧ Represents longest d m' [] c' := by
  have hact : ∀ {a c'}, op.act c = (.ok a, c') → op.run c = (a, c') := fun h => by simp only [Op.run, h]
  cases op with
  | nextLine =>
    obtain ⟨c', hc', h'⟩ := h.nextLine hm
    exact ⟨c', hact hc', h'⟩
  | column i =>
    obtain ⟨c', hc', h'⟩ := h.column hm
    exact ⟨c', hact hc', h'⟩
  | storeCount n => exact h.storeCount hm
  | loadCount =>
    cases hm
    refine ⟨c, hact ?_, h⟩
    show (Except.ok (Answer.number c.nf), c) = _
    rw [h.1.count]
  | setColumn i s =>
    obtain ⟨m₁, hm, e⟩ := Option.map_eq_some_iff.1 hm
    cases e
    obtain ⟨c', hc', h'⟩ := h.withStr s fun p c₁ h₁ => h₁.setColumn hm
    exact ⟨c', hact ((Act.bind_ok hc').trans rfl), h'⟩
  | setSeparator which s =>
    have hstore : ∃ c', Act.withStr s (Act.storeStr which.variable) c = (.ok (), c')
        ∧ Represents longest d m' [] c' := by
      refine h.withStr s fun p c₁ h₁ => ?_
      obtain ⟨⟨c₂, hc₂, hown₂, hr₂⟩, c₃, hc₃, hown₃, hr₃⟩ := h₁.2.storeStr
      cases which with
      | field =>
        cases hm
        exact ⟨c₂, hc₂, by rw [hr₂]; exact { h₁.1 with }, hown₂⟩
      | output =>
        cases hm
        exact ⟨c₃, hc₃, by rw [hr₃]; exact { h₁.1 with }, hown₃⟩
    obtain ⟨c', hc', h'⟩ := hstore
    have ha : a = .done := by cases which <;> cases hm <;> rfl
    exact ⟨c', hact ((Act.bind_ok hc').trans (by rw [ha]; rfl)), h'⟩

theorem run {ops : List Op} {answers : List Answer} (h : Represents longest d m [] c)
    (hm : m.steps longest d ops = some (answers, m')) :
    ∃ c', FieldList.run c ops = (answers, c') ∧ Represents longest d m' [] c' := by
  induction ops generalizing m c answers with
  | nil =>
    cases hm
    exact ⟨c, rfl, h⟩
  | cons op ops ih =>
    obtain ⟨⟨a, m₁⟩, hstep, hm⟩ := Option.bind_eq_some_iff.1 hm
    obtain ⟨⟨as, m₂⟩, hrest, hm⟩ := Option.bind_eq_some_iff.1 hm
    cases hm
    obtain ⟨c₁, hc₁, h₁⟩ := h.step hstep
    obtain ⟨c', hc', h'⟩ := ih h₁ hrest
    exact ⟨c', by simp only [FieldList.run, hc₁, hc'], h'⟩

end Represents

/-! ## Whole runs -/

def State.start (s : Settings) : State :=
  { fs := Settings.orElse s.fs " "
    ofs := Settings.orElse s.ofs " "
    input := ⟨s.input.map Reader.ofText, if s.input.isSome then [] else s.args⟩ }

theorem represents_start (s : Settings) (world : World) :
    Represents s.longest world.disk (State.start s) [] (Context.ofSettings s world) := by
  refine ⟨?_, Context.Owns.start s world⟩
  show Shows s.longest world.disk (State.start s) (s.records world)
  exact
    { line := rfl
      count := rfl
      countable := by show 0 < 2 ^ 63; omega
      fields := fun i => LazyVec.at_empty i
      reader := rfl
      names := rfl
      noted := rfl
      disk := rfl
      patterns := ⟨rfl, fun key p h => by cases h⟩ }

/-- Whatever is done with the record, as long as every line splits: every answer is that of the plain list
of fields. At the end the line, the number of fields, each field and what was noted are those of the list. -/
theorem record_is_field_list (s : Settings) (world : World) (ops : List Op) {answers : List Answer} {m : State}
    (hsteps : (State.start s).steps s.longest world.disk ops = some (answers, m)) :
    ∃ c, run (Context.ofSettings s world) ops = (answers, c)
      ∧ c.line = m.row.line ∧ c.nf.toInt = m.row.fields.length ∧ c.noted = m.noted
      ∧ ∀ i : Int64, 0 ≤ i → Records.column i c.toRecords = (m.row.column i.toInt.toNat, c.toRecords) := by
  obtain ⟨c, hrun, hshows, -⟩ := (represents_start s world).run hsteps
  refine ⟨c, hrun, hshows.line, ?_, hshows.noted, fun i hi => hshows.column hi⟩
  rw [hshows.count, Int64.toInt_ofNat_of_lt hshows.countable]

/-- Two fields are read, the fortieth is set, and three are kept. -/
theorem record_is_field_list_sparse :
    ∃ c, run (Context.ofSettings { fs := text ",", input := some (text "a,b\n") } {})
        [.nextLine, .setColumn 40 (text "z"), .loadCount, .storeCount 3, .column 0, .column (-1)]
        = ([.number 1, .done, .number 40, .done, .text (text "a b "), .text []], c)
      ∧ c.line = text "a b " ∧ c.nf.toInt = (3 : Nat) ∧ c.noted = [⟨.getColumn, .fieldAccess (-1)⟩]
      ∧ ∀ i : Int64, 0 ≤ i → Records.column i c.toRecords
        = (({ line := text "a b ", fields := [text "a", text "b", []] } : Row).column i.toInt.toNat, c.toRecords) := by
  have hsteps : (State.start { fs := text ",", input := some (text "a,b\n") }).steps true ({} : World).disk
      [.nextLine, .setColumn 40 (text "z"), .loadCount, .storeCount 3, .column 0, .column (-1)]
      = some ([.number 1, .done, .number 40, .done, .text (text "a b "), .text []],
          { row := { line := text "a b ", fields := [text "a", text "b", []] }
            fs := [44]
            ofs := [32]
            input := { reader := some (.ofText []), names := [] }
            noted := [⟨.getColumn, .fieldAccess (-1)⟩] }) := by rfl
  exact record_is_field_list { fs := text ",", input := some (text "a,b\n") } {} _ hsteps

/-- Not every number of fields can be stored: past what can be held it is refused. -/
theorem count_not_always_stored :
    ¬ ∀ n : Int64, 0 ≤ n → (run (Context.ofSettings {} {}) [.storeCount n, .loadCount]).1 = [.done, .number n] := by
  intro h
  have hrefused : (run (Context.ofSettings {} {}) [.storeCount 17592186044417, .loadCount]).1
      = [.refused .tooManyFields, .number 0] := by rfl
  have hstored := h 17592186044417 (by decide)
  rw [hrefused] at hstored
  cases hstored

end FieldList

end RecordMill

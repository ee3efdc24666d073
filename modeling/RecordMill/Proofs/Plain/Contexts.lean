import RecordMill.Proofs.Plain.Interpreter
import RecordMill.Proofs.Plain.Items
import RecordMill.Proofs.Record.Steps
import RecordMill.Service.Meaning

/-!
# Services on plain values

A context reflects a plain store when its records are the same, its variables hold the store's values and
its heap backs them together with the items that are elsewhere. Every service then gives what the plain
interpreter computes, and leaves a context that reflects the store after it.
-/

namespace RecordMill

open Plain (Val Table)

def Context.items (c : Context) (s : Plain.Store) : List Item :=
  [.str s.fs c.fs, .str s.ofs c.ofs, .str s.ors c.ors, .str s.filename c.filename, .map .int .str s.argv c.argv]

structure Context.Reflects (c : Context) (L : Array Bytes) (s : Plain.Store) (items : List Item) : Prop where
  records : c.toRecords = s.toRecords
  backs : c.heap.Backs L s.tables (c.items s ++ items)

/-- A step that gives `a` and leaves a context that reflects `s`. -/
def Act.Gives {α : Type} (act : Act α) (c : Context) (a : α) (L : Array Bytes) (s : Plain.Store) (items : List Item) :
    Prop :=
  ∃ c', act c = (.ok a, c') ∧ c'.Reflects L s items

/-- So many items at most, that a few more find a handle. -/
def Item.Few (items : List Item) : Prop := items.length + 16 ≤ Heap.maxOwners

theorem Act.Gives.bind {α β : Type} {act : Act α} {f : α → Act β} {c : Context} {a : α} {b : β} {L : Array Bytes}
    {s s' : Plain.Store} {items items' : List Item} (h : act.Gives c a L s items)
    (hf : ∀ c', c'.Reflects L s items → (f a).Gives c' b L s' items') :
    (act >>= f).Gives c b L s' items' := by
  obtain ⟨c₁, hact, h₁⟩ := h
  obtain ⟨c₂, hfa, h₂⟩ := hf c₁ h₁
  exact ⟨c₂, (Act.bind_ok hact).trans hfa, h₂⟩

theorem Act.Gives.map {α β : Type} {act : Act α} {f : α → β} {c : Context} {a : α} {L : Array Bytes} {s : Plain.Store}
    {items : List Item} (h : act.Gives c a L s items) : (act >>= fun a => pure (f a)).Gives c (f a) L s items :=
  h.bind fun c' h' => ⟨c', rfl, h'⟩

theorem Act.Gives.after {α β : Type} {act : Act α} {f : α → Act β} {c : Context} {a : α} {b : β} {L : Array Bytes}
    {s : Plain.Store} {items : List Item} (hact : act c = (.ok a, c)) (hf : (f a).Gives c b L s items) :
    (act >>= f).Gives c b L s items := by
  obtain ⟨c', hfa, h'⟩ := hf
  exact ⟨c', (Act.bind_ok hact).trans hfa, h'⟩

namespace Context.Reflects

variable {c : Context} {L : Array Bytes} {s : Plain.Store} {items : List Item}

theorem of_front {x : Item} (hrecords : c.toRecords = s.toRecords)
    (b : c.heap.Backs L s.tables (x :: (c.items s ++ items))) :
    c.Reflects L s (x :: items) :=
  ⟨hrecords, b.perm List.perm_middle⟩

theorem front {x : Item} (h : c.Reflects L s (x :: items)) : c.heap.Backs L s.tables (x :: (c.items s ++ items)) :=
  h.backs.perm List.perm_middle.symm

theorem mem {x : Item} (hx : x ∈ items) : x ∈ c.items s ++ items := List.mem_append_right _ hx

theorem start (o : Settings) (world : World) :
    (Context.ofSettings o world).Reflects o.literals.toArray (.ofSettings o world) [] := by
  have hmax : Heap.maxOwners = 4611686018427387904 := rfl
  have hempty : (Heap.ofLiterals o.literals).Backs o.literals.toArray #[] [] :=
    ⟨rfl, fun _ => none, Heap.Ledger.start o.literals, nofun⟩
  obtain ⟨fs, h₁, hnew₁, b₁⟩ := hempty.newStr (by simp [hmax]) (Settings.orElse o.fs " ")
  obtain ⟨ofs, h₂, hnew₂, b₂⟩ := b₁.newStr (by simp [hmax]) (Settings.orElse o.ofs " ")
  obtain ⟨ors, h₃, hnew₃, b₃⟩ := b₂.newStr (by simp [hmax]) (Settings.orElse o.ors "\n")
  obtain ⟨argv, h₄, halloc, b₄⟩ :=
    b₃.alloc (by simp [hmax]) (U := #[⟨.int, .str, o.arguments⟩]) (o := .map .int .str o.arguments)
    (c := .map .int .str 0) (x := .map .int .str 0) (by simp) ⟨o.arguments, rfl, rfl⟩ (by simp)
      (fun _ => rfl) fun _ _ => .map
  have heq : Context.ofSettings o world
      = { toRecords := o.records world, heap := h₄, fs := fs, ofs := ofs, ors := ors, argv := argv } := by
    simp only [Context.ofSettings, hnew₁, hnew₂, hnew₃, halloc]
  rw [heq]
  refine ⟨rfl, (b₄.cons (x := .str [] .empty) rfl fun _ => .str Packed.stands_empty).perm ?_⟩
  classical
  refine List.perm_iff_count.2 fun x => ?_
  simp only [items, Plain.Store.ofSettings, List.append_nil, List.count_cons, List.count_nil]
  omega

theorem uncons {x : Item} (h : c.Reflects L s (x :: items)) (hx : x.handle = 0) : c.Reflects L s items :=
  ⟨h.records, h.front.uncons hx⟩

theorem swap {old new : Item} {items' : List Item} (h : c.Reflects L s (new :: items))
    (hs : Item.Swap old new items items') :
    c.Reflects L s (old :: items') :=
  of_front h.records (h.front.swap (hs.append_left _))

theorem set {σ : Plain.State} (h : c.Reflects L σ.store items) (p : Program) (r : Reg) (v : Val) :
    c.Reflects L (σ.set p r v).store items := by
  unfold Plain.State.set
  split
  · exact h
  split
  · exact ⟨h.records, h.backs⟩
  · exact h

theorem length_lt (hfew : Item.Few items) : (c.items s ++ items).length < Heap.maxOwners := by
  simp only [List.length_append, Context.items, List.length_cons, List.length_nil]
  unfold Item.Few at hfew
  omega

theorem drop {x : Item} (h : c.Reflects L s (x :: items)) : (Act.change (·.drop x.handle)).Gives c () L s items := by
  obtain ⟨heap, hdrop, b⟩ := h.front.drop
  exact ⟨_, Act.change_ok hdrop, h.records, b⟩

variable (h : c.Reflects L s items)

include h

theorem gives {α : Type} (a : α) : (pure a : Act α).Gives c a L s items := ⟨c, rfl, h⟩

theorem perm {items' : List Item} (hp : items'.Perm items) : c.Reflects L s items' :=
  ⟨h.records, h.backs.perm (hp.append_left _)⟩

theorem cons {x : Item} (hx : x.handle = 0) (hs : ∀ Γ, x.Stands L Γ) : c.Reflects L s (x :: items) :=
  of_front h.records (h.backs.cons hx hs)

theorem ref {x : Item} (hx : x ∈ items) : (Act.change (·.ref x.handle)).Gives c () L s (x :: items) := by
  obtain ⟨heap, href, b⟩ := h.backs.ref (mem hx)
  exact ⟨_, Act.change_ok href, of_front h.records b⟩

/-! ## Strings -/

theorem bytes {a : Bytes} {p : Packed} (hp : .str a p ∈ items) : Act.bytes p c = (.ok a, c) :=
  Act.look_ok (h.backs.string (mem hp))

theorem newStr (hfew : Item.Few items) (a : Bytes) : ∃ p, (Act.newStr a).Gives c p L s (.str a p :: items) := by
  obtain ⟨p, heap, hnew, b⟩ := h.backs.newStr (length_lt hfew) a
  exact ⟨p, _, Act.newStr_ok hnew, of_front h.records b⟩

theorem fieldSeparator : Act.fieldSeparator c = (.ok s.fs, c) :=
  (Act.bind_ok (Act.get_ok c)).trans (Act.look_ok (h.backs.string (by simp [Context.items])))

theorem outputSeparator : Act.outputSeparator c = (.ok s.ofs, c) :=
  (Act.bind_ok (Act.get_ok c)).trans (Act.look_ok (h.backs.string (by simp [Context.items])))

theorem recordSeparator : Act.bytes c.ors c = (.ok s.ors, c) :=
  Act.look_ok (h.backs.string (by simp [Context.items]))

section

variable {a b : Bytes} {p q : Packed} (hp : .str a p ∈ items) (hq : .str b q ∈ items)

include hp

theorem strLen : Act.look (·.strLen p) c = (.ok a.length, c) := Act.look_ok (h.backs.strLen (mem hp))

include hq

theorem compareStr : Act.compareStr p q c = (.ok (Act.orderOf a b), c) :=
  (Act.bind_ok (h.bytes hp)).trans ((Act.bind_ok (h.bytes hq)).trans rfl)

theorem concat (hfew : Item.Few items) : ∃ r, (Act.concat p q).Gives c r L s (.str (a ++ b) r :: items) := by
  obtain ⟨r, hr⟩ := h.newStr hfew (a ++ b)
  exact ⟨r, .after (h.bytes hp) (.after (h.bytes hq) hr)⟩

end

/-! ## Records -/

theorem onRecords {α : Type} (act : Recording α) :
    (Act.onRecords act).Gives c (s.record act).1 L (s.record act).2 items := by
  have hact : act c.toRecords = ((s.record act).1, (act s.toRecords).2) := by rw [h.records]; rfl
  exact ⟨_, Act.onRecords_eq hact, rfl, h.backs⟩

theorem column (hfew : Item.Few items) (i : Int64) :
    ∃ p, (Act.column i).Gives c p L (s.record (Records.column i)).2
      (.str (s.record (Records.column i)).1 p :: items) := by
  obtain ⟨c₁, hrec, h₁⟩ := h.onRecords (Records.column i)
  obtain ⟨p, c₂, hnew, h₂⟩ := h₁.newStr hfew (s.record (Records.column i)).1
  exact ⟨p, c₂, (Act.bind_ok hrec).trans hnew, h₂⟩

theorem setCount (n : Int64) : match s.setCount n with
    | .ok s' => (Act.setCount n).Gives c () L s' items
    | .error e => e = .tooManyFields ∧ Act.setCount n c = (.error .tooManyFields, c) := by
  unfold Plain.Store.setCount Act.setCount
  by_cases hneg : n < 0
  · simp only [hneg, if_true]
    exact (h.onRecords _).bind fun _ h' => h'.gives ()
  by_cases hmany : n.toInt.toNat > Records.maxFields
  · simp only [hneg, hmany, if_true, if_false]
    exact ⟨trivial, rfl⟩
  · simp only [hneg, hmany, if_false]
    exact .after h.outputSeparator (h.onRecords _)

section

variable {a b : Bytes} {p q : Packed} (hp : .str a p ∈ items) (hq : .str b q ∈ items)

include hp

theorem setColumn (i : Int64) : (Act.setColumn i p).Gives c () L (s.setColumn i a) items := by
  unfold Plain.Store.setColumn Act.setColumn
  split
  · exact .after (h.bytes hp) (.after h.fieldSeparator ((h.onRecords _).bind fun _ h' => h'.gives ()))
  split
  · exact (h.onRecords _).bind fun _ h' => h'.gives ()
  · exact .after (h.bytes hp) (.after h.outputSeparator (h.onRecords _))

theorem readFileLine (hfew : Item.Few items) :
    ∃ q, (Act.readFileLine p).Gives c (q, (s.record (Records.fileLine a)).1.2) L
    (s.record (Records.fileLine a)).2 (.str (s.record (Records.fileLine a)).1.1 q :: items) := by
  obtain ⟨c₁, hrec, h₁⟩ := h.onRecords (Records.fileLine a)
  obtain ⟨q, c₂, hnew, h₂⟩ := h₁.newStr hfew (s.record (Records.fileLine a)).1.1
  exact ⟨q, c₂, (Act.bind_ok (h.bytes hp)).trans ((Act.bind_ok hrec).trans ((Act.bind_ok hnew).trans rfl)), h₂⟩

include hq

theorem isMatch :
    (Act.isMatch p q).Gives c (s.record (Records.isMatch a b)).1 L (s.record (Records.isMatch a b)).2 items :=
  .after (h.bytes hq) (.after (h.bytes hp) (h.onRecords _))

end

omit h in
theorem setFilename {a : Bytes} {p : Packed} (h : c.Reflects L s (.str a p :: items)) :
    (Act.setFilename p).Gives c () L { s with filename := a } items := by
  have hswap : Item.Swap (.str s.filename c.filename) (.str a p) (c.items s ++ items)
      (({ c with filename := p } : Context).items { s with filename := a } ++ items) :=
    ⟨[.str s.fs c.fs, .str s.ofs c.ofs, .str s.ors c.ors], .map .int .str s.argv c.argv :: items, rfl, rfl⟩
  obtain ⟨heap, hdrop, b⟩ := (h.front.swap hswap).drop
  refine ⟨{ c with filename := p, heap }, ?_, h.records, b⟩
  exact (Act.bind_ok (Act.get_ok c)).trans ((Act.bind_ok (Act.modify_ok _ c)).trans
    (Act.change_ok (g := (·.dropStr c.filename)) (c := { c with filename := p }) hdrop))

theorem setFilenames (hfew : Item.Few items) (names : List Bytes) :
    (names.forM fun name => do Act.setFilename (← Act.newStr name)).Gives c () L
      { s with filename := names.getLast?.getD s.filename } items := by
  induction names generalizing c s with
  | nil => exact h.gives ()
  | cons name names ih =>
    obtain ⟨p, c₁, hnew, h₁⟩ := h.newStr hfew name
    obtain ⟨c₂, hset, h₂⟩ := h₁.setFilename
    obtain ⟨c₃, hrest, h₃⟩ := ih h₂
    refine ⟨c₃, (Act.bind_ok ((Act.bind_ok hnew).trans hset)).trans hrest, ?_⟩
    have hlast : (name :: names).getLast?.getD s.filename = names.getLast?.getD name := by
      cases names <;> simp [List.getLast?_cons]
    rw [hlast]
    exact h₃

theorem nextLine (hfew : Item.Few items) : Act.nextLine.Gives c s.nextLine.1 L s.nextLine.2 items := by
  refine .after h.fieldSeparator ?_
  obtain ⟨c₁, hrec, h₁⟩ := h.onRecords (Records.nextLine s.fs)
  obtain ⟨c₂, hnames, h₂⟩ := h₁.setFilenames hfew (s.record (Records.nextLine s.fs)).1.2
  exact ⟨c₂, (Act.bind_ok hrec).trans ((Act.bind_ok hnames).trans rfl), h₂⟩

/-! ## Variables -/

theorem storeStr {a : Bytes} {p : Packed} (hp : .str a p ∈ items) {v : Variable}
    (hv : v ∈ [.fs, .ofs, .ors, .filename]) :
    ∃ s', s.assign v (.str a) = .ok s' ∧ (Act.storeStr v p).Gives c () L s' items := by
  obtain ⟨c₁, href, h₁⟩ := h.ref hp
  have hstore : ∀ {old : Bytes} {q : Packed} {s' : Plain.Store}, Act.loadStr v c₁ = (.ok q, c₁) →
      (Act.placeStr v p c₁).toRecords = s'.toRecords → (Act.placeStr v p c₁).heap = c₁.heap → s'.tables = s.tables →
      Item.Swap (.str old q) (.str a p) (c₁.items s ++ items) ((Act.placeStr v p c₁).items s' ++ items) →
      (Act.storeStr v p).Gives c () L s' items := by
    intro old q s' hload hrecords hheap htables hswap
    obtain ⟨heap, hdrop, b⟩ := (h₁.front.swap hswap).drop
    refine ⟨{ Act.placeStr v p c₁ with heap }, ?_, hrecords, htables ▸ b⟩
    refine (Act.bind_ok href).trans ((Act.bind_ok hload).trans ((Act.bind_ok (Act.modify_ok _ c₁)).trans ?_))
    exact Act.change_ok (g := (·.dropStr q)) (hheap ▸ hdrop)
  simp only [List.mem_cons, List.not_mem_nil, or_false] at hv
  obtain rfl | rfl | rfl | rfl := hv
  · exact ⟨_, rfl, hstore rfl h₁.records rfl rfl ⟨[], _, rfl, rfl⟩⟩
  · exact ⟨_, rfl, hstore rfl h₁.records rfl rfl ⟨[.str s.fs c₁.fs], _, rfl, rfl⟩⟩
  · exact ⟨_, rfl, hstore rfl h₁.records rfl rfl ⟨[.str s.fs c₁.fs, .str s.ofs c₁.ofs], _, rfl, rfl⟩⟩
  · exact ⟨_, rfl, hstore rfl h₁.records rfl rfl ⟨[.str s.fs c₁.fs, .str s.ofs c₁.ofs, .str s.ors c₁.ors], _, rfl, rfl⟩⟩

theorem loadStr {v : Variable} (hv : v ∈ [.fs, .ofs, .ors, .filename]) : ∃ a p, s.load v = .str a ∧
    (do let q ← Act.loadStr v; Act.change (·.refStr q); return q : Act Packed).Gives c p L s (.str a p :: items) := by
  have hread : ∀ {a : Bytes} {p : Packed}, Act.loadStr v c = (.ok p, c) → .str a p ∈ c.items s ++ items →
      (do let q ← Act.loadStr v; Act.change (·.refStr q); return q : Act Packed).Gives c p L s (.str a p :: items) := by
    intro a p hload hp
    obtain ⟨heap, href, b⟩ := h.backs.ref hp
    exact ⟨{ c with heap }, (Act.bind_ok hload).trans ((Act.bind_ok (Act.change_ok href)).trans rfl),
      of_front h.records b⟩
  simp only [List.mem_cons, List.not_mem_nil, or_false] at hv
  obtain rfl | rfl | rfl | rfl := hv
  · exact ⟨_, _, rfl, hread rfl (by simp [Context.items])⟩
  · exact ⟨_, _, rfl, hread rfl (by simp [Context.items])⟩
  · exact ⟨_, _, rfl, hread rfl (by simp [Context.items])⟩
  · exact ⟨_, _, rfl, hread rfl (by simp [Context.items])⟩

theorem storeMap {ref : Nat} {a : UInt64} (ha : .map .int .str ref a ∈ items) :
    (Act.storeMap .argv a).Gives c () L { s with argv := ref } items := by
  obtain ⟨c₁, href, h₁⟩ := h.ref ha
  have hswap : Item.Swap (.map .int .str s.argv c₁.argv) (.map .int .str ref a) (c₁.items s ++ items)
      (({ c₁ with argv := a } : Context).items { s with argv := ref } ++ items) :=
    ⟨[.str s.fs c₁.fs, .str s.ofs c₁.ofs, .str s.ors c₁.ors, .str s.filename c₁.filename], items, rfl, rfl⟩
  obtain ⟨heap, hdrop, b⟩ := (h₁.front.swap hswap).drop
  refine ⟨{ c₁ with argv := a, heap }, ?_, h₁.records, b⟩
  exact (Act.bind_ok href).trans ((Act.bind_ok (Act.get_ok c₁)).trans ((Act.bind_ok (Act.modify_ok _ c₁)).trans
    (Act.change_ok (g := (·.drop c₁.argv)) (c := { c₁ with argv := a }) hdrop)))

theorem loadMap : (do let m ← Act.loadMap .argv; Act.change (·.ref m); return m : Act UInt64).Gives c c.argv L s
    (.map .int .str s.argv c.argv :: items) := by
  obtain ⟨heap, href, b⟩ := h.backs.ref (x := .map .int .str s.argv c.argv) (by simp [Context.items])
  have hload : Act.loadMap .argv c = (.ok c.argv, c) := rfl
  exact ⟨{ c with heap }, (Act.bind_ok hload).trans ((Act.bind_ok (Act.change_ok href)).trans rfl),
    of_front h.records b⟩

theorem loadInt {v : Variable} (hv : v ∈ [.argc, .nf, .nr]) :
    ∃ n, s.load v = .int n ∧ Act.loadInt v c = (.ok n, c) := by
  have hrecords := h.records
  simp only [List.mem_cons, List.not_mem_nil, or_false] at hv
  obtain rfl | rfl | rfl := hv
  · exact ⟨_, rfl, by rw [← hrecords]; rfl⟩
  · exact ⟨_, rfl, by rw [← hrecords]; rfl⟩
  · exact ⟨_, rfl, by rw [← hrecords]; rfl⟩

theorem storeInt {v : Variable} (hv : v ∈ [.argc, .nf, .nr]) (n : Int64) : match s.assign v (.int n) with
    | .ok s' => (Act.storeInt v n).Gives c () L s' items
    | .error e => e = .tooManyFields ∧ Act.storeInt v n c = (.error .tooManyFields, c) := by
  simp only [List.mem_cons, List.not_mem_nil, or_false] at hv
  obtain rfl | rfl | rfl := hv
  · exact ⟨_, rfl, congrArg (fun r : Records => { r with argc := n }) h.records, h.backs⟩
  · exact h.setCount n
  · exact ⟨_, rfl, congrArg (fun r : Records => { r with nr := n }) h.records, h.backs⟩

/-! ## Keys and scalars -/

theorem takeKey {k : Key} {x : Val} {ws t : List UInt64} (hx : .reg k.ty x ws ∈ items) :
    Service.takeKey k (ws ++ t) c = (.ok (Plain.keyOf k x, t), c) := by
  cases k with
  | int =>
    obtain ⟨n, rfl, rfl⟩ := h.backs.int (mem hx)
    rfl
  | str =>
    obtain ⟨a, p, rfl, rfl⟩ := h.backs.str (mem hx)
    exact (Act.bind_ok (h.bytes hx)).trans rfl

theorem takeScalar {v : Scalar} {x : Val} {ws : List UInt64} (hx : .reg v.ty x ws ∈ items) :
    Service.takeScalar v ws c = (.ok (Plain.scalarOf v x), c) := by
  cases v with
  | int =>
    obtain ⟨n, rfl, rfl⟩ := h.backs.int (mem hx)
    rfl
  | float =>
    obtain ⟨w, rfl, rfl⟩ := h.backs.float (mem hx)
    rfl
  | str =>
    obtain ⟨a, p, rfl, rfl⟩ := h.backs.str (mem hx)
    exact h.bytes hx

theorem giveScalar (hfew : Item.Few items) (v : Scalar) (x : v.Carrier) :
    ∃ ws, (Service.giveScalar v x).Gives c ws L s (.reg v.ty (Plain.ofScalar v x) ws :: items) := by
  cases v with
  | int => exact ⟨_, _, rfl, h.cons rfl fun _ => .int x⟩
  | float => exact ⟨_, _, rfl, h.cons rfl fun _ => .float _⟩
  | str =>
    obtain ⟨p, hnew⟩ := h.newStr hfew x
    exact ⟨_, hnew.map⟩

theorem giveKey (hfew : Item.Few items) (k : Key) (x : k.Carrier) :
    ∃ ws, (Service.giveKey k x).Gives c ws L s (.reg k.ty (Plain.ofKey k x) ws :: items) := by
  cases k with
  | int => exact ⟨_, _, rfl, h.cons rfl fun _ => .int x⟩
  | str =>
    obtain ⟨p, hnew⟩ := h.newStr hfew x
    exact ⟨_, hnew.map⟩

/-! ## Maps -/

section

variable {k : Key} {v : Scalar}

theorem newMap (hfew : Item.Few items) : ∃ a, (Service.allocate fun heap => heap.newMap k v).Gives c [a] L
    (s.newTable (.empty k v)).2 (.map k v (s.newTable (.empty k v)).1 a :: items) := by
  obtain ⟨a, heap, hnew, b⟩ := h.backs.newMap (length_lt hfew) k v
  refine ⟨a, { c with heap }, ?_, of_front h.records b⟩
  have hrun : (Service.allocate fun heap => heap.newMap k v) c = (.ok [(c.heap.newMap k v).1],
    { c with heap := (c.heap.newMap k v).2 }) := rfl
  rw [hrun, hnew]

variable {ref : Nat} {a : UInt64} (ha : .map k v ref a ∈ items)

include ha

theorem entries : ∃ e : Entries k v, s.table (.map ref) = ⟨k, v, e⟩ ∧ Act.look (·.map k v a) c = (.ok e, c) := by
  obtain ⟨e, ht, hmap⟩ := h.backs.entries (mem ha)
  refine ⟨e, ?_, Act.look_ok hmap⟩
  rw [Plain.Store.table, Array.getD_eq_getD_getElem?, Val.toRef, ht]
  rfl

theorem key_table : (s.table (.map ref)).key = k ∧ (s.table (.map ref)).val = v := by
  obtain ⟨e, he, -⟩ := h.entries ha
  rw [he]
  exact ⟨rfl, rfl⟩

theorem updateMap (f : Entries k v → Entries k v) : ∃ e : Entries k v, s.table (.map ref) = ⟨k, v, e⟩
    ∧ (Act.change (·.updateMap k v a f)).Gives c () L (s.setTable (.map ref) ⟨k, v, f e⟩) items := by
  obtain ⟨e, ht, hmap⟩ := h.backs.entries (mem ha)
  refine ⟨e, ?_, { c with heap := c.heap.setMap k v a (f e) }, ?_, h.records, h.backs.setMap (mem ha) (f e)⟩
  · rw [Plain.Store.table, Array.getD_eq_getD_getElem?, Val.toRef, ht]
    rfl
  · refine Act.change_ok ?_
    simp only [Heap.updateMap, hmap]
    rfl

theorem len : Service.onMap k v a [] .len c = (.ok [(Int64.ofNat (s.table (.map ref)).size).toUInt64], c) := by
  obtain ⟨e, he, hlook⟩ := h.entries ha
  rw [he]
  exact (Act.bind_ok hlook).trans rfl

theorem iterBegin (hfew : Item.Few items) : ∃ it, (Service.onMap k v a [] .iterBegin).Gives c [it] L s
    (.iter k (some (.ofTable (s.table (.map ref)))) it 0 :: items) := by
  obtain ⟨e, he, hlook⟩ := h.entries ha
  obtain ⟨it, heap, hnew, b⟩ := h.backs.newKeys (length_lt hfew) k e.keys
  refine ⟨it, { c with heap }, (Act.bind_ok hlook).trans ?_, ?_⟩
  · have hrun : (Service.allocate fun heap => heap.newKeys k e.keys) c
        = (.ok [(c.heap.newKeys k e.keys).1], { c with heap := (c.heap.newKeys k e.keys).2 }) := rfl
    rw [hrun, hnew]
  · rw [he]
    exact of_front h.records b

variable {x : Val} {ws : List UInt64} (hx : .reg k.ty x ws ∈ items)

include hx

theorem lookup (hfew : Item.Few items) : ∃ rs, (Service.onMap k v a ws .lookup).Gives c rs L s
    (.reg v.ty ((s.table (.map ref)).lookup x) rs :: items) := by
  obtain ⟨e, he, hlook⟩ := h.entries ha
  obtain ⟨rs, hgive⟩ := h.giveScalar hfew v (e[Plain.keyOf k x]?.getD v.zero)
  refine ⟨rs, .after (a := (Plain.keyOf k x, [])) ?_ (.after hlook ?_)⟩
  · simpa using h.takeKey (t := []) hx
  · rw [he]
    exact hgive

theorem contains : Service.onMap k v a ws .contains c
    = (.ok [Machine.Word.ofBool ((s.table (.map ref)).contains x)], c) := by
  obtain ⟨e, he, hlook⟩ := h.entries ha
  have htake : Service.takeKey k ws c = (.ok (Plain.keyOf k x, []), c) := by simpa using h.takeKey (t := []) hx
  rw [he]
  exact (Act.bind_ok htake).trans ((Act.bind_ok hlook).trans rfl)

theorem delete : (Service.onMap k v a ws .delete).Gives c [] L
    (s.setTable (.map ref) ((s.table (.map ref)).delete x)) items := by
  have htake : Service.takeKey k ws c = (.ok (Plain.keyOf k x, []), c) := by simpa using h.takeKey (t := []) hx
  obtain ⟨e, he, hchange⟩ := h.updateMap ha (·.erase (Plain.keyOf k x))
  rw [he]
  exact .after htake (hchange.bind fun _ h' => h'.gives [])

theorem insert {y : Val} {us : List UInt64} (hy : .reg v.ty y us ∈ items) :
    (Service.onMap k v a (ws ++ us) .insert).Gives c [] L
    (s.setTable (.map ref) ((s.table (.map ref)).insert x y)) items := by
  obtain ⟨e, he, hchange⟩ := h.updateMap ha (·.insert (Plain.keyOf k x) (Plain.scalarOf v y))
  rw [he]
  exact .after (h.takeKey hx) (.after (h.takeScalar hy) (hchange.bind fun _ h' => h'.gives []))

end

theorem splitInto {k : Key} {r : Nat} {m : UInt64} {a b : Bytes} {p q : Packed} (hp : .str a p ∈ items)
    (hq : .str b q ∈ items) (hm : .map k .str r m ∈ items) : match s.record (Records.pieces a b) with
      | (none, s') => (Act.splitInto k (Table.pieceKey k) p m q).Gives c (-1) L s' items
      | (some parts, s') => (Act.splitInto k (Table.pieceKey k) p m q).Gives c (Int64.ofNat parts.length) L
        (s'.setTable (.map r) (.ofPieces (s.table (.map r)).key parts)) items := by
  have hrec := h.onRecords (Records.pieces a b)
  rw [(h.key_table hm).1]
  generalize hout : s.record (Records.pieces a b) = out at hrec
  obtain ⟨_ | parts, s'⟩ := out
  · exact .after (h.bytes hp) (.after (h.bytes hq) (hrec.bind fun _ h' => h'.gives (-1)))
  · refine .after (h.bytes hp) (.after (h.bytes hq) (hrec.bind fun c' h' => ?_))
    obtain ⟨e, -, hchange⟩ := h'.updateMap hm fun _ => Act.numbered k (Table.pieceKey k) parts
    exact hchange.bind fun _ h'' => h''.gives _

/-! ## Iterators -/

theorem keyAt (hfew : Item.Few items) {k : Key} {keys : List k.Carrier} {position : Int64} {a : UInt64}
    (ha : .iter k (some ⟨k, keys, position⟩) a position.toUInt64 ∈ items) :
    ∃ ws, (Service.keyAt k a position).Gives c ws L s
      (.reg k.ty (Plain.Cursor.current ⟨k, keys, position⟩) ws :: items) := by
  obtain ⟨h0, -⟩ | ⟨_, _, hc, -, hkeys⟩ := h.backs.iter (mem ha)
  · cases h0
  · cases hc
    obtain ⟨ws, hgive⟩ :=
      h.giveKey hfew k (if position < 0 then k.zero else (keys[position.toNatClampNeg]?).getD k.zero)
    refine ⟨ws, .after (Act.look_ok hkeys) ?_⟩
    rw [List.getElem?_toArray]
    exact hgive

theorem advance {k : Key} {keys : List k.Carrier} {position position' : Int64} {a : UInt64} {items' : List Item}
    (hs : Item.Swap (.iter k (some ⟨k, keys, position⟩) a position.toUInt64)
      (.iter k (some ⟨k, keys, position'⟩) a position'.toUInt64)
      items items') : c.Reflects L s items' := by
  obtain ⟨l₁, l₂, rfl, rfl⟩ := hs
  have hfront := (h.perm List.perm_middle.symm).front.advance (q := position')
  exact (of_front h.records hfront).perm List.perm_middle

/-! ## Printing -/

theorem write {d : Destination} {b : Bytes} {q : Packed} (hq : d.isNamed → .str b q ∈ items) (text : Bytes) :
    (Act.write d q text).Gives c (s.print d b text).1 L (s.print d b text).2 items := by
  unfold Act.write Act.pathOf Plain.Store.print
  split
  · next hdest => exact .after (h.bytes (hq hdest)) (h.onRecords _)
  · exact .after rfl (h.onRecords _)

theorem mapM_bytes {args : List (Bytes × Packed)} (hargs : ∀ x ∈ args, .str x.1 x.2 ∈ items) :
    (args.map (·.2)).mapM Act.bytes c = (.ok (args.map (·.1)), c) := by
  induction args with
  | nil => rfl
  | cons x args ih =>
    rw [List.map_cons, List.mapM_cons]
    have hx := h.bytes (hargs x (.head _))
    have hrest := ih fun y hy => hargs y (.tail _ hy)
    exact (Act.bind_ok hx).trans ((Act.bind_ok hrest).trans rfl)

theorem printAll {d : Destination} {b : Bytes} {q : Packed} (hq : d.isNamed → .str b q ∈ items)
    {args : List (Bytes × Packed)} (hargs : ∀ x ∈ args, .str x.1 x.2 ∈ items) :
    (Act.printAll d q (args.map (·.2))).Gives c
      (s.print d b (Bytes.join s.ofs (args.map (·.1)) ++ s.ors)).1 L
      (s.print d b (Bytes.join s.ofs (args.map (·.1)) ++ s.ors)).2 items :=
  .after (Act.get_ok c) (.after (Act.look_ok (h.backs.string (by simp [Context.items])))
    (.after (h.mapM_bytes hargs) (.after h.recordSeparator (h.write hq _))))

end Context.Reflects

end RecordMill

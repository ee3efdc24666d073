import RecordMill.Machine.Module
import RecordMill.Machine.Execution

/-!
# The layout of a frame

Values come first and variables follow them, each right behind the one before. Laying out code looks
places up and takes scratch words behind all of them.
-/

namespace RecordMill.Machine

/-! ## Consecutive spans -/

@[simp] theorem Kind.total_nil : Kind.total [] = 0 := rfl

@[simp] theorem Kind.total_cons (k : Kind) (ks : List Kind) : Kind.total (k :: ks) = k.words + Kind.total ks := rfl

theorem Kind.total_append (ks js : List Kind) : Kind.total (ks ++ js) = Kind.total ks + Kind.total js := by
  induction ks with
  | nil => simp
  | cons k ks ih => simp [ih, Nat.add_assoc]

theorem Kind.total_take_succ {ks : List Kind} {i : Nat} {k : Kind} (h : ks[i]? = some k) :
    Kind.total (ks.take (i + 1)) = Kind.total (ks.take i) + k.words := by
  rw [List.take_add_one, h, Option.toList_some, Kind.total_append]
  rfl

theorem Kind.total_take_le (ks : List Kind) {i j : Nat} (h : i ≤ j) :
    Kind.total (ks.take i) ≤ Kind.total (ks.take j) := by
  obtain ⟨n, rfl⟩ := Nat.exists_eq_add_of_le h
  rw [List.take_add, Kind.total_append]
  exact Nat.le_add_right _ _

theorem Kind.total_take_le_total (ks : List Kind) (i : Nat) : Kind.total (ks.take i) ≤ Kind.total ks := by
  conv => rhs; rw [← List.take_append_drop i ks, Kind.total_append]
  exact Nat.le_add_right _ _

theorem Span.consecutive_getElem? (at_ : Nat) (ks : List Kind) (i : Nat) :
    (Span.consecutive at_ ks)[i]? = ks[i]?.map fun k => ⟨at_ + Kind.total (ks.take i), k.words⟩ := by
  induction ks generalizing at_ i with
  | nil => rfl
  | cons k ks ih =>
    cases i with
    | zero => simp [Span.consecutive]
    | succ i => simp [Span.consecutive, ih, Nat.add_assoc]

namespace Body

def valueAt (f : Body) (v : Value) : Nat := Kind.total (f.values.toList.take v)

def varAt (f : Body) (v : VarId) : Nat := Kind.total f.values.toList + Kind.total (f.vars.toList.take v)

variable {f : Body} {v : Nat} {k : Kind} {s : Span}

theorem values_ofBody (f : Body) (v : Value) :
    (Layout.ofBody f).values[v]? = f.values[v]?.map fun k => ⟨f.valueAt v, k.words⟩ := by
  simp [Layout.ofBody, Span.consecutive_getElem?, valueAt]

theorem vars_ofBody (f : Body) (v : VarId) :
    (Layout.ofBody f).vars[v]? = f.vars[v]?.map fun k => ⟨f.varAt v, k.words⟩ := by
  simp [Layout.ofBody, Span.consecutive_getElem?, varAt]

theorem valueAt_le (h : f.values[v]? = some k) : f.valueAt v + k.words ≤ Kind.total f.values.toList := by
  rw [valueAt, ← Kind.total_take_succ (by simpa using h)]
  exact Kind.total_take_le_total _ _

theorem valueAt_le_size (h : f.values[v]? = some k) : f.valueAt v + k.words ≤ Layout.size f :=
  Nat.le_trans (valueAt_le h) (Nat.le_add_right _ _)

theorem varAt_le_size (h : f.vars[v]? = some k) : f.varAt v + k.words ≤ Layout.size f := by
  have := Kind.total_take_le_total f.vars.toList (v + 1)
  rw [Kind.total_take_succ (by simpa using h)] at this
  simp only [varAt, Layout.size]
  omega

end Body

/-- The instruction has one result, which is of kind `k`. -/
structure Inst.Yields (f : Body) (i : Inst) (r : Value) (k : Kind) : Prop where
  results : i.results = [r]
  kind : f.values[r]? = some k

/-! ## Looking places up -/

namespace Lay

variable {α β : Type} {n m : Nat}

theorem bind_eq {x : Lay α} {g : α → Lay β} {b : β} :
    (x >>= g) n = some (b, m) ↔ ∃ a k, x n = some (a, k) ∧ g a k = some (b, m) := by
  show (x n).bind (fun p => g p.1 p.2) = _ ↔ _
  rw [Option.bind_eq_some_iff]
  exact ⟨fun ⟨⟨a, k⟩, h⟩ => ⟨a, k, h⟩, fun ⟨a, k, h⟩ => ⟨(a, k), h⟩⟩

theorem pure_eq {a b : α} : (pure a : Lay α) n = some (b, m) ↔ b = a ∧ m = n := by
  show some (a, n) = some (b, m) ↔ _
  simp [eq_comm]

theorem liftM_eq {o : Option α} {a : α} : (liftM o : Lay α) n = some (a, m) ↔ o = some a ∧ m = n := by
  show o.bind (fun a => some (a, n)) = some (a, m) ↔ _
  cases o <;> simp [eq_comm]

theorem failure_eq {a : α} : (failure : Lay α) n = some (a, m) ↔ False := by
  show (none : Option (α × Nat)) = _ ↔ _
  simp

theorem alloc_eq {k at_ : Nat} : alloc k n = some (at_, m) ↔ at_ = n ∧ m = n + k := by
  show some (n, n + k) = some (at_, m) ↔ _
  simp [eq_comm]

variable {f : Body} {l : Layout} {s : Span}

theorem span_eq {v : Value} : span l v n = some (s, m) ↔ l.values[v]? = some s ∧ m = n := liftM_eq

theorem place_eq {v : Value} {at_ : Nat} :
    place l v n = some (at_, m) ↔ (∃ s, l.values[v]? = some s ∧ at_ = s.offset) ∧ m = n := by
  simp only [place, bind_eq, span_eq, pure_eq]
  grind

theorem varPlace_eq {v : VarId} {at_ : Nat} :
    varPlace l v n = some (at_, m) ↔ (∃ s, l.vars[v]? = some s ∧ at_ = s.offset) ∧ m = n := by
  simp only [varPlace, bind_eq, liftM_eq, pure_eq]
  grind

theorem result_eq {i : Inst} {at_ : Nat} : result l i n = some (at_, m) ↔
    (∃ r s, i.results.head? = some r ∧ l.values[r]? = some s ∧ at_ = s.offset) ∧ m = n := by
  simp only [result, bind_eq, liftM_eq, place_eq]
  grind

theorem spans_eq {vs : List Value} {ss : List Span} :
    spans l vs n = some (ss, m) ↔ vs.map (l.values[·]?) = ss.map some ∧ m = n := by
  induction vs generalizing ss n with
  | nil =>
    simp only [spans, List.mapM_nil, pure_eq, List.map_nil]
    cases ss <;> simp
  | cons v vs ih =>
    simp only [spans] at ih
    simp only [spans, List.mapM_cons, bind_eq, span_eq, pure_eq, List.map_cons]
    cases ss with
    | nil => simp
    | cons s ss =>
      simp only [List.map_cons, List.cons.injEq]
      grind

theorem bind_apply (x : Lay α) (g : α → Lay β) (n : Nat) : (x >>= g) n = (x n).bind fun p => g p.1 p.2 := rfl

theorem pure_apply (a : α) (n : Nat) : (pure a : Lay α) n = some (a, n) := rfl

theorem liftM_apply (o : Option α) (n : Nat) : (liftM o : Lay α) n = o.map fun a => (a, n) := by cases o <;> rfl

theorem place_ofBody {v : Value} {k : Kind} (h : f.values[v]? = some k) (n : Nat) :
    place (.ofBody f) v n = some (f.valueAt v, n) :=
  place_eq.2 ⟨⟨⟨f.valueAt v, k.words⟩, by rw [f.values_ofBody, h]; rfl, rfl⟩, rfl⟩

theorem varPlace_ofBody {v : VarId} {k : Kind} (h : f.vars[v]? = some k) (n : Nat) :
    varPlace (.ofBody f) v n = some (f.varAt v, n) :=
  varPlace_eq.2 ⟨⟨⟨f.varAt v, k.words⟩, by rw [f.vars_ofBody, h]; rfl, rfl⟩, rfl⟩

theorem result_ofBody {i : Inst} {v : Value} {k : Kind} (hi : i.results = [v]) (h : f.values[v]? = some k) (n : Nat) :
    result (.ofBody f) i n = some (f.valueAt v, n) :=
  result_eq.2 ⟨⟨v, ⟨f.valueAt v, k.words⟩, by rw [hi]; rfl, by rw [f.values_ofBody, h]; rfl, rfl⟩, rfl⟩

theorem spans_ofBody {vs : List Value} {ks : List Kind} (h : vs.map (f.values[·]?) = ks.map some) (n : Nat) :
    spans (.ofBody f) vs n = some ((vs.zip ks).map fun (v, k) => ⟨f.valueAt v, k.words⟩, n) := by
  refine spans_eq.2 ⟨?_, rfl⟩
  induction vs generalizing ks with
  | nil => rfl
  | cons v vs ih =>
    cases ks with
    | nil => simp at h
    | cons k ks =>
      simp only [List.map_cons, List.cons.injEq] at h
      rw [List.map_cons, f.values_ofBody, h.1, ih h.2]
      rfl

section Openings

variable {i : Inst} {r x y : Value} {k j j' : Kind} {t : Step} {n' : Nat}

theorem of_result {p : Nat → Step} (hr : i.Yields f r k)
    (h : (do return p (← result (.ofBody f) i) : Lay Step) n = some (t, n')) : t = p (f.valueAt r) := by
  simp only [bind_apply, result_ofBody hr.results hr.kind, Option.bind_some, pure_apply] at h
  cases h
  rfl

theorem of_unary {p : Nat → Nat → Step} (hr : i.Yields f r k) (hx : f.values[x]? = some j)
    (h : (do return p (← result (.ofBody f) i) (← place (.ofBody f) x) : Lay Step) n = some (t, n')) :
    t = p (f.valueAt r) (f.valueAt x) := by
  simp only [bind_apply, result_ofBody hr.results hr.kind, place_ofBody hx, Option.bind_some, pure_apply] at h
  cases h
  rfl

theorem of_binary {p : Nat → Nat → Nat → Step} (hr : i.Yields f r k) (hx : f.values[x]? = some j)
    (hy : f.values[y]? = some j')
    (h : (do return p (← result (.ofBody f) i) (← place (.ofBody f) x) (← place (.ofBody f) y) : Lay Step) n =
      some (t, n')) : t = p (f.valueAt r) (f.valueAt x) (f.valueAt y) := by
  simp only [bind_apply, result_ofBody hr.results hr.kind, place_ofBody hx, place_ofBody hy, Option.bind_some,
    pure_apply] at h
  cases h
  rfl

end Openings

/-! ## Taking scratch words -/

/-- Words once taken stay taken. -/
class Mono (x : Lay α) : Prop where
  le : ∀ {n a m}, x n = some (a, m) → n ≤ m

namespace Mono

instance bind {x : Lay α} {g : α → Lay β} [hx : Mono x] [hg : ∀ a, Mono (g a)] : Mono (x >>= g) where
  le h := by
    obtain ⟨a, k, h₁, h₂⟩ := bind_eq.1 h
    exact Nat.le_trans (hx.le h₁) ((hg a).le h₂)

instance pure (a : α) : Mono (Pure.pure a) where
  le h := Nat.le_of_eq (pure_eq.1 h).2.symm

instance lift (o : Option α) : Mono (liftM o) where
  le h := Nat.le_of_eq (liftM_eq.1 h).2.symm

instance failure : Mono (Alternative.failure : Lay α) where
  le h := (failure_eq.1 h).elim

instance alloc (k : Nat) : Mono (alloc k) where
  le h := by
    rw [(alloc_eq.1 h).2]
    exact Nat.le_add_right _ _

instance spans (l : Layout) (vs : List Value) : Mono (spans l vs) where
  le h := Nat.le_of_eq (spans_eq.1 h).2.symm

instance place (l : Layout) (v : Value) : Mono (place l v) where
  le h := Nat.le_of_eq (place_eq.1 h).2.symm

instance varPlace (l : Layout) (v : VarId) : Mono (varPlace l v) where
  le h := Nat.le_of_eq (varPlace_eq.1 h).2.symm

instance result (l : Layout) (i : Inst) : Mono (result l i) where
  le h := Nat.le_of_eq (result_eq.1 h).2.symm

instance mapM {g : α → Lay β} [hg : ∀ a, Mono (g a)] (xs : List α) : Mono (xs.mapM g) := by
  induction xs with
  | nil => exact pure _
  | cons x xs ih =>
    rw [List.mapM_cons]
    infer_instance

instance call (f : Body) (l : Layout) (i : Inst) (r : RefId) (args : List Value) : Mono (call f l i r args) := by
  unfold Lay.call
  refine @bind _ _ _ _ inferInstance fun c => @bind _ _ _ _ inferInstance fun _ =>
    @bind _ _ _ _ inferInstance fun _ => ?_
  split <;> infer_instance

instance step (f : Body) (l : Layout) (i : Inst) : Mono (step f l i) := by
  unfold Lay.step
  split <;> infer_instance

instance exit (f : Body) (l : Layout) (a : Action) : Mono (exit f l a) := by
  unfold Lay.exit
  split <;> infer_instance

instance block (f : Body) (l : Layout) (b : Block) : Mono (block f l b) := by
  unfold Lay.block
  infer_instance

end Mono

/-- Each element is laid out on its own, between the words in use before and after all of them. -/
theorem mapM_eq {g : α → Lay β} [hg : ∀ a, Mono (g a)] {xs : List α} {ys : List β} (h : xs.mapM g n = some (ys, m)) :
    ys.length = xs.length ∧ ∀ (i : Nat) (x : α), xs[i]? = some x →
      ∃ y k j, ys[i]? = some y ∧ n ≤ k ∧ j ≤ m ∧ g x k = some (y, j) := by
  induction xs generalizing n ys with
  | nil =>
    obtain ⟨rfl, -⟩ := pure_eq.1 h
    simp
  | cons x xs ih =>
    simp only [List.mapM_cons, bind_eq, pure_eq] at h
    obtain ⟨y, k, hy, zs, j, hzs, rfl, rfl⟩ := h
    obtain ⟨hl, hi⟩ := ih hzs
    have hk := (hg x).le hy
    have hj := (Mono.mapM xs).le hzs
    refine ⟨by simp [hl], fun i z hz => ?_⟩
    cases i with
    | zero =>
      obtain rfl : x = z := by simpa using hz
      exact ⟨y, n, k, rfl, Nat.le_refl _, hj, hy⟩
    | succ i =>
      obtain ⟨w, a, b, hw, ha, hb, hg⟩ := hi i z (by simpa using hz)
      exact ⟨w, a, b, by simpa using hw, Nat.le_trans hk ha, hb, hg⟩

end Lay

end RecordMill.Machine

/-!
## Rows of words

What copying does to a frame, seen through the word at each place.
-/

namespace RecordMill.Machine

def row (f : Nat → UInt64) (at_ n : Nat) : List UInt64 := (List.range' at_ n).map f

@[simp] theorem length_row (f : Nat → UInt64) (at_ n : Nat) : (row f at_ n).length = n := by simp [row]

@[simp] theorem row_zero (f : Nat → UInt64) (at_ : Nat) : row f at_ 0 = [] := rfl

theorem row_succ (f : Nat → UInt64) (at_ n : Nat) : row f at_ (n + 1) = f at_ :: row f (at_ + 1) n := rfl

theorem row_add (f : Nat → UInt64) (at_ m n : Nat) : row f at_ (m + n) = row f at_ m ++ row f (at_ + m) n := by
  unfold row
  rw [← List.range'_append_1, List.map_append]

theorem row_congr {f g : Nat → UInt64} {at_ n : Nat} (h : ∀ i, at_ ≤ i → i < at_ + n → f i = g i) :
    row f at_ n = row g at_ n := by
  refine List.map_congr_left fun i hi => ?_
  obtain ⟨hlo, hhi⟩ := List.mem_range'_1.1 hi
  exact h i hlo hhi

def rows (f : Nat → UInt64) (ss : List Span) : List UInt64 := ss.flatMap fun s => row f s.offset s.words

@[simp] theorem rows_nil (f : Nat → UInt64) : rows f [] = [] := rfl

theorem rows_cons (f : Nat → UInt64) (s : Span) (ss : List Span) :
    rows f (s :: ss) = row f s.offset s.words ++ rows f ss := rfl

@[simp] theorem Span.total_nil : Span.total [] = 0 := rfl

@[simp] theorem Span.total_cons (s : Span) (ss : List Span) : Span.total (s :: ss) = s.words + Span.total ss := rfl

@[simp] theorem length_rows (f : Nat → UInt64) (ss : List Span) : (rows f ss).length = Span.total ss := by
  induction ss with
  | nil => rfl
  | cons s ss ih => simp [rows_cons, ih]

theorem rows_congr {f g : Nat → UInt64} {ss : List Span}
    (h : ∀ s ∈ ss, ∀ i, s.offset ≤ i → i < s.offset + s.words → f i = g i) : rows f ss = rows g ss := by
  induction ss with
  | nil => rfl
  | cons s ss ih =>
    rw [rows_cons, rows_cons, row_congr (h s (by simp)), ih fun s hs => h s (by simp [hs])]

/-! ## Copying -/

/-- A row after words were copied within it one by one. -/
def moved (f : Nat → UInt64) (out source : Nat) : Nat → Nat → UInt64
  | 0 => f
  | n + 1 => moved (fun j => if j = out then f source else f j) (out + 1) (source + 1) n

variable {f : Nat → UInt64} {out source n : Nat}

theorem moved_of_not_mem {j : Nat} (h : j < out ∨ out + n ≤ j) : moved f out source n j = f j := by
  induction n generalizing f out source with
  | zero => rfl
  | succ n ih => rw [moved, ih (by omega), if_neg (by omega)]

theorem row_moved (h : source + n ≤ out ∨ out + n ≤ source) : row (moved f out source n) out n = row f source n := by
  induction n generalizing f out source with
  | zero => rfl
  | succ n ih =>
    have hfirst : moved f out source (n + 1) out = f source := by
      rw [moved, moved_of_not_mem (by omega), if_pos rfl]
    have hrest : row (fun j => if j = out then f source else f j) (source + 1) n = row f (source + 1) n :=
      row_congr fun i hlo hhi => if_neg (by omega)
    rw [row_succ, row_succ, hfirst, moved, ih (by omega), hrest]

/-- The words of a row below `size` are those of a frame. -/
def Follows (size : Nat) (f : Nat → UInt64) (ws : Array UInt64) : Prop := ∀ i, i < size → f i = Frame.read ws i

namespace Frame

variable {ws : Array UInt64}

theorem read_set (i : Nat) (w : UInt64) (j : Nat) (hi : i < ws.size) :
    read (ws.setIfInBounds i w) j = if j = i then w else read ws j := by
  unfold read
  rw [Array.getD_eq_getD_getElem?, Array.getD_eq_getD_getElem?, Array.getElem?_setIfInBounds]
  by_cases h : i = j
  · subst h
    simp [hi]
  · simp [h, Ne.symm h]

theorem put_eq {i : Nat} (h : i < ws.size) (w : UInt64) : put ws i w = .ok (ws.setIfInBounds i w) := by
  rw [put, dif_pos h, Array.setIfInBounds, dif_pos h]

theorem read?_eq {i : Nat} (h : i < ws.size) : read? ws i = .ok (read ws i) := by
  rw [read?, dif_pos h, read, Array.getD_eq_getD_getElem?, Array.getElem?_eq_getElem h, Option.getD_some]

theorem readFrom_eq (ws : Array UInt64) (at_ n : Nat) : readFrom ws at_ n = row (read ws) at_ n := by
  induction n generalizing at_ with
  | zero => rfl
  | succ n ih => rw [readFrom, ih, row_succ]

theorem readSpan_eq (ws : Array UInt64) (s : Span) : readSpan ws s = row (read ws) s.offset s.words :=
  readFrom_eq ws s.offset s.words

theorem readSpans_eq (ws : Array UInt64) (ss : List Span) : readSpans ws ss = rows (read ws) ss := by
  unfold readSpans rows
  congr 1
  funext s
  exact readSpan_eq ws s

@[simp] theorem size_writeAll (ws : Array UInt64) (at_ : Nat) (xs : List UInt64) :
    (writeAll ws at_ xs).size = ws.size := by
  induction xs generalizing ws at_ with
  | nil => rfl
  | cons x xs ih => simp [writeAll, ih]

@[simp] theorem size_writeSpans (ws : Array UInt64) (ss : List Span) (xs : List UInt64) :
    (writeSpans ws ss xs).size = ws.size := by
  induction ss generalizing ws xs with
  | nil => rfl
  | cons s ss ih => simp [writeSpans, ih]

@[simp] theorem size_copyWords (ws : Array UInt64) (out source n : Nat) :
    (copyWords ws out source n).size = ws.size := by
  induction n generalizing ws out source with
  | zero => rfl
  | succ n ih => simp [copyWords, ih]

theorem read_writeAll_of_not_mem {at_ : Nat} {xs : List UInt64} {j : Nat} (h : j < at_ ∨ at_ + xs.length ≤ j) :
    read (writeAll ws at_ xs) j = read ws j := by
  induction xs generalizing ws at_ with
  | nil => rfl
  | cons x xs ih =>
    rw [List.length_cons] at h
    rw [writeAll, ih (by omega)]
    unfold read
    rw [Array.getD_eq_getD_getElem?, Array.getD_eq_getD_getElem?, Array.getElem?_setIfInBounds, if_neg (by omega)]

theorem row_writeAll {at_ : Nat} {xs : List UInt64} (h : at_ + xs.length ≤ ws.size) :
    row (read (writeAll ws at_ xs)) at_ xs.length = xs := by
  induction xs generalizing ws at_ with
  | nil => rfl
  | cons x xs ih =>
    simp only [List.length_cons] at h ⊢
    have hx : read (writeAll (ws.setIfInBounds at_ x) (at_ + 1) xs) at_ = x := by
      rw [read_writeAll_of_not_mem (by omega), read_set at_ x at_ (by omega), if_pos rfl]
    rw [row_succ, writeAll, hx, ih (by simp only [Array.size_setIfInBounds]; omega)]

end Frame

namespace Follows

variable {size : Nat} {ws : Array UInt64}

theorem symm_apply (h : Follows size f ws) {j : Nat} (hj : j < size) : Frame.read ws j = f j := (h j hj).symm

theorem set (h : Follows size f ws) (hs : size ≤ ws.size) {i : Nat} (hi : i < size) (w : UInt64) :
    Follows size (fun j => if j = i then w else f j) (ws.setIfInBounds i w) := by
  intro j hj
  rw [Frame.read_set i w j (by omega), h.symm_apply hj]

theorem moved (h : Follows size f ws) (hs : size ≤ ws.size) (ho : out + n ≤ size) (hi : source + n ≤ size) :
    Follows size (moved f out source n) (Frame.copyWords ws out source n) := by
  induction n generalizing f ws out source with
  | zero => exact h
  | succ n ih =>
    rw [Machine.moved, Frame.copyWords]
    have := h.set hs (i := out) (by omega) (f source)
    rw [h source (by omega)] at this ⊢
    exact ih this (by simpa using hs) (by omega) (by omega)

theorem row (h : Follows size f ws) {at_ : Nat} (ha : at_ + n ≤ size) : row f at_ n = row (Frame.read ws) at_ n :=
  row_congr fun i _ hi => h i (by omega)

theorem rows (h : Follows size f ws) {ss : List Span} (hs : ∀ s ∈ ss, s.offset + s.words ≤ size) :
    rows f ss = rows (Frame.read ws) ss :=
  rows_congr fun s m i _ hi => h i (by have := hs s m; omega)

theorem congr (h : Follows size f ws) {g : Nat → UInt64} (hg : ∀ i, i < size → g i = f i) : Follows size g ws :=
  fun i hi => (hg i hi).trans (h i hi)

theorem write (h : Follows size f ws) (hs : size ≤ ws.size) (ho : out + n ≤ size) (hd : out + n ≤ source) :
    Follows size (Machine.moved f out source n) (Frame.writeAll ws out (Machine.row f source n)) := by
  induction n generalizing f ws out source with
  | zero => exact h
  | succ n ih =>
    rw [Machine.moved, row_succ, Frame.writeAll]
    have hrow : Machine.row f (source + 1) n
        = Machine.row (fun j => if j = out then f source else f j) (source + 1) n :=
      row_congr fun i hlo hhi => (if_neg (by omega)).symm
    rw [hrow]
    exact ih (h.set hs (by omega) _) (by simpa using hs) (by omega) (by omega)

end Follows

end RecordMill.Machine

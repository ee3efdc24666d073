import RecordMill.Proofs.Machine.Agreement
import RecordMill.Proofs.Machine.Cells

/-!
# Flat frames hold cells

The spans of values and variables do not overlap and scratch words lie behind all of them. So a step on
the words of a frame does what its instruction does on cells.
-/

namespace RecordMill.Machine

/-! ## Places do not overlap -/

namespace Body

variable {f : Body} {v u : Nat} {k j : Kind}

theorem valueAt_le_of_lt (h : f.values[v]? = some k) (huv : v < u) : f.valueAt v + k.words ≤ f.valueAt u := by
  rw [valueAt, ← Kind.total_take_succ (by simpa using h)]
  exact Kind.total_take_le _ huv

theorem varAt_le_of_lt (h : f.vars[v]? = some k) (huv : v < u) : f.varAt v + k.words ≤ f.varAt u := by
  have := Kind.total_take_le f.vars.toList (show v + 1 ≤ u from huv)
  rw [Kind.total_take_succ (by simpa using h)] at this
  simp only [varAt]
  omega

theorem value_apart (h : f.values[v]? = some k) (h' : f.values[u]? = some j) (hne : u ≠ v) :
    f.valueAt u + j.words ≤ f.valueAt v ∨ f.valueAt v + k.words ≤ f.valueAt u := by
  rcases Nat.lt_or_gt_of_ne hne with hlt | hlt
  · exact .inl (valueAt_le_of_lt h' hlt)
  · exact .inr (valueAt_le_of_lt h hlt)

theorem var_apart (h : f.vars[v]? = some k) (h' : f.vars[u]? = some j) (hne : u ≠ v) :
    f.varAt u + j.words ≤ f.varAt v ∨ f.varAt v + k.words ≤ f.varAt u := by
  rcases Nat.lt_or_gt_of_ne hne with hlt | hlt
  · exact .inl (varAt_le_of_lt h' hlt)
  · exact .inr (varAt_le_of_lt h hlt)

theorem value_before_var (h : f.values[v]? = some k) (u : VarId) : f.valueAt v + k.words ≤ f.varAt u :=
  Nat.le_trans (valueAt_le h) (Nat.le_add_right _ _)

end Body

/-! ## Frames that show cells -/

/-- The words of a frame are those of the cells. -/
structure Shows (f : Body) (ws : Array UInt64) (c : Cells) : Prop where
  size : Layout.size f ≤ ws.size
  value : ∀ {v : Value} {k : Kind}, f.values[v]? = some k → row (Frame.read ws) (f.valueAt v) k.words = c.value v
  var : ∀ {v : VarId} {k : Kind}, f.vars[v]? = some k → row (Frame.read ws) (f.varAt v) k.words = c.var v

theorem row_drop (g : Nat → UInt64) (at_ n a : Nat) : (row g at_ n).drop a = row g (at_ + a) (n - a) := by
  unfold row
  rw [← List.map_drop, List.drop_range']
  simp

theorem row_writeAll_of_apart {ws : Array UInt64} {at_ n o : Nat} {xs : List UInt64}
    (h : at_ + n ≤ o ∨ o + xs.length ≤ at_) :
    row (Frame.read (Frame.writeAll ws o xs)) at_ n = row (Frame.read ws) at_ n :=
  row_congr fun _ _ _ => Frame.read_writeAll_of_not_mem (by omega)

theorem Frame.writeAll_append (ws : Array UInt64) (at_ : Nat) (xs ys : List UInt64) :
    writeAll ws at_ (xs ++ ys) = writeAll (writeAll ws at_ xs) (at_ + xs.length) ys := by
  induction xs generalizing ws at_ with
  | nil => rfl
  | cons x xs ih =>
    simp only [List.cons_append, writeAll, ih, List.length_cons]
    congr 1
    omega

namespace Cells

theorem fill_take (old ws : List UInt64) : fill old (ws.take old.length) = fill old ws := by
  unfold fill
  rw [List.take_take, Nat.min_self, List.length_take]
  rcases Nat.le_total old.length ws.length with h | h
  · rw [Nat.min_eq_left h, List.drop_length, List.drop_eq_nil_of_le h]
  · rw [Nat.min_eq_right h]

@[simp] theorem fill_nil (old : List UInt64) : fill old [] = old := by simp [fill]

end Cells

namespace Shows

variable {f : Body} {ws : Array UInt64} {c : Cells} {v : Nat} {k : Kind}

theorem length_value (h : Shows f ws c) (hv : f.values[v]? = some k) : (c.value v).length = k.words := by
  rw [← h.value hv, length_row]

theorem word (h : Shows f ws c) (hv : f.values[v]? = some k) (hk : k ≠ .invalid) :
    Frame.read ws (f.valueAt v) = c.word v := by
  have hrow := h.value hv
  obtain ⟨n, hn⟩ := Nat.exists_eq_add_of_le' (X86.Kind.words_pos hk)
  rw [hn, row_succ] at hrow
  rw [Cells.word, ← hrow]
  rfl

theorem scratch (h : Shows f ws c) {at_ : Nat} (ha : Layout.size f ≤ at_) (xs : List UInt64) :
    Shows f (Frame.writeAll ws at_ xs) c where
  size := by simpa using h.size
  value hv := by
    rw [row_writeAll_of_apart (.inl (Nat.le_trans (f.valueAt_le_size hv) ha))]
    exact h.value hv
  var hv := by
    rw [row_writeAll_of_apart (.inl (Nat.le_trans (f.varAt_le_size hv) ha))]
    exact h.var hv

theorem setValue (h : Shows f ws c) (hv : f.values[v]? = some k) {xs : List UInt64} (hx : xs.length ≤ k.words) :
    Shows f (Frame.writeAll ws (f.valueAt v) xs) (c.setValue v xs) where
  size := by simpa using h.size
  value {u j} hu := by
    by_cases huv : u = v
    · subst huv
      obtain rfl : j = k := Option.some.inj (hu.symm.trans hv)
      have hsize := Nat.le_trans (f.valueAt_le_size hv) h.size
      have hsplit := row_add (Frame.read (Frame.writeAll ws (f.valueAt u) xs)) (f.valueAt u) xs.length
        (j.words - xs.length)
      rw [Nat.add_sub_cancel' hx] at hsplit
      rw [hsplit, Frame.row_writeAll (by omega), row_writeAll_of_apart (.inr (Nat.le_refl _))]
      simp only [Cells.setValue, if_true, Cells.fill, h.length_value hv, List.take_of_length_le hx]
      rw [← h.value hv, row_drop]
    · rw [row_writeAll_of_apart (by have := f.value_apart hv hu huv; omega)]
      simpa only [Cells.setValue, huv, if_false] using h.value hu
  var {u j} hu := by
    rw [row_writeAll_of_apart (.inr (by have := f.value_before_var hv u; omega))]
    exact h.var hu

theorem setVar (h : Shows f ws c) (hv : f.vars[v]? = some k) {xs : List UInt64} (hx : xs.length = k.words) :
    Shows f (Frame.writeAll ws (f.varAt v) xs) (c.setVar v xs) where
  size := by simpa using h.size
  value {u j} hu := by
    rw [row_writeAll_of_apart (.inl (f.value_before_var hu v))]
    exact h.value hu
  var {u j} hu := by
    by_cases huv : u = v
    · subst huv
      obtain rfl : j = k := Option.some.inj (hu.symm.trans hv)
      have hsize := Nat.le_trans (f.varAt_le_size hv) h.size
      rw [← hx, Frame.row_writeAll (by omega)]
      simp [Cells.setVar]
    · rw [row_writeAll_of_apart (by have := f.var_apart hv hu huv; omega)]
      simpa only [Cells.setVar, huv, if_false] using h.var hu

def spansOf (f : Body) (vs : List Value) : List Span := vs.map fun v => ⟨f.valueAt v, (f.values.getD v .invalid).words⟩

theorem deal (h : Shows f ws c) {vs : List Value} (hv : ∀ v ∈ vs, v < f.values.size) (xs : List UInt64) :
    Shows f (Frame.writeSpans ws (spansOf f vs) xs) (c.deal vs xs) := by
  induction vs generalizing ws c xs with
  | nil => exact h
  | cons v vs ih =>
    obtain ⟨k, hk⟩ : ∃ k, f.values[v]? = some k := ⟨_, Array.getElem?_eq_getElem (hv v (by simp))⟩
    have hd : f.values.getD v .invalid = k := by simp [Array.getD_eq_getD_getElem?, hk]
    have hset := h.setValue hk (List.length_take_le k.words xs)
    have hcells : c.setValue v (xs.take k.words) = c.setValue v xs := by
      unfold Cells.setValue
      rw [← h.length_value hk, Cells.fill_take]
    rw [hcells] at hset
    simp only [spansOf, List.map_cons, Frame.writeSpans, Cells.deal, hd, h.length_value hk]
    exact ih hset (fun u hu => hv u (by simp [hu])) _

theorem words (h : Shows f ws c) {vs : List Value} (hv : ∀ v ∈ vs, v < f.values.size) :
    rows (Frame.read ws) (spansOf f vs) = c.words vs := by
  induction vs with
  | nil => rfl
  | cons v vs ih =>
    obtain ⟨k, hk⟩ : ∃ k, f.values[v]? = some k := ⟨_, Array.getElem?_eq_getElem (hv v (by simp))⟩
    have hd : f.values.getD v .invalid = k := by simp [Array.getD_eq_getD_getElem?, hk]
    show row _ (f.valueAt v) (f.values.getD v .invalid).words ++ rows _ (spansOf f vs) = c.value v ++ c.words vs
    rw [hd, h.value hk, ih fun u hu => hv u (by simp [hu])]

end Shows

/-! ## Steps -/

section Steps

variable {f : Body} {i : Inst} {s : Step} {r : Value} {k : Kind}

/-- The step does to a frame what the action does to the cells that the frame shows. -/
def Tracks (f : Body) (s : Step) (a : Action) (rs : List Value) : Prop :=
  ∀ (ws : Array UInt64) (c : Cells) (stack : UInt64) (m : Memory), Shows f ws c →
    match a.act f stack c m rs with
    | some (.ok c', m') => ∃ ws', s.run stack ws m = (.ok ws', m') ∧ ws'.size = ws.size ∧ Shows f ws' c'
    | some (.error t, m') => s.run stack ws m = (.error t, m')
    | none => False

theorem Shows.put {ws : Array UInt64} {c : Cells} (h : Shows f ws c) (hr : f.values[r]? = some k) (hk : k ≠ .invalid)
    (w : UInt64) : Shows f (ws.setIfInBounds (f.valueAt r) w) (c.deal [r] [w]) := by
  have hlen : [w].length ≤ k.words := X86.Kind.words_pos hk
  exact h.setValue hr hlen

theorem Shows.lt_size {ws : Array UInt64} {c : Cells} (h : Shows f ws c) (hr : f.values[r]? = some k)
    (hk : k ≠ .invalid) : f.valueAt r < ws.size := by
  have := X86.Kind.words_pos hk
  have := Nat.le_trans (f.valueAt_le_size hr) h.size
  omega

section Words

variable (hv : ∀ k ∈ f.values, k ≠ .invalid) (hr : i.Yields f r k)

include hv

theorem Shows.operand {ws : Array UInt64} {c : Cells} (h : Shows f ws c) {x : Value} {j : Kind}
    (hx : f.values[x]? = some j) : Frame.read ws (f.valueAt x) = c.word x :=
  h.word hx (hv j (Array.mem_of_getElem? hx))

include hr

theorem Tracks.compute {a : Action} (g : UInt64 → Cells → Except Trap UInt64)
    (ha : ∀ stack c m, a.act f stack c m [r] = some ((g stack c).map (c.deal [r] [·]), m))
    (hs : ∀ {ws c} stack m, Shows f ws c → f.valueAt r < ws.size →
      s.run stack ws m = ((g stack c).map (ws.setIfInBounds (f.valueAt r) ·), m)) : Tracks f s a i.results := by
  have hk := hv k (Array.mem_of_getElem? hr.kind)
  intro ws c stack m h
  rw [hr.results, ha, hs stack m h (h.lt_size hr.kind hk)]
  cases g stack c with
  | error t => exact rfl
  | ok w => exact ⟨_, rfl, by simp, h.put hr.kind hk w⟩

theorem Tracks.unary {a : Action} {p : Nat → Nat → Step} {x : Value} {j : Kind} (g : UInt64 → UInt64)
    (hx : f.values[x]? = some j) (ha : ∀ stack c m, a.act f stack c m [r] = some (.ok (c.deal [r] [g (c.word x)]), m))
    (hp : ∀ {out} at_ stack m {ws : Array UInt64}, out < ws.size →
      (p out at_).run stack ws m = (.ok (ws.setIfInBounds out (g (Frame.read ws at_))), m)) :
    Tracks f (p (f.valueAt r) (f.valueAt x)) a i.results :=
  .compute hv hr (fun _ c => .ok (g (c.word x))) ha fun stack m h hlt => by
    rw [hp _ stack m hlt, h.operand hv hx]
    rfl

theorem Tracks.binary {a : Action} {p : Nat → Nat → Nat → Step} {x y : Value} {j j' : Kind}
    (g : UInt64 → UInt64 → Except Trap UInt64) (hx : f.values[x]? = some j) (hy : f.values[y]? = some j')
    (ha : ∀ stack c m, a.act f stack c m [r] = some ((g (c.word x) (c.word y)).map (c.deal [r] [·]), m))
    (hp : ∀ out at_ at' stack m (ws : Array UInt64), (p out at_ at').run stack ws m =
      ((g (Frame.read ws at_) (Frame.read ws at')).map (ws.setIfInBounds out ·), m)) :
    Tracks f (p (f.valueAt r) (f.valueAt x) (f.valueAt y)) a i.results :=
  .compute hv hr (fun _ c => g (c.word x) (c.word y)) ha fun stack m h _ => by
    rw [hp, h.operand hv hx, h.operand hv hy]

/-- A step that compares the words of two values; a condition that does not exist is a trap. -/
theorem Tracks.compare {a : Action} {p : Nat → Nat → Nat → Step} {x y : Value} {j j' : Kind}
    (test : UInt64 → UInt64 → Option Bool) (hx : f.values[x]? = some j) (hy : f.values[y]? = some j')
    (ha : ∀ stack c m, a.act f stack c m [r] = match test (c.word x) (c.word y) with
      | some b => some (.ok (c.deal [r] [Word.ofBool b]), m)
      | none => some (.error noCondition, m))
    (hp : ∀ out at_ at' stack m (ws : Array UInt64),
      (p out at_ at').run stack ws m = match test (Frame.read ws at_) (Frame.read ws at') with
        | some b => (.ok (ws.setIfInBounds out (Word.ofBool b)), m)
        | none => (.error noCondition, m)) :
    Tracks f (p (f.valueAt r) (f.valueAt x) (f.valueAt y)) a i.results := by
  refine .binary hv hr (fun a b => (test a b).elim (.error noCondition) fun t => .ok (Word.ofBool t)) hx hy ?_ ?_
  · intro stack c m
    rw [ha]
    cases test (c.word x) (c.word y) <;> rfl
  · intro out at_ at' stack m ws
    rw [hp]
    cases test (Frame.read ws at_) (Frame.read ws at') <;> rfl

end Words

theorem Lay.of_place {v : Value} {at_ n n' : Nat} (h : place (.ofBody f) v n = some (at_, n')) :
    ∃ k, f.values[v]? = some k ∧ at_ = f.valueAt v ∧ n' = n := by
  obtain ⟨⟨s, hs, rfl⟩, hn⟩ := place_eq.1 h
  rw [f.values_ofBody, Option.map_eq_some_iff] at hs
  obtain ⟨k, hk, rfl⟩ := hs
  exact ⟨k, hk, rfl, hn⟩

theorem Frame.copyWords_eq_writeAll {ws : Array UInt64} {out source n : Nat}
    (h : source + n ≤ out ∨ out + n ≤ source) :
    copyWords ws out source n = writeAll ws out (row (read ws) source n) := by
  induction n generalizing ws out source with
  | zero => rfl
  | succ n ih =>
    rw [copyWords, row_succ, writeAll, ih (by omega)]
    congr 1
    refine row_congr fun i _ _ => ?_
    simp only [read, Array.getD_eq_getD_getElem?, Array.getElem?_setIfInBounds]
    rw [if_neg (by omega)]

theorem Memory.length_loadAll {m : Memory} {a : UInt64} {n : Nat} {ws : List UInt64} (h : m.loadAll a n = .ok ws) :
    ws.length = n := by
  induction n generalizing a ws with
  | zero =>
    cases h
    rfl
  | succ n ih =>
    simp only [loadAll, bind, Except.bind] at h
    split at h
    · cases h
    · split at h
      · cases h
      · next hrest =>
        cases h
        simp [ih hrest]

section Cases

variable (hv : ∀ k ∈ f.values, k ≠ .invalid) {x y : Value} {j : Kind}

include hv

theorem Tracks.concat (hr : i.Yields f r .i128) (hx : f.values[x]? = some .i64) (hy : f.values[y]? = some .i64) :
    Tracks f (.pair (f.valueAt r) (f.valueAt x) (f.valueAt y)) (.concat x y) i.results := by
  intro ws c stack m h
  rw [hr.results]
  refine ⟨Frame.writeAll ws (f.valueAt r) [c.word x, c.word y], ?_, by simp, h.setValue hr.kind (Nat.le_refl 2)⟩
  -- The first word does not overwrite the second operand.
  have hne : y ≠ r := by
    rintro rfl
    cases hr.kind.symm.trans hy
  have happ := f.value_apart hr.kind hy hne
  have hw := X86.Kind.words_pos (hv _ (Array.mem_of_getElem? hy))
  have hsize := Nat.le_trans (f.valueAt_le_size hr.kind) h.size
  simp only [Kind.words] at happ hsize hw
  simp only [Step.run, Frame.writeAll, h.operand hv hx]
  rw [Frame.read_set _ _ _ (by omega), if_neg (by omega), h.operand hv hy]

theorem Tracks.load (hr : i.Yields f r k) (hx : f.values[x]? = some j) (off : Int32) :
    Tracks f (.load (f.valueAt r) (f.valueAt x) off.toInt64.toUInt64 k.words) (.load k x off) i.results := by
  intro ws c stack m h
  rw [hr.results]
  simp only [Action.act, Step.run]
  rw [Frame.read?_eq (h.lt_size hx (hv j (Array.mem_of_getElem? hx))), h.operand hv hx]
  dsimp only
  cases hl : m.loadAll (c.word x + off.toInt64.toUInt64) k.words with
  | error t => exact rfl
  | ok xs =>
    have hlen := Memory.length_loadAll hl
    exact ⟨_, rfl, by simp, h.setValue hr.kind (Nat.le_of_eq hlen)⟩

theorem Tracks.store {rs : List Value} (hx : f.values[x]? = some k) (hy : f.values[y]? = some j) (off : Int32) :
    Tracks f (.store (f.valueAt x) (f.valueAt y) off.toInt64.toUInt64 k.words) (.store k x y off) rs := by
  intro ws c stack m h
  simp only [Action.act, Step.run]
  rw [Frame.read?_eq (h.lt_size hy (hv j (Array.mem_of_getElem? hy))), h.operand hv hy, Frame.readSpan_eq]
  dsimp only
  rw [h.value hx]
  rcases m.storeAll (c.word y + off.toInt64.toUInt64) (c.value x) with ⟨_ | u, m'⟩
  · exact rfl
  · exact ⟨ws, rfl, rfl, h⟩

omit hv

theorem Tracks.useVar {v : VarId} (hr : i.Yields f r k) (hx : f.vars[v]? = some k) :
    Tracks f (.copy (f.valueAt r) (f.varAt v) k.words) (.useVar k v) i.results := by
  intro ws c stack m h
  rw [hr.results]
  refine ⟨Frame.copyWords ws (f.valueAt r) (f.varAt v) k.words, rfl, by simp, ?_⟩
  rw [Frame.copyWords_eq_writeAll (.inr (f.value_before_var hr.kind v)), h.var hx]
  refine h.setValue hr.kind (Nat.le_of_eq ?_)
  rw [← h.var hx, length_row]

theorem Tracks.defVar {v : VarId} {rs : List Value} (hx : f.vars[v]? = some k) (hy : f.values[y]? = some k) :
    Tracks f (.copy (f.varAt v) (f.valueAt y) k.words) (.defVar k v y) rs := by
  intro ws c stack m h
  refine ⟨Frame.copyWords ws (f.varAt v) (f.valueAt y) k.words, rfl, by simp, ?_⟩
  rw [Frame.copyWords_eq_writeAll (.inl (f.value_before_var hy v)), h.value hy]
  exact h.setVar hx (h.length_value hy)

end Cases

theorem tracks_step {n n' : Nat} (hf : i.Fits f) (hv : ∀ k ∈ f.values, k ≠ .invalid)
    (hs : Lay.step f (.ofBody f) i n = some (s, n')) (hc : ∀ r args, i.action ≠ .call r args) :
    s.isCall = false ∧ Tracks f s i.action i.results := by
  obtain ⟨first, ks, hres, hks, ha⟩ := hf
  have one : ∀ k, ks = [k] → i.Yields f first k := by
    rintro k rfl
    exact ⟨hres, hks 0 k rfl⟩
  rcases hact : i.action <;> rw [hact] at ha <;> simp only [Lay.step, hact] at hs
  case iconst k imm =>
    have hr := one _ ha.1
    obtain rfl := Lay.of_result hr hs
    exact ⟨rfl, .compute hv hr (fun _ _ => .ok imm) (fun _ _ _ => rfl) fun _ _ _ _ => rfl⟩
  case fconst imm =>
    have hr := one _ ha
    obtain rfl := Lay.of_result hr hs
    exact ⟨rfl, .compute hv hr (fun _ _ => .ok imm) (fun _ _ _ => rfl) fun _ _ _ _ => rfl⟩
  case concat x y =>
    obtain ⟨hk, hx, hy⟩ := ha
    obtain rfl := Lay.of_binary (one _ hk) hx hy hs
    exact ⟨rfl, .concat hv (one _ hk) hx hy⟩
  case int op k x y =>
    obtain ⟨hk, -, hx, hy⟩ := ha
    obtain rfl := Lay.of_binary (one _ hk) hx hy hs
    exact ⟨rfl, .binary hv (one _ hk) (if k == .i32 then Word.int32 op else Word.int op) hx hy (fun _ _ _ => rfl)
      fun _ _ _ _ _ _ => rfl⟩
  case shift op x y =>
    obtain ⟨hk, hx, hy⟩ := ha
    obtain rfl := Lay.of_binary (one _ hk) hx hy hs
    exact ⟨rfl, .binary hv (one _ hk) (fun a b => .ok (Word.shift op a b)) hx hy (fun _ _ _ => rfl)
      fun _ _ _ _ _ _ => rfl⟩
  case intUnary op k x =>
    obtain ⟨hk, -, hx⟩ := ha
    obtain rfl := Lay.of_unary (one _ hk) hx hs
    exact ⟨rfl, .unary hv (one _ hk)
      (fun a => if k == .i32 then Word.low (Word.intUnary op a) else Word.intUnary op a) hx
      (fun _ _ _ => rfl) fun _ _ _ _ _ => rfl⟩
  case float op x y =>
    obtain ⟨hk, hx, hy⟩ := ha
    obtain rfl := Lay.of_binary (one _ hk) hx hy hs
    exact ⟨rfl, .binary hv (one _ hk) (fun a b => .ok (Word.float op a b)) hx hy (fun _ _ _ => rfl)
      fun _ _ _ _ _ _ => rfl⟩
  case floatUnary op x =>
    obtain ⟨hk, hx⟩ := ha
    obtain rfl := Lay.of_unary (one _ hk) hx hs
    exact ⟨rfl, .unary hv (one _ hk) (Word.floatUnary op) hx (fun _ _ _ => rfl) fun _ _ _ _ _ => rfl⟩
  case icmp cond k x y =>
    obtain ⟨hk, -, hx, hy⟩ := ha
    obtain rfl := Lay.of_binary (one _ hk) hx hy hs
    exact ⟨rfl, .compare hv (one _ hk) (fun a b =>
      let p := if k == .i32 then (Word.signed32 a, Word.signed32 b) else (a, b)
      cond.holds? p.1.toInt64 p.2.toInt64) hx hy (fun _ _ _ => rfl) fun _ _ _ _ _ _ => rfl⟩
  case fcmp cond x y =>
    obtain ⟨hk, hx, hy⟩ := ha
    obtain rfl := Lay.of_binary (one _ hk) hx hy hs
    exact ⟨rfl, .compare hv (one _ hk) (fun a b => cond.holds? (Float.ofBits a) (Float.ofBits b)) hx hy
      (fun _ _ _ => rfl) fun _ _ _ _ _ _ => rfl⟩
  case bint k x =>
    obtain ⟨hk, hx⟩ := ha
    obtain rfl := Lay.of_unary (one _ hk) hx hs
    exact ⟨rfl, .unary hv (one _ hk) (· &&& 1) hx (fun _ _ _ => rfl) fun _ _ _ _ h => by rw [Step.run, Frame.put_eq h]⟩
  case toInt k x =>
    obtain ⟨hk, hx⟩ := ha
    obtain rfl := Lay.of_unary (one _ hk) hx hs
    exact ⟨rfl, .unary hv (one _ hk) (if k == .i32 then Word.toInt32 else Word.toInt64) hx (fun _ _ _ => rfl)
      fun _ _ _ _ h => by rw [Step.run, Frame.put_eq h]⟩
  case ofInt k narrow x =>
    obtain ⟨hk, j, -, hx, -⟩ := ha
    obtain rfl := Lay.of_unary (one _ hk) hx hs
    exact ⟨rfl, .unary hv (one _ hk) (fun a => Word.ofInt64 (if narrow then Word.signed32 a else a)) hx
      (fun _ _ _ => rfl) fun _ _ _ _ h => by rw [Step.run, Frame.put_eq h]⟩
  case stackAddr k slot off =>
    have hr := one _ ha.1
    simp only [Lay.bind_eq, Lay.pure_eq, Lay.liftM_eq] at hs
    obtain ⟨out, _, hout, w, _, ⟨hslot, rfl⟩, rfl, rfl⟩ := hs
    cases (Lay.result_ofBody hr.results hr.kind _).symm.trans hout
    refine ⟨rfl, .compute hv hr (fun stack _ => .ok (stack + f.slotPlace slot off)) (fun _ _ _ => rfl)
      fun stack m _ hlt => ?_⟩
    rw [Step.run, Frame.put_eq hlt, Body.slotPlace, Array.getD_eq_getD_getElem?, hslot]
    rfl
  case load k x off =>
    have hr := one _ ha
    simp only [Lay.bind_eq, Lay.pure_eq] at hs
    obtain ⟨out, _, hout, at_, _, hplace, rfl, rfl⟩ := hs
    cases (Lay.result_ofBody hr.results hr.kind _).symm.trans hout
    obtain ⟨j, hx, rfl, rfl⟩ := Lay.of_place hplace
    exact ⟨rfl, .load hv hr hx off⟩
  case store k x y off =>
    simp only [Lay.bind_eq, Lay.pure_eq] at hs
    obtain ⟨at_, _, hat, ptr, _, hplace, rfl, rfl⟩ := hs
    cases (Lay.place_ofBody ha.2 _).symm.trans hat
    obtain ⟨j, hy, rfl, rfl⟩ := Lay.of_place hplace
    exact ⟨rfl, .store hv ha.2 hy off⟩
  case useVar k v =>
    have hr := one _ ha.1
    simp only [Lay.bind_apply, Lay.result_ofBody hr.results hr.kind, Lay.varPlace_ofBody ha.2.2, Option.bind_some,
      Lay.pure_apply] at hs
    cases hs
    exact ⟨rfl, .useVar hr ha.2.2⟩
  case defVar k v x =>
    obtain ⟨-, -, hx, hy⟩ := ha
    simp only [Lay.bind_apply, Lay.place_ofBody hy, Lay.varPlace_ofBody hx, Option.bind_some, Lay.pure_apply] at hs
    cases hs
    exact ⟨rfl, .defVar hx hy⟩
  case call r args => exact absurd hact (hc r args)
  case jump | brif | ret => simp [Lay.failure_eq] at hs

end Steps

end RecordMill.Machine

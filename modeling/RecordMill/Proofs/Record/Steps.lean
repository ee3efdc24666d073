import RecordMill.Proofs.Record.Owners
import RecordMill.Record.Printing

/-!
# Steps taken apart

What a composed step comes to, read off its parts, and what is left alone by a step whose parts leave it alone.
-/

namespace RecordMill.Act

variable {α β : Type} {x : Act α} {f : α → Act β} {c c' : Context}

theorem bind_eq_ok {b : β} (h : (x >>= f) c = (.ok b, c')) : ∃ a c₁, x c = (.ok a, c₁) ∧ f a c₁ = (.ok b, c') := by
  rcases hx : x c with ⟨e | a, c₁⟩
  · rw [Act.bind_error hx] at h
    cases h
  · rw [Act.bind_ok hx] at h
    exact ⟨a, c₁, rfl, h⟩

theorem look_eq (g : Heap → Except HeapFault α) (c : Context) : Act.look g c = (match g c.heap with
    | .ok a => .ok a
    | .error e => .error (.heap e), c) := by
  unfold Act.look
  rw [Act.bind_ok (Act.get_ok c)]
  cases g c.heap <;> rfl

theorem mapM_bytes (ps : List Packed) (c : Context) : (ps.mapM Act.bytes) c = (match ps.mapM c.heap.string with
    | .ok ss => .ok ss
    | .error e => .error (.heap e), c) := by
  induction ps with
  | nil => rfl
  | cons p ps ih =>
    have hp := look_eq (·.string p) c
    rw [List.mapM_cons, List.mapM_cons]
    cases hs : c.heap.string p with
    | error e =>
      rw [hs] at hp
      exact Act.bind_error hp
    | ok s =>
      rw [hs] at hp
      rw [Act.bind_ok (x := Act.bytes p) hp]
      cases hss : ps.mapM c.heap.string with
      | error e =>
        rw [hss] at ih
        exact Act.bind_error ih
      | ok ss =>
        rw [hss] at ih
        exact Act.bind_ok ih

/-! ## What lasts through a step -/

/-- A relation between states that lasts from each part of a step to the next. -/
class Lasting (R : Context → Context → Prop) : Prop where
  refl : ∀ c, R c c
  trans : ∀ {c₁ c₂ c₃}, R c₁ c₂ → R c₂ c₃ → R c₁ c₃

/-- The states before and after the step are related. -/
class Along (R : Context → Context → Prop) (x : Act α) : Prop where
  along : ∀ c, R c (x c).2

namespace Along

variable {R : Context → Context → Prop}

theorem of_modify {f : Context → Context} (h : ∀ c, R c (f c)) : Along R (modify f : Act Unit) := ⟨h⟩

variable [hR : Lasting R]

instance (a : α) : Along R (pure a : Act α) := ⟨hR.refl⟩

instance (e : Fault) : Along R (throw e : Act α) := ⟨hR.refl⟩

instance : Along R (get : Act Context) := ⟨hR.refl⟩

instance (g : Heap → Except HeapFault α) : Along R (look g) := by
  constructor
  intro c
  rw [look_eq]
  exact hR.refl c

theorem bind (hx : Along R x) (hf : ∀ a, Along R (f a)) : Along R (x >>= f) := by
  constructor
  intro c
  have hfirst := hx.along c
  rcases hrun : x c with ⟨e | a, c₁⟩ <;> rw [hrun] at hfirst
  · rw [bind_error hrun]
    exact hfirst
  · rw [bind_ok hrun]
    exact hR.trans hfirst ((hf a).along c₁)

instance (priority := low) [hx : Along R x] [hf : ∀ a, Along R (f a)] : Along R (x >>= f) := hx.bind hf

instance {p : Prop} [Decidable p] {y : Act α} [hx : Along R x] [hy : Along R y] : Along R (if p then x else y) := by
  split
  · exact hx
  · exact hy

instance [hf : ∀ a, Along R (f a)] (as : List α) : Along R (as.mapM f) := by
  induction as with
  | nil => exact inferInstanceAs (Along R (pure []))
  | cons a as ih =>
    rw [List.mapM_cons]
    infer_instance

end Along

/-! ## Closing -/

/-- What closing gives back once the files are closed. -/
def giveBack : Act Unit := do
  release (← get).fs fun c => { c with fs := .empty }
  release (← get).ofs fun c => { c with ofs := .empty }
  release (← get).ors fun c => { c with ors := .empty }
  release (← get).filename fun c => { c with filename := .empty }
  let argv := (← get).argv
  change (·.drop argv)
  modify fun c => { c with argv := 0 }

theorem close_eq : close = onRecords Records.close >>= fun errors => giveBack >>= fun _ => pure errors := by
  simp only [close, giveBack, bind_assoc]

/-- The step has to do with the heap and the variables only. -/
def SameRecords (c c' : Context) : Prop := c'.toRecords = c.toRecords

instance : Lasting SameRecords := ⟨fun _ => rfl, fun h h' => h'.trans h⟩

instance (g : Heap → Except HeapFault Heap) : Along SameRecords (change g) := by
  unfold change
  have hput : ∀ heap, Along SameRecords (modify fun c => { c with heap } : Act Unit) :=
    fun heap => .of_modify fun _ => rfl
  infer_instance

theorem SameRecords.release (s : Packed) {clear : Context → Context} (h : ∀ c, SameRecords c (clear c)) :
    Along SameRecords (release s clear) := by
  unfold Act.release
  have hclear := Along.of_modify h
  infer_instance

instance : Along SameRecords giveBack := by
  refine .bind inferInstance fun c => .bind (SameRecords.release c.fs fun _ => rfl) fun _ => ?_
  refine .bind inferInstance fun c => .bind (SameRecords.release c.ofs fun _ => rfl) fun _ => ?_
  refine .bind inferInstance fun c => .bind (SameRecords.release c.ors fun _ => rfl) fun _ => ?_
  refine .bind inferInstance fun c => .bind (SameRecords.release c.filename fun _ => rfl) fun _ => ?_
  exact .bind inferInstance fun c => .bind inferInstance fun _ => .of_modify fun _ => rfl

theorem toRecords_close (c : Context) : (close c).2.toRecords = (Records.close c.toRecords).2 := by
  have hrecords : onRecords Records.close c
      = (.ok (Records.close c.toRecords).1, { c with toRecords := (Records.close c.toRecords).2 }) := rfl
  rw [close_eq, bind_ok hrecords]
  have hsame : Along SameRecords (giveBack >>= fun _ => pure (Records.close c.toRecords).1) := inferInstance
  exact hsame.along _

theorem errors_close {errors : List Failure} (h : (close c).1 = .ok errors) :
    (Records.close c.toRecords).1 = errors := by
  have hrecords : onRecords Records.close c
      = (.ok (Records.close c.toRecords).1, { c with toRecords := (Records.close c.toRecords).2 }) := rfl
  rw [close_eq, bind_ok hrecords] at h
  rcases hrun : (giveBack >>= fun _ => pure (Records.close c.toRecords).1)
    { c with toRecords := (Records.close c.toRecords).2 } with ⟨a, c₁⟩
  rw [hrun] at h
  subst h
  obtain ⟨_, _, -, h⟩ := bind_eq_ok hrun
  cases h
  rfl

end RecordMill.Act

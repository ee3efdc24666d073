import RecordMill.Proofs.Record.SplitMaps

/-!
# Records joined and split again

Main statement: `resplit_keeps_record`. Assigning a field or the number of fields joins the fields with the output
separator. When the field separator is the same byte and no field holds it, splitting that line gives the fields back. A
record of one empty field is the exception, for its line is empty. -/

namespace RecordMill

/-! ## Cutting what was joined -/

namespace Bytes

variable {c : UInt8} {parts : List Bytes}

theorem cutAt_join (hne : parts ≠ []) (h : ∀ p ∈ parts, c ∉ p) : cutAt c (join [c] parts) = parts := by
  induction parts with
  | nil => exact absurd rfl hne
  | cons p rest ih =>
    have hp := h p List.mem_cons_self
    cases rest with
    | nil =>
      have hjoin : join [c] [p] = p := List.append_nil p
      rw [hjoin, Reader.cutAt_whole hp]
    | cons q rest =>
      have hjoin : join [c] (p :: q :: rest) = p ++ c :: join [c] (q :: rest) := rfl
      rw [hjoin, Reader.cutAt_first hp, ih (List.cons_ne_nil q rest) fun x hx => h x (List.mem_cons_of_mem p hx)]

theorem join_eq_nil (h : join [c] parts = []) : parts = [] ∨ parts = [[]] := by
  match parts, h with
  | [], _ => exact .inl rfl
  | [p], h => exact .inr (congrArg ([·]) ((List.append_nil p).symm.trans h))
  | p :: q :: rest, h => exact absurd (List.append_eq_nil_iff.1 h).2 (List.cons_ne_nil _ _)

end Bytes

namespace FieldList

variable {ch : UInt8} {parts : List Bytes}

theorem split_join (hspace : ch ≠ 32) (hbackslash : ch ≠ 92) (hsingle : parts ≠ [[]]) (h : ∀ p ∈ parts, ch ∉ p)
    (r : Records) :
    Records.split (Bytes.join [ch] parts) [ch] r = (.ok parts, r) := by
  by_cases hline : Bytes.join [ch] parts = []
  · obtain rfl : parts = [] := (Bytes.join_eq_nil hline).resolve_right hsingle
    rfl
  · have hne : parts ≠ [] := fun hnone => hline (hnone ▸ rfl)
    rw [split_at_byte hline hspace hbackslash, Bytes.cutAt_join hne h]

end FieldList

/-! ## Vectors that grow -/

namespace LazyVec

variable {α : Type}

theorem size_foldl_insert (xs : List α) (m : Std.ExtTreeMap Int α compare) (k : Nat) (hfresh : ∀ j ∈ m, j < (k : Int)) :
    ((xs.zipIdx k).foldl (fun m (p : α × Nat) => m.insert (p.2 : Int) p.1) m).size = m.size + xs.length := by
  induction xs generalizing m k with
  | nil => rfl
  | cons x xs ih =>
    have hnot : (k : Int) ∉ m := fun h => Int.lt_irrefl _ (hfresh k h)
    have hfresh' : ∀ j ∈ m.insert (k : Int) x, j < ((k + 1 : Nat) : Int) := fun j hj => by
      rw [Std.ExtTreeMap.mem_insert, Std.LawfulEqCmp.compare_eq_iff_eq] at hj
      rcases hj with rfl | hj
      · omega
      · have hlt := hfresh j hj
        omega
    have hsize : (m.insert (k : Int) x).size = m.size + 1 := by
      rw [Std.ExtTreeMap.size_insert]
      exact if_neg hnot
    rw [List.zipIdx_cons, List.foldl_cons, ih _ _ hfresh', hsize, List.length_cons]
    omega

theorem size_scatter (items : Array α) : (scatter items).size = items.size := by
  have hsize := size_foldl_insert items.toList ∅ 0 fun j hj => absurd hj Std.ExtTreeMap.not_mem_empty
  rw [scatter, hsize, Array.length_toList, Std.ExtTreeMap.size_empty, Nat.zero_add]

theorem size_le_insert? [Inhabited α] {v v' : LazyVec α} {i : Int} {x : α} (h : v.insert? i x = some v') :
    v.size ≤ v'.size := by
  have hmap : ∀ m : Std.ExtTreeMap Int α compare, m.size ≤ (m.insert i x).size := fun m => by
    rw [Std.ExtTreeMap.size_insert]
    split <;> omega
  cases v with
  | sparse items =>
    cases h
    exact hmap items
  | dense items =>
    unfold insert? at h
    dsimp only at h
    split at h
    · cases h
    split at h
    · cases h
      exact Nat.le_of_eq Array.size_setIfInBounds.symm
    split at h
    · cases h
      simp only [size, Array.size_push, Array.size_append]
      omega
    · cases h
      exact (size_scatter items).symm.trans_le (hmap _)

end LazyVec

/-! ## Nothing past the last field -/

namespace Records

/-- What lies past the last field is empty, unless there are more fields than can be counted. -/
def Tidy (r : Records) : Prop := r.fields.size < 2 ^ 63 → ∀ j : Nat, r.nf.toInt ≤ j → r.fields.at_ j = []

variable {r : Records}

theorem tidy_ofList (fields : List Bytes) (hr : r.fields = .ofList fields) (hnf : r.nf = Int64.ofNat fields.length) :
    r.Tidy := by
  intro hsize j hj
  rw [hr] at hsize ⊢
  have hcount : fields.length < 2 ^ 63 := hsize
  rw [hnf, Int64.toInt_ofNat_of_lt hcount] at hj
  rw [LazyVec.at_ofList, List.getElem?_eq_none (Int.ofNat_le.1 hj)]
  rfl

theorem Tidy.setField (h : r.Tidy) {i : Int64} (hi : 0 < i) (ofs s : Bytes) : (setField ofs i s r).2.Tidy := by
  have hpos : 0 < i.toInt := Int64.lt_iff_toInt_lt.1 hi
  obtain ⟨v, hv, hat⟩ := r.fields.insert?_at (show (0 : Int) ≤ i.toInt - 1 by omega) s
  have hrun : (Records.setField ofs i s r).2.fields = v := congrArg (Option.getD · r.fields) hv
  have hnf : (Records.setField ofs i s r).2.nf = if r.nf < i then i else r.nf := rfl
  intro hsize j hj
  rw [hrun] at hsize ⊢
  rw [hnf] at hj
  have hold := h (Nat.lt_of_le_of_lt (LazyVec.size_le_insert? hv) hsize) j
  rw [hat]
  split at hj
  · next hlt =>
    rw [Int64.lt_iff_toInt_lt] at hlt
    rw [if_neg (by omega)]
    exact hold (by omega)
  · next hge =>
    rw [Int64.lt_iff_toInt_lt] at hge
    rw [if_neg (by omega)]
    exact hold hj

theorem tidy_setCount {n : Int64} (hn : 0 ≤ n) (ofs : Bytes) (r : Records) : (setCount ofs n r).2.Tidy := by
  refine tidy_ofList (firstFields r.fields n.toInt.toNat) rfl ?_
  rw [firstFields, List.length_map, List.length_range]
  exact (Int64.ofNat_toNatClampNeg n hn).symm

end Records

/-- A step after which nothing lies past the last field if nothing did before. -/
class Recording.Tidies {α : Type} (act : Recording α) : Prop where
  tidy : ∀ {r : Records}, r.Tidy → (act r).2.Tidy

namespace Recording.Tidies

variable {α β : Type} {act : Recording α} {f : α → Recording β}

theorem of_same (h : ∀ r, (act r).2.fields = r.fields ∧ (act r).2.nf = r.nf) : Tidies act := by
  constructor
  intro r hr
  unfold Records.Tidy
  rw [(h r).1, (h r).2]
  exact hr

instance (a : α) : Tidies (pure a : Recording α) := .of_same fun _ => ⟨rfl, rfl⟩

instance (priority := low) [hact : Tidies act] [hf : ∀ a, Tidies (f a)] :
    Tidies (act >>= f) := ⟨fun hr => (hf _).tidy (hact.tidy hr)⟩

end Recording.Tidies

namespace Records

open Recording (Tidies)

instance (during : Operation) (e : Failure) : Tidies (fail during e) := .of_same fun _ => ⟨rfl, rfl⟩

instance (s separator : Bytes) : Tidies (split.byPattern s separator) := by
  refine .of_same fun r => ?_
  simp only [split.byPattern, bind, StateT.bind, get, getThe, MonadStateOf.get, StateT.get, pure]
  cases r.patterns.split separator s <;> exact ⟨rfl, rfl⟩

instance (s separator : Bytes) : Tidies (split s separator) := by
  unfold split
  split
  · infer_instance
  split
  · infer_instance
  split
  · infer_instance
  · split <;> infer_instance
  · infer_instance

instance (s pattern : Bytes) : Tidies (isMatch s pattern) := by
  refine .of_same fun r => ?_
  simp only [isMatch, bind, StateT.bind, get, getThe, MonadStateOf.get, StateT.get, pure]
  cases r.patterns.isMatch pattern s <;> exact ⟨rfl, rfl⟩

instance (s separator : Bytes) : Tidies (pieces s separator) := by
  unfold pieces
  have hnext : ∀ x : Except Failure (List Bytes), Tidies (match x with
      | .error e => do
        let _ ← fail .splitting e
        return none
      | .ok parts => return some parts : Recording (Option (List Bytes))) := by
    intro x
    split <;> infer_instance
  infer_instance

/-- The fields are those of the new line, or none of them changes. -/
instance (fs line : Bytes) : Tidies (setRecord fs line) := by
  unfold setRecord
  have hline : Tidies (modify fun r => { r with line } : Recording Unit) := .of_same fun _ => ⟨rfl, rfl⟩
  have hnext : ∀ x : Except Failure (List Bytes), Tidies (match x with
      | .error e => fail .fieldSplitting e
      | .ok parts => do
        modify fun r => { r with fields := .ofList parts, nf := Int64.ofNat parts.length }
        return 1 : Recording Int64) := by
    intro x
    split
    · infer_instance
    · next parts => exact ⟨fun _ => tidy_ofList parts rfl rfl⟩
  infer_instance

instance (fs : Bytes) : Tidies (nextLine fs) := by
  constructor
  intro r h
  have hanswer : (nextLine fs r).2 = (receive fs (FieldList.Input.next r.world.disk ⟨r.reader, r.inputs⟩) r).2 :=
    congrArg Prod.snd (answer_nextLine r)
  rw [hanswer]
  rcases FieldList.Input.next r.world.disk ⟨r.reader, r.inputs⟩ with ⟨line | _ | e, i⟩
  · have hset : Tidies (setRecord fs line) := inferInstance
    exact hset.tidy (r := { r with reader := i.reader, inputs := i.names, nr := r.nr + 1 }) h
  · exact h
  · exact h

instance (i : Int64) : Tidies (column i) := by
  refine .of_same fun r => ?_
  unfold column
  split
  · exact ⟨rfl, rfl⟩
  · split <;> exact ⟨rfl, rfl⟩

instance (name : Bytes) : Tidies (fileLine name) := by
  refine .of_same fun r => ?_
  simp only [fileLine, bind, StateT.bind, get, getThe, MonadStateOf.get, StateT.get, pure, set, StateT.set,
    MonadStateOf.set]
  rcases r.reads.line r.world.disk name with ⟨e | _ | line, reads⟩ <;> exact ⟨rfl, rfl⟩

instance (op : Writer → Sink → Option Failure × Writer × Sink) : Tidies (onStdout op) := .of_same fun _ => ⟨rfl, rfl⟩

instance {α : Type} (op : Outputs → World → α × Outputs × World) : Tidies (onOutputs op) := .of_same fun _ => ⟨rfl, rfl⟩

instance (dest : Destination) (path s : Bytes) : Tidies (write dest path s) := by
  have hsend : Tidies (send dest path s) := by
    unfold send flushStdout
    have hpipe : ∀ e : Option Failure, Tidies (match e with
        | some e => return some e
        | none => onOutputs fun o w => (none, o.writePipe path s, w) : Recording (Option Failure)) := by
      intro e
      split <;> infer_instance
    split <;> infer_instance
  unfold write
  have hnext : ∀ e : Option Failure, Tidies (match e with
      | none => return 0
      | some e => fail .write e : Recording Int64) := by
    intro e
    split <;> infer_instance
  infer_instance

instance : Tidies flush := .of_same fun _ => ⟨rfl, rfl⟩

instance : Tidies close := .of_same fun _ => ⟨rfl, rfl⟩

end Records

namespace Act

open Recording (Tidies)

/-- If nothing lay past the last field, nothing does afterwards. -/
def KeepsTidy (c c' : Context) : Prop := c.toRecords.Tidy → c'.toRecords.Tidy

instance : Lasting KeepsTidy := ⟨fun _ => id, fun h h' => h' ∘ h⟩

theorem Along.tidy_of_same {α : Type} {x : Act α} (h : Along SameRecords x) : Along KeepsTidy x :=
  ⟨fun c hc => (h.along c).symm ▸ hc⟩

instance {α : Type} (act : Recording α) [hact : Tidies act] : Along KeepsTidy (onRecords act) := ⟨fun _ => hact.tidy⟩

instance (g : Heap → Except HeapFault Heap) : Along KeepsTidy (change g) := .tidy_of_same inferInstance

instance (s : Bytes) : Along KeepsTidy (newStr s) := ⟨fun _ => id⟩

instance (s : Packed) : Along KeepsTidy (bytes s) := inferInstanceAs (Along KeepsTidy (look _))

instance : Along KeepsTidy fieldSeparator := .bind inferInstance fun _ => inferInstance

instance : Along KeepsTidy outputSeparator := .bind inferInstance fun _ => inferInstance

instance (i : Int64) (s : Packed) : Along KeepsTidy (setColumn i s) := by
  unfold setColumn
  split
  · infer_instance
  · next hzero =>
    split
    · infer_instance
    · next hneg =>
      have hi : 0 < i := by
        rw [Int64.lt_iff_toInt_lt] at hneg ⊢
        exact lt_of_le_of_ne (Int.not_lt.1 hneg) fun h => hzero (Int64.toInt_inj.1 h.symm)
      have hset : ∀ ofs t, Tidies (Records.setField ofs i t) := fun ofs t => ⟨fun h => h.setField hi ofs t⟩
      infer_instance

instance (n : Int64) : Along KeepsTidy (setCount n) := by
  unfold setCount
  split
  · infer_instance
  · next hneg =>
    have hn : 0 ≤ n := Int64.le_iff_toInt_le.2 (Int.not_lt.1 (mt Int64.lt_iff_toInt_lt.2 hneg))
    have hset : ∀ ofs, Tidies (Records.setCount ofs n) := fun ofs => ⟨fun _ => Records.tidy_setCount hn ofs _⟩
    infer_instance

instance (k : Key) (key : Nat → k.Carrier) (s : Packed) (m : UInt64) (p : Packed) :
    Along KeepsTidy (splitInto k key s m p) := by
  unfold splitInto
  have hset : ∀ parts : Option (List Bytes), Along KeepsTidy (match parts with
      | none => (return -1 : Act Int64)
      | some parts => do
        change (·.updateMap k .str m fun _ => numbered k key parts)
        return Int64.ofNat parts.length) := by
    intro parts
    split <;> infer_instance
  infer_instance

instance (v : Variable) (n : Int64) : Along KeepsTidy (storeInt v n) := by
  unfold storeInt
  split
  · exact .of_modify fun _ => id
  · infer_instance
  · exact .of_modify fun _ => id
  · infer_instance

instance (v : Variable) : Along KeepsTidy (loadInt v) := .bind inferInstance fun _ => by split <;> infer_instance

instance (v : Variable) : Along KeepsTidy (loadStr v) := .bind inferInstance fun _ => by split <;> infer_instance

instance (v : Variable) : Along KeepsTidy (loadMap v) := by
  unfold loadMap
  split <;> infer_instance

instance (v : Variable) (s : Packed) : Along KeepsTidy (storeStr v s) := by
  have hplace : Along KeepsTidy (modify (placeStr v s) : Act Unit) := .of_modify fun c => by
    cases v <;> exact id
  unfold storeStr
  infer_instance

instance (v : Variable) (m : UInt64) : Along KeepsTidy (storeMap v m) := by
  unfold storeMap
  split
  · exact .bind inferInstance fun _ => .bind inferInstance fun _ => .bind (.of_modify fun _ => id) fun _ =>
      inferInstance
  · infer_instance

instance (dest : Destination) (path : Packed) (s : Bytes) : Along KeepsTidy (write dest path s) := by
  unfold write pathOf
  infer_instance

instance : Along KeepsTidy nextLine := by
  have hnames : ∀ names : List Bytes, Along KeepsTidy (names.forM takeName) := fun names => .tidy_of_same inferInstance
  exact .bind inferInstance fun _ => .bind inferInstance fun x => .bind (hnames x.2) fun _ => inferInstance

instance : Along KeepsTidy close := by
  have hback : Along KeepsTidy giveBack := .tidy_of_same inferInstance
  rw [close_eq]
  infer_instance

end Act

namespace Ownership

open Act (Along KeepsTidy)

instance {α : Type} (x : Act α) [hx : Along KeepsTidy x] : Along KeepsTidy (keepNone x) := by
  unfold keepNone
  infer_instance

instance (x : Act Packed) [hx : Along KeepsTidy x] : Along KeepsTidy (keepStr x) := by
  unfold keepStr
  infer_instance

instance (x : Call) : Along KeepsTidy x.act := by
  cases x with
  | nextLine => exact inferInstanceAs (Along KeepsTidy (keepNone Act.nextLine))
  | setColumn i s => exact inferInstanceAs (Along KeepsTidy (keepNone (Act.setColumn i s)))
  | splitInt s map separator =>
    exact inferInstanceAs (Along KeepsTidy (keepNone (Act.splitInto .int Int64.ofNat s map separator)))
  | splitStr s map separator =>
    exact inferInstanceAs (Along KeepsTidy (keepNone (Act.splitInto .str Bytes.decimal s map separator)))
  | write dest path s => exact inferInstanceAs (Along KeepsTidy (keepNone (Act.write dest path s)))
  | storeInt v n => exact inferInstanceAs (Along KeepsTidy (keepNone (Act.storeInt v n)))
  | storeStr v s => exact inferInstanceAs (Along KeepsTidy (keepNone (Act.storeStr v s)))
  | storeMap v m => exact inferInstanceAs (Along KeepsTidy (keepNone (Act.storeMap v m)))
  | flush => exact inferInstanceAs (Along KeepsTidy (keepNone (Act.onRecords Records.flush)))
  | close => exact inferInstanceAs (Along KeepsTidy (keepNone Act.close))
  | loadInt v => exact inferInstanceAs (Along KeepsTidy (keepNone (Act.loadInt v)))
  | loadStr v => exact inferInstanceAs (Along KeepsTidy (keepNone (Act.loadStr v)))
  | loadMap v => exact inferInstanceAs (Along KeepsTidy (keepNone (Act.loadMap v)))
  | column i =>
    unfold Call.act Act.column
    infer_instance
  | isMatch s pattern =>
    unfold Call.act Act.isMatch
    infer_instance
  | concat a b =>
    unfold Call.act Act.concat
    infer_instance
  | compareStr a b =>
    unfold Call.act Act.compareStr
    infer_instance
  | readFileLine path =>
    unfold Call.act Act.readFileLine
    infer_instance
  | printAll dest path args =>
    unfold Call.act Act.printAll
    infer_instance
  | printf dest path format args =>
    unfold Call.act Act.printf
    infer_instance
  | sprintf format args =>
    unfold Call.act Act.sprintf
    infer_instance

theorem Reachable.tidy {c : Context} (h : Reachable c) : c.toRecords.Tidy := by
  induction h with
  | start s world => exact fun _ j _ => LazyVec.at_empty j
  | call x _ _ ih =>
    have hx : Along KeepsTidy x.act := inferInstance
    exact hx.along _ ih
  | use d _ _ ih => exact ih
  | outside world _ ih => exact ih

end Ownership

/-! ## The line after the fields were joined -/

namespace Records

/-- The line is what the fields joined with `ofs` come to. -/
structure Joined (ofs : Bytes) (r : Records) : Prop where
  line : r.line = Bytes.join ofs (firstFields r.fields r.nf.toInt.toNat)
  count : 0 ≤ r.nf.toInt

variable {r : Records} {ofs : Bytes} {i n : Int64}

theorem joined_setField (hi : 0 < i) (ofs s : Bytes) (r : Records) : (setField ofs i s r).2.Joined ofs := by
  have hpos : 0 < i.toInt := Int64.lt_iff_toInt_lt.1 hi
  have hnf : (Records.setField ofs i s r).2.nf = if r.nf < i then i else r.nf := rfl
  refine ⟨rfl, ?_⟩
  rw [hnf]
  split
  · omega
  · next hge =>
    rw [Int64.lt_iff_toInt_lt] at hge
    omega

theorem joined_setCount (hn : 0 ≤ n) (ofs : Bytes) (r : Records) : (setCount ofs n r).2.Joined ofs :=
  ⟨rfl, Int64.le_iff_toInt_le.1 hn⟩

theorem column_of_pos (hi : 0 < i) (r : Records) : column i r = (r.fields.at_ (i.toInt - 1), r) := by
  unfold column
  rw [if_neg (Int64.ne_of_lt hi).symm, if_neg (Int64.lt_asymm hi)]
  rfl

theorem length_firstFields (v : LazyVec Bytes) (n : Nat) : (firstFields v n).length = n := by
  rw [firstFields, List.length_map, List.length_range]

theorem exists_column {p : Bytes} (hp : p ∈ firstFields r.fields r.nf.toInt.toNat) :
    ∃ j, 1 ≤ j ∧ j ≤ r.nf ∧ (column j r).1 = p := by
  obtain ⟨k, hk, rfl⟩ := List.mem_map.1 hp
  rw [List.mem_range] at hk
  have hlt := r.nf.toInt_lt
  have hvalue : (Int64.ofNat (k + 1)).toInt = (k : Int) + 1 := Int64.toInt_ofNat_of_lt (by omega)
  have hpos : 0 < Int64.ofNat (k + 1) := by
    rw [Int64.lt_iff_toInt_lt, hvalue, Int64.toInt_zero]
    omega
  refine ⟨Int64.ofNat (k + 1), ?_, ?_, ?_⟩
  · rw [Int64.le_iff_toInt_le, hvalue, Int64.toInt_one]
    omega
  · rw [Int64.le_iff_toInt_le, hvalue]
    omega
  · rw [column_of_pos hpos, hvalue, Int.add_sub_cancel]
    rfl

theorem single_of_firstFields (h : firstFields r.fields r.nf.toInt.toNat = [[]]) : r.nf = 1 ∧ (column 1 r).1 = [] := by
  have hlength := congrArg List.length h
  rw [length_firstFields] at hlength
  have hcount : r.nf.toInt.toNat = 1 := hlength
  have hnf : r.nf = 1 := by
    rw [← Int64.toInt_inj, Int64.toInt_one]
    omega
  rw [hcount] at h
  exact ⟨hnf, (List.cons.inj h).1⟩

theorem Joined.setRecord {ch : UInt8} (h : r.Joined [ch]) (hspace : ch ≠ 32) (hbackslash : ch ≠ 92)
    (hfields : ∀ p ∈ firstFields r.fields r.nf.toInt.toNat, ch ∉ p)
    (hsingle : firstFields r.fields r.nf.toInt.toNat ≠ [[]]) :
    setRecord [ch] r.line r = (1, { r with fields := .ofList (firstFields r.fields r.nf.toInt.toNat) }) := by
  have hsplit := FieldList.split_join hspace hbackslash hsingle hfields r
  rw [← h.line] at hsplit
  have hnf : Int64.ofNat (firstFields r.fields r.nf.toInt.toNat).length = r.nf := by
    rw [length_firstFields]
    exact Int64.ofNat_toNatClampNeg r.nf (Int64.le_iff_toInt_le.2 h.count)
  simp only [Records.setRecord, bind, StateT.bind, modify, modifyGet, MonadStateOf.modifyGet, StateT.modifyGet, pure,
    hsplit, hnf]
  rfl

theorem Tidy.column_ofList (h : r.Tidy) (hsize : r.fields.size < 2 ^ 63) {j : Int64} (hj : 0 ≤ j) :
    (column j { r with fields := .ofList (firstFields r.fields r.nf.toInt.toNat) }).1 = (column j r).1 := by
  rcases Int64.lt_or_eq_of_le hj with hpos | rfl
  · obtain ⟨k, hk⟩ := Int.eq_ofNat_of_zero_le (show 0 ≤ j.toInt - 1 by
      have := Int64.lt_iff_toInt_lt.1 hpos
      rw [Int64.toInt_zero] at this
      omega)
    rw [column_of_pos hpos, column_of_pos hpos, hk]
    show (LazyVec.ofList (firstFields r.fields r.nf.toInt.toNat)).at_ k = r.fields.at_ k
    rw [LazyVec.at_ofList, firstFields, List.getElem?_map]
    by_cases hin : k < r.nf.toInt.toNat
    · rw [List.getElem?_range hin]
      rfl
    · rw [List.getElem?_eq_none (by rw [List.length_range]; omega), h hsize k (by omega)]
      rfl
  · rfl

end Records

namespace FieldList

variable {c c' d : Context} {ch : UInt8} {ofs : Bytes}

theorem joined_setColumn {i : Int64} {s : Packed} (hi : 0 < i) (hofs : c.heap.string c.ofs = .ok ofs)
    (h : Act.setColumn i s c = (.ok (), c')) : c'.toRecords.Joined ofs := by
  have hseparator : Act.outputSeparator c = (.ok ofs, c) := (Act.bind_ok (Act.get_ok c)).trans (Act.look_ok hofs)
  unfold Act.setColumn at h
  rw [if_neg (Int64.ne_of_lt hi).symm, if_neg (Int64.lt_asymm hi)] at h
  cases hs : c.heap.string s with
  | error e =>
    rw [Act.bind_error (x := Act.bytes s) (Act.look_error hs)] at h
    cases h
  | ok t =>
    rw [Act.bind_ok (x := Act.bytes s) (Act.look_ok hs), Act.bind_ok hseparator] at h
    cases h
    exact Records.joined_setField hi ofs t _

theorem joined_storeCount {n : Int64} (hn : 0 ≤ n) (hofs : c.heap.string c.ofs = .ok ofs)
    (h : Act.storeInt .nf n c = (.ok (), c')) : c'.toRecords.Joined ofs := by
  have hseparator : Act.outputSeparator c = (.ok ofs, c) := (Act.bind_ok (Act.get_ok c)).trans (Act.look_ok hofs)
  have hneg : ¬n < 0 := Int64.not_lt.2 hn
  unfold Act.storeInt Act.setCount at h
  dsimp only at h
  rw [if_neg hneg] at h
  split at h
  · cases h
  · rw [Act.bind_ok hseparator] at h
    cases h
    exact Records.joined_setCount hn ofs _

/-- After a field or the number of fields was assigned, the fields are found again in the line when it is assigned in
turn. For that it is handed over as a string of its own, so that the heap may have changed in between. -/
theorem resplit_keeps_record (hc : Ownership.Reachable c) (hspace : ch ≠ 32) (hbackslash : ch ≠ 92)
    (hofs : c.heap.string c.ofs = .ok [ch])
    (hrebuilt : (∃ i s, 1 ≤ i ∧ Act.setColumn i s c = (.ok (), c')) ∨ ∃ n, 0 ≤ n ∧ Act.storeInt .nf n c = (.ok (), c'))
    (hsize : c'.fields.size < 2 ^ 63) (hfields : ∀ j, 1 ≤ j → j ≤ c'.nf → ch ∉ (Records.column j c'.toRecords).1)
    (hsingle : ¬(c'.nf = 1 ∧ (Records.column 1 c'.toRecords).1 = []))
    (hsame : d.toRecords = c'.toRecords) (hfs : d.heap.string d.fs = .ok [ch]) {p : Packed}
    (hp : d.heap.string p = .ok c'.line) :
    ∃ d', Act.setColumn 0 p d = (.ok (), d') ∧ d'.nf = c'.nf ∧ d'.line = c'.line ∧ d'.noted = c'.noted
      ∧ ∀ j, 0 ≤ j → (Records.column j d'.toRecords).1 = (Records.column j c'.toRecords).1 := by
  have hjoined : c'.toRecords.Joined [ch] := by
    rcases hrebuilt with ⟨i, s, hi, h⟩ | ⟨n, hn, h⟩
    · exact joined_setColumn (Int64.lt_of_lt_of_le (by decide) hi) hofs h
    · exact joined_storeCount hn hofs h
  have htidy : c'.toRecords.Tidy := by
    rcases hrebuilt with ⟨i, s, -, h⟩ | ⟨n, -, h⟩
    · have hkeeps := (inferInstance : Act.Along Act.KeepsTidy (Act.setColumn i s)).along c hc.tidy
      rwa [h] at hkeeps
    · have hkeeps := (inferInstance : Act.Along Act.KeepsTidy (Act.storeInt .nf n)).along c hc.tidy
      rwa [h] at hkeeps
  have hset : Records.setRecord [ch] c'.line c'.toRecords
      = (1, { c'.toRecords with fields := .ofList (Records.firstFields c'.fields c'.nf.toInt.toNat) }) := by
    refine hjoined.setRecord hspace hbackslash (fun x hx => ?_) fun h => hsingle (Records.single_of_firstFields h)
    obtain ⟨j, hone, hle, rfl⟩ := Records.exists_column hx
    exact hfields j hone hle
  rw [← hsame] at hset
  refine ⟨{ d with fields := .ofList (Records.firstFields d.fields d.nf.toInt.toNat) }, ?_, congrArg (·.nf) hsame,
    congrArg (·.line) hsame, congrArg (·.noted) hsame, fun j hj => ?_⟩
  · have hline : Act.bytes p d = (.ok d.line, d) := Act.look_ok (hp.trans (congrArg (Except.ok ·.line) hsame.symm))
    have hseparator : Act.fieldSeparator d = (.ok [ch], d) := (Act.bind_ok (Act.get_ok d)).trans (Act.look_ok hfs)
    unfold Act.setColumn
    rw [if_pos rfl, Act.bind_ok hline, Act.bind_ok hseparator]
    exact (Act.bind_ok (Act.onRecords_eq hset)).trans rfl
  · rw [← hsame] at htidy hsize ⊢
    exact htidy.column_ofList hsize hj

/-- Fields are set apart by commas, and there is no record yet. -/
def commas : Context := Context.ofSettings { fs := text ",", ofs := text "," } {}

/-- Setting the third field puts two empty ones in front of it. -/
theorem resplit_keeps_record_gap :
    Ownership.Reachable commas ∧ ∃ c' d', Act.setColumn 3 (.inline (text "x")) commas = (.ok (), c')
    ∧ c'.line = text ",,x" ∧ Act.setColumn 0 (.inline (text ",,x")) c' = (.ok (), d') ∧ d'.nf = 3 ∧ d'.line = text ",,x"
    ∧ (Records.column 2 d'.toRecords).1 = [] := by
  have hreach : Ownership.Reachable commas := .start _ _
  obtain ⟨c', hc'⟩ : ∃ c', c' = (Act.setColumn 3 (.inline (text "x")) commas).2 := ⟨_, rfl⟩
  have hrun : Act.setColumn 3 (.inline (text "x")) commas = (.ok (), c') := hc' ▸ rfl
  have hnf : c'.nf = Int64.ofNat 3 := hc' ▸ by decide +kernel
  have hline : c'.line = text ",,x" := hc' ▸ by decide +kernel
  have hfields : ∀ j, 1 ≤ j → j ≤ c'.nf → 44 ∉ (Records.column j c'.toRecords).1 := by
    intro j hone hle
    obtain ⟨k, hfirst, hlast, rfl⟩ := (Int64.between_iff (by decide)).1 ⟨hone, hnf ▸ hle⟩
    have hall : ∀ k < 3, 44 ∉ (Records.column (Int64.ofNat (k + 1)) c'.toRecords).1 := hc' ▸ by decide +kernel
    obtain ⟨k, rfl⟩ := Nat.exists_eq_add_of_le' hfirst
    exact hall k (Nat.succ_le_iff.1 hlast)
  obtain ⟨d', hset, hnf', hline', -, hcolumns⟩ := resplit_keeps_record (d := c') hreach (by decide)
    (by decide) (show commas.heap.string commas.ofs = .ok [44] from rfl) (.inl ⟨3, .inline (text "x"), by decide, hrun⟩)
      (hc' ▸ by decide +kernel) hfields
    (fun h => absurd h.1 (hnf ▸ by decide)) rfl (hc' ▸ rfl) (p := .inline (text ",,x")) (by rw [hline]; rfl)
  refine ⟨hreach, c', d', hrun, hline, hset, hnf'.trans hnf, hline'.trans hline, ?_⟩
  rw [hcolumns 2 (by decide)]
  exact hc' ▸ by decide +kernel

end FieldList

end RecordMill

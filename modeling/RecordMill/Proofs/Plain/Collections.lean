import RecordMill.Proofs.Plain.Instructions
import RecordMill.Proofs.Service.Deeds

/-!
# Instructions that go on, on plain values

A map is reached through a reference, an iterator is a list of keys and a position in it. The list is owned by the
iterator alone, so no map can change it. With printing these are all instructions that stay in their activation. -/

namespace RecordMill.Direct

open Plain (Val Table)

theorem mapService_apply {e : Setting} {δ : Store} {m : Reg} {k : Key} {v : Scalar} (hm : m.ty = .map k v)
    (what : MapService) :
    (Lowering.mapService m what : Direct Service) e δ = (.ok (.map k v what), δ) := by
  unfold Lowering.mapService
  rw [hm]
  rfl

theorem has_mapKey {e : Setting} {others : List Item} {i : Instr} {m x : Reg} {k : Key} {v : Scalar}
    (hi : i ∈ e.scope.func.body) (hm : m.ty = .map k v) (hx : x.ty = k.ty) (hregs : ∀ u ∈ [m, x], u ∈ i.regs) :
    ∀ u ∈ [m, x], (e.holdings others).Has u := fun u hu => e.has hi (hregs u hu) <| by
  rcases List.mem_pair.1 hu with rfl | rfl
  · rw [hm]
    rfl
  · rw [hx]
    exact k.isIter_ty

theorem perform_map {k : Key} {v : Scalar} {what : MapService} (hwhat : what ≠ .alloc) {a : UInt64}
    {wss : List (List UInt64)} {w : List UInt64} (hw : wss.flatten = w) :
    Service.perform (.map k v what) (contextWord :: [a] :: wss).flatten
      = Service.lift (Service.onMap k v a w what) := by
  subst hw
  cases what <;> first | exact absurd rfl hwhat | rfl

section

variable {e : Setting} {others : List Item} {δ : Store} {σ : Plain.State} (hf : e.Fit)
  (h : Reflects e (e.holdings others) [] δ σ)

include hf h

/-! ## Maps -/

theorem lower_len {d m : Reg} (hi : .len d m ∈ e.scope.func.body) :
    Follows (Lowering.lower (.len d m)) e δ (e.holdings others) (σ.exec e.program (.len d m)) := by
  obtain ⟨hd, k, v, hm⟩ := hf.typed hi
  refine .after (mapService_apply hm .len) (bindService_int hf h (s := σ.store)
    (List.forall_mem_singleton.2 (e.has hi (.tail _ (.head _)) (by rw [hm]; rfl)))
      (e.has hi (.head _) (by rw [hd]; rfl)) hd rfl
    fun wss hreads => ?_)
  simp only [Holdings.Reads.cons_iff, Holdings.Reads.nil_iff] at hreads
  obtain ⟨_, _, hx, rfl, rfl⟩ := hreads
  obtain ⟨a, rfl, ha⟩ := h.mapWords hx hm
  exact ⟨_, rfl, δ.context, h.context.len ha, h.context⟩

omit hf in
theorem keyWords {m x : Reg} {k : Key} {v : Scalar} (hm : m.ty = .map k v) (hx : x.ty = k.ty) {rest : List Reg}
    {wss : List (List UInt64)}
    (hreads : (e.holdings others).Reads e δ σ (m :: x :: rest) wss) : ∃ a ws wss', wss = [a] :: ws :: wss'
      ∧ .map k v (σ.get e.program m).toRef a ∈ (e.holdings others).items δ σ
      ∧ .reg k.ty (σ.get e.program x) ws ∈ (e.holdings others).items δ σ
      ∧ (e.holdings others).Reads e δ σ rest wss' := by
  simp only [Holdings.Reads.cons_iff] at hreads
  obtain ⟨_, _, hmap, ⟨ws, wss', hkey, hrest, rfl⟩, rfl⟩ := hreads
  obtain ⟨a, rfl, ha⟩ := h.mapWords hmap hm
  exact ⟨a, ws, wss', rfl, ha, hx ▸ hkey, hrest⟩

theorem lower_contains {d m x : Reg} (hi : .contains d m x ∈ e.scope.func.body) :
    Follows (Lowering.lower (.contains d m x)) e δ (e.holdings others) (σ.exec e.program (.contains d m x)) := by
  obtain ⟨hd, k, v, hm, hx⟩ := hf.typed hi
  refine .after (mapService_apply hm .contains)
    (bindService_int hf h (s := σ.store) (has_mapKey hi hm hx fun _ hu => .tail _ hu)
      (e.has hi (.head _) (by rw [hd]; rfl)) hd rfl fun wss hreads => ?_)
  obtain ⟨a, ws, _, rfl, ha, hkey, hrest⟩ := keyWords h hm hx hreads
  obtain rfl := Holdings.Reads.nil_iff.1 hrest
  refine ⟨_, perform_map (w := ws) (by nofun) (by simp), δ.context, (h.context.contains ha hkey).trans ?_, h.context⟩
  show (Except.ok [Machine.Word.ofBool ((σ.store.table (σ.get e.program m)).contains (σ.get e.program x))], _) = _
  cases (σ.store.table (σ.get e.program m)).contains (σ.get e.program x) <;> rfl

theorem lower_delete {m x : Reg} (hi : .delete m x ∈ e.scope.func.body) :
    Follows (Lowering.lower (.delete m x)) e δ (e.holdings others) (σ.exec e.program (.delete m x)) := by
  obtain ⟨k, v, hm, hx⟩ := hf.typed hi
  obtain ⟨wss, hvs, hreads⟩ := Reflects.values hf (hf.within others) (has_mapKey hi hm hx fun _ hu => hu)
    (δ := δ) (σ := σ)
  obtain ⟨a, ws, _, rfl, ha, hkey, hrest⟩ := keyWords h hm hx hreads
  obtain rfl := Holdings.Reads.nil_iff.1 hrest
  refine .after hvs (.after (mapService_apply hm .delete)
    (h.tell (perform_map (w := ws) (by nofun) (by simp)) (h.context.delete ha hkey) rfl))

theorem lower_store {m x y : Reg} (hi : .store m x y ∈ e.scope.func.body) :
    Follows (Lowering.lower (.store m x y)) e δ (e.holdings others) (σ.exec e.program (.store m x y)) := by
  obtain ⟨k, v, hm, hx, hy⟩ := hf.typed hi
  have hargs : ∀ u ∈ [m, x, y], (e.holdings others).Has u := by
    refine List.forall_mem_cons.2 ⟨?_, List.forall_mem_cons.2 ⟨?_, List.forall_mem_singleton.2 ?_⟩⟩
    · exact e.has hi (.head _) (by rw [hm]; rfl)
    · exact e.has hi (.tail _ (.head _)) (hx ▸ k.isIter_ty)
    · exact e.has hi (.tail _ (.tail _ (.head _))) (hy ▸ v.isIter_ty)
  obtain ⟨wss, hvs, hreads⟩ := Reflects.values hf (hf.within others) hargs (δ := δ) (σ := σ)
  obtain ⟨a, ws, _, rfl, ha, hkey, hrest⟩ := keyWords h hm hx hreads
  simp only [Holdings.Reads.cons_iff, Holdings.Reads.nil_iff] at hrest
  obtain ⟨us, _, hval, rfl, rfl⟩ := hrest
  rw [hy] at hval
  refine .after hvs (.after (mapService_apply hm .insert)
    (h.tell (perform_map (w := ws ++ us) (by nofun) (by simp)) (h.context.insert ha hkey hval) rfl))

theorem lower_lookup (hfew : (e.holdings others).Few) {d m x : Reg} (hi : .lookup d m x ∈ e.scope.func.body) :
    Follows (Lowering.lower (.lookup d m x)) e δ (e.holdings others) (σ.exec e.program (.lookup d m x)) := by
  obtain ⟨k, v, hm, hx, hd⟩ := hf.typed hi
  refine .after (mapService_apply hm .lookup)
    (h.bindService hf (hf.within others) (s := σ.store) (e.has hi (.head _) (hd ▸ v.isIter_ty))
      (Func.holdsLiterals_eq_false hi [d] rfl (.head _) rfl) (has_mapKey hi hm hx fun _ hu =>
        .tail _ hu) rfl fun wss hreads => ?_)
  obtain ⟨a, ws, _, rfl, ha, hkey, hrest⟩ := keyWords h hm hx hreads
  obtain rfl := Holdings.Reads.nil_iff.1 hrest
  obtain ⟨rs, hact⟩ := h.context.lookup ha hkey (hfew.items δ σ _ (by simp))
  refine ⟨_, rs, perform_map (w := ws) (by nofun) (by simp), ?_⟩
  rw [hd]
  exact hact

end

/-! ## Iterators -/

section

variable {e : Setting} {others : List Item} {δ : Store} {σ : Plain.State} (hf : e.Fit)

theorem Setting.mem_locals_of_iter (hf : e.Fit) {i : Instr} {r : Reg} {k : Key} (hi : i ∈ e.scope.func.body)
    (hr : r ∈ i.regs) (hty : r.ty = .iter k) :
    r ∈ e.scope.func.locals e.program.globals :=
  e.mem_locals hi hr (by rw [hty]; nofun) fun hg => (hf.storable_global hg).2.2 k hty

theorem iterKey_apply {r : Reg} {k : Key} (hf : e.Fit) (hr : r ∈ e.scope.func.locals e.program.globals)
    (hty : r.ty = .iter k) :
    iterKey r e δ = (.ok k, δ) := by
  obtain ⟨c, hc⟩ := Option.isSome_iff_exists.1
    (show ((Scope.ofFunc e.program e.scope.func e.scope.isMain).cursor? r).isSome from Scope.cursor_isSome hr
      (by rw [hty]; rfl))
  rw [← hf.scope] at hc
  have hread : (MonadReader.read : Direct Setting) e δ = (.ok e, δ) := rfl
  unfold iterKey
  rw [bind_ok hread, hc, hty]
  rfl

theorem swap_iter (others : List Item) {r : Reg} (hr : r ∈ e.scope.func.locals e.program.globals) {δ' : Store}
    {τ : Plain.State} (hδ : δ'.locals = δ.locals ∧ δ'.globals = δ.globals)
    (hσ : τ.frame.regs = σ.frame.regs ∧ τ.store.globals = σ.store.globals) (hkeys : ∀ u, u ≠ r → δ'.keys u = δ.keys u)
    (hposition : ∀ u, u ≠ r → δ'.position u = δ.position u)
    (hcursors : ∀ u, u ≠ r → τ.frame.cursors u = σ.frame.cursors u) :
    Item.Swap (localItem δ σ r) (localItem δ' τ r) ((e.holdings others).items δ σ)
      ((e.holdings others).items δ' τ) := by
  have hswap := Item.Swap.map (f := localItem δ σ) (g := localItem δ' τ) hr (nodup_eraseDups _) fun u _ hu => by
    simp only [localItem, Item.ofLocal, hδ.1, hσ.1, hkeys u hu, hposition u hu, hcursors u hu]
  have hall := (hswap.append_right
    ((e.holdings others).globals.map (.ofGlobal δ.globals σ.store.globals) ++ others)).append_left [.null]
  simp only [Holdings.items, hδ.2, hσ.2]
  exact hall

theorem localItem_iter {r : Reg} {k : Key} (hty : r.ty = .iter k) :
    localItem δ σ r = .iter k (σ.frame.cursors r) (δ.keys r) (δ.position r) := by
  simp only [localItem, Item.ofLocal, hty]

theorem Reflects.iter {r : Reg} {k : Key} (hty : r.ty = .iter k) {held held' : List Item} {δ' : Store} {τ : Plain.State}
    (h : Reflects e (e.holdings others) held δ σ) (hflow : δ'.flow = δ.flow) (hδ : δ'.locals = δ.locals)
    (hσ : τ.frame.regs = σ.frame.regs) (hkeys : ∀ u, u ≠ r → δ'.keys u = δ.keys u)
    (hposition : ∀ u, u ≠ r → δ'.position u = δ.position u)
    (hcursors : ∀ u, u ≠ r → τ.frame.cursors u = σ.frame.cursors u)
    (hcontext : δ'.context.Reflects e.literals.toArray τ.store (held' ++ (e.holdings others).items δ' τ)) :
    Reflects e (e.holdings others) held' δ' τ := by
  refine ⟨hcontext, fun u hu hl => ?_, hflow.trans h.flow⟩
  have hne : u ≠ r := by
    rintro rfl
    simp [Func.holdsLiterals, hty] at hl
  have hsame : localItem δ' τ u = localItem δ σ u := by
    simp only [localItem, Item.ofLocal, hδ, hσ, hkeys u hne, hposition u hne, hcursors u hne]
  rw [hsame]
  exact h.literal u hu hl

variable (h : Reflects e (e.holdings others) [] δ σ)

include hf h

theorem lower_iterBegin (hfew : (e.holdings others).Few) {d m : Reg} (hi : .iterBegin d m ∈ e.scope.func.body) :
    Follows (Lowering.lower (.iterBegin d m)) e δ (e.holdings others) (σ.exec e.program (.iterBegin d m)) := by
  obtain ⟨k, v, hm, hd⟩ := hf.typed hi
  have hr := e.mem_locals_of_iter hf hi (.head _) hd
  obtain ⟨ws, hval, hx⟩ := Reflects.value (δ := δ) (σ := σ) hf (hf.within others)
    (e.has hi (.tail _ (.head _)) (by rw [hm]; rfl))
  obtain ⟨a, rfl, ha⟩ := h.mapWords hx hm
  obtain ⟨it, c₁, hbegin, h₁⟩ := h.context.iterBegin ha (hfew.items δ σ _ (by simp))
  obtain ⟨δ', hδ⟩ : ∃ δ' : Store, δ' = { δ with
    keys := fun u => if u = d then it else δ.keys u, position := fun u => if u = d then 0 else δ.position u } :=
      ⟨_, rfl⟩
  have hnew : localItem δ' (σ.setCursor d (.ofTable (σ.store.table (σ.get e.program m)))) d
      = .iter k (some (.ofTable (σ.store.table (σ.get e.program m)))) it 0 := by
    rw [localItem_iter hd, hδ]
    simp [Plain.State.setCursor]
  have hkeys : ∀ u, u ≠ d → δ'.keys u = δ.keys u := fun u hu => hδ ▸ if_neg hu
  have hposition : ∀ u, u ≠ d → δ'.position u = δ.position u := fun u hu => hδ ▸ if_neg hu
  have hcursors : ∀ u, u ≠ d → (σ.setCursor d (.ofTable (σ.store.table (σ.get e.program m)))).frame.cursors u
      = σ.frame.cursors u :=
    fun u hu => if_neg hu
  have hswap := swap_iter others (σ := σ) (τ := σ.setCursor d (.ofTable (σ.store.table (σ.get e.program m)))) hr
    (hδ ▸ ⟨rfl, rfl⟩) ⟨rfl, rfl⟩ hkeys hposition hcursors
  rw [localItem_iter hd, hnew] at hswap
  obtain ⟨c₂, hdrop, h₂⟩ := (h₁.swap hswap).drop
  have hservice : Direct.service (.map k v .iterBegin) [contextWord, [a]] e δ = (.ok [it], { δ with context := c₁ }) :=
    service_of_act (perform_map (w := []) (by nofun) rfl) hbegin
  have hdropKeys : dropKeys d e { δ with context := c₁ } = (.ok (), { δ with context := c₂ }) :=
    tell_of_act (w := [contextWord, [δ.keys d]]) (δ := { δ with context := c₁ }) rfl hdrop
  refine ⟨{ δ' with context := c₂ }, ?_, h.iter hd (hδ ▸ rfl) (hδ ▸ rfl) rfl hkeys hposition hcursors h₂⟩
  refine (bind_ok (iterKey_apply hf hr hd)).trans
    ((bind_ok hval).trans ((bind_ok (mapService_apply hm .iterBegin)).trans ?_))
  subst hδ
  exact (bind_ok hservice).trans ((bind_ok hdropKeys).trans rfl)

omit hf h in
theorem look_unbegun (k : Key) {a : UInt64} (ha : a = 0) (c : Context) :
  Act.look (·.keys k a) c = (.error (.heap (.invalidHandle 0)), c) := by
  subst ha
  exact Act.look_error rfl

theorem lower_iterHasNext {d it : Reg} (hi : .iterHasNext d it ∈ e.scope.func.body) :
    Follows (Lowering.lower (.iterHasNext d it)) e δ (e.holdings others) (σ.exec e.program (.iterHasNext d it)) := by
  obtain ⟨hd, k, hit⟩ := hf.typed hi
  have hr := e.mem_locals_of_iter hf hi (.tail _ (.head _)) hit
  have hmem : localItem δ σ it ∈ (e.holdings others).items δ σ :=
    .tail _ (List.mem_append_left _ (List.mem_map_of_mem hr))
  rw [localItem_iter hit] at hmem
  rw [Plain.State.exec]
  rcases h.context.backs.iter (Context.Reflects.mem hmem) with ⟨hc, h0⟩ | ⟨keys, position, hc, hw, hkeys⟩
  · rw [hc]
    have hservice : Direct.service (.iterLen k) [contextWord, [δ.keys it]] e δ
        = (.error (.trap Plain.Halt.notBegun.trap), δ) :=
      service_of_fault (x := do return [(← Act.look (·.keys k (δ.keys it))).size.toUInt64]) rfl
        (Act.bind_error (look_unbegun k h0 _))
    exact (bind_ok (iterKey_apply hf hr hit)).trans ((bind_ok rfl).trans (bind_trap hservice))
  · rw [hc]
    have hservice : Direct.service (.iterLen k) [contextWord, [δ.keys it]] e δ
        = (.ok [(Int64.ofNat keys.length).toUInt64], δ) :=
      service_of_act (x := do return [(← Act.look (·.keys k (δ.keys it))).size.toUInt64]) rfl
        ((Act.bind_ok (Act.look_ok hkeys)).trans rfl)
    obtain ⟨δ', hbind, h'⟩ := bindInt hf h (e.has hi (.head _) (by rw [hd]; rfl)) (.inr hd)
      (Val.ofBool (Plain.Cursor.hasNext ⟨k, keys, position⟩)).toInt
    refine ⟨δ', ?_, h'⟩
    refine (bind_ok (iterKey_apply hf hr hit)).trans
      ((bind_ok rfl).trans ((bind_ok hservice).trans ((bind_ok rfl).trans ?_)))
    have htruth := truth_apply (e := e) (δ := δ) (Plain.Cursor.hasNext ⟨k, keys, position⟩)
    refine (bind_ok ?_).trans hbind
    rw [← htruth, hw]
    simp [word, Machine.IntCond.holds?, Plain.Cursor.hasNext]

theorem lower_iterGetNext (hfew : (e.holdings others).Few) {d it : Reg} (hi : .iterGetNext d it ∈ e.scope.func.body) :
    Follows (Lowering.lower (.iterGetNext d it)) e δ (e.holdings others) (σ.exec e.program (.iterGetNext d it)) := by
  obtain ⟨k, hit, hd⟩ := hf.typed hi
  have hr := e.mem_locals_of_iter hf hi (.tail _ (.head _)) hit
  have hmem : localItem δ σ it ∈ (e.holdings others).items δ σ :=
    .tail _ (List.mem_append_left _ (List.mem_map_of_mem hr))
  rw [localItem_iter hit] at hmem
  rw [Plain.State.exec]
  rcases h.context.backs.iter (Context.Reflects.mem hmem) with ⟨hc, h0⟩ | ⟨keys, position, hc, hw, hkeys⟩
  · rw [hc]
    have hservice : Direct.service (.iterGet k) [contextWord, [δ.keys it], [δ.position it]] e δ
        = (.error (.trap Plain.Halt.notBegun.trap), δ) :=
      service_of_fault (x := Service.keyAt k (δ.keys it) (δ.position it).toInt64) rfl
        (Act.bind_error (look_unbegun k h0 _))
    exact (bind_ok (iterKey_apply hf hr hit)).trans ((bind_ok rfl).trans ((bind_ok rfl).trans (bind_trap hservice)))
  · rw [hc]
    rw [hc, hw] at hmem
    obtain ⟨ws, hact⟩ := h.context.keyAt (hfew.items δ σ [] (by simp)) hmem
    obtain ⟨c₁, hkey, h₁⟩ := hact
    have hservice : Direct.service (.iterGet k) [contextWord, [δ.keys it], [δ.position it]] e δ
        = (.ok ws, { δ with context := c₁ }) := by
      refine service_of_act (x := Service.keyAt k (δ.keys it) (δ.position it).toInt64) rfl ?_
      rw [hw]
      simpa using hkey
    obtain ⟨δ', hδ⟩ : ∃ δ' : Store, δ' = { δ with
      context := c₁, position := fun u => if u = it then (position + 1).toUInt64 else δ.position u } := ⟨_, rfl⟩
    have hnew : localItem δ' (σ.setCursor it ⟨k, keys, position + 1⟩) it
        = .iter k (some ⟨k, keys, position + 1⟩) (δ.keys it) (position + 1).toUInt64 := by
      rw [localItem_iter hit, hδ]
      simp [Plain.State.setCursor]
    have hposition : ∀ u, u ≠ it → δ'.position u = δ.position u := fun u hu => hδ ▸ if_neg hu
    have hcursors : ∀ u, u ≠ it → (σ.setCursor it ⟨k, keys, position + 1⟩).frame.cursors u = σ.frame.cursors u :=
      fun u hu => if_neg hu
    have hswap := swap_iter others (σ := σ) (τ := σ.setCursor it ⟨k, keys, position + 1⟩) hr
      (hδ ▸ ⟨rfl, rfl⟩) ⟨rfl, rfl⟩
      (fun _ _ => hδ ▸ rfl) hposition hcursors
    rw [localItem_iter hit, hnew, hc, hw] at hswap
    have h₂ : Reflects e (e.holdings others) [.reg d.ty (Plain.Cursor.current ⟨k, keys, position⟩) ws] δ'
        (σ.setCursor it ⟨k, keys, position + 1⟩) := by
      refine h.iter (τ := σ.setCursor it ⟨k, keys, position + 1⟩) hit (hδ ▸ rfl) (hδ ▸ rfl) rfl
        (fun _ _ => hδ ▸ rfl) hposition hcursors ?_
      have h₂ := h₁.advance (hswap.append_left [.reg k.ty (Plain.Cursor.current ⟨k, keys, position⟩) ws])
      rw [hd]
      subst hδ
      exact h₂
    obtain ⟨δ₃, hbind, h₃⟩ := Reflects.bindOwned hf (hf.within others) (e.has hi (.head _) (hd ▸ k.isIter_ty)) h₂
      (Func.holdsLiterals_eq_false hi [d] rfl (.head _) rfl)
    refine ⟨δ₃, ?_, h₃⟩
    refine (bind_ok (iterKey_apply hf hr hit)).trans
      ((bind_ok rfl).trans ((bind_ok rfl).trans ((bind_ok hservice).trans ?_)))
    have hnext : int .add (word [δ.position it]) 1 e ({ δ with context := c₁ } : Store)
        = (.ok [(position + 1).toUInt64], { δ with context := c₁ }) := by
      rw [hw]
      show (Except.ok [position.toUInt64 + (1 : Int64).toUInt64], _) = _
      rw [← Int64.toUInt64_add]
    subst hδ
    exact (bind_ok hnext).trans ((bind_ok rfl).trans hbind)

end

end RecordMill.Direct

namespace RecordMill

/-- After the instruction comes the next one, whatever it does. -/
def Instr.goesOn : Instr → Bool
  | .jmp _ | .jmpIf .. | .call .. | .ret _ => false
  | _ => true

namespace Direct

open Plain (Val Table)

variable {e : Setting} {others : List Item} {δ : Store} {σ : Plain.State} (hf : e.Fit)
  (h : Reflects e (e.holdings others) [] δ σ)

/-! ## Printing -/

theorem act_apply {α : Type} {x : Act α} {a : α} {c : Context} (hx : x δ.context = (.ok a, c)) :
    act x e δ = (.ok a, { δ with context := c }) := by
  unfold act
  rw [hx]

theorem destination_code {m : OutputMode} (hm : m.code < 256) :
    Service.destination (Machine.Build.constant .i32 (Int64.ofNat m.code)) = .ofCode m.code := by
  have hcode : ∀ n < 256, (Machine.Build.constant .i32 (Int64.ofNat n)).toUInt32.toInt32.toInt = n := by decide +kernel
  exact congrArg Destination.ofCode (hcode m.code hm)

include hf h

theorem output_apply {i : Instr} {q : Option Output} (hi : i ∈ e.scope.func.body) (hmode : i.output? = q)
    (hregs : ∀ r ∈ Instr.outputRegs q, r ∈ i.regs) (hty : ∀ o ∈ q, o.path.ty = .str) :
    ∃ ws, output q e δ = (.ok ((σ.output e.program q).1, ws), δ)
      ∧ ((σ.output e.program q).1.isNamed →
        .str (σ.output e.program q).2 (packed ws) ∈ (e.holdings others).items δ σ) := by
  cases q with
  | none =>
    obtain ⟨p, hconst, -⟩ := constStr_eq (δ := δ) (s := []) nofun
    exact ⟨_, (bind_ok hconst).trans rfl, nofun⟩
  | some o =>
    have ho : o.path.ty = .str := hty o rfl
    obtain ⟨ws, hv, hx⟩ := Reflects.value (δ := δ) (σ := σ) hf (hf.within others)
      (e.has hi (hregs _ (.head _)) (by rw [ho]; rfl))
    obtain ⟨p, rfl, hp⟩ := h.strWords hx ho
    refine ⟨[p.lo, p.hi], (bind_ok hv).trans ?_, fun _ => hp⟩
    rw [destination_code (hf.modes i hi o hmode)]
    rfl

theorem lower_print {out : Option Output} {args : List Reg} {status : Reg}
    (hi : .print out args status ∈ e.scope.func.body) :
    Follows (Lowering.lower (.print out args status)) e δ (e.holdings others)
      (σ.exec e.program (.print out args status)) := by
  obtain ⟨hstatus, hpath, hargs⟩ := hf.typed hi
  obtain ⟨ws, hout, hname⟩ := output_apply hf h (q := out) hi rfl (fun r hr => by simp [Instr.regs, hr]) hpath
  obtain ⟨wss, hvs, hreads⟩ := Reflects.values (δ := δ) (σ := σ) hf (hf.within others) (l := args)
    fun a ha => e.has hi (by simp [Instr.regs, ha]) (by rw [hargs a ha]; rfl)
  obtain ⟨xs, htexts, hpacked, hxs⟩ := hreads.strs h hargs
  obtain ⟨c, hprint, hc⟩ := h.context.printAll (d := (σ.output e.program out).1) hname hxs
  rw [htexts, hpacked] at hprint
  rw [htexts] at hc
  have h₁ : Reflects e (e.holdings others) [] { δ with context := c }
    (σ.withStore (σ.store.print (σ.output e.program out).1
      (σ.output e.program out).2 (Bytes.join σ.store.ofs (args.map fun r =>
          (σ.get e.program r).toStr) ++ σ.store.ors)).2) :=
    ⟨hc, h.literal, h.flow⟩
  obtain ⟨δ', hbind, h'⟩ :=
    bindInt hf h₁ (e.has hi (.head _) (by rcases hstatus with hs | hs <;> rw [hs] <;> rfl)) hstatus _
  exact ⟨δ', (bind_ok hout).trans ((bind_ok hvs).trans ((bind_ok (act_apply hprint)).trans hbind)), h'⟩

omit hf in
theorem formatArgs_apply {args : List Reg} {wss : List (List UInt64)}
    (hreads : (e.holdings others).Reads e δ σ args wss)
    (hargs : ∀ a ∈ args, ∃ t : Scalar, a.ty = t.ty) :
    formatArgs args wss δ.context = (.ok (args.map fun r => Plain.formatArg r.ty (σ.get e.program r)), δ.context) := by
  unfold formatArgs
  induction hreads with
  | nil => rfl
  | @cons r ws args wss hx _ ih =>
    have hrest := ih fun a ha => hargs a (.tail _ ha)
    have hone : formatArg r.ty ws δ.context = (.ok (Plain.formatArg r.ty (σ.get e.program r)), δ.context) := by
      obtain ⟨t, ht⟩ := hargs r (.head _)
      cases t with
      | int =>
        obtain rfl := h.intWords hx ht
        rw [ht]
        simp [formatArg, Plain.formatArg, Scalar.ty, word]
        rfl
      | float =>
        obtain rfl := h.floatWords hx ht
        rw [ht]
        rfl
      | str =>
        obtain ⟨p, rfl, hp⟩ := h.strWords hx ht
        rw [ht]
        exact (Act.bind_ok (h.context.bytes hp)).trans rfl
    rw [List.zip_cons_cons, List.mapM_cons]
    exact (Act.bind_ok hone).trans ((Act.bind_ok hrest).trans rfl)

theorem lower_printf {out : Option Output} {format : Reg} {args : List Reg} {status : Reg}
    (hi : .printf out format args status ∈ e.scope.func.body) :
    Follows (Lowering.lower (.printf out format args status)) e δ (e.holdings others)
      (σ.exec e.program (.printf out format args status)) := by
  obtain ⟨hstatus, hpath, hformat, hargs⟩ := hf.typed hi
  obtain ⟨ws, hout, hname⟩ := output_apply hf h (q := out) hi rfl (fun r hr => by simp [Instr.regs, hr]) hpath
  obtain ⟨_, hv, hx⟩ := Reflects.value (δ := δ) (σ := σ) hf (hf.within others)
    (e.has hi (.tail _ (.head _)) (by rw [hformat]; rfl))
  obtain ⟨p, rfl, hp⟩ := h.strWords hx hformat
  obtain ⟨wss, hvs, hreads⟩ := Reflects.values (δ := δ) (σ := σ) hf (hf.within others) (l := args)
    fun a ha => e.has hi (by simp [Instr.regs, ha]) (by obtain ⟨t, ht⟩ := hargs a ha; rw [ht]; exact t.isIter_ty)
  obtain ⟨c, hprint, hc⟩ := h.context.write (d := (σ.output e.program out).1) hname
    (Format.sprintf (σ.get e.program format).toStr (args.map fun r => Plain.formatArg r.ty (σ.get e.program r)))
  have hact :
    (do Act.printf (σ.output e.program out).1 (packed ws) (packed [p.lo, p.hi]) (← formatArgs args wss) : Act Int64)
      δ.context
      = (.ok _, c) :=
    (Act.bind_ok (formatArgs_apply h hreads hargs)).trans ((Act.bind_ok (h.context.bytes hp)).trans hprint)
  have h₁ : Reflects e (e.holdings others) [] { δ with context := c }
    (σ.withStore (σ.store.print (σ.output e.program out).1
      (σ.output e.program out).2 (Format.sprintf (σ.get e.program format).toStr
        (args.map fun r => Plain.formatArg r.ty (σ.get e.program r)))).2) :=
    ⟨hc, h.literal, h.flow⟩
  obtain ⟨δ', hbind, h'⟩ :=
    bindInt hf h₁ (e.has hi (.head _) (by rcases hstatus with hs | hs <;> rw [hs] <;> rfl)) hstatus _
  exact ⟨δ', (bind_ok hout).trans ((bind_ok hv).trans ((bind_ok hvs).trans ((bind_ok (act_apply hact)).trans hbind))),
    h'⟩

theorem lower_sprintf (hfew : (e.holdings others).Few) {d format : Reg} {args : List Reg}
    (hi : .sprintf d format args ∈ e.scope.func.body) :
    Follows (Lowering.lower (.sprintf d format args)) e δ (e.holdings others)
      (σ.exec e.program (.sprintf d format args)) := by
  obtain ⟨hd, hformat, hargs⟩ := hf.typed hi
  obtain ⟨_, hv, hx⟩ := Reflects.value (δ := δ) (σ := σ) hf (hf.within others)
    (e.has hi (.tail _ (.head _)) (by rw [hformat]; rfl))
  obtain ⟨p, rfl, hp⟩ := h.strWords hx hformat
  obtain ⟨wss, hvs, hreads⟩ := Reflects.values (δ := δ) (σ := σ) hf (hf.within others) (l := args)
    fun a ha => e.has hi (.tail _ (.tail _ ha)) (by obtain ⟨t, ht⟩ := hargs a ha; rw [ht]; exact t.isIter_ty)
  obtain ⟨q, c, hnew, hc⟩ := h.context.newStr (hfew.items δ σ _ (by simp))
    (Format.sprintf (σ.get e.program format).toStr (args.map fun r => Plain.formatArg r.ty (σ.get e.program r)))
  have hact : (do Act.sprintf (packed [p.lo, p.hi]) (← formatArgs args wss) : Act Packed) δ.context = (.ok q, c) :=
    (Act.bind_ok (formatArgs_apply h hreads hargs)).trans ((Act.bind_ok (h.context.bytes hp)).trans hnew)
  have h₁ : Reflects e (e.holdings others) [.reg d.ty (.str (Format.sprintf (σ.get e.program format).toStr
      (args.map fun r => Plain.formatArg r.ty (σ.get e.program r)))) (ofPacked q)] { δ with context := c } σ := by
    refine ⟨?_, h.literal, h.flow⟩
    rw [hd]
    exact hc
  obtain ⟨δ', hbind, h'⟩ := Reflects.bindOwned hf (hf.within others) (e.has hi (.head _) (by rw [hd]; rfl)) h₁
    (Func.holdsLiterals_eq_false hi [d] rfl (.head _) rfl)
  exact ⟨δ', (bind_ok hv).trans ((bind_ok hvs).trans ((bind_ok (act_apply hact)).trans hbind)), h'⟩

/-! ## All instructions -/

/-- An instruction that stays in its activation and goes on to the next one does what it does to the plain state. -/
theorem lower_follows (hfew : (e.holdings others).Few) {i : Instr} (hi : i ∈ e.scope.func.body) (hnext : i.goesOn) :
    Follows (Lowering.lower i) e δ (e.holdings others) (σ.exec e.program i) := by
  cases i with
  | constInt => exact lower_constInt hf h hi
  | constFloat => exact lower_constFloat hf h hi
  | constStr => exact lower_constStr hf h hi
  | mov => exact lower_mov hf h hi
  | compare => exact lower_compare hf h hi
  | arith => exact lower_arith hf h hi
  | bit => exact lower_bit hf h hi
  | math => exact lower_math hf h hi
  | div => exact lower_div hf h hi
  | pow => exact lower_pow hf h hi
  | convert => exact lower_convert hf h hfew hi
  | concat => exact lower_concat hf h hfew hi
  | strLen => exact lower_strLen hf h hi
  | matchPattern => exact lower_matchPattern hf h hi
  | split => exact lower_split hf h hi
  | lookup => exact lower_lookup hf h hfew hi
  | store => exact lower_store hf h hi
  | contains => exact lower_contains hf h hi
  | delete => exact lower_delete hf h hi
  | len => exact lower_len hf h hi
  | iterBegin => exact lower_iterBegin hf h hfew hi
  | iterHasNext => exact lower_iterHasNext hf h hi
  | iterGetNext => exact lower_iterGetNext hf h hfew hi
  | nextLine => exact lower_nextLine hf h hfew hi
  | getColumn => exact lower_getColumn hf h hfew hi
  | setColumn => exact lower_setColumn hf h hi
  | readFileLine => exact lower_readFileLine hf h hfew hi
  | loadVar => exact lower_loadVar hf h hi
  | storeVar => exact lower_storeVar hf h hi
  | print => exact lower_print hf h hi
  | printf => exact lower_printf hf h hi
  | sprintf => exact lower_sprintf hf h hfew hi
  | label => exact ⟨δ, rfl, h⟩
  | missing => exact absurd (hf.typed hi) id
  | jmp | jmpIf | call | ret => cases hnext

end Direct

end RecordMill

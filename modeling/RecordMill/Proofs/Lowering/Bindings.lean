import RecordMill.Proofs.Lowering.Straight

/-!
# The scope of a function

Every register that a function mentions has its variables, no two registers share one, and every label has
a block of its own.
-/

namespace RecordMill

open Machine (Kind VarId BlockId Signature)

section

variable {α β : Type} [BEq α] [LawfulBEq α] {xs : List (α × β)} {a : α} {b : β}

theorem mem_of_lookup (h : xs.lookup a = some b) : (a, b) ∈ xs := by
  obtain ⟨ys, zs, rfl, -⟩ := List.lookup_eq_some_iff.1 h
  simp

theorem lookup_of_mem (hxs : (xs.map (·.1)).Nodup) (h : (a, b) ∈ xs) : xs.lookup a = some b := by
  obtain ⟨ys, zs, rfl⟩ := List.append_of_mem h
  refine List.lookup_eq_some_iff.2 ⟨ys, zs, rfl, fun y hy => ?_⟩
  rw [List.map_append, List.map_cons, List.nodup_append] at hxs
  simpa using fun e : a = y.1 => hxs.2.2 y.1 (List.mem_map_of_mem hy) a (.head _) e.symm

theorem lookup_of_key (h : a ∈ xs.map (·.1)) : (xs.lookup a).isSome := by
  obtain ⟨⟨x, y⟩, hmem, rfl⟩ := List.mem_map.1 h
  cases hl : xs.lookup x with
  | none => exact absurd (List.lookup_eq_none_iff.1 hl _ hmem) (by simp)
  | some z => rfl

theorem nodup_eraseDups : ∀ as : List α, as.eraseDups.Nodup
  | [] => by simp
  | a :: as => by
    rw [List.eraseDups_cons, List.nodup_cons]
    exact ⟨by simp [List.mem_eraseDups], nodup_eraseDups _⟩
termination_by as => as.length
decreasing_by exact Nat.lt_succ_of_le (List.length_filter_le ..)

end

def Place.words : Place → Kind
  | .reg r => r.ty.words
  | _ => .i64

namespace Scope

/-! ## Variables -/

def localKinds : List Reg → List Kind
  | [] => []
  | r :: rs => (if r.ty.isIter then [.i64, .i64] else [r.ty.words]) ++ localKinds rs

def localPlaces : List Reg → List Place
  | [] => []
  | r :: rs => (if r.ty.isIter then [.keys r, .position r] else [.reg r]) ++ localPlaces rs

def varKinds (globals locals : List Reg) : List Kind := .i64 :: globals.map (fun _ => .i64) ++ localKinds locals

section

variable {f : Func} {n : VarId} {rs : List Reg} {r : Reg}

theorem keys_bindings_bindLocals : (bindLocals f n rs).1.map (·.1) = rs.filter (!·.ty.isIter) := by
  induction rs generalizing n with
  | nil => rfl
  | cons r rs ih => cases hi : r.ty.isIter <;> simp [bindLocals, hi, ih]

theorem keys_cursors_bindLocals : (bindLocals f n rs).2.map (·.1) = rs.filter (·.ty.isIter) := by
  induction rs generalizing n with
  | nil => rfl
  | cons r rs ih => cases hi : r.ty.isIter <;> simp [bindLocals, hi, ih]

theorem binding_place {b : Binding} (h : (r, b) ∈ (bindLocals f n rs).1) :
    b.isGlobal = false ∧ ∃ i, b.var = n + i ∧ (localPlaces rs)[i]? = some (.reg r) := by
  induction rs generalizing n with
  | nil => cases h
  | cons x rs ih =>
    cases hi : x.ty.isIter
    · rw [bindLocals, hi] at h
      rcases List.mem_cons.1 h with e | h
      · cases e
        exact ⟨rfl, 0, rfl, by simp [localPlaces, hi]⟩
      · obtain ⟨hg, i, hv, hpl⟩ := ih h
        exact ⟨hg, i + 1, by rw [hv, Nat.add_assoc, Nat.add_comm 1], by simpa [localPlaces, hi] using hpl⟩
    · rw [bindLocals, hi] at h
      obtain ⟨hg, i, hv, hpl⟩ := ih h
      exact ⟨hg, i + 2, by rw [hv, Nat.add_assoc, Nat.add_comm 2], by simpa [localPlaces, hi] using hpl⟩

theorem cursor_place {c : Cursor} (h : (r, c) ∈ (bindLocals f n rs).2) : ∃ i, c.keys = n + i ∧ c.position = n + i + 1
    ∧ (localPlaces rs)[i]? = some (.keys r) ∧ (localPlaces rs)[i + 1]? = some (.position r) := by
  induction rs generalizing n with
  | nil => cases h
  | cons x rs ih =>
    cases hi : x.ty.isIter
    · rw [bindLocals, hi] at h
      obtain ⟨i, hk, hp, hpls⟩ := ih h
      refine ⟨i + 1, by rw [hk, Nat.add_assoc, Nat.add_comm 1], by rw [hp, Nat.add_assoc n, Nat.add_comm 1], ?_⟩
      simpa [localPlaces, hi] using hpls
    · rw [bindLocals, hi] at h
      rcases List.mem_cons.1 h with e | h
      · cases e
        exact ⟨0, rfl, rfl, by simp [localPlaces, hi]⟩
      · obtain ⟨i, hk, hp, hpls⟩ := ih h
        refine ⟨i + 2, by rw [hk, Nat.add_assoc, Nat.add_comm 2], by rw [hp, Nat.add_assoc n, Nat.add_comm 2], ?_⟩
        simpa [localPlaces, hi] using hpls

theorem localKinds_place {i : Nat} {pl : Place} (h : (localPlaces rs)[i]? = some pl) :
    (localKinds rs)[i]? = some pl.words := by
  have hkinds : localKinds rs = (localPlaces rs).map Place.words := by
    clear h
    induction rs with
    | nil => rfl
    | cons r rs ih => cases hi : r.ty.isIter <;> simp [localKinds, localPlaces, hi, ih, Place.words]
  rw [hkinds, List.getElem?_map, h]
  rfl

theorem binding_bindLocals {b : Binding} (h : (r, b) ∈ (bindLocals f n rs).1) :
    b.isGlobal = false ∧ ∃ i, b.var = n + i ∧ (localKinds rs)[i]? = some r.ty.words := by
  obtain ⟨hg, i, hv, hpl⟩ := binding_place h
  exact ⟨hg, i, hv, localKinds_place hpl⟩

theorem cursor_bindLocals {c : Cursor} (h : (r, c) ∈ (bindLocals f n rs).2) :
    ∃ i, c.keys = n + i ∧ c.position = n + i + 1 ∧ (localKinds rs)[i]? = some .i64
      ∧ (localKinds rs)[i + 1]? = some .i64 := by
  obtain ⟨i, hk, hp, hpl, hpl'⟩ := cursor_place h
  exact ⟨i, hk, hp, localKinds_place hpl, localKinds_place hpl'⟩

end

section

variable {p : Program} {f : Func} {isMain : Bool} {r : Reg}

theorem mem_locals : r ∈ f.locals p.globals ↔ r ∈ f.mentions ∧ r.ty ≠ .null ∧ r ∉ p.globals := by
  simp [Func.locals, List.mem_eraseDups, Reg.isNull]

theorem nodup_keys (hg : p.globals.Nodup) : ((ofFunc p f isMain).bindings.map (·.1)).Nodup := by
  have hkeys : (ofFunc p f isMain).bindings.map (·.1) = p.globals ++ (f.locals p.globals).filter (!·.ty.isIter) := by
    rw [← keys_bindings_bindLocals (f := f) (n := p.globals.length + 1)]
    simp [ofFunc, Function.comp_def]
  rw [hkeys, List.nodup_append]
  refine ⟨hg, (nodup_eraseDups _).sublist List.filter_sublist, fun g hmem r hr e => ?_⟩
  exact (mem_locals.1 (List.mem_filter.1 hr).1).2.2 (e ▸ hmem)

theorem nodup_cursors : ((ofFunc p f isMain).cursors.map (·.1)).Nodup := by
  show ((bindLocals f _ _).2.map (·.1)).Nodup
  rw [keys_cursors_bindLocals]
  exact (nodup_eraseDups _).sublist List.filter_sublist

theorem binding_isSome (hr : r ∈ f.locals p.globals) (hi : r.ty.isIter = false) :
    ((ofFunc p f isMain).binding? r).isSome := by
  refine lookup_of_key (List.mem_map.2 ?_)
  have hkey : r ∈ (bindLocals f (p.globals.length + 1) (f.locals p.globals)).1.map (·.1) := by
    rw [keys_bindings_bindLocals]
    exact List.mem_filter.2 ⟨hr, by simp [hi]⟩
  obtain ⟨x, hx, hxr⟩ := List.mem_map.1 hkey
  exact ⟨x, List.mem_append_right _ hx, hxr⟩

theorem cursor_isSome (hr : r ∈ f.locals p.globals) (hi : r.ty.isIter) : ((ofFunc p f isMain).cursor? r).isSome := by
  refine lookup_of_key ?_
  show r ∈ (bindLocals f _ _).2.map (·.1)
  rw [keys_cursors_bindLocals]
  exact List.mem_filter.2 ⟨hr, hi⟩

theorem cursor_eq_none (hi : r.ty.isIter = false) : (ofFunc p f isMain).cursor? r = none := by
  refine List.lookup_eq_none_iff.2 fun x hx => ?_
  have hkey : x.1 ∈ (ofFunc p f isMain).cursors.map (·.1) := List.mem_map_of_mem hx
  rw [show (ofFunc p f isMain).cursors = (bindLocals f _ _).2 from rfl, keys_cursors_bindLocals] at hkey
  have hiter := (List.mem_filter.1 hkey).2
  simp only [bne_iff_ne, ne_eq]
  rintro rfl
  simp [hi] at hiter

theorem binding_cases {b : Binding} (h : (r, b) ∈ (ofFunc p f isMain).bindings) :
    (∃ i : Nat, p.globals[i]? = some r ∧ b = { var := i + 1, isGlobal := true })
      ∨ (r, b) ∈ (bindLocals f (p.globals.length + 1) (f.locals p.globals)).1 := by
  rcases List.mem_append.1 h with h | h
  · obtain ⟨⟨g, i⟩, hmem, e⟩ := List.mem_map.1 h
    cases e
    exact .inl ⟨i, List.mem_zipIdx_iff_getElem?.1 hmem, rfl⟩
  · exact .inr h

theorem global_mem_bindings {i : Nat} (h : p.globals[i]? = some r) :
    (r, { var := i + 1, isGlobal := true }) ∈ (ofFunc p f isMain).bindings :=
  List.mem_append_left _ (List.mem_map.2 ⟨(r, i), List.mem_zipIdx_iff_getElem?.2 h, rfl⟩)

theorem locals_ofFunc : (ofFunc p f isMain).locals = (bindLocals f (p.globals.length + 1) (f.locals p.globals)).1 := by
  have hglobals : (p.globals.zipIdx.map fun x => (x.1, ({ var := x.2 + 1, isGlobal := true } : Binding))).filter
      (fun x => !x.2.isGlobal) = [] := by
    refine List.filter_eq_nil_iff.2 fun x hx => ?_
    obtain ⟨_, -, rfl⟩ := List.mem_map.1 hx
    simp
  have hlocals : ∀ n rs, (bindLocals f n rs).1.filter (fun x => !x.2.isGlobal) = (bindLocals f n rs).1 :=
    fun n rs => List.filter_eq_self.2 fun x hx => by simp [(binding_place (r := x.1) (b := x.2) hx).1]
  exact (List.filter_append ..).trans (by rw [hglobals, hlocals]; rfl)

theorem mem_of_isGlobal (h : (ofFunc p f isMain).isGlobal r) : r ∈ p.globals := by
  obtain ⟨b, hb, hglobal⟩ : ∃ b, (ofFunc p f isMain).binding? r = some b ∧ b.isGlobal := by
    simpa [isGlobal, Option.any_eq_true] using h
  rcases binding_cases (mem_of_lookup hb) with ⟨i, hi, -⟩ | hlocal
  · exact List.mem_of_getElem? hi
  · simp [(binding_bindLocals hlocal).1] at hglobal

theorem isGlobal_of_mem (h : r ∈ p.globals) : (ofFunc p f isMain).isGlobal r := by
  obtain ⟨i, hi⟩ := List.mem_iff_getElem?.1 h
  have hkey : (r, ({ var := i + 1, isGlobal := true } : Binding)) ∈
      p.globals.zipIdx.map fun x => (x.1, ({ var := x.2 + 1, isGlobal := true } : Binding)) :=
    List.mem_map.2 ⟨(r, i), List.mem_zipIdx_iff_getElem?.2 hi, rfl⟩
  -- The bindings of the globals come first, so that one of them is found.
  obtain ⟨b, hb⟩ := Option.isSome_iff_exists.1 (lookup_of_key (List.mem_map_of_mem hkey))
  obtain ⟨⟨_, _⟩, -, heq⟩ := List.mem_map.1 (mem_of_lookup hb)
  have hbinding : (ofFunc p f isMain).binding? r = some b := by
    show List.lookup r (_ ++ _) = _
    rw [List.lookup_append, hb]
    rfl
  cases heq
  simp [isGlobal, hbinding]

theorem words_ne_invalid (t : Ty) : t.words ≠ .invalid := by cases t <;> simp [Ty.words]

theorem varKinds_var? {pl : Place} {v : VarId} (h : (ofFunc p f isMain).var? pl = some v) :
    (varKinds p.globals (f.locals p.globals))[v]? = some ((ofFunc p f isMain).kindOf pl)
      ∧ (ofFunc p f isMain).kindOf pl ≠ .invalid := by
  have hlocal : ∀ {i : Nat} {k : Kind}, (localKinds (f.locals p.globals))[i]? = some k →
      (varKinds p.globals (f.locals p.globals))[p.globals.length + 1 + i]? = some k := by
    intro i k hk
    rw [varKinds, List.getElem?_append_right (by simp)]
    simpa using hk
  cases pl with
  | context =>
    cases h
    exact ⟨rfl, fun h => by cases h⟩
  | reg r =>
    obtain ⟨b, hb, rfl⟩ := Option.map_eq_some_iff.1 h
    have hglobal : (ofFunc p f isMain).isGlobal r = b.isGlobal := by
      rw [isGlobal, hb]
      rfl
    rw [kindOf, hglobal]
    rcases binding_cases (mem_of_lookup hb) with ⟨i, hi, rfl⟩ | hmem
    · obtain ⟨hi, -⟩ := List.getElem?_eq_some_iff.1 hi
      simp [varKinds, List.getElem?_append_left, hi]
    · obtain ⟨hg, i, hv, hk⟩ := binding_bindLocals hmem
      rw [hg, hv]
      exact ⟨hlocal hk, words_ne_invalid _⟩
  | keys r =>
    obtain ⟨c, hc, rfl⟩ := Option.map_eq_some_iff.1 h
    obtain ⟨i, hv, -, hk, -⟩ := cursor_bindLocals (mem_of_lookup hc)
    rw [hv]
    exact ⟨hlocal hk, fun h => by cases h⟩
  | position r =>
    obtain ⟨c, hc, rfl⟩ := Option.map_eq_some_iff.1 h
    obtain ⟨i, -, hv, -, hk⟩ := cursor_bindLocals (mem_of_lookup hc)
    rw [hv]
    exact ⟨hlocal hk, fun h => by cases h⟩

def places (globals locals : List Reg) : List Place := .context :: globals.map .reg ++ localPlaces locals

theorem places_var? {pl : Place} {v : VarId} (h : (ofFunc p f isMain).var? pl = some v) :
    (places p.globals (f.locals p.globals))[v]? = some pl := by
  have hlocal : ∀ {i : Nat} {pl : Place}, (localPlaces (f.locals p.globals))[i]? = some pl →
      (places p.globals (f.locals p.globals))[p.globals.length + 1 + i]? = some pl := by
    intro i pl hpl
    rw [places, List.getElem?_append_right (by simp)]
    simpa using hpl
  cases pl with
  | context =>
    cases h
    rfl
  | reg r =>
    obtain ⟨b, hb, rfl⟩ := Option.map_eq_some_iff.1 h
    rcases binding_cases (mem_of_lookup hb) with ⟨i, hi, rfl⟩ | hmem
    · obtain ⟨hlt, rfl⟩ := List.getElem?_eq_some_iff.1 hi
      simp [places, List.getElem?_append_left, hlt]
    · obtain ⟨-, i, hv, hpl⟩ := binding_place hmem
      rw [hv]
      exact hlocal hpl
  | keys r =>
    obtain ⟨c, hc, rfl⟩ := Option.map_eq_some_iff.1 h
    obtain ⟨i, hv, -, hpl, -⟩ := cursor_place (mem_of_lookup hc)
    rw [hv]
    exact hlocal hpl
  | position r =>
    obtain ⟨c, hc, rfl⟩ := Option.map_eq_some_iff.1 h
    obtain ⟨i, -, hv, -, hpl⟩ := cursor_place (mem_of_lookup hc)
    rw [hv]
    exact hlocal hpl

theorem var?_inj {pl pl' : Place} {v : VarId} (h : (ofFunc p f isMain).var? pl = some v)
    (h' : (ofFunc p f isMain).var? pl' = some v) : pl = pl' :=
  Option.some.inj ((places_var? h).symm.trans (places_var? h'))

/-! ## Labels -/

theorem block_eq (hf : f.labels.Nodup) {i : Nat} {l : Label} (h : f.labels[i]? = some l) :
    (ofFunc p f isMain).block l = i + 1 := by
  have hkeys : (f.labels.zipIdx.map fun x => (x.1, x.2 + 1)).map (·.1) = f.labels := by
    simp [Function.comp_def, List.zipIdx_map_fst]
  have hfound : ((f.labels.zipIdx.map fun x => (x.1, x.2 + 1)).reverse).lookup l = some (i + 1) := by
    refine lookup_of_mem ?_ (List.mem_reverse.2 (List.mem_map.2 ⟨(l, i), List.mem_zipIdx_iff_getElem?.2 h, rfl⟩))
    rw [List.map_reverse, hkeys]
    exact List.pairwise_reverse.2 (hf.imp Ne.symm)
  show ((f.labels.zipIdx.map fun x => (x.1, x.2 + 1)).reverse.lookup l).getD 0 = _
  rw [hfound]
  rfl

theorem block_bounds (hf : f.labels.Nodup) {l : Label} (h : l ∈ f.labels) :
    0 < (ofFunc p f isMain).block l ∧ (ofFunc p f isMain).block l ≤ f.labels.length := by
  obtain ⟨i, hi⟩ := List.mem_iff_getElem?.1 h
  rw [block_eq hf hi]
  exact ⟨Nat.succ_pos _, (List.getElem?_eq_some_iff.1 hi).1⟩

end

end Scope

/-! ## Scopes that count more registers

A scope says which registers go uncounted, and that is all in which the scopes of a function may differ. -/

def Binding.counted (b : Binding) : Binding := { b with isLiteral := false }

namespace Scope

def counted (s : Scope) : Scope := { s with bindings := s.bindings.map fun (r, b) => (r, b.counted) }

def counting (all : Bool) (s : Scope) : Scope := bif all then s.counted else s

/-- The scopes differ at most in the registers that go uncounted. -/
def Alike (s s' : Scope) : Prop := s.counted = s'.counted

variable {s s' : Scope} {r : Reg} {b : Binding}

theorem counted_alike (s : Scope) : s.counted.Alike s := by
  show ({ s with bindings := (s.bindings.map fun x => (x.1, x.2.counted)).map fun x => (x.1, x.2.counted) } : Scope) = _
  rw [List.map_map]
  rfl

theorem counting_alike (all : Bool) (s : Scope) : (s.counting all).Alike s := by
  cases all with
  | false => rfl
  | true => exact s.counted_alike

theorem binding?_counted (s : Scope) (r : Reg) : s.counted.binding? r = (s.binding? r).map Binding.counted := by
  show (s.bindings.map fun x => (x.1, x.2.counted)).lookup r = (s.bindings.lookup r).map Binding.counted
  induction s.bindings with
  | nil => rfl
  | cons x xs ih =>
    obtain ⟨u, b⟩ := x
    rw [List.map_cons, List.lookup_cons, List.lookup_cons]
    cases r == u with
    | true => rfl
    | false => exact ih

namespace Alike

theorem symm (h : s.Alike s') : s'.Alike s := Eq.symm h

variable (h : s.Alike s')

include h

theorem func : s.func = s'.func := (congrArg Scope.func h : s.counted.func = _)

theorem isMain : s.isMain = s'.isMain := (congrArg Scope.isMain h : s.counted.isMain = _)

theorem globals : s.globals = s'.globals := (congrArg Scope.globals h : s.counted.globals = _)

theorem cursors : s.cursors = s'.cursors := (congrArg Scope.cursors h : s.counted.cursors = _)

theorem labels : s.labels = s'.labels := (congrArg Scope.labels h : s.counted.labels = _)

theorem bindings : s.bindings.map (fun x => (x.1, x.2.counted)) = s'.bindings.map fun x => (x.1, x.2.counted) :=
  congrArg Scope.bindings h

theorem keys : s.bindings.map (·.1) = s'.bindings.map (·.1) := by
  simpa [Function.comp_def] using congrArg (List.map (·.1)) h.bindings

theorem cursor? (r : Reg) : s.cursor? r = s'.cursor? r := by rw [Scope.cursor?, Scope.cursor?, h.cursors]

theorem block (l : Label) : s.block l = s'.block l := by rw [Scope.block, Scope.block, h.labels]

theorem binding? (r : Reg) : (s.binding? r).map Binding.counted = (s'.binding? r).map Binding.counted := by
  rw [← binding?_counted, ← binding?_counted, show s.counted = s'.counted from h]

theorem binding_isSome (r : Reg) : (s.binding? r).isSome = (s'.binding? r).isSome := by
  simpa using congrArg Option.isSome (h.binding? r)

theorem isGlobal (r : Reg) : s.isGlobal r = s'.isGlobal r := by
  simpa [Scope.isGlobal, Option.any_map, Function.comp_def, Binding.counted] using congrArg (Option.any (·.isGlobal))
    (h.binding? r)

theorem var? (pl : Place) : s.var? pl = s'.var? pl := by
  cases pl with
  | context => rfl
  | reg r => simpa [Scope.var?, Function.comp_def, Binding.counted] using congrArg (Option.map (·.var)) (h.binding? r)
  | keys r | position r => rw [Scope.var?, Scope.var?, h.cursor?]

theorem kindOf (pl : Place) : s.kindOf pl = s'.kindOf pl := by
  cases pl with
  | reg r => rw [Scope.kindOf, Scope.kindOf, h.isGlobal]
  | context | keys r | position r => rfl

theorem mem (hb : (r, b) ∈ s.bindings) : ∃ b', (r, b') ∈ s'.bindings ∧ b.counted = b'.counted := by
  have hmem : (r, b.counted) ∈ s.bindings.map fun x => (x.1, x.2.counted) := List.mem_map.2 ⟨_, hb, rfl⟩
  rw [h.bindings] at hmem
  obtain ⟨⟨r', b'⟩, hmem', heq⟩ := List.mem_map.1 hmem
  obtain ⟨rfl, hb'⟩ := Prod.mk.inj heq
  exact ⟨b', hmem', hb'.symm⟩

end Alike

end Scope

/-! ## Functions of a checked program -/

theorem Instr.mem_defs_uses {i : Instr} {r : Reg} (h : r ∈ i.regs) (hr : r.ty ≠ .null) : r ∈ i.defs ++ i.uses := by
  cases i <;> simp_all [Instr.regs, Instr.defs, Instr.uses, Instr.nonNull, Reg.isNull] <;> grind

/-- A function of a program that passes the check, in surroundings made for it. The scope may count registers that could
go uncounted. -/
structure Surroundings.Fit (s : Surroundings) : Prop where
  apt : s.Apt
  checked : s.program.check = []
  func : s.scope.func ∈ s.program.funcs
  scope : s.scope.Alike (.ofFunc s.program s.scope.func s.scope.isMain)
  globals : s.program.globals.Nodup
  valid : ∀ i ∈ s.scope.func.body, ∀ r ∈ i.regs, r.ty.isValid

namespace Surroundings.Fit

variable {s : Surroundings} (h : s.Fit) {r : Reg} {b : Binding}

include h

theorem passes : Check.func s.program s.scope.func = [] := (Check.check_eq_nil.1 h.checked).2.2 _ h.func

theorem storable_param (hr : r ∈ s.scope.func.params) : r.ty.Storable := (Check.func_eq_nil.1 h.passes).1 r hr

theorem storable_global (hr : r ∈ s.program.globals) : r.ty.Storable := (Check.check_eq_nil.1 h.checked).2.1 r hr

theorem ret : s.scope.func.ret.isValid ∧ ∀ k, s.scope.func.ret ≠ .iter k := (Check.func_eq_nil.1 h.passes).2.1

theorem labels : s.scope.func.labels.Nodup := (Check.func_eq_nil.1 h.passes).2.2.1

theorem typed {i : Instr} (hi : i ∈ s.scope.func.body) : i.Typed s.program s.scope.func.ret :=
  (Check.body_eq_nil.1 (Check.func_eq_nil.1 h.passes).2.2.2.1).1 i hi

theorem target {i : Instr} {l : Label} (hi : i ∈ s.scope.func.body) (hl : i.target? = some l) :
    l ∈ s.scope.func.labels :=
  (Check.body_eq_nil.1 (Check.func_eq_nil.1 h.passes).2.2.2.1).2.1 i hi l hl

theorem globals_eq : s.scope.globals = s.program.globals := h.scope.globals

theorem binding_of_mem (hb : (r, b) ∈ s.scope.bindings) : s.scope.binding? r = some b := by
  refine lookup_of_mem ?_ hb
  rw [h.scope.keys]
  exact Scope.nodup_keys h.globals

theorem cursor_of_mem {c : Cursor} (hc : (r, c) ∈ s.scope.cursors) : s.scope.cursor? r = some c := by
  refine lookup_of_mem ?_ hc
  rw [h.scope.cursors]
  exact Scope.nodup_cursors

theorem binding_of_ofFunc (hb : (r, b) ∈ (Scope.ofFunc s.program s.scope.func s.scope.isMain).bindings) :
    ∃ b', s.scope.binding? r = some b' ∧ b'.counted = b.counted := by
  obtain ⟨b', hb', heq⟩ := h.scope.symm.mem hb
  exact ⟨b', h.binding_of_mem hb', heq.symm⟩

theorem global_binding {i : Nat} (hi : s.program.globals[i]? = some r) :
    s.scope.binding? r = some { var := i + 1, isGlobal := true } := by
  obtain ⟨⟨v, isGlobal, isLiteral⟩, hb, heq⟩ := h.binding_of_ofFunc (Scope.global_mem_bindings hi)
  cases heq
  have hcounted : isLiteral = false := h.apt.counted hb rfl
  rw [hb, hcounted]

theorem binding_local (hr : r ∈ s.scope.func.locals s.program.globals) (hi : r.ty.isIter = false) :
    (s.scope.binding? r).isSome := by
  rw [h.scope.binding_isSome]
  exact Scope.binding_isSome hr hi

theorem cursor_local (hr : r ∈ s.scope.func.locals s.program.globals) (hi : r.ty.isIter) :
    (s.scope.cursor? r).isSome := by
  rw [h.scope.cursor?]
  exact Scope.cursor_isSome hr hi

theorem cursor_eq_none (hi : r.ty.isIter = false) : s.scope.cursor? r = none := by
  rw [h.scope.cursor?]
  exact Scope.cursor_eq_none hi

theorem vars {pl : Place} {v : VarId} (hv : s.scope.var? pl = some v) :
    (Scope.varKinds s.program.globals (s.scope.func.locals s.program.globals))[v]? = some (s.scope.kindOf pl)
      ∧ s.scope.kindOf pl ≠ .invalid := by
  rw [h.scope.var?] at hv
  rw [h.scope.kindOf]
  exact Scope.varKinds_var? hv

theorem counting (all : Bool) : Surroundings.Fit { s with scope := s.scope.counting all } := by
  cases all with
  | false => exact h
  | true =>
    refine ⟨⟨h.apt.services, h.apt.funcs, fun {r b} hb _ => ?_⟩, h.checked, h.func, s.scope.counted_alike.trans h.scope,
      h.globals, h.valid⟩
    have hcounted : (s.scope.binding? r).map Binding.counted = some b := s.scope.binding?_counted r ▸ hb
    obtain ⟨b', -, rfl⟩ := Option.map_eq_some_iff.1 hcounted
    rfl

theorem found (hr : r ∈ s.scope.func.mentions) (hn : r.ty ≠ .null) (hv : r.ty.isValid) :
    s.Usable r ∨ ∃ k c, s.Iterates r k c := by
  by_cases hg : r ∈ s.program.globals
  · obtain ⟨i, hi⟩ := List.mem_iff_getElem?.1 hg
    have hs := h.storable_global hg
    exact .inl ⟨hv, .inr ⟨Ty.isIter_eq_false.2 hs.2.2, by rw [h.global_binding hi]; rfl⟩⟩
  · have hlocal := Scope.mem_locals.2 ⟨hr, hn, hg⟩
    cases hi : r.ty.isIter
    · exact .inl ⟨hv, .inr ⟨hi, h.binding_local hlocal hi⟩⟩
    · obtain ⟨c, hc⟩ := Option.isSome_iff_exists.1 (h.cursor_local hlocal hi)
      cases ht : r.ty with
      | iter k => exact .inr ⟨k, c, ht, hc⟩
      | _ => simp [ht, Ty.isIter] at hi

theorem covers {i : Instr} (hi : i ∈ s.scope.func.body) : s.Covers i := by
  intro r hr
  by_cases hn : r.ty = .null
  · exact .inl ⟨by rw [hn]; rfl, .inl hn⟩
  · refine h.found ?_ hn (h.valid i hi r hr)
    exact List.mem_append_right _ (List.mem_flatMap.2 ⟨i, hi, Instr.mem_defs_uses hr hn⟩)

theorem usable_param (hr : r ∈ s.scope.func.params) : s.Usable r := by
  have hs := h.storable_param hr
  rcases h.found (List.mem_append_left _ hr) hs.2.1 hs.1 with hu | ⟨k, c, hk, -⟩
  · exact hu
  · exact absurd hk (hs.2.2 k)

end Surroundings.Fit

end RecordMill

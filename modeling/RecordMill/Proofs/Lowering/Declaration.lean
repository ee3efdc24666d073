import RecordMill.Proofs.Lowering.Entry
import RecordMill.Proofs.Machine.Tables
import RecordMill.Proofs.Number.Digits

/-!
# Declarations

Services, globals and functions get their place in a module exactly when no name stands for two things.
-/

namespace RecordMill

open Machine (Kind FuncId FuncDecl Entry Import Module ModuleError Linkage)

/-! ## Names -/

namespace Bytes

theorem decimal_append_inj {m n : Nat} {c : UInt8} {xs ys : Bytes} (hc : isDigit c = false)
    (h : decimal m ++ c :: xs = decimal n ++ c :: ys) : m = n ∧ xs = ys := by
  have hdigits : ∀ (k : Nat) (zs : Bytes), (decimal k ++ c :: zs).takeWhile isDigit = decimal k := by
    intro k zs
    exact takeWhile_run (decimal_spec k).1 (stops_cons hc)
  have hdec : decimal m = decimal n := by
    rw [← hdigits m xs, h, hdigits]
  refine ⟨?_, ?_⟩
  · rw [← (decimal_spec m).2, hdec, (decimal_spec n).2]
  · rw [hdec] at h
    exact (List.cons.inj (List.append_cancel_left h)).2

end Bytes

theorem Ty.name_inj {t u : Ty} (ht : t.Storable) (hu : u.Storable) (h : t.name = u.name) : t = u := by
  have hall : ∀ a ∈ [Ty.int, .float, .str, .map .int .int, .map .int .float, .map .int .str, .map .str .int,
    .map .str .float,
      .map .str .str], ∀ b ∈ [Ty.int, .float, .str, .map .int .int, .map .int .float, .map .int .str, .map .str .int,
      .map .str .float, .map .str .str], a.name = b.name → a = b := by decide +kernel
  have hmem : ∀ {t : Ty}, t.Storable → t ∈ [Ty.int, .float, .str, .map .int .int, .map .int .float, .map .int .str,
      .map .str .int, .map .str .float, .map .str .str] := by
    rintro t ⟨hv, hn, hi⟩
    cases t with
    | map k v => cases k <;> cases v <;> decide
    | null => exact absurd rfl hn
    | iter k => exact absurd rfl (hi k)
    | other n => simp [Ty.isValid] at hv
    | _ => decide
  exact hall t (hmem ht) u (hmem hu) h

theorem Declared.globalName_inj {g g' : Reg} (hg : g.ty.Storable) (hg' : g'.ty.Storable)
    (h : globalName g = globalName g') : g = g' := by
  have htext : text "global" ++ (text "%" ++ Bytes.decimal g.id ++ text ":" ++ g.ty.name)
      = text "global" ++ (text "%" ++ Bytes.decimal g'.id ++ text ":" ++ g'.ty.name) := h
  have hrest := List.append_cancel_left htext
  simp only [List.append_assoc] at hrest
  have hcolon : text ":" = [58] := by decide
  rw [hcolon] at hrest
  obtain ⟨hid, hname⟩ := Bytes.decimal_append_inj (by decide) (List.append_cancel_left hrest)
  obtain ⟨i, t⟩ := g
  obtain ⟨j, u⟩ := g'
  rw [Reg.mk.injEq]
  exact ⟨hid, Ty.name_inj hg hg' hname⟩

namespace Service

theorem mem_all (s : Service) : s ∈ all := by
  cases s with
  | split k | iterLen k | iterGet k => cases k <;> decide
  | map k v what => cases k <;> cases v <;> cases what <;> decide
  | _ => decide

theorem nodup_names : (all.map name).Nodup := by decide +kernel

theorem name_ne_globalName (s : Service) (g : Reg) : s.name ≠ Declared.globalName g := by
  intro h
  have hservice : s.name.head? = some 114 := rfl
  have hglobal : (Declared.globalName g).head? = some 103 := rfl
  rw [h, hglobal] at hservice
  simp at hservice

end Service

namespace Declared

/-- A module in which services, globals and functions have their place, and the first functions have their bodies. -/
structure Sound (m : Module Service) (ids : List FuncId) (svs : List Service) (gs : List Reg)
    (fs : List Func) (n : Nat) :
    Prop where
  unfinished : m.finalized = false
  imports : m.imports = Service.all.map fun sv => (sv.name, .function sv)
  taken : ∀ {x : Bytes}, (m.names[x]?).isSome ↔ (∃ sv ∈ svs, x = sv.name) ∨ (∃ g ∈ gs, x = globalName g)
    ∨ ∃ f ∈ fs, x = f.name
  services : ∀ {sv : Service}, sv ∈ svs →
    ∃ id e, m.names[sv.name]? = some (.func id) ∧ m.funcs[id]? = some e ∧ e.sig = sv.sig ∧ e.linkage = .imported
      ∧ e.host = some sv
  length : ids.length = fs.length
  funcs : ∀ {i : Nat} {f : Func}, fs[i]? = some f → ∃ id e, ids[i]? = some id ∧ m.funcs[id]? = some e ∧ e.sig = f.sig
    ∧ e.linkage ≠ .imported ∧ e.host = none ∧ e.compiled.isSome = decide (i < n)
  nodup : ids.Nodup
  others : ∀ {id : Nat} {e : FuncDecl Service}, m.funcs[id]? = some e →
    (e.linkage = .imported ∧ ∃ sv : Service, e.sig = sv.sig ∧ e.host = some sv) ∨ id ∈ ids

namespace Sound

variable {m : Module Service} {ids : List FuncId} {svs : List Service} {gs : List Reg} {fs : List Func}
  {n : Nat} {x : Bytes}

theorem ids_lt (h : Sound m ids svs gs fs n) {id : FuncId} (hid : id ∈ ids) : id < m.funcs.size := by
  obtain ⟨i, hi⟩ := List.mem_iff_getElem?.1 hid
  obtain ⟨f, hf⟩ : ∃ f, fs[i]? = some f :=
    ⟨_, List.getElem?_eq_getElem (h.length ▸ (List.getElem?_eq_some_iff.1 hi).1)⟩
  obtain ⟨id', e, hid', he, -⟩ := h.funcs hf
  obtain rfl : id = id' := Option.some.inj (hi.symm.trans hid')
  exact (Array.getElem?_eq_some_iff.1 he).1

theorem names_insert (h : Sound m ids svs gs fs n) (hx : m.names[x]? = none) {sv : Service} (hsv : sv ∈ svs)
    (e : Entry) :
    (m.names.insert x e)[sv.name]? = m.names[sv.name]? := by
  refine (Module.getElem?_insert ..).trans (if_neg fun hname => ?_)
  have htaken := h.taken.2 (.inl ⟨sv, hsv, rfl⟩)
  rw [← hname, hx] at htaken
  cases htaken

theorem taken_insert (m : Module Service) {y : Bytes} {e : Entry} :
    ((m.names.insert x e)[y]?).isSome ↔ y = x ∨ (m.names[y]?).isSome := by
  rw [Module.getElem?_insert]
  by_cases hxy : x = y
  · simp [hxy]
  · simp [hxy, Ne.symm hxy]

theorem import_service (h : Sound m ids svs [] [] n) {sv : Service} (hx : m.names[sv.name]? = none) :
    ∃ m', importService m sv = .ok m' ∧ Sound m' ids (svs ++ [sv]) [] [] n := by
  have hhost : Module.declareFunc.hostOf m sv.name .imported = .ok (some sv) := by
    have hfound : m.imports.lookup sv.name = some (.function sv) := by
      rw [h.imports]
      refine lookup_of_mem ?_ (List.mem_map.2 ⟨sv, sv.mem_all, rfl⟩)
      rw [List.map_map]
      exact Service.nodup_names
    simp [Module.declareFunc.hostOf, hfound]
  refine ⟨m.withFunc { name := sv.name, linkage := .imported, sig := sv.sig, host := some sv }, ?_, ?_⟩
  · rw [importService, Module.declareFunc_eq h.unfinished hx hhost]
    rfl
  · refine { h with
      taken := fun {y} => ?_
      services := fun {t} ht => ?_
      funcs := by simp
      others := fun {id e} he => ?_ }
    · refine (taken_insert m).trans ?_
      rw [h.taken]
      simp [or_comm]
    · rcases List.mem_append.1 ht with ht | ht
      · obtain ⟨id, e, hid, he, hsig⟩ := h.services ht
        exact ⟨id, e, (h.names_insert hx ht _).trans hid, Module.funcs_push he, hsig⟩
      · obtain rfl := List.mem_singleton.1 ht
        exact ⟨_, _, (Module.getElem?_insert ..).trans (if_pos rfl), Array.getElem?_push_size, rfl, rfl, rfl⟩
    · simp only [Module.withFunc, Array.getElem?_push] at he
      split at he
      · cases he
        exact .inl ⟨rfl, sv, rfl, rfl⟩
      · exact h.others he

theorem not_taken : m.names[x]? = none ↔ ¬(m.names[x]?).isSome := by simp

theorem declareGlobal_eq {d : Declared} {g : Reg} {k : Kind} (hkind : g.ty.kind = .ok k) : declareGlobal d g = (do
    let (_, address, module) ← orElse (globalName g) (d.module.declareData (globalName g) k.words.toInt64)
    return { d with module, addresses := d.addresses ++ [(g, address)] }) := by
  rw [declareGlobal, hkind]
  rfl

theorem declareFunc_eq {d : Declared} {f : Func} {sig : Machine.Signature} (hf : f.signature = .ok sig) (i : Nat) :
    declareFunc d (f, i) = if (d.module.lookup? f.name).isSome then .error (.declaration f.name .nameTaken)
      else (do
        let (id, module) ←
          orElse f.name (d.module.declareFunc f.name (if d.program.main = i then .exported else .local) sig)
        return { d with module, funcs := d.funcs ++ [id] }) := by
  rw [declareFunc, hf]
  split <;> rfl

/-- A name for a global that does not stand for anything yet is taken; any other is refused. -/
theorem declare_global {d : Declared} (h : Sound d.module ids svs gs [] n) {g : Reg} (hg : g.ty.Storable) :
    if (d.module.names[globalName g]?).isSome then ∃ c, declareGlobal d g = .error (.declaration (globalName g) c)
    else ∃ d', declareGlobal d g = .ok d' ∧ d'.program = d.program ∧ d'.funcs = d.funcs
    ∧ Sound d'.module ids svs (gs ++ [g]) [] n := by
  have hkind : g.ty.kind = .ok g.ty.words := Ty.kind_words hg.1 (Ty.isIter_eq_false.2 hg.2.2)
  have hwords : ¬g.ty.words.words.toInt64 ≤ 0 := by
    have hall : ∀ k ∈ [Kind.i64, .f64, .i128], ¬k.words.toInt64 ≤ 0 := by decide
    exact hall _ (by cases g.ty <;> simp [Ty.words])
  rw [declareGlobal_eq hkind, Module.declareData_eq h.unfinished hwords]
  split
  · exact ⟨_, rfl⟩
  · next ht =>
    refine ⟨{ d with module := d.module.withData _ _, addresses := _ }, rfl, rfl, rfl, ?_⟩
    refine { h with taken := fun {y} => ?_, services := fun {t} hmem => ?_ }
    · refine (taken_insert d.module).trans ?_
      rw [h.taken]
      simp only [List.mem_append, List.mem_singleton, or_and_right, exists_or, exists_eq_left]
      grind
    · obtain ⟨id, e, hid, he, hsig⟩ := h.services hmem
      exact ⟨id, e, (h.names_insert (not_taken.2 ht) hmem _).trans hid, he, hsig⟩

/-- A name for a function that does not stand for anything yet is taken; any other is refused. -/
theorem declare_func {d : Declared} (h : Sound d.module d.funcs svs gs fs 0) {f : Func} {i : Nat}
    (hf : f.signature = .ok f.sig) :
    if (d.module.names[f.name]?).isSome then ∃ c, declareFunc d (f, i) = .error (.declaration f.name c)
    else ∃ d', declareFunc d (f, i) = .ok d' ∧ d'.program = d.program
    ∧ Sound d'.module d'.funcs svs gs (fs ++ [f]) 0 := by
  rw [declareFunc_eq hf]
  split
  · next ht =>
    split
    · exact ⟨_, rfl⟩
    · next hl =>
      obtain ⟨e, he⟩ := Option.isSome_iff_exists.1 ht
      cases e with
      | func id => simp [Module.lookup?, he] at hl
      | data id =>
        refine ⟨.refused (.about f.name .alreadyData), ?_⟩
        simp only [Module.declareFunc, h.unfinished, he, orElse]
        rfl
  · next ht =>
    have hnone := not_taken.2 ht
    have hlookup : ¬(d.module.lookup? f.name).isSome := by simp [Module.lookup?, hnone]
    have hlinkage : (if d.program.main = i then Linkage.exported else .local) ≠ .imported := by split <;> simp
    have hhost : ∀ l : Linkage, l ≠ .imported → Module.declareFunc.hostOf d.module f.name l = .ok none := by
      intro l hl
      cases l <;> first | rfl | exact absurd rfl hl
    rw [if_neg hlookup, Module.declareFunc_eq h.unfinished hnone (hhost _ hlinkage)]
    have hnew : d.module.funcs.size ∉ d.funcs := fun hmem => Nat.lt_irrefl _ (h.ids_lt hmem)
    refine ⟨{ d with module := d.module.withFunc _, funcs := d.funcs ++ [d.module.funcs.size] }, rfl, rfl, ?_⟩
    refine ⟨h.unfinished, h.imports, fun {y} => ?_, fun {t} hmem => ?_, by simp [h.length], fun {j g} hg => ?_, ?_,
      fun {id e} he => ?_⟩
    · refine (taken_insert d.module).trans ?_
      rw [h.taken]
      simp only [List.mem_append, List.mem_singleton, or_and_right, exists_or, exists_eq_left]
      grind
    · obtain ⟨id, e, hid, he, hsig⟩ := h.services hmem
      exact ⟨id, e, (h.names_insert hnone hmem _).trans hid, Module.funcs_push he, hsig⟩
    · rw [List.getElem?_append] at hg
      split at hg
      · next hj =>
        obtain ⟨id, e, hid, he, hrest⟩ := h.funcs hg
        exact ⟨id, e, by rw [List.getElem?_append_left (h.length ▸ hj), hid], Module.funcs_push he, hrest⟩
      · next hj =>
        have hlast : j = d.funcs.length := by
          have := (List.getElem?_eq_some_iff.1 hg).1
          rw [List.length_singleton] at this
          rw [h.length]
          omega
        subst hlast
        obtain rfl : f = g := by simpa [h.length] using hg
        exact ⟨_, _, by simp, Array.getElem?_push_size, rfl, hlinkage, rfl, rfl⟩
    · rw [List.nodup_append]
      exact ⟨h.nodup, by simp, fun id hid j hj e => hnew (by rw [← List.mem_singleton.1 hj, ← e]; exact hid)⟩
    · simp only [Module.withFunc, Array.getElem?_push] at he
      split at he
      · next hid => exact .inr (List.mem_append_right _ (List.mem_singleton.2 hid))
      · exact (h.others he).imp_right (List.mem_append_left _)

end Sound

/-! ## Whole programs -/

theorem sound_empty : Sound empty [] [] [] [] 0 where
  unfinished := rfl
  imports := rfl
  taken := by simp [empty]
  services := by simp
  length := rfl
  funcs := by simp
  nodup := .nil
  others := by simp [empty]

theorem withServices_sound : ∃ m, withServices = .ok m ∧ Sound m [] Service.all [] [] 0 := by
  have hfold : ∀ (svs before : List Service) (m : Module Service), Sound m [] before [] [] 0 →
      ((before ++ svs).map Service.name).Nodup → ∃ m', svs.foldlM importService m = .ok m'
          ∧ Sound m' [] (before ++ svs) [] [] 0 := by
    intro svs
    induction svs with
    | nil => exact fun before m h _ => ⟨m, rfl, by simpa using h⟩
    | cons sv svs ih =>
      intro before m h hnodup
      have hnew : m.names[sv.name]? = none := by
        refine Sound.not_taken.2 fun ht => ?_
        obtain ⟨t, hmem, hname⟩ : ∃ t ∈ before, sv.name = t.name := by simpa using h.taken.1 ht
        rw [List.map_append, List.nodup_append] at hnodup
        exact hnodup.2.2 t.name (List.mem_map_of_mem hmem) sv.name (.head _) hname.symm
      obtain ⟨m', hrun, h'⟩ := h.import_service hnew
      obtain ⟨m'', hrun', h''⟩ := ih (before ++ [sv]) m' h' (by simpa using hnodup)
      refine ⟨m'', ?_, by simpa using h''⟩
      rw [List.foldlM_cons, hrun]
      exact hrun'
  exact hfold Service.all [] empty sound_empty Service.nodup_names

/-- Globals are declared unless one of them comes twice. -/
theorem declare_globals {d : Declared} {gs : List Reg} (more : List Reg)
    (h : Sound d.module d.funcs Service.all gs [] 0) (hgs : gs.Nodup) (hall : ∀ g ∈ gs ++ more, g.ty.Storable) :
    ((gs ++ more).Nodup ∧ ∃ d', more.foldlM declareGlobal d = .ok d' ∧ d'.program = d.program
        ∧ Sound d'.module d'.funcs Service.all (gs ++ more) [] 0)
      ∨ ¬(gs ++ more).Nodup ∧ ∃ name c, more.foldlM declareGlobal d = .error (.declaration name c) := by
  induction more generalizing d gs with
  | nil => exact .inl ⟨by simpa using hgs, d, rfl, rfl, by simpa using h⟩
  | cons g more ih =>
    have hg : g.ty.Storable := hall g (List.mem_append_right _ (.head _))
    have hstep := h.declare_global hg
    have htaken : (d.module.names[globalName g]?).isSome ↔ g ∈ gs := by
      rw [h.taken]
      constructor
      · rintro (⟨sv, -, e⟩ | ⟨g', hmem, e⟩ | ⟨f, hmem, -⟩)
        · exact absurd e.symm (sv.name_ne_globalName g)
        · exact globalName_inj hg (hall g' (List.mem_append_left _ hmem)) e ▸ hmem
        · cases hmem
      · exact fun hmem => .inr (.inl ⟨g, hmem, rfl⟩)
    split at hstep
    · next ht =>
      obtain ⟨c, hrun⟩ := hstep
      refine .inr ⟨fun hnodup => ?_, globalName g, c, ?_⟩
      · exact (List.nodup_append.1 hnodup).2.2 g (htaken.1 ht) g (.head _) rfl
      · rw [List.foldlM_cons, hrun]
        rfl
    · next ht =>
      obtain ⟨d', hrun, hp, hfuncs, h'⟩ := hstep
      have hnodup : (gs ++ [g]).Nodup := by
        refine List.nodup_append.2 ⟨hgs, by simp, fun a ha b hb e => ht (htaken.2 ?_)⟩
        rwa [← List.mem_singleton.1 hb, ← e]
      have hnext := ih (hfuncs ▸ h') hnodup (by simpa using hall)
      rw [List.append_assoc, List.singleton_append, hp] at hnext
      rwa [List.foldlM_cons, hrun]

structure Free (gs : List Reg) (fs : List Func) : Prop where
  nodup : (fs.map (·.name)).Nodup
  services : ∀ f ∈ fs, ∀ sv : Service, f.name ≠ sv.name
  globals : ∀ f ∈ fs, ∀ g ∈ gs, f.name ≠ globalName g

/-- Functions are declared unless the name of one is taken. -/
theorem declare_funcs {d : Declared} {gs : List Reg} {fs : List Func} (more : List (Func × Nat))
    (h : Sound d.module d.funcs Service.all gs fs 0) (hfs : Free gs fs)
    (hall : ∀ x ∈ more, x.1.signature = .ok x.1.sig) :
    (Free gs (fs ++ more.map (·.1)) ∧ ∃ d', more.foldlM declareFunc d = .ok d' ∧ d'.program = d.program
        ∧ Sound d'.module d'.funcs Service.all gs (fs ++ more.map (·.1)) 0)
      ∨ ¬Free gs (fs ++ more.map (·.1)) ∧ ∃ name c, more.foldlM declareFunc d = .error (.declaration name c) := by
  induction more generalizing d fs with
  | nil => exact .inl ⟨by simpa using hfs, d, rfl, rfl, by simpa using h⟩
  | cons x more ih =>
    obtain ⟨f, i⟩ := x
    have hstep := h.declare_func (i := i) (hall (f, i) (.head _))
    split at hstep
    · next ht =>
      obtain ⟨c, hrun⟩ := hstep
      have hmem : f ∈ fs ++ ((f, i) :: more).map (·.1) := List.mem_append_right _ (.head _)
      refine .inr ⟨fun hfree => ?_, f.name, c, ?_⟩
      · rcases h.taken.1 ht with ⟨sv, -, e⟩ | ⟨g, hg, e⟩ | ⟨f', hf', e⟩
        · exact hfree.services f hmem sv e
        · exact hfree.globals f hmem g hg e
        · have hnodup := hfree.nodup
          rw [List.map_append, List.nodup_append] at hnodup
          exact hnodup.2.2 f'.name (List.mem_map_of_mem hf') f.name (.head _) e.symm
      · rw [List.foldlM_cons, hrun]
        rfl
    · next ht =>
      obtain ⟨d', hrun, hp, h'⟩ := hstep
      have hnot := fun hor => ht (h.taken.2 hor)
      have hfree : Free gs (fs ++ [f]) := by
        refine ⟨?_, fun f' hf' sv => ?_, fun f' hf' g hg => ?_⟩
        · rw [List.map_append, List.nodup_append]
          refine ⟨hfs.nodup, by simp, fun a ha b hb e => hnot (.inr (.inr ?_))⟩
          obtain ⟨f', hf', rfl⟩ := List.mem_map.1 ha
          exact ⟨f', hf', by rw [e]; exact (List.mem_singleton.1 hb).symm⟩
        · rcases List.mem_append.1 hf' with hf' | hf'
          · exact hfs.services f' hf' sv
          · obtain rfl := List.mem_singleton.1 hf'
            exact fun e => hnot (.inl ⟨sv, sv.mem_all, e⟩)
        · rcases List.mem_append.1 hf' with hf' | hf'
          · exact hfs.globals f' hf' g hg
          · obtain rfl := List.mem_singleton.1 hf'
            exact fun e => hnot (.inr (.inl ⟨g, hg, e⟩))
      have hnext := ih h' hfree fun x hx => hall x (.tail _ hx)
      rw [List.append_assoc, List.singleton_append, hp] at hnext
      rwa [List.foldlM_cons, hrun]

end Declared

/-- No name of a program stands for two things. -/
structure Program.Distinct (p : Program) : Prop where
  globals : p.globals.Nodup
  names : Declared.Free p.globals p.funcs

instance (p : Program) : Decidable p.Distinct :=
  decidable_of_iff (p.globals.Nodup ∧ (p.funcs.map (·.name)).Nodup
    ∧ (∀ f ∈ p.funcs, ∀ sv ∈ Service.all, f.name ≠ sv.name)
      ∧ ∀ f ∈ p.funcs, ∀ g ∈ p.globals, f.name ≠ Declared.globalName g)
    ⟨fun ⟨hglobals, hnames, hservices, hapart⟩ =>
      ⟨hglobals, hnames, fun f hf sv => hservices f hf sv sv.mem_all, hapart⟩,
      fun ⟨hglobals, hnames, hservices, hapart⟩ => ⟨hglobals, hnames, fun f hf sv _ => hservices f hf sv, hapart⟩⟩

theorem Declared.ofProgram_cases {p : Program} (hp : p.check = []) :
    (p.Distinct ∧ ∃ d, ofProgram p = .ok d ∧ d.program = p ∧ Sound d.module d.funcs Service.all p.globals p.funcs 0)
      ∨ ¬p.Distinct ∧ ∃ name c, ofProgram p = .error (.declaration name c) := by
  obtain ⟨-, hglobals, hfuncs⟩ := Check.check_eq_nil.1 hp
  obtain ⟨m, hm, h₀⟩ := withServices_sound
  have hrun : ofProgram p = p.globals.foldlM declareGlobal { program := p, module := m, funcs := [], addresses := [] }
      >>= fun d => p.funcs.zipIdx.foldlM declareFunc d := by
    rw [ofProgram, hm]
    rfl
  rw [hrun]
  rcases declare_globals p.globals (d := { program := p, module := m, funcs := [], addresses := [] }) h₀ .nil
    (by simpa using hglobals) with ⟨hg, d, hd, hprogram, h₁⟩ | ⟨hg, name, c, hd⟩
  · rw [hd]
    have hsigs : ∀ x ∈ p.funcs.zipIdx, x.1.signature = .ok x.1.sig := fun x hx =>
      Func.signature_of_check (hfuncs x.1 (List.mem_iff_getElem?.2 ⟨x.2, List.mem_zipIdx_iff_getElem?.1 hx⟩))
    have hcases := declare_funcs p.funcs.zipIdx h₁ ⟨.nil, by simp, by simp⟩ hsigs
    rw [List.zipIdx_map_fst] at hcases
    rcases hcases with ⟨hfree, d', hd', hprogram', h₂⟩ | ⟨hfree, name, c, hd'⟩
    · exact .inl ⟨⟨hg, hfree⟩, d', hd', hprogram'.trans hprogram, h₂⟩
    · exact .inr ⟨fun h => hfree h.names, name, c, hd'⟩
  · refine .inr ⟨fun h => hg h.globals, name, c, ?_⟩
    rw [hd]
    rfl

end RecordMill

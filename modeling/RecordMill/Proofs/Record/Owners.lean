import RecordMill.Proofs.Heap.Packing
import RecordMill.Record.Fields

/-!
# What the context owns

Each built-in variable that is on the heap owns what it holds. Strings that are handed around for a while
come on top of that. As long as the books are kept, separators can be read at any time.
-/

namespace RecordMill

theorem Heap.Ledger.start (literals : List Bytes) : (Heap.ofLiterals literals).Ledger (fun _ => none) #[] [] where
  count a _ := by simp [Heap.count, Heap.ofLiterals]
  object a ha := by simp at ha
  single a ha := by simp at ha
  orderly := .empty literals
  size := Nat.zero_le _

namespace Act

variable {α β : Type} {x : Act α} {f : α → Act β} {c c' : Context}

theorem bind_ok {a : α} (h : x c = (.ok a, c')) : (x >>= f) c = f a c' := by
  show (match x c with | (r, c) => ExceptT.bindCont f r c) = _
  rw [h]
  rfl

theorem bind_error {e : Fault} (h : x c = (.error e, c')) : (x >>= f) c = (.error e, c') := by
  show (match x c with | (r, c) => ExceptT.bindCont f r c) = _
  rw [h]
  rfl

theorem get_ok (c : Context) : (get : Act Context) c = (.ok c, c) := rfl

theorem modify_ok (g : Context → Context) (c : Context) : (modify g : Act Unit) c = (.ok (), g c) := rfl

theorem look_apply (g : Heap → Except HeapFault α) (c : Context) :
    look g c = (match g c.heap with | .ok a => (pure a : Act α) | .error e => throw (Fault.heap e)) c := rfl

theorem look_ok {g : Heap → Except HeapFault α} {a : α} (h : g c.heap = .ok a) : look g c = (.ok a, c) := by
  rw [look_apply, h]
  rfl

theorem change_ok {g : Heap → Except HeapFault Heap} {h' : Heap} (h : g c.heap = .ok h') :
    change g c = (.ok (), { c with heap := h' }) := (bind_ok (look_ok h)).trans rfl

theorem tryFinally_eq {a : Except Fault α} {c₁ c₂ : Context} {finish : Act Unit} (h : x c = (a, c₁))
    (hfinish : finish c₁ = (.ok (), c₂)) : (tryFinally x finish) c = (a, c₂) := by
  unfold tryFinally
  simp only [tryFinally', Functor.map, ExceptT.map, StateT.bind, bind, ExceptT.mk, pure, h]
  cases a <;> simp only [hfinish] <;> rfl

theorem onRecords_eq {act : Recording α} {a : α} {r : Records} (h : act c.toRecords = (a, r)) :
    onRecords act c = (.ok a, { c with toRecords := r }) := by
  have hrun : onRecords act c = (.ok (act c.toRecords).1, { c with toRecords := (act c.toRecords).2 }) := rfl
  rw [hrun, h]

theorem newStr_ok {s : Bytes} {p : Packed} {heap : Heap} (h : c.heap.newStr s = (p, heap)) :
    newStr s c = (.ok p, { c with heap }) := by
  have hrun : newStr s c = (.ok (c.heap.newStr s).1, { c with heap := (c.heap.newStr s).2 }) := rfl
  rw [hrun, h]

end Act

def Context.owners (c : Context) : List UInt64 := [c.fs.handle, c.ofs.handle, c.ors.handle, c.filename.handle, c.argv]

/-- The variables and the strings `held` on top of them are owned, once each, and the separators stand
for `fs` and `ofs`. -/
def Context.Owns (c : Context) (held : List (Packed × Bytes)) (fs ofs : Bytes) : Prop :=
  ∃ Γ T, c.heap.Ledger Γ T (held.map (·.1.handle) ++ c.owners) ∧ (∀ x ∈ held, x.1.Stands c.heap.literals Γ x.2)
    ∧ c.fs.Stands c.heap.literals Γ fs ∧ c.ofs.Stands c.heap.literals Γ ofs

namespace Context.Owns

variable {c : Context} {held : List (Packed × Bytes)} {fs ofs s : Bytes} {p : Packed}

theorem start (s : Settings) (world : World) :
    (Context.ofSettings s world).Owns [] (Settings.orElse s.fs " ") (Settings.orElse s.ofs " ") := by
  have hmax : Heap.maxOwners = 4611686018427387904 := rfl
  obtain ⟨fs, h₁, Γ₁, hnew₁, l₁, hfs, -, hliterals₁⟩ :=
    (Heap.Ledger.start s.literals).newStr (by simp [hmax]) (Settings.orElse s.fs " ")
  obtain ⟨ofs, h₂, Γ₂, hnew₂, l₂, hofs, hsame₂, hliterals₂⟩ := l₁.newStr (by simp [hmax]) (Settings.orElse s.ofs " ")
  obtain ⟨ors, h₃, Γ₃, hnew₃, l₃, -, hsame₃, hliterals₃⟩ := l₂.newStr (by simp [hmax]) (Settings.orElse s.ors "\n")
  have hT : ∀ {r : Nat} {t : Plain.Table}, (#[] : Array Plain.Table)[r]? = some t →
      (#[⟨.int, .str, s.arguments⟩] : Array Plain.Table)[r]? = some t := by simp
  obtain ⟨argv, h₄, halloc, -, hnot, l₄, hliterals₄⟩ := l₃.alloc (by simp [hmax]) (o := .map .int .str s.arguments)
    (c := .map .int .str 0) hT ⟨s.arguments, rfl, rfl⟩ (by simp)
  have heq : Context.ofSettings s world
      = { toRecords := s.records world, heap := h₄, fs := fs, ofs := ofs, ors := ors, argv := argv } := by
    simp only [Context.ofSettings, hnew₁, hnew₂, hnew₃, halloc]
  have hsame₄ : ∀ a ∈ [ors.handle, ofs.handle, fs.handle], Γ₃.set argv (.map .int .str 0) a = Γ₃ a := fun a ha => by
    refine if_neg fun e => hnot ?_
    rwa [e] at ha
  rw [heq]
  refine ⟨_, _, l₄.congr fun b hb => ?_, by simp, ?_, ?_⟩
  · simp only [List.map_nil, List.nil_append, owners, Packed.handle_empty, List.count_cons, List.count_nil]
    have : ((0 : UInt64) == b) = false := by simpa using Ne.symm hb
    simp only [this, Bool.false_eq_true, if_false]
    omega
  · show fs.Stands h₄.literals _ _
    rw [hliterals₄, hliterals₃, hliterals₂]
    exact hfs.mono ((hsame₄ _ (by simp)).trans ((hsame₃ _ (by simp)).trans (hsame₂ _ (by simp))))
  · show ofs.Stands h₄.literals _ _
    rw [hliterals₄, hliterals₃]
    exact hofs.mono ((hsame₄ _ (by simp)).trans (hsame₃ _ (by simp)))

theorem newStr (o : c.Owns held fs ofs) (hheld : held.length ≤ 8) (s : Bytes) :
    ∃ p h, Act.newStr s c = (.ok p, { c with heap := h })
      ∧ ({ c with heap := h } : Context).Owns ((p, s) :: held) fs ofs := by
  obtain ⟨Γ, T, l, hstands, hfs, hofs⟩ := o
  have hlen : (held.map (·.1.handle) ++ c.owners).length < Heap.maxOwners := by
    have hmax : Heap.maxOwners = 4611686018427387904 := rfl
    simp only [List.length_append, List.length_map, owners, List.length_cons, List.length_nil]
    omega
  obtain ⟨p, h, Γ', hnew, l', hp, hsame, hliterals⟩ := l.newStr hlen s
  refine ⟨p, h, ?_, Γ', T, l', ?_, ?_, ?_⟩
  · exact Act.newStr_ok hnew
  · intro x hx
    rcases List.mem_cons.1 hx with rfl | hx
    · exact hp
    · show x.1.Stands h.literals Γ' x.2
      rw [hliterals]
      exact (hstands x hx).mono (hsame _ (List.mem_append_left _ (List.mem_map.2 ⟨x, hx, rfl⟩)))
  · show c.fs.Stands h.literals Γ' fs
    rw [hliterals]
    exact hfs.mono (hsame _ (by simp [owners]))
  · show c.ofs.Stands h.literals Γ' ofs
    rw [hliterals]
    exact hofs.mono (hsame _ (by simp [owners]))

theorem bytes (o : c.Owns held fs ofs) (hp : (p, s) ∈ held) : Act.bytes p c = (.ok s, c) := by
  obtain ⟨Γ, T, l, hstands, -⟩ := o
  have hm : p.handle ∈ held.map (·.1.handle) ++ c.owners := List.mem_append_left _ (List.mem_map.2 ⟨(p, s), hp, rfl⟩)
  have hstring : c.heap.string p = .ok s := l.string (hstands (p, s) hp) (.inr hm)
  exact Act.look_ok hstring

theorem fieldSeparator (o : c.Owns held fs ofs) : Act.fieldSeparator c = (.ok fs, c) := by
  obtain ⟨Γ, T, l, -, hfs, -⟩ := o
  exact (Act.bind_ok (Act.get_ok c)).trans (Act.look_ok (l.string hfs (.inr (by simp [owners]))))

theorem outputSeparator (o : c.Owns held fs ofs) : Act.outputSeparator c = (.ok ofs, c) := by
  obtain ⟨Γ, T, l, -, -, hofs⟩ := o
  exact (Act.bind_ok (Act.get_ok c)).trans (Act.look_ok (l.string hofs (.inr (by simp [owners]))))

theorem dropStr (o : c.Owns ((p, s) :: held) fs ofs) :
    ∃ h, Act.change (·.dropStr p) c = (.ok (), { c with heap := h })
      ∧ ({ c with heap := h } : Context).Owns held fs ofs := by
  obtain ⟨Γ, T, l, hstands, hfs, hofs⟩ := o
  obtain ⟨h, hdrop, l', hliterals⟩ := l.drop
  refine ⟨h, Act.change_ok hdrop, Γ, T, l', fun x hx => ?_, ?_, ?_⟩
  · show x.1.Stands h.literals Γ x.2
    rw [hliterals]
    exact hstands x (List.mem_cons_of_mem _ hx)
  · show c.fs.Stands h.literals Γ fs
    rwa [hliterals]
  · show c.ofs.Stands h.literals Γ ofs
    rwa [hliterals]

theorem refStr (o : c.Owns ((p, s) :: held) fs ofs) :
    ∃ h, Act.change (·.refStr p) c = (.ok (), { c with heap := h })
      ∧ ({ c with heap := h } : Context).Owns ((p, s) :: (p, s) :: held) fs ofs := by
  obtain ⟨Γ, T, l, hstands, hfs, hofs⟩ := o
  obtain ⟨h, href, l', hliterals⟩ := l.ref (a := p.handle) (.inr (List.mem_cons_self ..))
  refine ⟨h, Act.change_ok href, Γ, T, l', fun x hx => ?_, ?_, ?_⟩
  · show x.1.Stands h.literals Γ x.2
    rw [hliterals]
    exact hstands x (by simpa using hx)
  · show c.fs.Stands h.literals Γ fs
    rwa [hliterals]
  · show c.ofs.Stands h.literals Γ ofs
    rwa [hliterals]

theorem swap {b : Context} {old : UInt64} {fs' ofs' : Bytes} (o : c.Owns ((p, s) :: held) fs ofs)
    (hheap : b.heap = c.heap) (howners : (old :: b.owners).Perm (p.handle :: c.owners))
    (hfs : b.fs = c.fs ∧ fs' = fs ∨ b.fs = p ∧ fs' = s) (hofs : b.ofs = c.ofs ∧ ofs' = ofs ∨ b.ofs = p ∧ ofs' = s) :
    ∃ h, b.heap.drop old = .ok h ∧ ({ b with heap := h } : Context).Owns held fs' ofs' := by
  obtain ⟨Γ, T, l, hstands, hfs₀, hofs₀⟩ := o
  have hp := hstands _ (List.mem_cons_self ..)
  have l₁ : c.heap.Ledger Γ T (old :: (held.map (·.1.handle) ++ b.owners)) := by
    refine l.perm ?_
    calc (old :: (held.map (·.1.handle) ++ b.owners)).Perm (held.map (·.1.handle) ++ (old :: b.owners)) :=
          List.perm_middle.symm
      _ |>.Perm (held.map (·.1.handle) ++ (p.handle :: c.owners)) := howners.append_left _
      _ |>.Perm (p.handle :: (held.map (·.1.handle) ++ c.owners)) := List.perm_middle
  obtain ⟨h, hdrop, l', hliterals⟩ := l₁.drop
  refine ⟨h, hheap ▸ hdrop, Γ, T, l', fun x hx => ?_, ?_, ?_⟩
  · show x.1.Stands h.literals Γ x.2
    rw [hliterals]
    exact hstands x (List.mem_cons_of_mem _ hx)
  · show b.fs.Stands h.literals Γ fs'
    rw [hliterals]
    obtain ⟨hc, rfl⟩ | ⟨hc, rfl⟩ := hfs <;> rw [hc] <;> assumption
  · show b.ofs.Stands h.literals Γ ofs'
    rw [hliterals]
    obtain ⟨hc, rfl⟩ | ⟨hc, rfl⟩ := hofs <;> rw [hc] <;> assumption

theorem setFilename (o : c.Owns ((p, s) :: held) fs ofs) :
    ∃ h, Act.setFilename p c = (.ok (), { c with filename := p, heap := h })
      ∧ ({ c with filename := p, heap := h } : Context).Owns held fs ofs := by
  have hperm : (c.filename.handle :: ({ c with filename := p } : Context).owners).Perm (p.handle :: c.owners) := by
    refine List.perm_iff_count.2 fun a => ?_
    simp only [owners, List.count_cons]
    omega
  obtain ⟨h, hdrop, o'⟩ := o.swap (b := { c with filename := p }) rfl hperm (.inl ⟨rfl, rfl⟩) (.inl ⟨rfl, rfl⟩)
  refine ⟨h, ?_, o'⟩
  have hchange := Act.change_ok (g := (·.dropStr c.filename)) (c := { c with filename := p }) hdrop
  exact (Act.bind_ok (Act.get_ok c)).trans ((Act.bind_ok (Act.modify_ok _ c)).trans hchange)

theorem storeStr (o : c.Owns ((p, s) :: held) fs ofs) :
    (∃ c', Act.storeStr .fs p c = (.ok (), c') ∧ c'.Owns ((p, s) :: held) s ofs ∧ c'.toRecords = c.toRecords)
      ∧ ∃ c', Act.storeStr .ofs p c = (.ok (), c') ∧ c'.Owns ((p, s) :: held) fs s ∧ c'.toRecords = c.toRecords := by
  obtain ⟨h₁, href, o₁⟩ := o.refStr
  constructor
  · have hperm : (c.fs.handle :: ({ c with heap := h₁, fs := p } : Context).owners).Perm (p.handle :: c.owners) := by
      refine List.perm_iff_count.2 fun a => ?_
      simp only [owners, List.count_cons]
      omega
    obtain ⟨h, hdrop, o'⟩ := o₁.swap (b := { c with heap := h₁, fs := p }) rfl hperm (.inr ⟨rfl, rfl⟩) (.inl ⟨rfl, rfl⟩)
    refine ⟨_, ?_, o', rfl⟩
    have hload : Act.loadStr .fs { c with heap := h₁ } = (.ok c.fs, { c with heap := h₁ }) := rfl
    have hplace : (modify (Act.placeStr .fs p) : Act Unit) { c with heap := h₁ }
      = (.ok (), { c with heap := h₁, fs := p }) := rfl
    unfold Act.storeStr
    rw [Act.bind_ok href, Act.bind_ok hload, Act.bind_ok hplace]
    exact Act.change_ok (g := (·.dropStr c.fs)) (c := { c with heap := h₁, fs := p }) hdrop
  · have hperm : (c.ofs.handle :: ({ c with heap := h₁, ofs := p } : Context).owners).Perm (p.handle :: c.owners) := by
      refine List.perm_iff_count.2 fun a => ?_
      simp only [owners, List.count_cons]
      omega
    obtain ⟨h, hdrop, o'⟩ := o₁.swap (b := { c with heap := h₁, ofs := p }) rfl hperm (.inl ⟨rfl, rfl⟩)
      (.inr ⟨rfl, rfl⟩)
    refine ⟨_, ?_, o', rfl⟩
    have hload : Act.loadStr .ofs { c with heap := h₁ } = (.ok c.ofs, { c with heap := h₁ }) := rfl
    have hplace : (modify (Act.placeStr .ofs p) : Act Unit) { c with heap := h₁ }
      = (.ok (), { c with heap := h₁, ofs := p }) := rfl
    unfold Act.storeStr
    rw [Act.bind_ok href, Act.bind_ok hload, Act.bind_ok hplace]
    exact Act.change_ok (g := (·.dropStr c.ofs)) (c := { c with heap := h₁, ofs := p }) hdrop

theorem takeBytes (o : c.Owns ((p, s) :: held) fs ofs) :
    ∃ h, Act.takeBytes p c = (.ok s, { c with heap := h }) ∧ ({ c with heap := h } : Context).Owns held fs ofs := by
  obtain ⟨h, hdrop, o'⟩ := o.dropStr
  refine ⟨h, ?_, o'⟩
  exact (Act.bind_ok (o.bytes (List.mem_cons_self ..))).trans ((Act.bind_ok hdrop).trans rfl)

end Context.Owns

theorem Context.orderly_ofSettings (s : Settings) (world : World) : (Context.ofSettings s world).heap.Orderly := by
  obtain ⟨Γ, T, l, -⟩ := Owns.start s world
  exact l.orderly

end RecordMill

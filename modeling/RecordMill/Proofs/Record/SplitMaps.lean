import RecordMill.Proofs.Number.Digits
import RecordMill.Proofs.Record.Splitting

/-!
# Texts split into maps

Main statement: `splits_agree`. A text can be split into a map whose keys are numbers or into one whose keys are their
decimal texts. Both ways find the same pieces and leave nothing of what the map held before. When the separator is a
pattern that does not compile, neither map changes. -/

namespace RecordMill

/-! ## How many pieces there are -/

namespace Pattern

theorem length_membersFrom (start n : Nat) (s : Places) (acc : List Nat) :
    (Places.membersFrom start n s acc).length ≤ acc.length + max n 1 := by
  fun_induction Places.membersFrom start n s acc with
  | case1 => exact Nat.le_add_right _ _
  | case2 => rw [List.length_cons]; omega
  | case3 start n s acc hs hn ih₁ ih₂ => omega

theorem length_members (n : Nat) (s : Places) : (Places.members n s).length ≤ max n 1 :=
  (length_membersFrom 0 n s []).trans_eq (Nat.zero_add _)

theorem length_allFrom (s : Search) (starts : List Nat) (i : Nat) (last : Option Nat) :
    (s.allFrom starts i last).length ≤ starts.length := by
  fun_induction Search.allFrom s starts i last with
  | case1 => exact Nat.le_refl 0
  | case2 i last a starts ha ih => exact Nat.le_succ_of_le ih
  | case3 i last a starts ha b rest hskip ih => exact Nat.le_succ_of_le ih
  | case4 i last a starts ha b rest hkeep ih => exact Nat.succ_le_succ ih

theorem length_pieces (units : Array Utf8.Unit) (start : Nat) (found : List (Nat × Nat)) :
    (pieces units start found).length = found.length + 1 := by
  induction found generalizing start with
  | nil => rfl
  | cons span rest ih => exact congrArg (· + 1) (ih span.2)

theorem length_split (p : Pattern) (s : Bytes) :
    0 < (p.split s (-1)).length ∧ (p.split s (-1)).length ≤ s.length + 2 := by
  have hunits := Utf8.length_units s
  have hmembers : ∀ search : Search, search.all.length ≤ max search.size 1 := fun search =>
    Nat.le_trans (length_allFrom search _ _ _) (length_members _ _)
  have hsize : (Search.ofSubject p.node p.longest (subject (Utf8.units s))).size = (Utf8.units s).length + 1 := by
    simp [Search.ofSubject, subject]
  have hfound := hmembers (Search.ofSubject p.node p.longest (subject (Utf8.units s)))
  have hlength : (p.split s (-1)).length
      = (Search.ofSubject p.node p.longest (subject (Utf8.units s))).all.length + 1 :=
    length_pieces _ _ _
  omega

end Pattern

namespace Bytes

theorem length_pieces_cutAt (c : UInt8) (s : Bytes) : 0 < (cutAt c s).length ∧ (cutAt c s).length ≤ s.length + 1 := by
  induction s with
  | nil => exact ⟨Nat.one_pos, Nat.le_refl 1⟩
  | cons b s ih =>
    obtain ⟨p, ps, hcut⟩ := exists_cutAt c s
    rw [hcut] at ih
    by_cases hb : b = c
    · subst hb
      rw [cutAt_separator, hcut]
      simpa using ih.2
    · rw [cutAt_other hb hcut]
      exact ⟨Nat.succ_pos _, Nat.le_succ_of_le ih.2⟩

theorem decimal_inj {m n : Nat} (h : decimal m = decimal n) :
    m = n := by rw [← (decimal_spec m).2, h, (decimal_spec n).2]

end Bytes

namespace Utf8

theorem units_ne_nil {s : Bytes} (hs : s ≠ []) : units s ≠ [] := by
  obtain ⟨b, rest, rfl⟩ := List.exists_cons_of_ne_nil hs
  rw [units]
  split <;> exact List.cons_ne_nil _ _

theorem bytes_ne_nil {s : Bytes} {u : Unit} (hu : u ∈ units s) : u.bytes ≠ [] := by
  fun_induction units s with
  | case1 => cases hu
  | case2 b rest code n h ih =>
    rcases List.mem_cons.1 hu with rfl | hu
    · exact List.cons_ne_nil _ _
    · exact ih hu
  | case3 b rest h ih =>
    rcases List.mem_cons.1 hu with rfl | hu
    · exact List.cons_ne_nil _ _
    · exact ih hu

def AllBlank (s : Bytes) : Prop := ∀ u ∈ units s, isBlank u.code

theorem wordsOf_eq_nil {word : Bytes} {us : List Unit} (hus : ∀ u ∈ us, u.bytes ≠ []) :
    wordsOf word us = [] ↔ word = [] ∧ ∀ u ∈ us, isBlank u.code := by
  fun_induction wordsOf word us with
  | case1 word h => simpa using h
  | case2 word h => simpa using h
  | case3 word u rest hblank h ih =>
    rw [ih fun u hu => hus u (List.mem_cons_of_mem _ hu)]
    simp_all
  | case4 word u rest hblank h ih => simp_all
  | case5 word u rest hblank ih =>
    rw [ih fun u hu => hus u (List.mem_cons_of_mem _ hu)]
    have hu := hus u List.mem_cons_self
    simp_all

theorem words_eq_nil {s : Bytes} : words s = [] ↔ AllBlank s :=
  (wordsOf_eq_nil fun _ hu => bytes_ne_nil hu).trans (and_iff_right rfl)

end Utf8

namespace FieldList

variable {longest : Bool} {t separator : Bytes} {parts : List Bytes}

theorem pieces?_cases {P : List Bytes → Prop} (h : pieces? longest t separator = some parts) (hempty : t = [] → P [])
    (hwords : t ≠ [] → separator = [32] → P (Utf8.words t))
    (hcharacters : t ≠ [] → separator ≠ [32] → P (Utf8.characters t)) (hcut : ∀ c, separator ≠ [32] →
      P (Bytes.cutAt c t)) (hpattern : ∀ p : Pattern, separator ≠ [32] → P (p.split t (-1))) :
    P parts := by
  have hbyPattern : separator ≠ [32] → pieces?.byPattern longest t separator = some parts → P parts :=
      fun hspace hp => by
    obtain ⟨p, -, rfl⟩ := Option.map_eq_some_iff.1 hp
    exact hpattern p hspace
  unfold pieces? at h
  split at h
  · next ht =>
    cases h
    exact hempty (by simpa using ht)
  · next ht =>
    have ht : t ≠ [] := by simpa using ht
    split at h
    · next hspace =>
      cases h
      exact hwords ht hspace
    · next hspace =>
      split at h
      · cases h
        exact hcharacters ht hspace
      · split at h
        · exact hbyPattern hspace h
        · cases h
          exact hcut _ hspace
      · exact hbyPattern hspace h

theorem length_pieces? (h : pieces? longest t separator = some parts) : parts.length ≤ t.length + 2 := by
  refine pieces?_cases (P := fun parts => parts.length ≤ t.length + 2) h (fun _ => Nat.zero_le _) (fun _ _ => ?_)
    (fun _ _ => ?_) (fun c _ => ?_) (fun p _ => (Pattern.length_split p t).2)
  · have hwords := Utf8.length_words t
    omega
  · have hunits := Utf8.length_units t
    rw [Utf8.characters, List.length_map]
    omega
  · exact Nat.le_succ_of_le (Bytes.length_pieces_cutAt c t).2

theorem pieces?_eq_nil (h : pieces? longest t separator = some parts) :
    parts = [] ↔ t = [] ∨ separator = [32] ∧ Utf8.AllBlank t := by
  have hsome : ∀ {xs : List Bytes}, t ≠ [] → separator ≠ [32] → xs ≠ [] →
      (xs = [] ↔ t = [] ∨ separator = [32] ∧ Utf8.AllBlank t) :=
    fun ht hspace hxs => iff_of_false hxs fun h => h.elim ht fun h => hspace h.1
  by_cases ht : t = []
  · subst ht
    cases h
    exact iff_of_true rfl (.inl rfl)
  refine pieces?_cases (P := fun parts => parts = [] ↔ t = [] ∨ separator = [32] ∧ Utf8.AllBlank t) h
    (fun h => absurd h ht) (fun _ hspace => ?_) (fun _ hspace => hsome ht hspace ?_)
    (fun c hspace => hsome ht hspace (List.ne_nil_of_length_pos (Bytes.length_pieces_cutAt c t).1))
    (fun p hspace => hsome ht hspace (List.ne_nil_of_length_pos (Pattern.length_split p t).1))
  · rw [Utf8.words_eq_nil]
    simp only [ht, hspace, false_or, true_and]
  · rw [Utf8.characters, ne_eq, List.map_eq_nil_iff]
    exact Utf8.units_ne_nil ht

end FieldList

/-! ## Pieces as entries -/

namespace Act

variable {k : Key} {key : Nat → k.Carrier} {parts : List Bytes} {x : k.Carrier}

/-- The pieces from number `n + 1` on are put into a map. -/
def numberedFrom (k : Key) (key : Nat → k.Carrier) (parts : List Bytes) (n : Nat) (m : Entries k .str) :
    Entries k .str :=
  (parts.zipIdx n).foldl (fun m (p, i) => m.insert (key (i + 1)) p) m

theorem numberedFrom_cons (p : Bytes) (parts : List Bytes) (n : Nat) (m : Entries k .str) :
    numberedFrom k key (p :: parts) n m = numberedFrom k key parts (n + 1) (m.insert (key (n + 1)) p) := rfl

theorem mem_numberedFrom (parts : List Bytes) (n : Nat) (m : Entries k .str) :
    x ∈ numberedFrom k key parts n m ↔ x ∈ m ∨ ∃ i, n < i ∧ i ≤ n + parts.length ∧ x = key i := by
  induction parts generalizing n m with
  | nil =>
    refine ⟨.inl, fun h => h.elim id ?_⟩
    rintro ⟨i, hlt, hle, -⟩
    exact absurd hlt (Nat.not_lt.2 hle)
  | cons p parts ih =>
    rw [numberedFrom_cons, ih, Std.ExtTreeMap.mem_insert, Std.LawfulEqCmp.compare_eq_iff_eq, List.length_cons]
    constructor
    · rintro ((hx | hx) | ⟨i, hlt, hle, hx⟩)
      · exact .inr ⟨n + 1, by omega, by omega, hx.symm⟩
      · exact .inl hx
      · exact .inr ⟨i, by omega, by omega, hx⟩
    · rintro (hx | ⟨i, hlt, hle, hx⟩)
      · exact .inl (.inr hx)
      · by_cases hi : i = n + 1
        · exact .inl (.inl (hi ▸ hx.symm))
        · exact .inr ⟨i, by omega, by omega, hx⟩

theorem getElem?_numberedFrom_of_not_mem (n : Nat) (m : Entries k .str)
    (hx : ∀ i, n < i → i ≤ n + parts.length → x ≠ key i) :
    (numberedFrom k key parts n m)[x]? = m[x]? := by
  induction parts generalizing n m with
  | nil => rfl
  | cons p parts ih =>
    rw [List.length_cons] at hx
    have hne : ¬compare (key (n + 1)) x = .eq :=
      fun h => hx (n + 1) (by omega) (by omega) (Std.LawfulEqCmp.compare_eq_iff_eq.1 h).symm
    rw [numberedFrom_cons, ih _ _ fun i hlt hle => hx i (by omega) (by omega),
      Std.ExtTreeMap.getElem?_insert, if_neg hne]

theorem getElem?_numberedFrom (n : Nat) (m : Entries k .str)
    (hkey : ∀ i j, i ≤ n + parts.length → j ≤ n + parts.length → key i = key j → i = j) {i : Nat} (hlt : n < i)
    (hle : i ≤ n + parts.length) :
    (numberedFrom k key parts n m)[key i]? = parts[i - (n + 1)]? := by
  induction parts generalizing n m with
  | nil => exact absurd hlt (Nat.not_lt.2 hle)
  | cons p parts ih =>
    rw [List.length_cons] at hkey hle
    rw [numberedFrom_cons]
    by_cases hi : i = n + 1
    · subst hi
      have hrest : ∀ j, n + 1 < j → j ≤ n + 1 + parts.length → key (n + 1) ≠ key j := fun j hlt hle h => by
        have := hkey _ _ (by omega) (by omega) h
        omega
      rw [getElem?_numberedFrom_of_not_mem _ _ hrest]
      simp
    · rw [ih (n + 1) _ (fun i j hi hj => hkey i j (by omega) (by omega)) (by omega) (by omega)]
      rw [show i - (n + 1) = (i - (n + 1 + 1)) + 1 by omega, List.getElem?_cons_succ]

theorem mem_numbered : x ∈ numbered k key parts ↔ ∃ i, 1 ≤ i ∧ i ≤ parts.length ∧ x = key i := by
  have hmem : x ∈ numbered k key parts ↔ x ∈ (∅ : Entries k .str) ∨ ∃ i, 1 ≤ i ∧ i ≤ 0 + parts.length ∧ x = key i :=
    mem_numberedFrom parts 0 ∅
  rw [Nat.zero_add] at hmem
  exact hmem.trans (or_iff_right Std.ExtTreeMap.not_mem_empty)

theorem getElem?_numbered (hkey : ∀ i j, i ≤ parts.length → j ≤ parts.length → key i = key j → i = j) {i : Nat}
    (hi : 1 ≤ i) (hle : i ≤ parts.length) : (numbered k key parts)[key i]? = parts[i - 1]? := by
  refine getElem?_numberedFrom 0 ∅ (fun i j hi hj => hkey i j ?_ ?_) hi ?_ <;> omega

end Act

theorem Int64.between_iff {len : Nat} (hlen : len < 2 ^ 63) {i : Int64} :
    1 ≤ i ∧ i ≤ Int64.ofNat len ↔ ∃ j, 1 ≤ j ∧ j ≤ len ∧ i = Int64.ofNat j := by
  rw [Int64.le_iff_toInt_le, Int64.le_iff_toInt_le, Int64.toInt_ofNat_of_lt hlen, Int64.toInt_one]
  constructor
  · rintro ⟨hone, hle⟩
    have hnonneg : 0 ≤ i := Int64.le_iff_toInt_le.2 (by rw [Int64.toInt_zero]; omega)
    exact ⟨i.toNatClampNeg, by rw [← Int64.toNat_toInt]; omega, by rw [← Int64.toNat_toInt]; omega,
      (Int64.ofNat_toNatClampNeg i hnonneg).symm⟩
  · rintro ⟨j, hone, hle, rfl⟩
    rw [Int64.toInt_ofNat_of_lt (by omega)]
    omega

theorem Int64.ofNat_inj_of_lt {m n : Nat} (hm : m < 2 ^ 63) (hn : n < 2 ^ 63) (h : Int64.ofNat m = Int64.ofNat n) :
    m = n := by
  have h := congrArg Int64.toInt h
  rw [Int64.toInt_ofNat_of_lt hm, Int64.toInt_ofNat_of_lt hn] at h
  exact Int.ofNat_inj.1 h

/-! ## Splitting into a map -/

theorem Heap.map_setMap {h : Heap} {k : Key} {v : Scalar} {a : UInt64} {old : Entries k v}
    (hold : h.map k v a = .ok old) (m : Entries k v) : (h.setMap k v a m).map k v a = .ok m := by
  cases hs : h.slot a with
  | error e =>
    unfold map at hold
    rw [hs] at hold
    cases hold
  | ok s =>
    obtain ⟨ha, hslot, hcount⟩ := slot_eq_ok.1 hs
    have hslot' : (h.setMap k v a m).slot a = .ok { s with object := .map k v m } :=
      slot_eq_ok.2 ⟨ha, by rw [slots_setMap, hslot]; simp, hcount⟩
    simp only [map, hslot', Bind.bind, Except.bind, Object.asMap?, and_self, dite_true]
    rfl

namespace FieldList

variable {longest : Bool} {r : Records} {t separator : Bytes}

theorem pieces_eq (h : Coherent longest r.patterns) (t separator : Bytes) : match pieces? longest t separator with
    | some parts => ∃ ps, Records.pieces t separator r = (some parts, { r with patterns := ps })
    | none => Records.pieces t separator r = (none, { r with noted := ⟨.splitting, .pattern⟩ :: r.noted }) := by
  cases hp : pieces? longest t separator with
  | some parts =>
    obtain ⟨ps, hsplit, -⟩ := split_eq h hp
    refine ⟨ps, ?_⟩
    simp only [Records.pieces, bind, StateT.bind, pure, StateT.pure, hsplit]
  | none =>
    obtain ⟨ht, hunfit⟩ := pieces?_eq_none.1 hp
    have hsplit := split_of_unfit h ht hunfit
    simp only [Records.pieces, bind, StateT.bind, hsplit]
    rfl

variable {c : Context} {k : Key} {s p : Packed} {a : UInt64}

theorem splitInto_of_none {key : Nat → k.Carrier} (hc : Coherent longest c.patterns) (hs : c.heap.string s = .ok t)
    (hp : c.heap.string p = .ok separator) (hpieces : pieces? longest t separator = none) :
    Act.splitInto k key s a p c = (.ok (-1), { c with noted := ⟨.splitting, .pattern⟩ :: c.noted }) := by
  have hrun := pieces_eq hc t separator
  rw [hpieces] at hrun
  have ht : Act.bytes s c = (.ok t, c) := Act.look_ok hs
  have hseparator : Act.bytes p c = (.ok separator, c) := Act.look_ok hp
  unfold Act.splitInto
  rw [Act.bind_ok ht, Act.bind_ok hseparator, Act.bind_ok (Act.onRecords_eq hrun)]
  rfl

theorem splitInto_of_some (key : Nat → k.Carrier) (hc : Coherent longest c.patterns) (hs : c.heap.string s = .ok t)
    (hp : c.heap.string p = .ok separator) {old : Entries k .str} (ha : c.heap.map k .str a = .ok old)
    {parts : List Bytes} (hpieces : pieces? longest t separator = some parts) :
    ∃ c', Act.splitInto k key s a p c = (.ok (Int64.ofNat parts.length), c')
      ∧ c'.heap.map k .str a = .ok (Act.numbered k key parts) ∧ c'.noted = c.noted := by
  have hrun := pieces_eq hc t separator
  rw [hpieces] at hrun
  obtain ⟨ps, hrun⟩ := hrun
  have hupdate : c.heap.updateMap k .str a (fun _ => Act.numbered k key parts)
      = .ok (c.heap.setMap k .str a (Act.numbered k key parts)) := by
    unfold Heap.updateMap
    rw [ha]
    rfl
  refine ⟨{ c with patterns := ps, heap := c.heap.setMap k .str a (Act.numbered k key parts) }, ?_,
    Heap.map_setMap ha _, rfl⟩
  have ht : Act.bytes s c = (.ok t, c) := Act.look_ok hs
  have hseparator : Act.bytes p c = (.ok separator, c) := Act.look_ok hp
  unfold Act.splitInto
  rw [Act.bind_ok ht, Act.bind_ok hseparator, Act.bind_ok (Act.onRecords_eq hrun)]
  have hchange := Act.change_ok (c := { c with patterns := ps })
    (g := (·.updateMap k .str a fun _ => Act.numbered k key parts)) hupdate
  exact (Act.bind_ok hchange).trans rfl

/-- The same text is split at the same separator into two maps, in states that may be the same, may follow one another
or may have nothing to do with each other. -/
theorem splits_agree {c d : Context} (hc : Ownership.Reachable c) (hd : Ownership.Reachable d)
    (hmode : c.patterns.longest = d.patterns.longest) {t separator : Bytes} (hsize : t.length < 2 ^ 62)
    {s₁ s₂ p₁ p₂ : Packed} (hs₁ : c.heap.string s₁ = .ok t) (hs₂ : d.heap.string s₂ = .ok t)
    (hp₁ : c.heap.string p₁ = .ok separator) (hp₂ : d.heap.string p₂ = .ok separator) {a b : UInt64}
    {old₁ : Entries .int .str} {old₂ : Entries .str .str} (ha : c.heap.map .int .str a = .ok old₁)
    (hb : d.heap.map .str .str b = .ok old₂) :
    ∃ n c' d', Act.splitInt s₁ a p₁ c = (.ok n, c') ∧ Act.splitStr s₂ b p₂ d = (.ok n, d')
      ∧ (n = -1 → c'.heap = c.heap ∧ d'.heap = d.heap
        ∧ c'.noted = ⟨.splitting, .pattern⟩ :: c.noted ∧ d'.noted = ⟨.splitting, .pattern⟩ :: d.noted)
      ∧ (n ≠ -1 → 0 ≤ n ∧ c'.noted = c.noted ∧ d'.noted = d.noted
        ∧ (n = 0 ↔ t = [] ∨ separator = [32] ∧ Utf8.AllBlank t)
        ∧ ∃ ints strs, c'.heap.map .int .str a = .ok ints ∧ d'.heap.map .str .str b = .ok strs
          ∧ (∀ i, i ∈ ints ↔ 1 ≤ i ∧ i ≤ n) ∧ (∀ x, x ∈ strs ↔ ∃ i : Int64, 1 ≤ i ∧ i ≤ n ∧ x = Bytes.integer i.toInt)
          ∧ ∀ i, 1 ≤ i → i ≤ n → ints[i]? = strs[Bytes.integer i.toInt]?) := by
  obtain ⟨longest, hpatterns₁⟩ := hc.coherent
  obtain ⟨longest', hpatterns₂⟩ := hd.coherent
  obtain rfl : longest = longest' := by rw [← hpatterns₁.mode, hmode, hpatterns₂.mode]
  cases hpieces : pieces? longest t separator with
  | none =>
    exact ⟨-1, _, _, splitInto_of_none hpatterns₁ hs₁ hp₁ hpieces, splitInto_of_none hpatterns₂ hs₂ hp₂ hpieces,
      fun _ => ⟨rfl, rfl, rfl, rfl⟩, fun h => absurd rfl h⟩
  | some parts =>
    have hlength : parts.length < 2 ^ 63 := by
      have := length_pieces? hpieces
      omega
    have hcount : (Int64.ofNat parts.length).toInt = parts.length := Int64.toInt_ofNat_of_lt hlength
    have hdecimal : ∀ j, j ≤ parts.length → Bytes.integer (Int64.ofNat j).toInt = Bytes.decimal j := fun j hj => by
      rw [Int64.toInt_ofNat_of_lt (by omega)]
      exact if_neg (by omega)
    obtain ⟨c', hrun₁, hints, hnoted₁⟩ := splitInto_of_some (k := .int) Int64.ofNat hpatterns₁ hs₁ hp₁ ha hpieces
    obtain ⟨d', hrun₂, hstrs, hnoted₂⟩ := splitInto_of_some (k := .str) Bytes.decimal hpatterns₂ hs₂ hp₂ hb hpieces
    refine ⟨_, c', d', hrun₁, hrun₂, fun hfailed => ?_, fun _ =>
      ⟨?_, hnoted₁, hnoted₂, ?_, _, _, hints, hstrs, ?_, ?_, ?_⟩⟩
    · have hfailed := congrArg Int64.toInt hfailed
      rw [hcount] at hfailed
      exact absurd hfailed (by have : (-1 : Int64).toInt = -1 := rfl; omega)
    · rw [Int64.le_iff_toInt_le, hcount]
      exact Int.natCast_nonneg _
    · rw [← pieces?_eq_nil hpieces, ← List.length_eq_zero_iff, ← Int64.toInt_inj, hcount]
      exact Int.natCast_eq_zero
    · exact fun i => Act.mem_numbered.trans (Int64.between_iff hlength).symm
    · refine fun x => Act.mem_numbered.trans ⟨?_, ?_⟩
      · rintro ⟨j, hone, hle, rfl⟩
        obtain ⟨hfirst, hlast⟩ := (Int64.between_iff hlength).2 ⟨j, hone, hle, rfl⟩
        exact ⟨_, hfirst, hlast, (hdecimal j hle).symm⟩
      · rintro ⟨i, hfirst, hlast, rfl⟩
        obtain ⟨j, hone, hle, rfl⟩ := (Int64.between_iff hlength).1 ⟨hfirst, hlast⟩
        exact ⟨j, hone, hle, hdecimal j hle⟩
    · intro i hfirst hlast
      obtain ⟨j, hone, hle, rfl⟩ := (Int64.between_iff hlength).1 ⟨hfirst, hlast⟩
      have hkey : ∀ i j, i ≤ parts.length → j ≤ parts.length → Int64.ofNat i = Int64.ofNat j → i = j := fun i j hi hj =>
        Int64.ofNat_inj_of_lt (by omega) (by omega)
      rw [hdecimal j hle]
      exact (Act.getElem?_numbered (k := .int) hkey hone hle).trans
        (Act.getElem?_numbered (k := .str) (fun i j _ _ => Bytes.decimal_inj) hone hle).symm

/-- There are two maps on the heap, and each holds what is left of a longer text. -/
def withMaps : Context :=
  let deeds : List Heap.Deed := [.use (.newMap .int .str), .use (.newMap .str .str),
    .update .int .str 2 (·.insert 9 (text "old")), .update .str .str 3 (·.insert (text "9") (text "old"))]
  deeds.foldl (fun c d => { c with heap := d.apply c.heap }) (Context.ofSettings {} {})

theorem reachable_withMaps : Ownership.Reachable withMaps := by
  have hstart : Ownership.Reachable (Context.ofSettings {} {}) := .start {} {}
  have h₁ := hstart.use_of_argv (by decide +kernel) (.use (.newMap .int .str)) (by decide +kernel)
  have h₂ := h₁.use_of_argv (by decide +kernel) (.use (.newMap .str .str)) (by decide +kernel)
  have h₃ := h₂.use_of_argv (by decide +kernel) (.update .int .str 2 (·.insert 9 (text "old"))) (by decide +kernel)
  exact h₃.use_of_argv (by decide +kernel) (.update .str .str 3 (·.insert (text "9") (text "old"))) (by decide +kernel)

/-- Of the old entries nothing is left. -/
theorem splits_agree_commas : Ownership.Reachable withMaps ∧ ∃ c' d' ints strs,
    Act.splitInt (.inline (text "a,b")) 2 (.inline (text ",")) withMaps = (.ok 2, c')
      ∧ Act.splitStr (.inline (text "a,b")) 3 (.inline (text ",")) withMaps = (.ok 2, d')
      ∧ c'.heap.map .int .str 2 = .ok ints ∧ d'.heap.map .str .str 3 = .ok strs ∧ 9 ∉ ints ∧ text "9" ∉ strs
      ∧ ints[(2 : Int64)]? = strs[text "2"]? := by
  have htext : withMaps.heap.string (.inline (text "a,b")) = .ok (text "a,b") := rfl
  have hcomma : withMaps.heap.string (.inline (text ",")) = .ok (text ",") := rfl
  obtain ⟨n, c', d', hc, hd, -, hmaps⟩ :=
    splits_agree reachable_withMaps reachable_withMaps rfl (by decide) htext htext hcomma hcomma
    (a := 2) (b := 3) rfl rfl
  obtain rfl : n = 2 := by
    have hanswer : (Act.splitInt (.inline (text "a,b")) 2 (.inline (text ",")) withMaps).1 = .ok 2 := by decide +kernel
    rw [hc] at hanswer
    cases hanswer
    rfl
  obtain ⟨-, -, -, -, ints, strs, hints, hstrs, hnumbers, hdecimals, hsame⟩ := hmaps (by decide)
  have htwo : Bytes.integer (Int64.toInt 2) = text "2" := by decide +kernel
  refine ⟨reachable_withMaps, c', d', ints, strs, hc, hd, hints, hstrs, ?_, ?_, htwo ▸ hsame 2 (by decide) (by decide)⟩
  · exact fun h => absurd ((hnumbers 9).1 h).2 (by decide)
  · rintro h
    obtain ⟨i, hfirst, hlast, hi⟩ := (hdecimals _).1 h
    have hlast : i ≤ Int64.ofNat 2 := hlast
    obtain ⟨j, hone, hle, rfl⟩ := (Int64.between_iff (by decide)).1 ⟨hfirst, hlast⟩
    obtain rfl | rfl : j = 1 ∨ j = 2 := by omega
    · exact absurd hi (by decide +kernel)
    · exact absurd hi (by decide +kernel)

end FieldList

end RecordMill

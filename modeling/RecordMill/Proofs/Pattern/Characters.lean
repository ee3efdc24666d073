import RecordMill.Pattern.Basic

/-!
# Bytes and characters

A well-formed text is read character by character. Bytes below 128 are characters of their own, and those of
all other characters are not.
-/

namespace RecordMill

namespace Utf8

inductive Front : Bytes → Nat → Nat → Prop
  | plain {b : UInt8} {rest : Bytes} : b < 0x80 → Front (b :: rest) b.toNat 1
  | wide {w rest : Bytes} {code : Nat} : w ≠ [] → (∀ b ∈ w, 0x80 ≤ b) → 0x80 ≤ code → code.isValidChar →
    (∀ s, front? (w ++ s) = some (code, w.length)) → Front (w ++ rest) code w.length

theorem toNat_of_isTail {b : UInt8} (h : isTail b) : 0x80 ≤ b.toNat ∧ b.toNat ≤ 0xBF := by
  simpa [isTail, UInt8.le_iff_toNat_le] using h

section

variable {a b c d : UInt8}

theorem le_of_toNat (h : 0x80 ≤ a.toNat) : (0x80 : UInt8) ≤ a := by simpa [UInt8.le_iff_toNat_le] using h

theorem Front.two (rest : Bytes) (hlow : ¬ a < 0xC2) (hhigh : a < 0xE0) (hb : isTail b) :
    Front (a :: b :: rest) ((a.toNat - 0xC0) * 64 + (b.toNat - 0x80)) 2 := by
  have hfirst : ¬ a < 0x80 := fun h => hlow (UInt8.lt_trans h (by decide))
  have hlow' : 0xC2 ≤ a.toNat := by simpa [UInt8.lt_iff_toNat_lt] using hlow
  have hhigh' : a.toNat < 0xE0 := by simpa [UInt8.lt_iff_toNat_lt] using hhigh
  have hb' := toNat_of_isTail hb
  have hwide : ∀ x ∈ [a, b], (0x80 : UInt8) ≤ x := by
    simp only [List.forall_mem_cons]
    exact ⟨le_of_toNat (by omega), le_of_toNat hb'.1, nofun⟩
  refine .wide (by simp) hwide (by omega) (.inl (by omega)) fun s => ?_
  simp [front?, hfirst, hlow, hhigh, hb]

theorem Front.three (rest : Bytes) (hlow : ¬ a < 0xE0) (hhigh : a < 0xF0)
    (h : isTail b && isTail c && !(a == 0xE0 && b < 0xA0) && !(a == 0xED && b > 0x9F)) :
    Front (a :: b :: c :: rest) (((a.toNat - 0xE0) * 64 + (b.toNat - 0x80)) * 64 + (c.toNat - 0x80)) 3 := by
  have hfirst : ¬ a < 0x80 := fun h => hlow (UInt8.lt_trans h (by decide))
  have hsecond : ¬ a < 0xC2 := fun h => hlow (UInt8.lt_trans h (by decide))
  have hlow' : 0xE0 ≤ a.toNat := by simpa [UInt8.lt_iff_toNat_lt] using hlow
  have hhigh' : a.toNat < 0xF0 := by simpa [UInt8.lt_iff_toNat_lt] using hhigh
  have hconds : ((isTail b ∧ isTail c) ∧ (¬ a.toNat = 0xE0 ∨ 0xA0 ≤ b.toNat))
      ∧ (¬ a.toNat = 0xED ∨ b.toNat ≤ 0x9F) := by
    simpa [UInt8.lt_iff_toNat_lt, ← UInt8.toNat_inj] using h
  obtain ⟨⟨⟨hb, hc⟩, he0⟩, hed⟩ := hconds
  have hb' := toNat_of_isTail hb
  have hc' := toNat_of_isTail hc
  have hwide : ∀ x ∈ [a, b, c], (0x80 : UInt8) ≤ x := by
    simp only [List.forall_mem_cons]
    exact ⟨le_of_toNat (by omega), le_of_toNat hb'.1, le_of_toNat hc'.1, nofun⟩
  refine .wide (by simp) hwide (by omega) ?_ fun s => ?_
  · by_cases hd : a.toNat ≤ 0xED
    · exact .inl (by omega)
    · exact .inr ⟨by omega, by omega⟩
  · show front? (a :: b :: c :: s) = _
    unfold front?
    dsimp only
    rw [if_neg hfirst, if_neg hsecond, if_neg hlow, if_pos hhigh]
    exact if_pos h

theorem Front.four (rest : Bytes) (hlow : ¬ a < 0xF0) (hhigh : a < 0xF5)
    (h : isTail b && isTail c && isTail d && !(a == 0xF0 && b < 0x90) && !(a == 0xF4 && b > 0x8F)) :
    Front (a :: b :: c :: d :: rest)
      ((((a.toNat - 0xF0) * 64 + (b.toNat - 0x80)) * 64 + (c.toNat - 0x80)) * 64 + (d.toNat - 0x80)) 4 := by
  have hfirst : ¬ a < 0x80 := fun h => hlow (UInt8.lt_trans h (by decide))
  have hsecond : ¬ a < 0xC2 := fun h => hlow (UInt8.lt_trans h (by decide))
  have hthird : ¬ a < 0xE0 := fun h => hlow (UInt8.lt_trans h (by decide))
  have hlow' : 0xF0 ≤ a.toNat := by simpa [UInt8.lt_iff_toNat_lt] using hlow
  have hhigh' : a.toNat < 0xF5 := by simpa [UInt8.lt_iff_toNat_lt] using hhigh
  have hconds : (((isTail b ∧ isTail c) ∧ isTail d) ∧ (¬ a.toNat = 0xF0 ∨ 0x90 ≤ b.toNat))
      ∧ (¬ a.toNat = 0xF4 ∨ b.toNat ≤ 0x8F) := by
    simpa [UInt8.lt_iff_toNat_lt, ← UInt8.toNat_inj] using h
  obtain ⟨⟨⟨⟨hb, hc⟩, hd⟩, hf0⟩, hf4⟩ := hconds
  have hb' := toNat_of_isTail hb
  have hc' := toNat_of_isTail hc
  have hd' := toNat_of_isTail hd
  have hwide : ∀ x ∈ [a, b, c, d], (0x80 : UInt8) ≤ x := by
    simp only [List.forall_mem_cons]
    exact ⟨le_of_toNat (by omega), le_of_toNat hb'.1, le_of_toNat hc'.1, le_of_toNat hd'.1, nofun⟩
  refine .wide (by simp) hwide (by omega) (.inr ⟨by omega, by omega⟩) fun s => ?_
  show front? (a :: b :: c :: d :: s) = _
  unfold front?
  dsimp only
  rw [if_neg hfirst, if_neg hsecond, if_neg hthird, if_neg hlow, if_pos hhigh]
  exact if_pos h

end

theorem front_of_eq {s : Bytes} {code n : Nat} (h : front? s = some (code, n)) : Front s code n := by
  unfold front? at h
  split at h
  · cases h
  next a rest =>
  split at h
  · next ha =>
    simp only [Option.some.injEq, Prod.mk.injEq] at h
    obtain ⟨rfl, rfl⟩ := h
    exact .plain ha
  split at h
  · cases h
  next ha hc2 =>
  split at h
  · next he0 =>
    split at h
    · next b rest =>
      split at h
      · next hb =>
        simp only [Option.some.injEq, Prod.mk.injEq] at h
        obtain ⟨rfl, rfl⟩ := h
        exact .two rest hc2 he0 hb
      · cases h
    · cases h
  next he0 =>
  split at h
  · next hf0 =>
    split at h
    · next b c rest =>
      split at h
      · next hcond =>
        simp only [Option.some.injEq, Prod.mk.injEq] at h
        obtain ⟨rfl, rfl⟩ := h
        exact .three rest he0 hf0 hcond
      · cases h
    · cases h
  next hf0 =>
  split at h
  · next hf5 =>
    split at h
    · next b c d rest =>
      split at h
      · next hcond =>
        simp only [Option.some.injEq, Prod.mk.injEq] at h
        obtain ⟨rfl, rfl⟩ := h
        exact .four rest hf0 hf5 hcond
      · cases h
    · cases h
  · cases h

/-! ## Texts -/

theorem units_of_front {b : UInt8} {rest : Bytes} {code n : Nat} (h : front? (b :: rest) = some (code, n)) :
    units (b :: rest) = .char code (b :: rest.take (n - 1)) :: units (rest.drop (n - 1)) := by
  rw [units]
  split
  · next code' n' h' =>
    obtain ⟨rfl, rfl⟩ := Prod.mk.inj (Option.some.inj (h'.symm.trans h))
    rfl
  · next h' =>
    rw [h] at h'
    cases h'

theorem units_of_stray {b : UInt8} {rest : Bytes} (h : front? (b :: rest) = none) :
    units (b :: rest) = .stray b :: units rest := by
  rw [units]
  split
  · next h' =>
    rw [h] at h'
    cases h'
  · rfl

theorem units_spec (s : Bytes) : ((units s).map Unit.bytes).flatten = s
    ∧ ∀ u ∈ units s, u.code < 0x80 → u.bytes = [u.code.toUInt8] := by
  fun_induction units s with
  | case1 => exact ⟨rfl, nofun⟩
  | case2 b rest code n h ih =>
    refine ⟨?_, ?_⟩
    · rw [List.map_cons, List.flatten_cons, ih.1]
      simp [Unit.bytes]
    · intro u hu hlt
      rcases List.mem_cons.1 hu with rfl | hu
      · have hfront := front_of_eq h
        generalize hs : b :: rest = s at hfront
        cases hfront with
        | plain hb =>
          cases hs
          simp [Unit.bytes, Unit.code]
        | wide _ _ hcode => exact absurd hlt (Nat.not_lt.2 hcode)
      · exact ih.2 u hu hlt
  | case3 b rest h ih =>
    refine ⟨?_, ?_⟩
    · rw [List.map_cons, List.flatten_cons, ih.1]
      rfl
    · intro u hu hlt
      rcases List.mem_cons.1 hu with rfl | hu
      · exact absurd hlt (by show ¬ replacement < 0x80; decide)
      · exact ih.2 u hu hlt

end Utf8

namespace Pattern

open Utf8

/-- The first character of a well-formed text. -/
inductive Spelled : Bytes → Char → Bytes → Prop
  | plain {b : UInt8} {rest : Bytes} : b < 0x80 → Spelled (b :: rest) (Char.ofNat b.toNat) rest
  | wide {w rest : Bytes} {c : Char} : w ≠ [] → (∀ b ∈ w, 0x80 ≤ b) → 0x80 ≤ c.toNat →
    (∀ s, front? (w ++ s) = some (c.toNat, w.length)) → Spelled (w ++ rest) c rest

theorem chars?_eq (b : UInt8) (rest : Bytes) : chars? (b :: rest) = match front? (b :: rest) with
    | some (code, n) => (chars? (rest.drop (n - 1))).map (Char.ofNat code :: ·)
    | none => none := by
  unfold chars?
  cases h : front? (b :: rest) with
  | none =>
    rw [units_of_stray h]
    rfl
  | some x =>
    obtain ⟨code, n⟩ := x
    rw [units_of_front h, List.mapM_cons]
    dsimp only
    rw [Option.map_eq_bind]
    rfl

theorem chars?_of_nil : chars? [] = some [] := by
  unfold chars?
  rw [units]
  rfl

theorem chars?_nil {s : Bytes} (h : chars? s = some []) : s = [] := by
  cases s with
  | nil => rfl
  | cons b rest =>
    rw [chars?_eq] at h
    split at h
    · simp at h
    · cases h

theorem chars?_cons {s : Bytes} {c : Char} {cs : List Char} (h : chars? s = some (c :: cs)) :
    ∃ rest, Spelled s c rest ∧ chars? rest = some cs := by
  cases s with
  | nil =>
    rw [chars?_of_nil] at h
    cases h
  | cons b rest =>
    rw [chars?_eq] at h
    split at h
    · next code n hfront =>
      obtain ⟨cs', hrest, hcons⟩ := Option.map_eq_some_iff.1 h
      cases hcons
      have hf := front_of_eq hfront
      generalize hs : b :: rest = s at hf
      cases hf with
      | plain hb =>
        cases hs
        exact ⟨_, .plain hb, hrest⟩
      | @wide w tail _ hne hwide hcode hvalid hstable =>
        have hdrop : rest.drop (w.length - 1) = tail := by
          cases w with
          | nil => exact absurd rfl hne
          | cons x w =>
            cases hs
            simp
        have hto : (Char.ofNat code).toNat = code := by
          rw [Char.ofNat, dif_pos hvalid]
          rfl
        exact ⟨tail, .wide hne hwide (by rw [hto]; exact hcode) (by rw [hto]; exact hstable), hdrop ▸ hrest⟩
    · cases h

theorem toNat_ofNat {b : UInt8} (hb : b < 0x80) : (Char.ofNat b.toNat).toNat = b.toNat := by
  rw [Char.ofNat, dif_pos (.inl (Nat.lt_trans (UInt8.lt_iff_toNat_lt.1 hb) (by decide)))]
  rfl

theorem ofChar_ofNat {b : UInt8} (hb : b < 0x80) : Bytes.ofChar (Char.ofNat b.toNat) = b := by
  rw [Bytes.ofChar, toNat_ofNat hb]
  simp

theorem toNat_ofChar {c : Char} (hc : c.toNat < 0x80) : (Bytes.ofChar c).toNat = c.toNat := by
  simp only [Bytes.ofChar, Nat.toUInt8, UInt8.toNat_ofNat']
  omega

theorem chars?_plain {s : Bytes} {c : Char} {cs : List Char} (hc : c.toNat < 0x80) (h : chars? s = some (c :: cs)) :
    ∃ rest, s = Bytes.ofChar c :: rest ∧ chars? rest = some cs := by
  obtain ⟨rest, hs, hrest⟩ := chars?_cons h
  cases hs with
  | plain hb => exact ⟨rest, by rw [ofChar_ofNat hb], hrest⟩
  | wide _ _ hwide => exact absurd hc (Nat.not_lt.2 hwide)

theorem head?_of_byte {s : Bytes} {b : UInt8} {cs : List Char} (hb : b < 0x80) (h : chars? s = some cs)
    (hs : s.head? = some b) :
    cs.head? = some (Char.ofNat b.toNat) := by
  cases s with
  | nil => cases hs
  | cons b' rest =>
    cases hs
    have hfront : Utf8.front? (b :: rest) = some (b.toNat, 1) := by
      unfold front?
      exact if_pos hb
    rw [chars?_eq, hfront] at h
    obtain ⟨cs', -, rfl⟩ := Option.map_eq_some_iff.1 h
    rfl

/-! ## Subjects -/

def Stands (cs : Subject) (run : Bytes) (p : Nat) : Prop := run.map UInt8.toNat <+: cs.toList.drop p

theorem Stands.nil (cs : Subject) (p : Nat) : Stands cs [] p := List.nil_prefix

theorem Stands.push {cs : Subject} {run : Bytes} {p : Nat} {b : UInt8} (h : Stands cs run p)
    (hb : cs[p + run.length]? = some b.toNat) : Stands cs (run ++ [b]) p := by
  obtain ⟨rest, hrest⟩ := h
  have hnext : rest[0]? = some b.toNat := by
    rw [← hb, ← Array.getElem?_toList, ← List.getElem?_drop, ← hrest, List.getElem?_append_right (by simp)]
    simp
  cases rest with
  | nil => cases hnext
  | cons c rest =>
    cases hnext
    exact ⟨rest, by rw [← hrest]; simp⟩

theorem flatten_of_codes {us : List Utf8.Unit} {run : Bytes}
    (hus : ∀ u ∈ us, u.code < 0x80 → u.bytes = [u.code.toUInt8]) (hrun : ∀ b ∈ run, b < 0x80)
    (h : us.map Utf8.Unit.code = run.map UInt8.toNat) : (us.map Utf8.Unit.bytes).flatten = run := by
  induction run generalizing us with
  | nil =>
    rw [List.map_nil, List.map_eq_nil_iff] at h
    rw [h]
    rfl
  | cons b run ih =>
    obtain ⟨u, us, rfl, hu, hrest⟩ := List.map_eq_cons_iff.1 h
    have hb : b.toNat < 0x80 := UInt8.lt_iff_toNat_lt.1 (hrun b List.mem_cons_self)
    have hbytes := hus u List.mem_cons_self (by rw [hu]; exact hb)
    rw [List.map_cons, List.flatten_cons, hbytes, hu,
      ih (fun u hu => hus u (List.mem_cons_of_mem _ hu)) (fun b hb => hrun b (List.mem_cons_of_mem _ hb)) hrest]
    simp

theorem Stands.in_text {s run : Bytes} {p : Nat} (h : Stands (subject (units s)) run p) (hrun : ∀ b ∈ run, b < 0x80) :
    ∃ a z, s = a ++ (run ++ z) ∧ (p = 0 → a = []) ∧ (p + run.length = (subject (units s)).size → z = []) := by
  obtain ⟨hflat, hcodes⟩ := units_spec s
  generalize units s = us at h hflat hcodes
  obtain ⟨rest, hrest⟩ := h
  have hdrop : (us.drop p).map Utf8.Unit.code = run.map UInt8.toNat ++ rest := by
    rw [hrest, List.map_drop]
    rfl
  obtain ⟨us₁, us₂, hsplit, hrun', hrest'⟩ := List.map_eq_append_iff.1 hdrop
  have hmem : ∀ u ∈ us₁, u ∈ us := fun u hu => List.mem_of_mem_drop (hsplit ▸ List.mem_append_left us₂ hu)
  have hmid := flatten_of_codes (fun u hu => hcodes u (hmem u hu)) hrun hrun'
  refine ⟨((us.take p).map Utf8.Unit.bytes).flatten, (us₂.map Utf8.Unit.bytes).flatten, ?_, ?_, ?_⟩
  · rw [← hflat, ← hmid, ← List.flatten_append, ← List.map_append, ← hsplit, ← List.flatten_append, ← List.map_append,
      List.take_append_drop]
  · rintro rfl
    rfl
  · intro hend
    have hsize : (subject us).size = us.length := by simp [subject]
    have hlength : us₂.length = 0 := by
      have h₁ := congrArg List.length hrun'
      have h₂ := congrArg List.length hsplit
      simp only [List.length_map, List.length_drop, List.length_append] at h₁ h₂
      omega
    rw [List.length_eq_zero_iff.1 hlength]
    rfl

end Pattern

theorem Bytes.contains_of_append (a r z : Bytes) : Bytes.contains r (a ++ (r ++ z)) := by
  induction a with
  | nil =>
    cases r with
    | nil => cases z <;> simp [contains]
    | cons b r =>
      have hfirst : (b :: r).isPrefixOf ((b :: r) ++ z) := List.isPrefixOf_iff_prefix.2 (List.prefix_append _ _)
      rw [List.nil_append, List.cons_append, contains, Bool.or_eq_true]
      exact .inl hfirst
  | cons b a ih =>
    rw [List.cons_append, contains, ih, Bool.or_true]

end RecordMill

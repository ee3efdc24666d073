import RecordMill.Pattern.Parser

/-!
# The text of escapes

What stands behind the backslash of an escape: a byte, and after it digits, a letter that names a class, or
braces around one of these. None of it opens, closes or separates anything.
-/

namespace RecordMill.Pattern

/-- Characters that open, close, separate or escape. -/
def enclosing : List Char := ['\\', '[', ']', '(', ')', '{', '}', '|']

theorem not_enclosing (p : Char → Bool) (hall : enclosing.all fun d => !p d) {c : Char} (h : p c) : c ∉ enclosing := by
  intro hmem
  have hno := List.all_eq_true.1 hall c hmem
  rw [h] at hno
  cases hno

/-- An escape from behind its backslash, and what follows it. -/
inductive EscapeText : List Char → List Char → Prop
  | bare {c : Char} {pre rest : List Char} :
    c.toNat < 128 → (∀ d ∈ pre, d ∉ enclosing) → EscapeText (c :: (pre ++ rest)) rest
  | braced {c : Char} {pre rest : List Char} : c.toNat < 128 → (∀ d ∈ pre, d ∉ enclosing) →
    EscapeText (c :: '{' :: (pre ++ '}' :: rest)) rest

variable {s r : List Char}

theorem EscapeText.byte {c : Char} (hc : c.toNat < 128) (s : List Char) : EscapeText (c :: s) s := by
  have hnone : ∀ d ∈ ([] : List Char), d ∉ enclosing := nofun
  exact .bare hc hnone

theorem EscapeText.suffix (h : EscapeText s r) : r <:+ s := by
  cases h with
  | @bare c pre => exact ⟨c :: pre, rfl⟩
  | @braced c pre => exact ⟨c :: '{' :: (pre ++ ['}']), by simp⟩

/-! ## Characters by number -/

theorem hexDigit_flat {c : Char} {n : Nat} (h : hexDigit? c = some n) : c ∉ enclosing :=
  not_enclosing (fun d => (hexDigit? d).isSome) (by decide) (by rw [h]; rfl)

theorem isOctal_flat {c : Char} (h : isOctal c) : c ∉ enclosing := not_enclosing isOctal (by decide) h

theorem takeBraced_text {acc : Option Nat} {n : Nat} (h : takeBraced acc s = .ok (n, r)) :
    ∃ pre, s = pre ++ '}' :: r ∧ ∀ c ∈ pre, c ∉ enclosing := by
  induction s generalizing acc with
  | nil => cases h
  | cons c s ih =>
    unfold takeBraced at h
    split at h
    · next hc =>
      subst hc
      split at h
      · cases h
        exact ⟨[], rfl, nofun⟩
      · cases h
    split at h
    · cases h
    · next d hdigit =>
      dsimp only at h
      split at h
      · cases h
      · obtain ⟨pre, rfl, hpre⟩ := ih h
        exact ⟨c :: pre, rfl, List.forall_mem_cons.2 ⟨hexDigit_flat hdigit, hpre⟩⟩

theorem takeOctal_text (first : Nat) (s : List Char) :
    ∃ pre, s = pre ++ (takeOctal first s).2 ∧ ∀ c ∈ pre, c ∉ enclosing := by
  refine ⟨(s.takeWhile isOctal).take 2, ?_, fun c hc => isOctal_flat ?_⟩
  · exact List.prefix_iff_eq_append.1 ((List.take_prefix 2 _).trans (List.takeWhile_prefix _)) |>.symm
  · exact List.all_eq_true.1 List.all_takeWhile c (List.mem_of_mem_take hc)

theorem takeEscape_text {n : Nat} (h : takeEscape s = .ok (n, r)) : EscapeText s r := by
  unfold takeEscape at h
  split at h
  · cases h
  · obtain ⟨pre, rfl, hpre⟩ := takeBraced_text h
    exact .braced (by decide) hpre
  · next a b s _ =>
    split at h
    · next hx hy =>
      cases h
      have hdigits : ∀ d ∈ [a, b], d ∉ enclosing :=
        List.forall_mem_cons.2 ⟨hexDigit_flat hx, List.forall_mem_singleton.2 (hexDigit_flat hy)⟩
      exact .bare (by decide) hdigits
    · cases h
  iterate 6
    · cases h
      exact .byte (by decide) _
  · next c s _ _ _ _ _ _ _ _ =>
    have hoctal : ∀ first, c.toNat < 128 → takeOctal first s = (n, r) → EscapeText (c :: s) r := by
      intro first hc hvalue
      obtain ⟨pre, hs, hpre⟩ := takeOctal_text first s
      rw [hvalue] at hs
      subst hs
      exact .bare hc hpre
    split at h
    · next hc =>
      subst hc
      exact hoctal 0 (by decide) (Except.ok.inj h)
    split at h
    · next hdigit =>
      have hle : c.toNat ≤ 55 := of_decide_eq_true (Bool.and_eq_true_iff.1 hdigit).2
      split at h
      · exact hoctal _ (by omega) (Except.ok.inj h)
      · cases h
    split at h
    · next hsign =>
      cases h
      exact .byte (of_decide_eq_true (Bool.and_eq_true_iff.1 hsign).1) _
    · cases h

/-! ## Named classes -/

theorem lookup_plain {α : Type} {name : List Char} {entries : List (String × α)} {a : α}
    (h : Category.lookup? name entries = some a) :
    ∃ key ∈ entries.map (·.1), Category.plainName key.toList = Category.plainName name := by
  obtain ⟨entry, hfind, -⟩ := Option.map_eq_some_iff.1 h
  exact ⟨entry.1, List.mem_map_of_mem (List.mem_of_find?_eq_some hfind), by simpa using List.find?_some hfind⟩

def classNames : List String :=
  Category.special.map (·.1) ++ (Category.named.map
    (·.1) ++ (Category.scripts.map (·.1) ++ Category.longNames.map (·.1)))

/-- The names are written in letters and underscores. They are looked at byte by byte, which is quicker than to decode
them. -/
theorem classNames_letters :
    classNames.all fun key => (text key).all fun b => Bytes.isLower b || Bytes.isUpper b || b == 95 := by
  decide +kernel

theorem mem_text {key : String} {c : Char} (hc : c ∈ enclosing) (hmem : c ∈ key.toList) :
    Bytes.ofChar c ∈ text key := by
  have hall : enclosing.all fun d => String.utf8EncodeChar d == [Bytes.ofChar d] := by decide
  have hbyte : String.utf8EncodeChar c = [Bytes.ofChar c] := by simpa using List.all_eq_true.1 hall c hc
  have htext : text key = key.toList.flatMap String.utf8EncodeChar := by
    rw [text, String.toUTF8, ← String.utf8Encode_toList, List.utf8Encode, List.toList_data_toByteArray]
  rw [htext]
  exact List.mem_flatMap.2 ⟨c, hmem, by rw [hbyte]; exact List.mem_cons_self⟩

theorem eq_of_toLower {c d : Char} (hd : d ∈ enclosing) (h : c.toLower = d) : c = d := by
  have hall : enclosing.all fun d => d.toNat < 97 || 122 < d.toNat := by decide
  have hrange := List.all_eq_true.1 hall d hd
  unfold Char.toLower at h
  split at h
  · next hupper =>
    -- A capital becomes a small letter.
    have hlow : 65 ≤ c.val.toNat := UInt32.le_iff_toNat_le.1 hupper.1
    have hhigh : c.val.toNat ≤ 90 := UInt32.le_iff_toNat_le.1 hupper.2
    have hto : d.toNat = c.val.toNat + 32 := by
      rw [← h, Char.toNat, UInt32.toNat_add]
      exact Nat.mod_eq_of_lt (by show c.val.toNat + 32 < _; omega)
    simp only [Bool.or_eq_true, decide_eq_true_eq] at hrange
    omega
  · exact h

/-- No letter is made one of these by leaving out what is between letters, or by its case. -/
theorem plainName_flat {key : String} (h : key ∈ classNames) : ∀ c ∈ Category.plainName key.toList, c ∉ enclosing := by
  intro d hd henclosing
  obtain ⟨c, hc, hlower⟩ := List.mem_map.1 hd
  obtain rfl := eq_of_toLower henclosing hlower
  have hbyte := mem_text henclosing (List.mem_filter.1 hc).1
  have hletter := List.all_eq_true.1 (List.all_eq_true.1 classNames_letters key h) _ hbyte
  have hflat :=
    not_enclosing (fun d => Bytes.isLower (Bytes.ofChar d) || Bytes.isUpper (Bytes.ofChar d) || Bytes.ofChar d == 95)
    (by decide) hletter
  exact hflat henclosing

theorem find_flat {name : List Char} {g : Category.Class} (h : Category.find? name = some g) :
    ∀ c ∈ name, c ∉ enclosing := by
  have hkey : ∃ key ∈ classNames, Category.plainName key.toList = Category.plainName name := by
    unfold Category.find? at h
    rcases Option.or_eq_some_iff.1 h with h | ⟨-, h⟩
    · obtain ⟨key, hmem, hplain⟩ := lookup_plain h
      exact ⟨key, List.mem_append_left _ hmem, hplain⟩
    rcases Option.or_eq_some_iff.1 h with h | ⟨-, h⟩
    · obtain ⟨runs, h, -⟩ := Option.map_eq_some_iff.1 h
      obtain ⟨key, hmem, hplain⟩ := lookup_plain h
      exact ⟨key, List.mem_append_right _ (List.mem_append_left _ hmem), hplain⟩
    rcases Option.or_eq_some_iff.1 h with h | ⟨-, h⟩
    · obtain ⟨spans, h, -⟩ := Option.map_eq_some_iff.1 h
      obtain ⟨key, hmem, hplain⟩ := lookup_plain h
      exact ⟨key, List.mem_append_right _ (List.mem_append_right _ (List.mem_append_left _ hmem)), hplain⟩
    · obtain ⟨short, h, -⟩ := Option.bind_eq_some_iff.1 h
      obtain ⟨key, hmem, hplain⟩ := lookup_plain h
      exact ⟨key, List.mem_append_right _ (List.mem_append_right _ (List.mem_append_right _ hmem)), hplain⟩
  obtain ⟨key, hmem, hplain⟩ := hkey
  intro c hc henclosing
  have hkept : c ∈ Category.plainName name := by
    have hall : enclosing.all fun d => d != ' ' && d != '_' && d != '-' && d.toLower == d := by decide
    have hd := List.all_eq_true.1 hall c henclosing
    simp only [Bool.and_eq_true, beq_iff_eq] at hd
    exact List.mem_map.2 ⟨c, List.mem_filter.2 ⟨hc, by simpa using hd.1⟩, hd.2⟩
  exact plainName_flat hmem c (hplain ▸ hkept) henclosing

theorem takeClass_text {c : Char} {negated : Bool} {g : Category.Class} (hc : c.toNat < 128)
    (h : takeClass negated s = .ok (g, r)) :
    EscapeText (c :: s) r := by
  have hfinish : ∀ name rest, takeClass.finish negated name rest = .ok (g, r) → r = rest ∧ ∀ d ∈ name,
      d ∉ enclosing := by
    intro name rest h
    unfold takeClass.finish at h
    split at h
    next flip body hbody =>
    split at h
    · next hfind =>
      cases h
      refine ⟨rfl, ?_⟩
      split at hbody
      · cases hbody
        exact List.forall_mem_cons.2 ⟨by decide, find_flat hfind⟩
      · cases hbody
        exact find_flat hfind
    · cases h
  unfold takeClass at h
  split at h
  · cases h
  · next s =>
    have hsplit : s = s.takeWhile (· != '}') ++ s.drop (s.takeWhile (· != '}')).length :=
      (List.prefix_iff_eq_append.1 (List.takeWhile_prefix _)).symm
    dsimp only at h
    split at h
    · cases h
    · next d rest hdrop =>
      obtain ⟨rfl, hname⟩ := hfinish _ _ h
      rw [hdrop] at hsplit
      have hbrace : d = '}' := by
        have hnext := List.head?_dropWhile_not (· != '}') s
        rw [List.append_cancel_left (List.takeWhile_append_dropWhile.trans hsplit)] at hnext
        simpa using hnext
      rw [hsplit, hbrace]
      exact .braced hc hname
  · next d s _ =>
    obtain ⟨rfl, hname⟩ := hfinish _ _ h
    exact .bare hc hname

end RecordMill.Pattern

import RecordMill.Proofs.Pattern.Characters
import RecordMill.Proofs.Pattern.Escapes

/-!
# Sets in brackets

Reading a set and skipping it come to the same place, as long as no range of the set ends in a bracket
right before a colon.
-/

namespace RecordMill.Pattern

/-! ## Plain texts in brackets -/

def isSign (c : Char) : Bool := c.toNat < 128 && !c.isAlphanum

/-- An escape may have a sign, or a letter with a meaning of its own. -/
def escapable (c : Char) : Bool := isSign c || "dDsSwWbBAzafnrtv".toList.contains c

/-- The escape in front, if one stands there, is plain. -/
def plainChar : List Char → Bool
  | '\\' :: c :: _ => escapable c
  | _ => true

def opensName : List Char → Bool
  | '[' :: ':' :: _ => true
  | _ => false

/-- The item in front is a range that ends in a bracket before a colon. -/
def rangeOpensName (s : List Char) : Bool :=
  match takeSetChar s with
  | .ok (_, '-' :: t) => opensName t
  | _ => false

/-- The escapes of the item in front are plain, and it is no range that ends in a bracket before a colon. -/
def plainItem (s : List Char) : Bool :=
  plainChar s && match takeSetChar s with
    | .ok (_, '-' :: t) => plainChar t && !opensName t
    | _ => true

/-- A set from inside it, `first` before its first item, and what follows it. -/
inductive SetText : Bool → List Char → List Char → Prop
  | close (rest : List Char) : SetText false (']' :: rest) rest
  | item {first : Bool} {s r rest : List Char} {g : Category.Class} : (s.head? = some ']' → first) → plainItem s →
    takeSetItem s = .ok (g, r) → SetText false r rest → SetText first s rest

/-! ## Items -/

/-- A character of a set, by itself or escaped. -/
inductive SetChar : List Char → List Char → Prop
  | plain {c : Char} {s : List Char} : c ≠ '\\' → SetChar (c :: s) s
  | escape {s r : List Char} : EscapeText s r → SetChar ('\\' :: s) r

inductive SetItem : List Char → List Char → Prop
  | name {s r n : List Char} : takeBracketName? s = some (n, r) → SetItem ('[' :: ':' :: s) r
  | single {s r : List Char} : (∀ t, s = '[' :: ':' :: t → takeBracketName? t = none) → SetChar s r → SetItem s r
  | range {s t r : List Char} : (∀ t, s = '[' :: ':' :: t → takeBracketName? t = none) → SetChar s ('-' :: t) →
    t.head? ≠ some ']' → opensName t = false → SetChar t r → SetItem s r

theorem ne_of_escapable {c d : Char} (hc : escapable c) (hd : escapable d = false) : c ≠ d := by
  rintro rfl
  rw [hd] at hc
  cases hc

theorem toNat_of_escapable {c : Char} (hc : escapable c) : c.toNat < 128 := by
  rcases Bool.or_eq_true_iff.1 hc with hsign | hletter
  · simpa using (Bool.and_eq_true_iff.1 hsign).1
  · have hall : "dDsSwWbBAzafnrtv".toList.all fun d => d.toNat < 128 := by decide
    exact of_decide_eq_true (List.all_eq_true.1 hall c (List.contains_iff_mem.1 hletter))

theorem escapable_digit {c : Char} (h : '1' ≤ c && c ≤ '7') : escapable c = false := by
  obtain ⟨hlow, hhigh⟩ := Bool.and_eq_true_iff.1 h
  have hlow' : 49 ≤ c.toNat := of_decide_eq_true hlow
  have hhigh' : c.toNat ≤ 55 := of_decide_eq_true hhigh
  have hcode : ∀ n < 56, 49 ≤ n → escapable (Char.ofNat n) = false := by decide
  have := hcode c.toNat (by omega) hlow'
  rwa [Char.ofNat_toNat] at this

theorem takeEscape_plain {c : Char} {s r : List Char} {code : Nat} (hc : escapable c)
    (h : takeEscape (c :: s) = .ok (code, r)) :
    r = s ∧ (isSign c → code = c.toNat) := by
  have hx := ne_of_escapable hc (d := 'x') (by decide)
  unfold takeEscape at h
  split at h
  · next heq => cases heq
  · next heq => cases heq; exact absurd rfl hx
  · next heq => cases heq; exact absurd rfl hx
  iterate 6
    · next heq =>
      cases heq
      cases h
      exact ⟨rfl, fun hsign => absurd hsign (by decide)⟩
  · next heq =>
    cases heq
    rw [if_neg (ne_of_escapable hc (by decide))] at h
    split at h
    · next hdigit => rw [escapable_digit hdigit] at hc; cases hc
    split at h
    · cases h
      exact ⟨rfl, fun _ => rfl⟩
    · cases h

theorem setChar_of_take {s r : List Char} {code : Nat} (h : takeSetChar s = .ok (code, r)) : SetChar s r := by
  unfold takeSetChar at h
  split at h
  · cases h
  · exact .escape (takeEscape_text h)
  · next hc =>
    cases h
    exact .plain hc

theorem setItem_of_takeRange {s r : List Char} {g : Category.Class}
    (hname : ∀ t, s = '[' :: ':' :: t → takeBracketName? t = none) (hopens : rangeOpensName s = false)
    (h : takeRange s = .ok (g, r)) : SetItem s r := by
  unfold rangeOpensName at hopens
  unfold takeRange at h
  cases hlo : takeSetChar s with
  | error e =>
    rw [hlo] at h
    cases h
  | ok x =>
    obtain ⟨lo, t⟩ := x
    have hchar := setChar_of_take hlo
    rw [hlo] at h hopens
    dsimp only [Bind.bind, Except.bind] at h
    split at h
    · next c u =>
      split at h
      · cases h
        exact .single hname hchar
      · next hclose =>
        cases hhi : takeSetChar (c :: u) with
        | error e =>
          rw [hhi] at h
          cases h
        | ok y =>
          obtain ⟨hi, v⟩ := y
          rw [hhi] at h
          have hr : v = r := by
            change (if hi < lo then _ else _) = _ at h
            split at h
            · cases h
            · cases h
              rfl
          subst hr
          exact .range hname hchar (by simpa using hclose) hopens (setChar_of_take hhi)
    · cases h
      exact .single hname hchar

theorem escapeGroup_text {c : Char} {g : Category.Class} (h : CharSet.escapeGroup? c = some g) (s : List Char) :
    EscapeText (c :: s) s := by
  unfold CharSet.escapeGroup? at h
  split at h <;> first | exact .byte (by decide) s | cases h

theorem setItem_of_take {s r : List Char} {g : Category.Class} (hopens : rangeOpensName s = false)
    (h : takeSetItem s = .ok (g, r)) :
    SetItem s r := by
  unfold takeSetItem at h
  split at h
  · next t =>
    split at h
    · next hname => exact setItem_of_takeRange (fun t' ht => by cases ht; exact hname) hopens h
    · next name rest hname =>
      split at h
      · cases h
        exact .name hname
      · cases h
  · exact .single (fun t' ht => by cases ht) (.escape (takeClass_text (by decide) h))
  · exact .single (fun t' ht => by cases ht) (.escape (takeClass_text (by decide) h))
  · next c t _ _ =>
    split at h
    · next hgroup =>
      cases h
      exact .single (fun t' ht => by cases ht) (.escape (escapeGroup_text hgroup _))
    · exact setItem_of_takeRange (fun t' ht => by cases ht) hopens h
  · next hno _ _ _ => exact setItem_of_takeRange (fun t' ht => absurd ht (hno t')) hopens h

theorem rangeOpensName_of_plain {s : List Char} (h : plainItem s) : rangeOpensName s = false := by
  have hsecond := (Bool.and_eq_true_iff.1 h).2
  unfold rangeOpensName
  split
  · next t hchar =>
    rw [hchar] at hsecond
    simpa using (Bool.and_eq_true_iff.1 hsecond).2
  · rfl

/-- A set from inside it as a row of items, `first` before the first of them, and what follows it. -/
inductive SetItems : Bool → List Char → List Char → Prop
  | close (rest : List Char) : SetItems false (']' :: rest) rest
  | item {first : Bool} {s r rest : List Char} : (s.head? = some ']' → first) → SetItem s r → SetItems false r rest →
    SetItems first s rest

theorem SetText.items {first : Bool} {s rest : List Char} (h : SetText first s rest) : SetItems first s rest := by
  induction h with
  | close rest => exact .close rest
  | item hclose hplain htake _ ih => exact .item hclose (setItem_of_take (rangeOpensName_of_plain hplain) htake) ih

/-! ## Skipping -/

namespace Filter

theorem skipSetBody_byte {b : UInt8} {s : Bytes} (hslash : b ≠ 92) (hclose : b ≠ 93)
    (hopen : b = 91 → s.head? ≠ some 58) :
    skipSetBody false (b :: s) = skipSetBody false s :=
  skipSetBody.eq_7 b s (fun _ _ h _ => hslash h) (fun t h hs => hopen h (by rw [hs]; rfl)) hclose fun h _ => hslash h

theorem skipSetBody_inName {b : UInt8} {s : Bytes} (h : b = 58 → s.head? ≠ some 93) :
    skipSetBody true (b :: s) = skipSetBody true s :=
  skipSetBody.eq_2 b s fun t hb hs => h hb (by rw [hs]; rfl)

theorem skipSetBody_wide {w : Bytes} (hw : ∀ b ∈ w, 0x80 ≤ b) (inName : Bool) (s : Bytes) :
    skipSetBody inName (w ++ s) = skipSetBody inName s := by
  induction w with
  | nil => rfl
  | cons b w ih =>
    have hb : (0x80 : UInt8) ≤ b := hw b List.mem_cons_self
    have hne : ∀ c : UInt8, c < 0x80 → b ≠ c := fun c hc hbc => absurd hc (UInt8.not_lt.2 (hbc ▸ hb))
    rw [← ih fun c hc => hw c (List.mem_cons_of_mem _ hc), List.cons_append]
    cases inName with
    | true => exact skipSetBody_inName fun h => absurd h (hne 58 (by decide))
    | false => exact skipSetBody_byte (hne 92 (by decide)) (hne 93 (by decide)) fun h => absurd h (hne 91 (by decide))

end Filter

open Filter

variable {bs : Bytes} {s r rest : List Char}

theorem skip_plainChar {c : Char} (hslash : c ≠ '\\') (hclose : c ≠ ']') (hopens : opensName (c :: s) = false)
    (h : chars? bs = some (c :: s)) : ∃ bs', chars? bs' = some s ∧ skipSetBody false bs = skipSetBody false bs' := by
  obtain ⟨bs', hfirst, hrest⟩ := chars?_cons h
  refine ⟨bs', hrest, ?_⟩
  cases hfirst with
  | wide _ hwide => exact skipSetBody_wide hwide false bs'
  | @plain b _ hb =>
    refine skipSetBody_byte ?_ ?_ ?_
    · rintro rfl
      exact hslash rfl
    · rintro rfl
      exact hclose rfl
    · rintro rfl
      intro hbs
      have hcolon := head?_of_byte (by decide) hrest hbs
      cases s with
      | nil => cases hcolon
      | cons d s =>
        cases hcolon
        cases hopens

theorem skip_flat {pre : List Char} (hpre : ∀ c ∈ pre, c ≠ '\\' ∧ c ≠ '[' ∧ c ≠ ']') (h : chars? bs = some (pre ++ s)) :
    ∃ bs', chars? bs' = some s ∧ skipSetBody false bs = skipSetBody false bs' := by
  induction pre generalizing bs with
  | nil => exact ⟨bs, h, rfl⟩
  | cons c pre ih =>
    obtain ⟨⟨hslash, hopen, hclose⟩, hpre⟩ := List.forall_mem_cons.1 hpre
    have hopens : opensName (c :: (pre ++ s)) = false := by
      unfold opensName
      split
      · next hc => exact absurd (List.cons.inj hc).1 hopen
      · rfl
    obtain ⟨bs₁, h₁, hskip⟩ := skip_plainChar hslash hclose hopens h
    obtain ⟨bs₂, h₂, hskip'⟩ := ih hpre h₁
    exact ⟨bs₂, h₂, hskip.trans hskip'⟩

theorem EscapeText.flat (h : EscapeText s r) : ∃ c pre, s = c :: (pre ++ r) ∧ c.toNat < 128
    ∧ ∀ d ∈ pre, d ≠ '\\' ∧ d ≠ '[' ∧ d ≠ ']' := by
  have hne : ∀ d, d ∉ enclosing → d ≠ '\\' ∧ d ≠ '[' ∧ d ≠ ']' := by
    intro d hd
    refine ⟨?_, ?_, ?_⟩ <;> rintro rfl <;> exact hd (by decide)
  cases h with
  | @bare c pre _ hc hpre => exact ⟨c, pre, rfl, hc, fun d hd => hne d (hpre d hd)⟩
  | @braced c pre _ hc hpre =>
    refine ⟨c, '{' :: (pre ++ ['}']), by simp, hc, fun d hd => ?_⟩
    rcases List.mem_cons.1 hd with rfl | hd
    · decide
    rcases List.mem_append.1 hd with hd | hd
    · exact hne d (hpre d hd)
    · obtain rfl := List.mem_singleton.1 hd
      decide

/-- A character of a set that neither ends it nor begins a name is skipped. -/
theorem skip_setChar (h : chars? bs = some s) (hchar : SetChar s r) (hclose : s.head? ≠ some ']')
    (hopens : opensName s = false) :
    ∃ bs', chars? bs' = some r ∧ skipSetBody false bs = skipSetBody false bs' := by
  cases hchar with
  | plain hslash => exact skip_plainChar hslash (fun hc => hclose (congrArg some hc)) hopens h
  | escape htext =>
    obtain ⟨c, pre, rfl, hc, hpre⟩ := htext.flat
    obtain ⟨bs₁, rfl, h₁⟩ := chars?_plain (by decide) h
    obtain ⟨bs₂, rfl, h₂⟩ := chars?_plain hc h₁
    obtain ⟨bs', h', hskip⟩ := skip_flat hpre h₂
    exact ⟨bs', h', hskip⟩

theorem skip_name (h : chars? bs = some s) (acc : List Char) :
    (takeBracketName?.go acc s = none → skipSetBody true bs = none)
      ∧ ∀ n, takeBracketName?.go acc s = some (n, r) → ∃ bs', chars? bs' = some r
      ∧ skipSetBody true bs = skipSetBody false bs' := by
  induction s generalizing bs acc with
  | nil =>
    obtain rfl := chars?_nil h
    exact ⟨fun _ => rfl, nofun⟩
  | cons c s ih =>
    obtain ⟨bs₁, hfirst, h₁⟩ := chars?_cons h
    by_cases hend : c = ':' ∧ s.head? = some ']'
    · obtain ⟨rfl, hclose⟩ := hend
      cases s with
      | nil => cases hclose
      | cons d s =>
        cases hclose
        obtain ⟨bs₁, rfl, h₁⟩ := chars?_plain (by decide) h
        obtain ⟨bs₂, rfl, h₂⟩ := chars?_plain (by decide) h₁
        refine ⟨nofun, fun n hn => ⟨bs₂, ?_, rfl⟩⟩
        cases hn
        exact h₂
    · have hgo : takeBracketName?.go acc (c :: s) = takeBracketName?.go (c :: acc) s := by
        rw [takeBracketName?.go]
        intro t hc hs
        exact hend ⟨hc, by rw [hs]; rfl⟩
      have hskip : skipSetBody true bs = skipSetBody true bs₁ := by
        cases hfirst with
        | wide _ hwide => exact skipSetBody_wide hwide true bs₁
        | plain hb =>
          refine skipSetBody_inName ?_
          rintro rfl hbs
          exact hend ⟨rfl, head?_of_byte (by decide) h₁ hbs⟩
      rw [hgo, hskip]
      exact ih h₁ (c :: acc)

theorem skip_unnamed (h : chars? bs = some s) (hname : ∀ t, s = '[' :: ':' :: t → takeBracketName? t = none)
    (hopens : opensName s) : skipSetBody false bs = none := by
  unfold opensName at hopens
  split at hopens
  · next t =>
    obtain ⟨bs₁, rfl, h₁⟩ := chars?_plain (by decide) h
    obtain ⟨bs₂, rfl, h₂⟩ := chars?_plain (by decide) h₁
    exact (skip_name (r := []) h₂ []).1 (hname t rfl)
  · cases hopens

/-- An item that does not begin with a closing bracket is skipped, or the whole set is given up. -/
theorem skip_item (h : chars? bs = some s) (hitem : SetItem s r) (hclose : s.head? ≠ some ']') :
    skipSetBody false bs = none ∨ ∃ bs', chars? bs' = some r ∧ skipSetBody false bs = skipSetBody false bs' := by
  cases hitem with
  | @name s _ n hname =>
    obtain ⟨bs₁, rfl, h₁⟩ := chars?_plain (by decide) h
    obtain ⟨bs₂, rfl, h₂⟩ := chars?_plain (by decide) h₁
    exact .inr ((skip_name h₂ []).2 n hname)
  | single hname hchar =>
    cases hopens : opensName s with
    | true => exact .inl (skip_unnamed h hname hopens)
    | false => exact .inr (skip_setChar h hchar hclose hopens)
  | range hname hlo hend hopensEnd hhi =>
    cases hopens : opensName s with
    | true => exact .inl (skip_unnamed h hname hopens)
    | false =>
      obtain ⟨bs₁, h₁, hskip₁⟩ := skip_setChar h hlo hclose hopens
      obtain ⟨bs₂, rfl, h₂⟩ := chars?_plain (by decide) h₁
      obtain ⟨bs₃, h₃, hskip₃⟩ := skip_setChar h₂ hhi hend hopensEnd
      exact .inr ⟨bs₃, h₃, hskip₁.trans hskip₃⟩

theorem skip_items {rest : List Char} (h : chars? bs = some s) (hset : SetItems false s rest) :
    skipSetBody false bs = none ∨ ∃ bs', chars? bs' = some rest ∧ skipSetBody false bs = some bs' := by
  generalize hfirst : false = first at hset
  induction hset generalizing bs with
  | close rest =>
    obtain ⟨bs', rfl, hbs'⟩ := chars?_plain (by decide) h
    exact .inr ⟨bs', hbs', rfl⟩
  | item hclose hitem hrest ih =>
    subst hfirst
    have hopen : _ ≠ some ']' := fun hc => absurd (hclose hc) nofun
    rcases skip_item h hitem hopen with hnone | ⟨bs₁, h₁, hskip⟩
    · exact .inl hnone
    · rw [hskip]
      exact ih h₁ rfl

/-- What is left of a set behind the caret that may stand in front. -/
def afterCaret (s : List Char) : List Char := if s.head? = some '^' then s.tail else s

theorem chars?_afterCaret (h : chars? bs = some s) :
    chars? (if bs.head? = some 94 then bs.tail else bs) = some (afterCaret s) := by
  unfold afterCaret
  cases s with
  | nil =>
    obtain rfl := chars?_nil h
    exact h
  | cons c s =>
    by_cases hc : c = '^'
    · subst hc
      obtain ⟨bs', rfl, hbs'⟩ := chars?_plain (by decide) h
      exact hbs'
    · have hbs : bs.head? ≠ some 94 := fun hbs => hc (Option.some.inj (head?_of_byte (b := 94) (by decide) h hbs))
      rw [if_neg hbs, if_neg fun hs : (c :: s).head? = some '^' => hc (Option.some.inj hs)]
      exact h

/-- Skipping a set comes to where reading it does, if it is not given up. -/
theorem skipSet_items {rest : List Char} (h : chars? bs = some s) (hset : SetItems true (afterCaret s) rest) :
    skipSet bs = none ∨ ∃ bs', chars? bs' = some rest ∧ skipSet bs = some bs' := by
  unfold skipSet
  have hcaret := chars?_afterCaret h
  generalize (if bs.head? = some 94 then bs.tail else bs) = bs₁ at hcaret
  generalize afterCaret s = u at hset hcaret
  dsimp only
  cases hset with
  | item _ hitem hrest =>
  by_cases hclose : u.head? = some ']'
  · cases u with
    | nil => cases hclose
    | cons c u =>
    cases hclose
    obtain ⟨bs₂, rfl, h₂⟩ := chars?_plain (by decide) hcaret
    show skipSetBody false bs₂ = none ∨ _
    -- The bracket is a member, perhaps the first of a range.
    cases hitem with
    | single _ hchar =>
      cases hchar
      exact skip_items h₂ hrest
    | range _ hlo hend hopens hhi =>
      cases hlo
      obtain ⟨bs₃, rfl, h₃⟩ := chars?_plain (by decide) h₂
      obtain ⟨bs₄, h₄, hskip⟩ := skip_setChar h₃ hhi hend hopens
      show skipSetBody false bs₃ = none ∨ ∃ bs', _ ∧ skipSetBody false bs₃ = _
      rw [hskip]
      exact skip_items h₄ hrest
  · rw [if_neg fun hbs => hclose (head?_of_byte (b := 93) (by decide) hcaret hbs)]
    rcases skip_item hcaret hitem hclose with hnone | ⟨bs₂, h₂, hskip⟩
    · exact .inl hnone
    · rw [hskip]
      exact skip_items h₂ hrest

theorem skipSet_text {rest : List Char} (h : chars? bs = some s) (hset : SetText true (afterCaret s) rest) :
    skipSet bs = none ∨ ∃ bs', chars? bs' = some rest ∧ skipSet bs = some bs' :=
  skipSet_items h hset.items

/-! ## Reading -/

theorem takeSetItems_text {first : Bool} {rest : List Char} (hset : SetText first s rest) {fuel : Nat}
    {acc groups : List Category.Class} {rest' : List Char} (h : takeSetItems fuel first acc s = .ok (groups, rest')) :
    rest' = rest := by
  induction hset generalizing fuel acc with
  | close rest =>
    cases fuel with
    | zero => cases h
    | succ fuel =>
      cases h
      rfl
  | @item first s r rest g hclose hplain htake hrest ih =>
    cases s with
    | nil =>
      rw [takeSetItems] at h
      cases h
    | cons c s =>
      cases fuel with
      | zero => cases h
      | succ fuel =>
        have hopen : ¬ (c = ']' ∧ !first) := by
          rintro ⟨rfl, hfirst⟩
          rw [hclose rfl] at hfirst
          cases hfirst
        rw [takeSetItems, if_neg hopen, htake] at h
        exact ih h

theorem takeSet_items {fold : Bool} {set : CharSet} (h : takeSet fold s = .ok (set, rest)) :
    ∃ groups, takeSetItems ((afterCaret s).length + 1) true [] (afterCaret s) = .ok (groups, rest) := by
  unfold takeSet at h
  split at h
  next negated u hcaret =>
  have hu : u = afterCaret s := by
    split at hcaret
    · cases hcaret
      rfl
    · next hno =>
      cases hcaret
      unfold afterCaret
      rw [if_neg]
      intro hs
      cases s with
      | nil => cases hs
      | cons c s =>
        cases hs
        exact hno s rfl
  subst hu
  cases htake : takeSetItems ((afterCaret s).length + 1) true [] (afterCaret s) with
  | error e =>
    rw [htake] at h
    cases h
  | ok x =>
    obtain ⟨groups, v⟩ := x
    rw [htake] at h
    cases h
    exact ⟨groups, rfl⟩

theorem takeSet_text {fold : Bool} {rest rest' : List Char} {set : CharSet} (hset : SetText true (afterCaret s) rest)
    (h : takeSet fold s = .ok (set, rest')) : rest' = rest := by
  obtain ⟨groups, htake⟩ := takeSet_items h
  exact takeSetItems_text hset htake

theorem SetChar.length_lt (h : SetChar s r) : r.length < s.length := by
  cases h with
  | plain => exact Nat.lt_succ_self _
  | escape htext => exact Nat.lt_succ_of_le htext.suffix.length_le

theorem length_of_takeBracketName {n acc : List Char} (h : takeBracketName?.go acc s = some (n, r)) :
    r.length < s.length := by
  fun_induction takeBracketName?.go acc s with
  | case1 =>
    cases h
    simp only [List.length_cons]
    omega
  | case2 _ _ _ _ ih =>
    have := ih h
    simp only [List.length_cons]
    omega
  | case3 => cases h

theorem SetItem.length_lt (h : SetItem s r) : r.length < s.length := by
  cases h with
  | name hname =>
    have := length_of_takeBracketName hname
    simp only [List.length_cons]
    omega
  | single _ hchar => exact hchar.length_lt
  | range _ hlo _ _ hhi =>
    have h₁ := hlo.length_lt
    have h₂ := hhi.length_lt
    simp only [List.length_cons] at h₁
    omega

theorem SetText.length_lt {first : Bool} {rest : List Char} (hset : SetText first s rest) : rest.length < s.length := by
  induction hset with
  | close rest => exact Nat.lt_succ_self _
  | item _ hplain htake _ ih => exact Nat.lt_trans ih (setItem_of_take (rangeOpensName_of_plain hplain) htake).length_lt

/-! ## Suffixes -/

theorem suffix_of_takeBracketName {n acc : List Char} (h : takeBracketName?.go acc s = some (n, r)) : r <:+ s := by
  fun_induction takeBracketName?.go acc s with
  | case1 _ s =>
    cases h
    exact ⟨[':', ']'], rfl⟩
  | case2 _ c s _ ih => exact (ih h).trans (List.suffix_cons c s)
  | case3 => cases h

theorem SetChar.suffix (h : SetChar s r) : r <:+ s := by
  cases h with
  | plain => exact List.suffix_cons _ _
  | escape htext => exact htext.suffix.trans (List.suffix_cons _ _)

theorem SetItem.suffix (h : SetItem s r) : r <:+ s := by
  cases h with
  | name hname => exact (suffix_of_takeBracketName hname).trans ⟨['[', ':'], rfl⟩
  | single _ hchar => exact hchar.suffix
  | range _ hlo _ _ hhi => exact hhi.suffix.trans ((List.suffix_cons _ _).trans hlo.suffix)

theorem SetItems.suffix {first : Bool} (h : SetItems first s rest) : rest <:+ s := by
  induction h with
  | close rest => exact List.suffix_cons _ _
  | item _ hitem _ ih => exact ih.trans hitem.suffix

end RecordMill.Pattern

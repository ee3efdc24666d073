import RecordMill.Proofs.Pattern.Literals

/-!
# Alternatives have no literals

Main statement: `no_filter_of_bar`. A pattern with a bar outside every group, set and escape gets no filter: the scan
comes to that bar as reading does, and gives up there. Three kinds of text lead it astray, so that it can pass over the
bar. -/

namespace RecordMill.Pattern

/-! ## Where the scan goes astray -/

/-- Some range of the set that is read from here ends in a bracket right before a colon. -/
def rangesOpenName : Nat → Bool → List Char → Bool
  | 0, _, _ => false
  | fuel + 1, first, s =>
    if s.head? = some ']' ∧ !first then false
    else rangeOpensName s || match takeSetItem s with
      | .ok (_, rest) => rangesOpenName fuel false rest
      | .error _ => false

/-- The text up to `\E`. -/
def quoted : List Char → List Char
  | [] => []
  | '\\' :: 'E' :: _ => []
  | c :: s => c :: quoted s

/-- From behind a brace: a bar or an opening bracket that is not escaped comes before the next closing brace. -/
def swallows : List Char → Bool
  | [] => false
  | '}' :: _ => false
  | '\\' :: '}' :: _ => false
  | '\\' :: _ :: s => swallows s
  | c :: s => c == '|' || c == '(' || c == '[' || swallows s

/-- What the scan takes for something else than reading does: a range that ends in a bracket right before a colon, as if
a name began there; the brackets of quoted text, as if they opened or closed something; and a brace that stands for
itself outside of groups, as if what follows up to the next closing brace were a count. -/
def misread (st : State) : List Char → Bool
  | '[' :: s => rangesOpenName ((afterCaret s).length + 1) true (afterCaret s)
  | '\\' :: 'Q' :: s => (quoted s).any fun c => c == '[' || c == '(' || c == if st.outer.isEmpty then '{' else ')'
  | '{' :: s => st.outer.isEmpty && (takeCounts? s).isNone && s.contains '}' && swallows s
  | _ => false

/-- Reading comes to a bar outside of all groups, and `ok` holds wherever a step begins before it. -/
inductive ToBar (ok : State → List Char → Prop) : State → List Char → Prop
  | bar {st : State} {s : List Char} : st.outer = [] → ToBar ok st ('|' :: s)
  | step {st st' : State} {c : Char} {s rest : List Char} :
    ok st (c :: s) → step st c s = .ok (st', rest) → ToBar ok st' rest →
    ToBar ok st (c :: s)

/-! ## Texts with a bar ahead -/

/-- Characters that begin more than one byte of a piece. -/
def structural : List Char := nesting ++ ['{']

/-- A text, from inside so many groups, that leads to a bar outside of them, as the scan goes through it. -/
inductive Barred : Nat → List Char → Prop
  | bar {s : List Char} : Barred 0 ('|' :: s)
  | char {d : Nat} {c : Char} {s : List Char} : c ∉ structural → Barred d s → Barred d (c :: s)
  | escape {d : Nat} {c : Char} {s : List Char} : Barred d s → Barred d ('\\' :: c :: s)
  | set {d : Nat} {s rest : List Char} : SetItems true (afterCaret s) rest → Barred d rest → Barred d ('[' :: s)
  | opens {d : Nat} {s : List Char} : Barred (d + 1) s → Barred d ('(' :: s)
  | closes {d : Nat} {s : List Char} : Barred d s → Barred (d + 1) (')' :: s)
  | stray {s : List Char} : Barred 0 s → Barred 0 (')' :: s)
  | brace {d : Nat} {s : List Char} : Barred (d + 1) s → Barred (d + 1) ('{' :: s)
  | braces {body s : List Char} : '}' ∉ body → Barred 0 s → Barred 0 ('{' :: (body ++ '}' :: s))
  | unclosed {s : List Char} : '}' ∉ s → Barred 0 ('{' :: s)

variable {d : Nat} {s rest : List Char}

theorem not_structural {c : Char} (hc : c ∉ enclosing) : c ∉ structural := by
  have hall : structural.Sublist enclosing := by decide
  exact fun hmem => hc (hall.subset hmem)

theorem Barred.flat {pre : List Char} (hpre : ∀ c ∈ pre, c ∉ enclosing) (h : Barred d rest) :
    Barred d (pre ++ rest) := by
  induction pre with
  | nil => exact h
  | cons c pre ih =>
    obtain ⟨hc, hpre⟩ := List.forall_mem_cons.1 hpre
    exact .char (not_structural hc) (ih hpre)

theorem Barred.braced {pre : List Char} (hpre : ∀ c ∈ pre, c ∉ enclosing) (h : Barred d rest) :
    Barred d ('{' :: (pre ++ '}' :: rest)) := by
  cases d with
  | zero => exact .braces (fun hmem => hpre _ hmem (by decide)) h
  | succ d => exact .brace (.flat hpre (.char (by decide) h))

theorem Barred.escapeText (htext : EscapeText s rest) (h : Barred d rest) : Barred d ('\\' :: s) := by
  cases htext with
  | bare _ hpre => exact .escape (.flat hpre h)
  | braced _ hpre => exact .escape (.braced hpre h)

theorem swallows_char {c : Char} (hslash : c ≠ '\\') (hclose : c ≠ '}') (h : swallows (c :: s) = false) :
    swallows s = false := by
  rw [swallows.eq_5] at h
  · exact (Bool.or_eq_false_iff.1 h).2
  · exact hclose
  · exact fun _ hc _ => hslash hc
  · exact fun _ _ hc _ => hslash hc

theorem swallows_escape {c : Char} (hclose : c ≠ '}') (h : swallows ('\\' :: c :: s) = false) : swallows s = false := by
  rw [swallows.eq_4] at h
  · exact h
  · exact hclose

/-- A character in front of the first closing brace is that brace, or one of those before it. -/
theorem front_of_body {body u : List Char} {c : Char} (hbody : '}' ∉ body) (h : body ++ '}' :: rest = c :: u) :
    c = '}' ∧ rest = u ∨ c ≠ '}' ∧ ∃ body', '}' ∉ body' ∧ body' ++ '}' :: rest = u := by
  cases body with
  | nil =>
    obtain ⟨rfl, rfl⟩ := List.cons.inj h
    exact .inl ⟨rfl, rfl⟩
  | cons b body =>
    obtain ⟨rfl, rfl⟩ := List.cons.inj h
    obtain ⟨hb, hbody⟩ := not_or.1 (mt List.mem_cons.2 hbody)
    exact .inr ⟨Ne.symm hb, body, hbody, rfl⟩

theorem behind_body {body₁ body₂ rest₁ rest₂ : List Char} (h₁ : '}' ∉ body₁) (h₂ : '}' ∉ body₂)
    (h : body₁ ++ '}' :: rest₁ = body₂ ++ '}' :: rest₂) : rest₁ = rest₂ := by
  induction body₁ generalizing body₂ with
  | nil =>
    rcases front_of_body h₂ h.symm with ⟨-, hrest⟩ | ⟨hne, -⟩
    · exact hrest.symm
    · exact absurd rfl hne
  | cons b body₁ ih =>
    obtain ⟨hb, h₁⟩ := not_or.1 (mt List.mem_cons.2 h₁)
    rcases front_of_body h₂ h.symm with ⟨rfl, -⟩ | ⟨-, body, hbody, htail⟩
    · exact absurd rfl hb
    · exact ih h₁ hbody htail.symm

/-- What follows a brace and the next closing brace leads to a bar where the text behind the brace does, unless the bar
or the beginning of a group or set is in between. -/
theorem Barred.behind_brace {body : List Char} (h : Barred 0 (body ++ '}' :: rest)) (hbody : '}' ∉ body)
    (hswallows : swallows (body ++ '}' :: rest) = false) : Barred 0 rest := by
  generalize hd : 0 = d at h
  generalize hs : body ++ '}' :: rest = s at h hswallows
  induction h generalizing body with
  | bar | set | opens => cases hswallows
  | closes | brace => cases hd
  | @char d c s hc h ih =>
    rcases front_of_body hbody hs with ⟨-, rfl⟩ | ⟨hclose, body', hbody', hs'⟩
    · exact hd ▸ h
    · have hslash : c ≠ '\\' := by
        rintro rfl
        exact hc (by decide)
      exact ih hbody' hd hs' (swallows_char hslash hclose hswallows)
  | @escape d c s h ih =>
    rcases front_of_body hbody hs with ⟨hslash, -⟩ | ⟨-, body₁, hbody₁, hs₁⟩
    · cases hslash
    rcases front_of_body hbody₁ hs₁ with ⟨-, rfl⟩ | ⟨hclose, body₂, hbody₂, hs₂⟩
    · exact hd ▸ h
    · exact ih hbody₂ hd hs₂ (swallows_escape hclose hswallows)
  | stray h ih =>
    rcases front_of_body hbody hs with ⟨hclose, -⟩ | ⟨hclose, body', hbody', hs'⟩
    · cases hclose
    · exact ih hbody' hd hs' (swallows_char (by decide) hclose hswallows)
  | braces hinner h =>
    rcases front_of_body hbody hs with ⟨hclose, -⟩ | ⟨-, body', hbody', hs'⟩
    · cases hclose
    · exact behind_body hbody' hinner hs' ▸ h
  | unclosed hclose =>
    rcases front_of_body hbody hs with ⟨hopen, -⟩ | ⟨-, body', -, rfl⟩
    · cases hopen
    · exact absurd (List.mem_append_right _ List.mem_cons_self) hclose

/-! ## Skipping groups -/

variable {bs t : Bytes}

theorem skipGroup_barred {k : Nat} (h : chars? bs = some s) (hbarred : Barred k s) (hk : k ≠ 0) :
    Filter.skipGroup k bs = none
    ∨ ∃ bs' s', Filter.skipGroup k bs = some bs' ∧ chars? bs' = some s' ∧ Barred 0 s' := by
  induction hbarred generalizing bs with
  | bar | stray | braces | unclosed => exact absurd rfl hk
  | @char k c s hc _ ih =>
    have hflat : ∀ d ∈ [c], d ∉ nesting := List.forall_mem_singleton.2 fun hmem => hc (List.mem_append_left _ hmem)
    obtain ⟨bs₁, h₁, hskip⟩ := Filter.skipGroup_chars hflat h k
    exact hskip ▸ ih h₁ hk
  | @brace k s _ ih =>
    have hflat : ∀ d ∈ ['{'], d ∉ nesting := List.forall_mem_singleton.2 (by decide)
    obtain ⟨bs₁, h₁, hskip⟩ := Filter.skipGroup_chars hflat h (k + 1)
    exact hskip ▸ ih h₁ hk
  | @escape k c s _ ih =>
    obtain ⟨bs₁, rfl, h₁⟩ := chars?_plain (by decide) h
    obtain ⟨bs₂, hfirst, h₂⟩ := chars?_cons h₁
    have hskip : Filter.skipGroup k (Bytes.ofChar '\\' :: bs₁) = Filter.skipGroup k bs₂ := by
      cases hfirst with
      | plain => exact Filter.skipGroup.eq_2 ..
      | @wide w _ _ hne hwide =>
        -- The scan escapes the first byte of the character.
        obtain ⟨b, w, rfl⟩ := List.exists_cons_of_ne_nil hne
        exact (Filter.skipGroup.eq_2 ..).trans
          (Filter.skipGroup_wide (fun b hb => hwide b (List.mem_cons_of_mem _ hb)) k bs₂)
    exact hskip ▸ ih h₂ hk
  | @set k s rest hset _ ih =>
    obtain ⟨bs₁, rfl, h₁⟩ := chars?_plain (by decide) h
    have hskip : Filter.skipGroup k (Bytes.ofChar '[' :: bs₁) = (Filter.skipSet bs₁).bind (Filter.skipGroup k) :=
      Filter.skipGroup_set k bs₁
    rw [hskip]
    rcases skipSet_items h₁ hset with hnone | ⟨bs₂, h₂, hsome⟩
    · rw [hnone]
      exact .inl rfl
    · rw [hsome]
      exact ih h₂ hk
  | @opens k s _ ih =>
    obtain ⟨bs₁, rfl, h₁⟩ := chars?_plain (by decide) h
    have hskip : Filter.skipGroup k (Bytes.ofChar '(' :: bs₁) = Filter.skipGroup (k + 1) bs₁ := Filter.skipGroup.eq_4 ..
    exact hskip ▸ ih h₁ (Nat.succ_ne_zero k)
  | @closes k s hrest ih =>
    obtain ⟨bs₁, rfl, h₁⟩ := chars?_plain (by decide) h
    have hskip : Filter.skipGroup (k + 1) (Bytes.ofChar ')' :: bs₁)
        = if k + 1 ≤ 1 then some bs₁ else Filter.skipGroup k bs₁ :=
      Filter.skipGroup.eq_5 ..
    rw [hskip]
    cases k with
    | zero => exact .inr ⟨bs₁, s, rfl, h₁, hrest⟩
    | succ k => exact ih h₁ (Nat.succ_ne_zero k)

/-! ## Scanning -/

/-- The bytes in front of `t` lead to a bar. The scan may stand within the character behind a backslash. -/
def Comes (t bs : Bytes) :
    Prop :=
  ∃ w bs' s, bs = w ++ bs' ∧ (∀ b ∈ w, Utf8.isTail b) ∧ chars? (bs' ++ t) = some s ∧ Barred 0 s

theorem Comes.of_chars (h : chars? (bs ++ t) = some s) (hbarred : Barred 0 s) :
    Comes t bs := ⟨[], bs, s, rfl, nofun, h, hbarred⟩

/-- What is cut off the end of a pattern leads to no bar. -/
structure Ends (t : Bytes) : Prop where
  tail : Tail t
  barless : ∀ s, chars? t = some s → ¬ Barred 0 s

theorem Ends.comes_ne_nil (ht : Ends t) (h : Comes t bs) : bs ≠ [] := by
  rintro rfl
  obtain ⟨w, bs', s, hsplit, -, hchars, hbarred⟩ := h
  obtain ⟨-, rfl⟩ := List.append_eq_nil_iff.1 hsplit.symm
  exact ht.barless s hchars hbarred

theorem isTail_of_front {x : Bytes} {code n : Nat} (h : Utf8.front? x = some (code, n)) :
    ∀ b ∈ (x.take n).tail, Utf8.isTail b := by
  unfold Utf8.front? at h
  repeat' split at h
  all_goals simp only [reduceCtorEq, Option.some.injEq, Prod.mk.injEq] at h
  all_goals
    obtain ⟨-, rfl⟩ := h
    simp_all

theorem piece_tail {b : UInt8} (hb : Utf8.isTail b) (x : Bytes) : Filter.piece? (b :: x) = some (none, x) := by
  obtain ⟨hlow, hhigh⟩ := Utf8.toNat_of_isTail hb
  have hwide : (0x80 : UInt8) ≤ b := Utf8.le_of_toNat hlow
  have hall : specialBytes.all fun k => k < 0x80 := by decide
  have hordinary : b ∉ specialBytes := fun hmem =>
    absurd (of_decide_eq_true (List.all_eq_true.1 hall b hmem)) (UInt8.not_lt.2 hwide)
  have hfront : Utf8.front? (b :: x) = none := by
    have hless : b < 0xC2 := UInt8.lt_iff_toNat_lt.2 (Nat.lt_of_le_of_lt hhigh (by decide))
    unfold Utf8.front?
    exact (if_neg (UInt8.not_lt.2 hwide)).trans (if_pos hless)
  rw [piece_ordinary hordinary, if_pos hwide, hfront]

theorem rest_of_piece {b : UInt8} {literal : Option UInt8} {x y : Bytes} (hb : b < 0x80) (hgroup : b ≠ 40)
    (hset : b ≠ 91) (hslash : b ≠ 92) (h : Filter.piece? (b :: x) = some (literal, y)) : y = x := by
  unfold Filter.piece? at h
  dsimp only at h
  rw [if_neg hgroup, if_neg hset, if_neg hslash, if_neg (UInt8.not_le.2 hb)] at h
  split at h
  · cases h
  split at h <;> cases h <;> rfl

theorem Comes.piece {literal : Option UInt8} {rest : Bytes} (ht : Ends t) (h : Comes t bs)
    (hpiece : Filter.piece? bs = some (literal, rest)) : Comes t rest := by
  have hne := ht.comes_ne_nil h
  obtain ⟨w, bs, s, rfl, hw, hchars, hbarred⟩ := h
  cases w with
  | cons b w =>
    obtain ⟨hb, hw⟩ := List.forall_mem_cons.1 hw
    rw [List.cons_append, piece_tail hb] at hpiece
    cases hpiece
    exact ⟨w, bs, s, rfl, hw, hchars, hbarred⟩
  | nil =>
  rw [List.nil_append] at hne hpiece
  have hplain : ∀ {c u}, s = c :: u → c.toNat < 0x80 → ∃ bs', bs = Bytes.ofChar c :: bs'
      ∧ chars? (bs' ++ t) = some u := by
    rintro c u rfl hc
    obtain ⟨x, hx, hrest⟩ := chars?_plain hc hchars
    obtain ⟨b, bs', rfl⟩ := List.exists_cons_of_ne_nil hne
    obtain ⟨rfl, rfl⟩ := List.cons.inj hx
    exact ⟨bs', rfl, hrest⟩
  cases hbarred with
  | bar | braces | unclosed =>
    obtain ⟨bs, rfl, -⟩ := hplain rfl (by decide)
    cases hpiece
  | stray h =>
    obtain ⟨bs, rfl, hbehind⟩ := hplain rfl (by decide)
    cases hpiece
    exact .of_chars hbehind h
  | @char _ c s hc h =>
    obtain ⟨x, hspelled, hx⟩ := chars?_cons hchars
    generalize hbs : bs ++ t = y at hspelled
    cases hspelled with
    | @plain b _ hb =>
      obtain ⟨b', bs, rfl⟩ := List.exists_cons_of_ne_nil hne
      cases hbs
      have hne : ∀ k : UInt8, Char.ofNat k.toNat ∈ structural → b ≠ k := by
        rintro k hk rfl
        exact hc hk
      obtain rfl := rest_of_piece hb (hne 40 (by decide)) (hne 91 (by decide)) (hne 92 (by decide)) hpiece
      exact .of_chars hx h
    | wide hwne hw _ hfront =>
      obtain ⟨bs', rfl, rfl⟩ := ht.tail.split_wide hw hbs.symm
      rw [piece_wide hw hwne hfront] at hpiece
      cases hpiece
      exact .of_chars hx h
  | @escape _ c s h =>
    obtain ⟨bs, rfl, hbehind⟩ := hplain rfl (by decide)
    cases bs with
    | nil => cases hpiece
    | cons b bs =>
    obtain ⟨-, rfl⟩ := Prod.mk.inj (Option.some.inj hpiece)
    obtain ⟨x, hspelled, hx⟩ := chars?_cons hbehind
    generalize hbs : b :: bs ++ t = y at hspelled
    cases hspelled with
    | plain =>
      obtain ⟨-, rfl⟩ := List.cons.inj hbs
      exact .of_chars hx h
    | @wide w _ _ hwne hw _ hfront =>
      obtain ⟨bs', hsplit, rfl⟩ := ht.tail.split_wide hw hbs.symm
      obtain ⟨b', w, rfl⟩ := List.exists_cons_of_ne_nil hwne
      obtain ⟨rfl, rfl⟩ := List.cons.inj hsplit
      have htails := isTail_of_front (hfront [])
      rw [List.append_nil, List.take_length] at htails
      exact ⟨w, bs', s, rfl, htails, hx, h⟩
  | set hset h =>
    obtain ⟨bs, rfl, hbehind⟩ := hplain rfl (by decide)
    have hvalue : Filter.piece? (91 :: bs) = (Filter.skipSet bs).map (none, ·) := rfl
    obtain ⟨r, hskip, hr⟩ := Option.map_eq_some_iff.1 (hvalue.symm.trans hpiece)
    cases hr
    have hfull := Filter.skipSet_append (t := t) hskip
    rcases skipSet_items hbehind hset with hnone | ⟨bs', hchars', hsome⟩
    · rw [hfull] at hnone
      cases hnone
    · rw [hfull] at hsome
      cases hsome
      exact .of_chars hchars' h
  | opens h =>
    obtain ⟨bs, rfl, hbehind⟩ := hplain rfl (by decide)
    have hvalue : Filter.piece? (40 :: bs) = (Filter.skipGroup 1 bs).map (none, ·) := rfl
    obtain ⟨r, hskip, hr⟩ := Option.map_eq_some_iff.1 (hvalue.symm.trans hpiece)
    cases hr
    have hfull := Filter.skipGroup_append (t := t) hskip
    rcases skipGroup_barred hbehind h Nat.one_ne_zero with hnone | ⟨bs', s', hsome, hchars', hbarred⟩
    · rw [hfull] at hnone
      cases hnone
    · rw [hfull] at hsome
      cases hsome
      exact .of_chars hchars' hbarred

theorem Barred.afterMark (h : Barred 0 s) : Barred 0 (afterMark s) := by
  unfold Pattern.afterMark
  split
  · next hs =>
    cases h with
    | char _ h => exact h
    | bar | escape | set | opens | stray | braces | unclosed => cases hs
  · exact h

theorem dropWhile_unclosed (hs : '}' ∉ s) (h : chars? bs = some s) : bs.dropWhile (· ≠ 125) = [] := by
  induction s generalizing bs with
  | nil =>
    obtain rfl := chars?_nil h
    rfl
  | cons c s ih =>
    obtain ⟨hc, hs⟩ := not_or.1 (mt List.mem_cons.2 hs)
    obtain ⟨bs₁, h₁, hdrop⟩ := dropWhile_char (Ne.symm hc) h
    rw [hdrop]
    exact ih hs h₁

theorem skipQuantifier_unclosed (hs : '}' ∉ s) (h : chars? (bs ++ t) = some s) :
    Filter.skipQuantifier 123 bs = none := by
  have hdrop := dropWhile_unclosed hs h
  rw [List.dropWhile_append] at hdrop
  unfold Filter.skipQuantifier
  rw [if_pos rfl]
  cases hbs : bs.dropWhile (· ≠ 125) with
  | nil => rfl
  | cons d r =>
    rw [hbs] at hdrop
    cases hdrop

theorem Comes.quantifier {q : UInt8} {rest : Bytes} (ht : Ends t) (h : Comes t (q :: bs)) (hq : Filter.isQuantifier q)
    (hskip : Filter.skipQuantifier q bs = some rest) : Comes t rest := by
  have hq' : q = 42 ∨ q = 43 ∨ q = 63 ∨ q = 123 := by
    simpa [Filter.isQuantifier, or_assoc] using hq
  obtain ⟨w, bs', s, hsplit, hw, hchars, hbarred⟩ := h
  cases w with
  | cons b w =>
    obtain ⟨rfl, -⟩ := List.cons.inj hsplit
    have htail := hw q List.mem_cons_self
    rcases hq' with rfl | rfl | rfl | rfl <;> exact absurd htail (by decide)
  | nil =>
  rw [List.nil_append] at hsplit
  subst hsplit
  have hlow : q < 0x80 := by rcases hq' with rfl | rfl | rfl | rfl <;> decide
  cases s with
  | nil => cases chars?_nil hchars
  | cons c s =>
  obtain rfl := Option.some.inj (head?_of_byte hlow hchars rfl)
  obtain ⟨x, hx, hbehind⟩ := chars?_plain (by rw [toNat_ofNat hlow]; exact UInt8.lt_iff_toNat_lt.1 hlow) hchars
  obtain ⟨-, rfl⟩ := List.cons.inj hx
  have hsign : q ≠ 123 → Barred 0 s → Comes t rest := by
    intro hbrace hs
    obtain rfl := Option.some.inj ((skipQuantifier_sign hbrace bs).symm.trans hskip)
    exact .of_chars (chars?_afterMark ht.tail hbehind) hs.afterMark
  rcases hq' with rfl | rfl | rfl | rfl
  iterate 3
    · cases hbarred with
      | char _ h => exact hsign (by decide) h
  · cases hbarred with
    | char hc => exact absurd (by decide) hc
    | braces hbody h =>
      obtain ⟨y, hdrop, hy⟩ := dropWhile_body hbody hbehind
      obtain ⟨r, rfl, rfl⟩ := skipQuantifier_brace hdrop hskip
      exact .of_chars (chars?_afterMark ht.tail hy) h.afterMark
    | unclosed hs =>
      rw [skipQuantifier_unclosed hs hbehind] at hskip
      cases hskip

theorem scan_none {anchored : Bool} {fuel : Nat} {sc : Filter.Scan} (hfuel : bs.length ≤ fuel) (ht : Ends t)
    (h : Comes t bs) :
    Filter.scan anchored fuel sc bs = none := by
  induction fuel generalizing sc bs with
  | zero => exact absurd (List.length_eq_zero_iff.1 (Nat.le_zero.1 hfuel)) (ht.comes_ne_nil h)
  | succ fuel ih =>
    obtain ⟨c, tail, rfl⟩ := List.exists_cons_of_ne_nil (ht.comes_ne_nil h)
    rw [Filter.scan.eq_3 _ _ _ _ (List.cons_ne_nil c tail)]
    cases hpiece : Filter.piece? (c :: tail) with
    | none => rfl
    | some x =>
    obtain ⟨literal, rest⟩ := x
    have hrest := h.piece ht hpiece
    have hlength := Filter.length_of_piece hpiece
    obtain ⟨q, after, rfl⟩ := List.exists_cons_of_ne_nil (ht.comes_ne_nil hrest)
    simp only [List.length_cons] at hlength hfuel
    dsimp only
    split
    · next hq =>
      cases hskip : Filter.skipQuantifier q after with
      | none => rfl
      | some r =>
        have hless := Filter.length_of_skipQuantifier hskip
        exact ih (by omega) (hrest.quantifier ht hq hskip)
    · exact ih (by simp only [List.length_cons]; omega) hrest

theorem Barred.afterCaret (h : Barred 0 s) : Barred 0 (afterCaret s) := by
  unfold Pattern.afterCaret
  split
  · next hs =>
    cases h with
    | char _ h => exact h
    | bar | escape | set | opens | stray | braces | unclosed => cases hs
  · exact h

theorem ends_endMark (anchoredEnd : Bool) : Ends (endMark anchoredEnd) := by
  refine ⟨tail_endMark anchoredEnd, fun s hs h => ?_⟩
  cases anchoredEnd with
  | false =>
    obtain rfl := Option.some.inj (chars?_of_nil.symm.trans hs)
    cases h
  | true =>
    have hdollar : chars? [36] = some ['$'] := by cbv
    obtain rfl := Option.some.inj (hdollar.symm.trans hs)
    cases h with
    | char _ h => cases h

theorem ofPattern_barred {pattern : Bytes} (hchars : chars? pattern = some s) (h : Barred 0 s) :
    Filter.ofPattern? pattern = none := by
  rcases Filter.ofPattern_cases pattern with hnone | ⟨anchoredEnd, body, hbody, hvalue⟩
  · exact hnone
  · have hstart := chars?_afterCaret hchars
    rw [← hbody] at hstart
    rw [hvalue, scan_none (Nat.le_refl _) (ends_endMark anchoredEnd) (.of_chars hstart h.afterCaret), Option.bind_none]

/-! ## Reading on to a bar -/

/-- A step from a character and `s` to `rest` keeps a bar ahead. -/
structure Leads (st : State) (c : Char) (s : List Char) (st' : State) (rest : List Char) : Prop where
  suffix : rest <:+ s
  barred : Barred st'.outer.length rest → Barred st.outer.length (c :: s)

section

variable {st st' : State} {c : Char}

theorem leads_char (hc : c ∉ structural) (houter : st'.outer = st.outer) : Leads st c s st' s :=
  ⟨List.suffix_refl s, fun h => .char hc (houter ▸ h)⟩

theorem leads_escape (htext : EscapeText s rest) (houter : st'.outer = st.outer) : Leads st '\\' s st' rest :=
  ⟨htext.suffix, fun h => .escapeText htext (houter ▸ h)⟩

theorem suffix_afterMark (s : List Char) : afterMark s <:+ s := by
  unfold afterMark
  split
  · exact List.tail_suffix s
  · exact List.suffix_refl s

theorem barred_of_afterMark (h : Barred d (afterMark s)) : Barred d s := by
  unfold afterMark at h
  split at h
  · next hs =>
    cases s with
    | nil => cases hs
    | cons c s =>
      cases hs
      exact .char (by decide) h
  · exact h

theorem leads_sign {wrap : Node → Node} (hc : c ∉ structural)
    (h : (repeatLast st wrap >>= fun st₁ => pure (st₁, (takeLazy st s).2)) = .ok (st', rest)) :
    Leads st c s st' rest := by
  cases hlast : repeatLast st wrap with
  | error e =>
    rw [hlast] at h
    cases h
  | ok st₁ =>
    obtain ⟨-, a, items, -, rfl⟩ := repeatLast_cases hlast
    rw [hlast] at h
    cases h
    rw [takeLazy_snd]
    exact ⟨suffix_afterMark s, fun h => .char hc (barred_of_afterMark h)⟩

theorem flat_of_count (hc : c.isDigit ∨ c = ',') : c ∉ enclosing :=
  not_enclosing (fun d => d.isDigit || d == ',') (by decide) (by simpa using hc)

theorem leads_counts {lo : Nat} {hi : Option Nat} {r : List Char} (hcounts : takeCounts? s = some ((lo, hi), r))
    (h : step st '{' s = .ok (st', rest)) : Leads st '{' s st' rest := by
  have h : (repeatCounted st lo hi (takeLazy st r).1 >>= fun st₁ => pure (st₁, (takeLazy st r).2))
      = .ok (st', rest) := by
    dsimp only [step] at h
    rw [hcounts] at h
    exact h
  cases hcounted : repeatCounted st lo hi (takeLazy st r).1 with
  | error e =>
    rw [hcounted] at h
    cases h
  | ok st₁ =>
    obtain ⟨-, a, items, -, rfl⟩ := repeatLast_cases (repeatCounted_cases hcounted)
    rw [hcounted] at h
    cases h
    obtain ⟨pre, rfl, hpre⟩ := takeCounts_cases hcounts
    rw [takeLazy_snd]
    refine ⟨(suffix_afterMark r).trans ⟨pre ++ ['}'], by simp⟩, fun h => ?_⟩
    exact .braced (fun c hc => flat_of_count (hpre c hc)) (barred_of_afterMark h)

theorem leads_brace (hcounts : takeCounts? s = none) (hmisread : misread st ('{' :: s) = false)
    (houter : st'.outer = st.outer) :
    Leads st '{' s st' s := by
  refine ⟨List.suffix_refl s, fun h => ?_⟩
  rw [houter] at h
  cases hout : st.outer with
  | cons g outer =>
    rw [hout] at h
    exact .brace h
  | nil =>
    rw [hout] at h
    by_cases hclose : '}' ∈ s
    · have hswallows : swallows s = false := by
        simpa [misread, hout, hcounts, hclose] using hmisread
      obtain ⟨body, u, rfl, hbody⟩ := List.eq_append_cons_of_mem hclose
      exact .braces hbody (h.behind_brace hbody hswallows)
    · exact .unclosed hclose

theorem takeQuoted_cons (st : State) (h : ¬ (c = '\\' ∧ s.head? = some 'E')) :
    takeQuoted st (c :: s) = takeQuoted (st.pushChar c.toNat) s :=
  takeQuoted.eq_3 st c s fun t hc hs => h ⟨hc, by rw [hs]; rfl⟩

theorem quoted_cons (h : ¬ (c = '\\' ∧ s.head? = some 'E')) : quoted (c :: s) = c :: quoted s :=
  quoted.eq_3 c s fun t hc hs => h ⟨hc, by rw [hs]; rfl⟩

theorem takeQuoted_keeps (st : State) (s : List Char) :
    (takeQuoted st s).1.outer = st.outer ∧ (takeQuoted st s).2 <:+ s := by
  fun_induction takeQuoted st s with
  | case1 => exact ⟨rfl, List.suffix_refl _⟩
  | case2 st s => exact ⟨rfl, ['\\', 'E'], rfl⟩
  | case3 st c s _ ih => exact ⟨ih.1, ih.2.trans (List.suffix_cons c s)⟩

theorem Barred.quotedChar (hset : c ≠ '[') (hgroup : c ≠ '(') (hslash : c ≠ '\\') (hbrace : d = 0 → c ≠ '{')
    (hclose : d ≠ 0 → c ≠ ')') (h : Barred d s) : Barred d (c :: s) := by
  by_cases hopen : c = '{'
  · subst hopen
    cases d with
    | zero => exact absurd rfl (hbrace rfl)
    | succ d => exact .brace h
  by_cases hstray : c = ')'
  · subst hstray
    cases d with
    | zero => exact .stray h
    | succ d => exact absurd rfl (hclose (Nat.succ_ne_zero d))
  refine .char ?_ h
  simp only [structural, nesting, List.cons_append, List.nil_append, List.mem_cons, List.not_mem_nil, or_false, not_or]
  exact ⟨hslash, hset, hgroup, hstray, hopen⟩

/-- Quoted text keeps a bar ahead, if none of its characters opens or closes anything to the scan. -/
theorem barred_of_quoted (hquoted : ∀ c ∈ quoted s, c ≠ '[' ∧ c ≠ '(' ∧ (d = 0 → c ≠ '{') ∧ (d ≠ 0 → c ≠ ')'))
    (h : Barred d (takeQuoted st s).2) : Barred d s := by
  -- To the scan a backslash takes the next character with it, so the induction is on the length.
  induction hn : s.length using Nat.strongRecOn generalizing st s with
  | ind n ih =>
  subst hn
  cases s with
  | nil => exact h
  | cons c s =>
  by_cases hend : c = '\\' ∧ s.head? = some 'E'
  · obtain ⟨rfl, hs⟩ := hend
    cases s with
    | nil => cases hs
    | cons e s =>
      cases hs
      exact .escape h
  rw [takeQuoted_cons st hend] at h
  rw [quoted_cons hend] at hquoted
  obtain ⟨⟨hset, hgroup, hbrace, hclose⟩, hrest⟩ := List.forall_mem_cons.1 hquoted
  by_cases hslash : c = '\\'
  · subst hslash
    cases s with
    | nil => cases h
    | cons e s =>
    refine .escape ?_
    by_cases hend : e = '\\' ∧ s.head? = some 'E'
    · obtain ⟨rfl, hs⟩ := hend
      cases s with
      | nil => cases hs
      | cons e s =>
        cases hs
        exact .char (by decide) h
    · rw [takeQuoted_cons _ hend] at h
      rw [quoted_cons hend] at hrest
      exact ih s.length (by simp only [List.length_cons]; omega) (List.forall_mem_cons.1 hrest).2 h rfl
  · exact .quotedChar hset hgroup hslash hbrace hclose (ih s.length (Nat.lt_succ_self _) hrest h rfl)

theorem leads_quoted (hmisread : misread st ('\\' :: 'Q' :: s) = false) {st₁ : State} (hst : st₁.outer = st.outer) :
    Leads st '\\' ('Q' :: s) (takeQuoted st₁ s).1 (takeQuoted st₁ s).2 := by
  obtain ⟨houter, hsuffix⟩ := takeQuoted_keeps st₁ s
  refine ⟨hsuffix.trans (List.suffix_cons 'Q' s), fun h => .escape (@barred_of_quoted _ _ st₁ (fun c hc => ?_) ?_)⟩
  · have hno : ¬ ((c == '[' || c == '(' || c == if st.outer.isEmpty then '{' else ')') = true) :=
      List.any_eq_false.1 hmisread c hc
    simp only [Bool.or_eq_true, beq_iff_eq, not_or] at hno
    obtain ⟨⟨hset, hgroup⟩, hother⟩ := hno
    refine ⟨hset, hgroup, fun hzero hbrace => hother ?_, fun hzero hclose => hother ?_⟩
    · rw [if_pos (List.isEmpty_iff.2 (List.length_eq_zero_iff.1 hzero))]
      exact hbrace
    · rw [if_neg fun hempty => hzero (List.length_eq_zero_iff.2 (List.isEmpty_iff.1 hempty))]
      exact hclose
  · rwa [houter, hst] at h

theorem leads_class {negated : Bool} (hc : c.toNat < 128)
    (h : (takeClass negated s >>= fun x => pure (st.push (.set { fold := st.flags.fold, groups := [x.1] }), x.2))
      = .ok (st', rest)) :
    Leads st '\\' (c :: s) st' rest := by
  cases htake : takeClass negated s with
  | error e =>
    rw [htake] at h
    cases h
  | ok x =>
    obtain ⟨g, r⟩ := x
    rw [htake] at h
    cases h
    exact leads_escape (takeClass_text hc htake) rfl

theorem leads_backslash (hmisread : misread st ('\\' :: s) = false) (h : takeBackslash st s = .ok (st', rest)) :
    Leads st '\\' s st' rest := by
  unfold takeBackslash at h
  split at h
  iterate 4
    · cases h
      exact leads_escape (.byte (by decide) _) rfl
  · cases h
  · next t =>
    obtain ⟨rfl, rfl⟩ := Prod.mk.inj (Except.ok.inj h)
    exact leads_quoted hmisread rfl
  · exact leads_class (by decide) h
  · exact leads_class (by decide) h
  · cases s with
    | nil => cases h
    | cons c s =>
    dsimp only at h
    split at h
    · next hgroup =>
      cases h
      exact leads_escape (escapeGroup_text hgroup _) rfl
    · cases hcode : takeEscape (c :: s) with
      | error e =>
        rw [hcode] at h
        cases h
      | ok x =>
        obtain ⟨code, r⟩ := x
        rw [hcode] at h
        cases h
        exact leads_escape (takeEscape_text hcode) rfl

theorem setItems_of_take {fuel : Nat} {first : Bool} {acc groups : List Category.Class}
    (h : takeSetItems fuel first acc s = .ok (groups, rest)) (hopens : rangesOpenName fuel first s = false) :
    SetItems first s rest := by
  induction fuel generalizing first acc s with
  | zero => cases s <;> cases h
  | succ fuel ih =>
    cases s with
    | nil => cases h
    | cons c s =>
    rw [takeSetItems] at h
    rw [rangesOpenName] at hopens
    split at h
    · next hclose =>
      obtain ⟨rfl, hfirst⟩ := hclose
      cases h
      obtain rfl : first = false := by simpa using hfirst
      exact .close _
    · next hclose =>
      rw [if_neg (by simpa using hclose)] at hopens
      obtain ⟨hrange, hbehind⟩ := Bool.or_eq_false_iff.1 hopens
      cases htake : takeSetItem (c :: s) with
      | error e =>
        rw [htake] at h
        cases h
      | ok x =>
        obtain ⟨g, r⟩ := x
        rw [htake] at h hbehind
        refine .item (fun hc => ?_) (setItem_of_take hrange htake) (ih h hbehind)
        by_contra hfirst
        exact hclose ⟨Option.some.inj hc, by simpa using hfirst⟩

theorem leads_set (hmisread : misread st ('[' :: s) = false) (h : step st '[' s = .ok (st', rest)) :
    Leads st '[' s st' rest := by
  have h : (takeSet st.flags.fold s >>= fun x => pure (st.push (.set x.1), x.2)) = .ok (st', rest) := h
  cases htake : takeSet st.flags.fold s with
  | error e =>
    rw [htake] at h
    cases h
  | ok x =>
    obtain ⟨set, r⟩ := x
    obtain ⟨groups, hitems⟩ := takeSet_items htake
    rw [htake] at h
    cases h
    have hset := setItems_of_take hitems hmisread
    have hafter : afterCaret s <:+ s := by
      unfold afterCaret
      split
      · exact List.tail_suffix s
      · exact List.suffix_refl s
    exact ⟨hset.suffix.trans hafter, fun h => .set hset h⟩

theorem leads_step (hflags : s.head? = some '?' → c ≠ '(') (hmisread : misread st (c :: s) = false)
    (h : step st c s = .ok (st', rest)) : Leads st c s st' rest := by
  unfold step at h
  dsimp only at h
  split at h
  · have hmark : s.head? ≠ some '?' := fun hmark => hflags hmark rfl
    rw [takeGroup_eq hmark] at h
    cases h
    exact ⟨List.suffix_refl s, .opens⟩
  · cases hclose : st.close with
    | error e =>
      rw [hclose] at h
      cases h
    | ok st₁ =>
      obtain ⟨g, outer, node, houter, rfl⟩ := close_cases hclose
      rw [hclose] at h
      cases h
      refine ⟨List.suffix_refl s, fun h => ?_⟩
      rw [houter]
      exact .closes h
  iterate 4
    · cases h
      exact leads_char (by decide) rfl
  · exact leads_set hmisread h
  iterate 3
    · exact leads_sign (by decide) h
  · cases hcounts : takeCounts? s with
    | none =>
      rw [hcounts] at h
      cases h
      exact leads_brace hcounts hmisread rfl
    | some x => exact leads_counts hcounts h
  · exact leads_backslash hmisread h
  · next hgroup hclose _ _ _ _ hset _ _ _ hbrace hslash =>
    cases h
    refine leads_char ?_ rfl
    simp only [structural, nesting, List.cons_append, List.nil_append, List.mem_cons, List.not_mem_nil,
      or_false, not_or]
    exact ⟨hslash, hset, hgroup, hclose, hbrace⟩

end

theorem barred_of_toBar {st : State} (h : ToBar (fun st s => misread st s = false) st s)
    (hflags : ¬ ['(', '?'] <:+: s) :
    Barred st.outer.length s := by
  induction h with
  | bar houter =>
    rw [houter]
    exact .bar
  | @step st st' c s rest hmisread hstep _ ih =>
    have hgroup : s.head? = some '?' → c ≠ '(' := by
      rintro hmark rfl
      cases s with
      | nil => cases hmark
      | cons e s =>
        cases hmark
        exact hflags ⟨[], s, rfl⟩
    have hleads := leads_step hgroup hmisread hstep
    exact hleads.barred (ih fun hopens => hflags (hopens.trans (hleads.suffix.trans (List.suffix_cons c s)).isInfix))

/-! ## Compiled patterns -/

theorem text_behind {pre : List Char} (h : chars? bs = some (pre ++ s)) : ∃ a b, bs = a ++ b ∧ chars? b = some s := by
  induction pre generalizing bs with
  | nil => exact ⟨[], bs, rfl, h⟩
  | cons c pre ih =>
    obtain ⟨bs₁, hfirst, h₁⟩ := chars?_cons h
    obtain ⟨a, b, rfl, hb⟩ := ih h₁
    cases hfirst with
    | @plain x _ _ => exact ⟨x :: a, b, rfl, hb⟩
    | @wide w _ _ _ _ _ _ => exact ⟨w ++ a, b, (List.append_assoc ..).symm, hb⟩

theorem ofPattern_flags {pattern : Bytes} (hchars : chars? pattern = some s) (hflags : ['(', '?'] <:+: s) :
    Filter.ofPattern? pattern = none := by
  obtain ⟨pre, post, rfl⟩ := hflags
  rw [List.append_assoc] at hchars
  obtain ⟨a, b, rfl, hb⟩ := text_behind hchars
  obtain ⟨b₁, rfl, h₁⟩ := chars?_plain (by decide) hb
  obtain ⟨b₂, rfl, -⟩ := chars?_plain (by decide) h₁
  exact if_pos (Bytes.contains_of_append a (text "(?") b₂)

theorem filter_of_compile {longest : Bool} {pattern : Bytes} {p : Pattern} (h : compile longest pattern = .ok p) :
    p.filter = Filter.ofPattern? pattern := by
  unfold compile at h
  cases hparse : parse pattern with
  | error e =>
    rw [hparse] at h
    cases h
  | ok node =>
    rw [hparse] at h
    cases h
    rfl

theorem compile_of_read {longest : Bool} {pattern : Bytes} {chars : List Char} {fin : State}
    (hchars : chars? pattern = some chars) (hread : readAll chars.length {} chars = .ok fin) (houter : fin.outer = [])
    (hheight : fin.group.node.height.alone ≤ maxHeight) :
    compile longest pattern = .ok { node := fin.group.node, longest, filter := Filter.ofPattern? pattern } := by
  have hparse : parse pattern = .ok fin.group.node := by
    unfold parse
    rw [hchars]
    dsimp only
    rw [hread]
    change (if !fin.outer.isEmpty then _ else _) = _
    rw [if_neg (by rw [houter]; exact Bool.false_ne_true)]
    rw [if_neg (Nat.not_lt.2 hheight)]
    rfl
  unfold compile
  rw [hparse]
  rfl

/-- A pattern with a bar outside of groups, sets and escapes has no filter, unless something before the bar is
misread. -/
theorem no_filter_of_bar {longest : Bool} {pattern : Bytes} {chars : List Char} {p : Pattern}
    (hchars : chars? pattern = some chars) (hcompile : compile longest pattern = .ok p)
    (hbar : ToBar (fun st s => misread st s = false) {} chars) : p.filter = none := by
  rw [filter_of_compile hcompile]
  by_cases hflags : ['(', '?'] <:+: chars
  · exact ofPattern_flags hchars hflags
  · exact ofPattern_barred hchars (barred_of_toBar hbar hflags)

theorem no_filter_of_bar_last : ∃ p, compile false (text "(a|b)[|)]\\|\\Qc|\\E{2}d|e") = .ok p ∧ p.filter = none := by
  have hchars : chars? (text "(a|b)[|)]\\|\\Qc|\\E{2}d|e") = some ['(', 'a', '|', 'b', ')', '[', '|', ')', ']', '\\',
    '|', '\\', 'Q', 'c', '|',
      '\\', 'E', '{', '2', '}', 'd', '|', 'e'] := by cbv
  have hcompile := @compile_of_read false _ _ _ hchars rfl rfl (by decide)
  refine ⟨_, hcompile, no_filter_of_bar hchars hcompile ?_⟩
  exact .step (by decide) rfl <| .step (by decide) rfl <| .step (by decide) rfl <| .step (by decide) rfl <|
    .step (by decide) rfl <|
    .step (by decide) rfl <| .step (by decide) rfl <| .step (by decide) rfl <| .step (by decide) rfl <|
      .step (by decide) rfl <|
    .bar rfl

/-- The pattern is accepted and has a bar outside of groups, sets and escapes, but it has a filter. -/
def Overlooked (pattern : String) :
    Prop :=
  ∃ chars p f, chars? (text pattern) = some chars ∧ compile false (text pattern) = .ok p
  ∧ ToBar (fun _ _ => True) {} chars ∧ p.filter = some f

/-- A bar is overlooked behind each kind of text that is misread: a brace that stands for itself, quoted brackets, and a
range that ends in a bracket before a colon. -/
theorem filter_despite_bar : Overlooked "ab{c|d}ef" ∧ Overlooked "\\Q[\\E|x]yz" ∧ Overlooked "[!-[:]|:]]ab" := by
  have hbrace : chars? (text "ab{c|d}ef") = some ['a', 'b', '{', 'c', '|', 'd', '}', 'e', 'f'] := by cbv
  have hquoted : chars? (text "\\Q[\\E|x]yz") = some ['\\', 'Q', '[', '\\', 'E', '|', 'x', ']', 'y', 'z'] := by cbv
  have hset : chars? (text "[!-[:]|:]]ab") = some ['[', '!', '-', '[', ':', ']', '|', ':', ']', ']', 'a', 'b'] := by cbv
  have hfilters : Filter.ofPattern? (text "ab{c|d}ef") = some { required := [text "ef"] }
      ∧ Filter.ofPattern? (text "\\Q[\\E|x]yz") = some { required := [text "yz"] }
      ∧ Filter.ofPattern? (text "[!-[:]|:]]ab") = some { required := [text "ab"] } := by
    decide +kernel
  refine ⟨?_, ?_, ?_⟩
  · refine ⟨_, _, _, hbrace, compile_of_read hbrace rfl rfl (by decide), ?_, hfilters.1⟩
    exact .step trivial rfl <| .step trivial rfl <| .step trivial rfl <| .step trivial rfl <| .bar rfl
  · refine ⟨_, _, _, hquoted, compile_of_read hquoted rfl rfl (by decide), ?_, hfilters.2.1⟩
    exact .step trivial rfl <| .bar rfl
  · refine ⟨_, _, _, hset, compile_of_read hset rfl rfl (by decide), ?_, hfilters.2.2⟩
    exact .step trivial rfl <| .bar rfl

end RecordMill.Pattern

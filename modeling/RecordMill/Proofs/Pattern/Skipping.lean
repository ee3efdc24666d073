import RecordMill.Proofs.Pattern.Reading

/-!
# Skipping groups

What is skipped at once is what reading takes several steps for.
-/

namespace RecordMill.Pattern

/-! ## More text behind -/

namespace Filter

variable {s r t : Bytes}

theorem skipSetBody_append {inName : Bool} (h : skipSetBody inName s = some r) :
    skipSetBody inName (s ++ t) = some (r ++ t) := by
  fun_induction skipSetBody inName s with
  | case1 s ih => exact ih h
  | case2 c s hend ih =>
    rw [List.cons_append, skipSetBody_inName fun hc hs => ?_]
    · exact ih h
    · cases s with
      | nil => cases h
      | cons d s =>
        cases hs
        exact hend s hc rfl
  | case3 c s ih => exact ih h
  | case4 s ih => exact ih h
  | case5 s =>
    cases h
    rfl
  | case6 => cases h
  | case7 c s hslash hname hclose hlone ih =>
    have hne : s ≠ [] := by
      rintro rfl
      cases h
    obtain ⟨d, s, rfl⟩ := List.exists_cons_of_ne_nil hne
    rw [List.cons_append, skipSetBody_byte (fun hc => hslash d s hc rfl) hclose fun hc hs => ?_]
    · exact ih h
    · cases hs
      exact hname s hc rfl
  | case8 => cases h

theorem skipSet_append (h : skipSet s = some r) : skipSet (s ++ t) = some (r ++ t) := by
  have hstrip : ∀ (c : UInt8) (u : Bytes), u ≠ [] →
      (if (u ++ t).head? = some c then (u ++ t).tail else u ++ t) = (if u.head? = some c then u.tail else u) ++ t := by
    intro c u hu
    obtain ⟨d, u, rfl⟩ := List.exists_cons_of_ne_nil hu
    by_cases hc : (d :: u).head? = some c
    · have hc' : (d :: u ++ t).head? = some c := hc
      rw [if_pos hc, if_pos hc']
      rfl
    · have hc' : (d :: u ++ t).head? ≠ some c := hc
      rw [if_neg hc, if_neg hc']
  have hs : s ≠ [] := by
    rintro rfl
    cases h
  unfold skipSet at h ⊢
  dsimp only at h ⊢
  rw [hstrip 94 s hs]
  generalize (if s.head? = some 94 then s.tail else s) = u at h ⊢
  have hu : u ≠ [] := by
    rintro rfl
    cases h
  rw [hstrip 93 u hu]
  exact skipSetBody_append h

theorem skipGroup_set (depth : Nat) (s : Bytes) : skipGroup depth (91 :: s) = (skipSet s).bind (skipGroup depth) := by
  rw [skipGroup]
  split
  · next h =>
    rw [h]
    rfl
  · next r h =>
    show skipGroup depth r = _
    rw [h]
    rfl

theorem skipGroup_byte {depth : Nat} {b : UInt8} (hslash : b ≠ 92) (hset : b ≠ 91) (hopen : b ≠ 40) (hclose : b ≠ 41) :
    skipGroup depth (b :: s) = skipGroup depth s := by
  rw [skipGroup]
  · exact fun _ _ h _ => hslash h
  · exact hset
  · exact hopen
  · exact hclose

theorem skipGroup_append {depth : Nat} (h : skipGroup depth s = some r) : skipGroup depth (s ++ t) = some (r ++ t) := by
  fun_induction skipGroup depth s with
  | case1 => cases h
  | case2 depth c s ih =>
    rw [List.cons_append, List.cons_append, skipGroup]
    exact ih h
  | case3 => cases h
  | case4 depth s u hset hle ih =>
    rw [List.cons_append, skipGroup_set, skipSet_append hset]
    exact ih h
  | case5 depth s ih =>
    rw [List.cons_append, skipGroup]
    exact ih h
  | case6 depth s hdepth =>
    cases h
    rw [List.cons_append, skipGroup, if_pos hdepth]
  | case7 depth s hdepth ih =>
    rw [List.cons_append, skipGroup, if_neg hdepth]
    exact ih h
  | case8 depth c s hslash hset hopen hclose ih =>
    have hne : s ≠ [] := by
      rintro rfl
      rw [skipGroup] at h
      cases h
    obtain ⟨d, s, rfl⟩ := List.exists_cons_of_ne_nil hne
    rw [List.cons_append, skipGroup_byte (fun hc => hslash d s hc rfl) hset hopen hclose]
    exact ih h

end Filter

/-! ## Groups -/

/-- Characters that mean something inside a group that is skipped. -/
def nesting : List Char := ['\\', '[', '(', ')']

variable {bs : Bytes} {s rest : List Char}

namespace Filter

theorem skipGroup_wide {w : Bytes} (hw : ∀ b ∈ w, 0x80 ≤ b) (depth : Nat) (r : Bytes) :
    skipGroup depth (w ++ r) = skipGroup depth r := by
  induction w with
  | nil => rfl
  | cons b w ih =>
    have hb : (0x80 : UInt8) ≤ b := hw b List.mem_cons_self
    have hne : ∀ c : UInt8, c < 0x80 → b ≠ c := fun c hc hbc => absurd hc (UInt8.not_lt.2 (hbc ▸ hb))
    rw [← ih fun c hc => hw c (List.mem_cons_of_mem _ hc), List.cons_append]
    exact skipGroup_byte (hne 92 (by decide)) (hne 91 (by decide)) (hne 40 (by decide)) (hne 41 (by decide))

theorem skipGroup_chars {pre : List Char} (hpre : ∀ c ∈ pre, c ∉ nesting) (h : chars? bs = some (pre ++ rest))
    (depth : Nat) :
    ∃ bs', chars? bs' = some rest ∧ skipGroup depth bs = skipGroup depth bs' := by
  induction pre generalizing bs with
  | nil => exact ⟨bs, h, rfl⟩
  | cons c pre ih =>
    obtain ⟨bs₁, hfirst, h₁⟩ := chars?_cons h
    obtain ⟨bs', hbs', hskip⟩ := ih (fun d hd => hpre d (List.mem_cons_of_mem _ hd)) h₁
    have hc := hpre c List.mem_cons_self
    refine ⟨bs', hbs', Eq.trans ?_ hskip⟩
    cases hfirst with
    | wide _ hwide => exact skipGroup_wide hwide depth bs₁
    | plain hb =>
      apply skipGroup_byte <;> rintro rfl <;> exact hc (by decide)

end Filter

open Filter

theorem Repeats.flat {q : Char} (h : Repeats q s rest) : ∃ pre, q :: s = pre ++ rest ∧ ∀ c ∈ pre, c ∉ nesting := by
  have hmark : ∀ u : List Char, ∃ pre, u = pre ++ afterMark u ∧ ∀ c ∈ pre, c ∉ nesting := by
    intro u
    unfold afterMark
    split
    · next hu =>
      cases u with
      | nil => cases hu
      | cons c u =>
        cases hu
        exact ⟨['?'], rfl, List.forall_mem_singleton.2 (by decide)⟩
    · exact ⟨[], rfl, nofun⟩
  cases h with
  | sign hq =>
    obtain ⟨pre, hpre, hflat⟩ := hmark s
    refine ⟨q :: pre, by rw [List.cons_append, ← hpre], List.forall_mem_cons.2 ⟨?_, hflat⟩⟩
    rcases hq with rfl | rfl | rfl <;> decide
  | @counts _ r n hcounts =>
    obtain ⟨pre, hpre, hflat⟩ := hmark r
    obtain ⟨ds, rfl, hds⟩ := takeCounts_cases hcounts
    refine ⟨'{' :: (ds ++ '}' :: pre), by rw [List.cons_append, List.append_assoc, List.cons_append, ← hpre],
      List.forall_mem_cons.2 ⟨by decide, fun c hc => ?_⟩⟩
    rcases List.mem_append.1 hc with hc | hc
    · rcases hds c hc with hdigit | rfl
      · intro hmem
        have hnone : nesting.all fun d => !d.isDigit := by decide
        have := List.all_eq_true.1 hnone c hmem
        rw [hdigit] at this
        cases this
      · decide
    · rcases List.mem_cons.1 hc with rfl | hc
      · decide
      · exact hflat c hc

/-- A state in which the group `base` is the outermost one that is not read yet, `depth` groups further out. -/
structure Inside (base : Group) (depth : Nat) (st : State) : Prop where
  flagless : Flagless st
  base : st.outer.getLast? = some base
  depth : st.outer.length = depth

/-- The group is given up, or skipped to where reading goes on with one more item in `base`. -/
def Skips (base : Group) (fin : State) (skipped : Option Bytes) : Prop :=
  skipped = none ∨ ∃ bs s node, skipped = some bs ∧ chars? bs = some s ∧ base.flags = {}
    ∧ Reads { flags := {}, group := { base with items := node :: base.items } } s fin

theorem skipGroup_reads {st fin : State} {base : Group} {depth : Nat} (h : chars? bs = some s) (hread : Reads st s fin)
    (hfin : fin.outer = []) (hst : Inside base depth st) : Skips base fin (skipGroup depth bs) := by
  -- Skipping may take several characters at once that reading takes one by one, so the induction is on reading.
  induction hread generalizing bs depth with
  | done =>
    have hbase := hst.base
    rw [hfin] at hbase
    cases hbase
  | @step st st' fin c s rest htook hrest ih =>
    have hflagless := htook.flagless hst.flagless
    have hflat : ∀ pre : List Char, c :: s = pre ++ rest → (∀ c ∈ pre, c ∉ nesting) → st'.outer = st.outer →
        Skips base fin (skipGroup depth bs) := by
      intro pre hpre hnesting houter
      rw [hpre] at h
      obtain ⟨bs₁, h₁, hskip⟩ := skipGroup_chars hnesting h depth
      rw [hskip]
      exact ih h₁ hfin ⟨hflagless, houter ▸ hst.base, houter ▸ hst.depth⟩
    cases htook with
    | literal hc =>
      refine hflat [c] rfl (List.forall_mem_singleton.2 fun hmem => hc ?_) rfl
      have hall : nesting.Sublist specials := by decide
      exact hall.subset hmem
    | dot => exact hflat ['.'] rfl (List.forall_mem_singleton.2 (by decide)) rfl
    | caret => exact hflat ['^'] rfl (List.forall_mem_singleton.2 (by decide)) rfl
    | dollar => exact hflat ['$'] rfl (List.forall_mem_singleton.2 (by decide)) rfl
    | bar => exact hflat ['|'] rfl (List.forall_mem_singleton.2 (by decide)) rfl
    | again hrepeats =>
      obtain ⟨pre, hpre, hnesting⟩ := hrepeats.flat
      exact hflat pre hpre hnesting rfl
    | @escape c s n hc =>
      obtain ⟨bs₁, rfl, h₁⟩ := chars?_plain (by decide) h
      obtain ⟨bs₂, rfl, h₂⟩ := chars?_plain (toNat_of_escapable hc) h₁
      have hskip : skipGroup depth (Bytes.ofChar '\\' :: Bytes.ofChar c :: bs₂) = skipGroup depth bs₂ :=
        skipGroup.eq_2 ..
      rw [hskip]
      exact ih h₂ hfin ⟨hflagless, hst.base, hst.depth⟩
    | set n hset =>
      obtain ⟨bs₁, rfl, h₁⟩ := chars?_plain (by decide) h
      have hskip : skipGroup depth (Bytes.ofChar '[' :: bs₁) = (skipSet bs₁).bind (skipGroup depth) :=
        skipGroup_set depth bs₁
      rw [hskip]
      rcases skipSet_text h₁ hset with hnone | ⟨bs₂, h₂, hsome⟩
      · rw [hnone]
        exact .inl rfl
      · rw [hsome]
        exact ih h₂ hfin ⟨hflagless, hst.base, hst.depth⟩
    | opens =>
      obtain ⟨bs₁, rfl, h₁⟩ := chars?_plain (by decide) h
      have hskip : skipGroup depth (Bytes.ofChar '(' :: bs₁) = skipGroup (depth + 1) bs₁ := skipGroup.eq_4 ..
      rw [hskip]
      have hbase : (st.group :: st.outer).getLast? = some base := by
        rw [List.getLast?_cons, hst.base]
        rfl
      exact ih h₁ hfin ⟨hflagless, hbase, congrArg (· + 1) hst.depth⟩
    | closes hclose =>
      obtain ⟨bs₁, rfl, h₁⟩ := chars?_plain (by decide) h
      have hskip : skipGroup depth (Bytes.ofChar ')' :: bs₁)
          = if depth ≤ 1 then some bs₁ else skipGroup (depth - 1) bs₁ :=
        skipGroup.eq_5 ..
      rw [hskip]
      obtain ⟨g, outer, node, houter, rfl⟩ := close_cases hclose
      have hbase := hst.base
      have hdepth := hst.depth
      have hflags := hst.flagless
      rw [houter] at hbase hdepth
      cases outer with
      | nil =>
        -- The outermost group is closed, and becomes an item of `base`.
        obtain rfl : g = base := Option.some.inj hbase
        obtain rfl : 1 = depth := hdepth
        rw [hflags.group] at hrest
        rw [if_pos (Nat.le_refl 1)]
        exact .inr ⟨bs₁, _, node, rfl, h₁, hflags.outer g (houter ▸ List.mem_cons_self), hrest⟩
      | cons g' outer =>
        rw [List.getLast?_cons_cons] at hbase
        rw [List.length_cons, List.length_cons] at hdepth
        rw [if_neg (by omega)]
        exact ih h₁ hfin ⟨hflagless, hbase, by rw [List.length_cons]; omega⟩

end RecordMill.Pattern

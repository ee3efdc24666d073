import RecordMill.Proofs.Pattern.Brackets

/-!
# Reading plain patterns

What one step of reading makes of a pattern without flags, quoted text and escapes by number.
-/

namespace RecordMill.Pattern

/-- Characters, signs and groups without flags; escapes of signs and of the letters that name something; sets
in brackets; and braces around counts. -/
inductive Plain : List Char → Prop
  | nil : Plain []
  | char {c : Char} {s : List Char} : c ≠ '\\' → c ≠ '[' → c ≠ '{' → c ≠ '(' → Plain s → Plain (c :: s)
  | group {s : List Char} : s.head? ≠ some '?' → Plain s → Plain ('(' :: s)
  | escape {c : Char} {s : List Char} : escapable c → Plain s → Plain ('\\' :: c :: s)
  | set {s rest : List Char} : SetText true (afterCaret s) rest → Plain rest → Plain ('[' :: s)
  | counts {s rest : List Char} {n : Nat × Option Nat} : takeCounts? s = some (n, rest) → Plain rest → Plain ('{' :: s)

/-- What is left behind a question mark that may stand in front. -/
def afterMark (s : List Char) : List Char := if s.head? = some '?' then s.tail else s

/-- A repetition is read from here to there. -/
inductive Repeats : Char → List Char → List Char → Prop
  | sign {q : Char} {s : List Char} : q = '*' ∨ q = '+' ∨ q = '?' → Repeats q s (afterMark s)
  | counts {s rest : List Char} {n : Nat × Option Nat} : takeCounts? s = some (n, rest) → Repeats '{' s (afterMark rest)

def specials : List Char := ['\\', '[', '{', '(', ')', '|', '*', '+', '?', '.', '^', '$']

/-- One step of reading, from a state and a text to the next ones. -/
inductive Took (st : State) : List Char → State → List Char → Prop
  | literal {c : Char} {s : List Char} : c ∉ specials → Took st (c :: s) (st.pushChar c.toNat) s
  | dot {s : List Char} (n : Node) : Took st ('.' :: s) (st.push n) s
  | caret {s : List Char} :
    Took st ('^' :: s) (st.push (.anchor (if st.flags.multiline then .beginLine else .beginText))) s
  | dollar {s : List Char} :
    Took st ('$' :: s) (st.push (.anchor (if st.flags.multiline then .endLine else .endText))) s
  | escape {c : Char} {s : List Char} {n : Node} : escapable c →
    (isSign c → n = .set (.single st.flags.fold c.toNat)) → Took st ('\\' :: c :: s) (st.push n) s
  | set {s rest : List Char} (n : Node) : SetText true (afterCaret s) rest → Took st ('[' :: s) (st.push n) rest
  | opens {s : List Char} : Took st ('(' :: s) (st.open_ st.flags true) s
  | closes {s : List Char} {st' : State} : st.close = .ok st' → Took st (')' :: s) st' s
  | bar {s : List Char} : Took st ('|' :: s) { st with group := st.group.closeBranch, repeated := false } s
  | again {q : Char} {s rest : List Char} {a : Node} {items : List Node} {wrap : Node → Node} : Repeats q s rest →
    st.repeated = false → st.group.items = a :: items → (q = '+' → ∃ greedy, wrap = .plus greedy) →
    Took st (q :: s) { st with group := { st.group with items := wrap a :: items }, repeated := true } rest

/-! ## Steps -/

variable {st st' : State} {s rest : List Char}

theorem takeLazy_snd (st : State) (s : List Char) : (takeLazy st s).2 = afterMark s := by
  unfold takeLazy
  split
  · rfl
  · next hno =>
    cases s with
    | nil => rfl
    | cons c s => exact (if_neg fun hs => hno s (by rw [Option.some.inj hs])).symm

theorem Plain.afterMark (h : Plain s) : Plain (afterMark s) := by
  unfold Pattern.afterMark
  split
  · next hs =>
    cases h with
    | nil => cases hs
    | char _ _ _ _ h => exact h
    | group => cases hs
    | escape => cases hs
    | set => cases hs
    | counts => cases hs
  · exact h

theorem length_afterMark_le (s : List Char) : (afterMark s).length ≤ s.length := by
  unfold afterMark
  split
  · rw [List.length_tail]
    omega
  · exact Nat.le_refl _

theorem repeatLast_cases {wrap : Node → Node} (h : repeatLast st wrap = .ok st') : st.repeated = false
    ∧ ∃ a items, st.group.items = a :: items
      ∧ st' = { st with group := { st.group with items := wrap a :: items }, repeated := true } := by
  unfold repeatLast at h
  split at h
  · cases h
  next hrep =>
  split at h
  · cases h
  · next a items hitems =>
    cases h
    exact ⟨by simpa using hrep, a, items, hitems, rfl⟩

theorem repeatCounted_cases {lo : Nat} {hi : Option Nat} {greedy : Bool} (h : repeatCounted st lo hi greedy = .ok st') :
    repeatLast st (.times greedy lo hi) = .ok st' := by
  unfold repeatCounted at h
  split at h
  · cases h
  cases hlast : repeatLast st (.times greedy lo hi) with
  | error e =>
    rw [hlast] at h
    cases h
  | ok st₁ =>
    rw [hlast] at h
    dsimp only [Bind.bind, Except.bind] at h
    split at h
    · split at h
      · cases h
      · exact h
    · exact h

theorem takeBackslash_cases {c : Char} (hc : escapable c) (h : takeBackslash st (c :: s) = .ok (st', rest)) :
    rest = s ∧ ∃ n, st' = st.push n
      ∧ (isSign c → n = .set (.single st.flags.fold c.toNat)) := by
  unfold takeBackslash at h
  split at h
  iterate 4
    · next heq =>
      cases heq
      cases h
      exact ⟨rfl, _, rfl, fun hsign => absurd hsign (by decide)⟩
  · next heq => cases heq; exact absurd hc (by decide)
  · next heq => cases heq; exact absurd hc (by decide)
  · next heq => cases heq; exact absurd hc (by decide)
  · next heq => cases heq; exact absurd hc (by decide)
  · split at h
    · next heq =>
      cases heq
      split at h
      · next g hgroup =>
        cases h
        refine ⟨rfl, _, rfl, fun hsign => ?_⟩
        unfold CharSet.escapeGroup? at hgroup
        split at hgroup <;> first | exact absurd hsign (by decide) | cases hgroup
      · cases hcode : takeEscape (c :: s) with
        | error e =>
          rw [hcode] at h
          cases h
        | ok x =>
          obtain ⟨code, t⟩ := x
          obtain ⟨rfl, hsign⟩ := takeEscape_plain hc hcode
          rw [hcode] at h
          cases h
          exact ⟨rfl, _, rfl, fun hs => by rw [hsign hs]⟩
    · cases h

theorem takeNumber_cases {n : Nat} (h : takeNumber? s = some (n, rest)) :
    ∃ ds, s = ds ++ rest ∧ ∀ c ∈ ds, c.isDigit := by
  have hall : ∀ c ∈ s.takeWhile Char.isDigit, c.isDigit := List.all_eq_true.1 List.all_takeWhile
  have hsplit : s = s.takeWhile Char.isDigit ++ s.drop (s.takeWhile Char.isDigit).length :=
    (List.prefix_iff_eq_append.1 (List.takeWhile_prefix _)).symm
  unfold takeNumber? at h
  dsimp only at h
  split at h
  · cases h
  · cases h
  · cases h
    exact ⟨_, hsplit, hall⟩

theorem takeCounts_cases {n : Nat × Option Nat} (h : takeCounts? s = some (n, rest)) :
    ∃ pre, s = pre ++ '}' :: rest ∧ ∀ c ∈ pre, c.isDigit ∨ c = ',' := by
  unfold takeCounts? at h
  obtain ⟨⟨lo, t⟩, hlo, hcomma⟩ := Option.bind_eq_some_iff.1 h
  obtain ⟨ds, rfl, hds⟩ := takeNumber_cases hlo
  clear h
  dsimp only at hcomma
  split at hcomma
  · cases hcomma
    exact ⟨ds, rfl, fun c hc => .inl (hds c hc)⟩
  · cases hcomma
    refine ⟨ds ++ [','], by simp, fun c hc => ?_⟩
    rcases List.mem_append.1 hc with hc | hc
    · exact .inl (hds c hc)
    · exact .inr (List.mem_singleton.1 hc)
  · obtain ⟨⟨hi, u⟩, hhi, hbrace⟩ := Option.bind_eq_some_iff.1 hcomma
    obtain ⟨es, rfl, hes⟩ := takeNumber_cases hhi
    clear hcomma
    dsimp only at hbrace
    split at hbrace
    · cases hbrace
      refine ⟨ds ++ ',' :: es, by simp, fun c hc => ?_⟩
      rcases List.mem_append.1 hc with hc | hc
      · exact .inl (hds c hc)
      · rcases List.mem_cons.1 hc with rfl | hc
        · exact .inr rfl
        · exact .inl (hes c hc)
    · cases hbrace
  · cases hcomma

/-- A step that leaves a plain pattern, not longer than what stood behind the first character. -/
def Steps (st : State) (c : Char) (s : List Char) (st' : State) (rest : List Char) : Prop :=
  Took st (c :: s) st' rest ∧ Plain rest ∧ rest.length ≤ s.length

theorem takeGroup_eq (hmark : s.head? ≠ some '?') : takeGroup st s = .ok (st.open_ st.flags true, s) := by
  unfold takeGroup
  split
  · exact absurd rfl hmark
  · exact absurd rfl hmark
  · exact absurd rfl hmark
  · rfl

theorem steps_of_set {r : List Char} (hset : SetText true (afterCaret s) r) (hrest : Plain r)
    (h : step st '[' s = .ok (st', rest)) : Steps st '[' s st' rest := by
  have h : (takeSet st.flags.fold s >>= fun x => pure (st.push (.set x.1), x.2)) = .ok (st', rest) := h
  cases htake : takeSet st.flags.fold s with
  | error e =>
    rw [htake] at h
    cases h
  | ok x =>
    obtain ⟨set, r⟩ := x
    obtain rfl := takeSet_text hset htake
    rw [htake] at h
    cases h
    have hafter : (afterCaret s).length ≤ s.length := by
      unfold afterCaret
      split <;> simp
    exact ⟨.set _ hset, hrest, Nat.le_of_lt (Nat.lt_of_lt_of_le hset.length_lt hafter)⟩

theorem steps_of_counts {r : List Char} {n : Nat × Option Nat} (hcounts : takeCounts? s = some (n, r)) (hrest : Plain r)
    (h : step st '{' s = .ok (st', rest)) : Steps st '{' s st' rest := by
  have h : (repeatCounted st n.1 n.2 (takeLazy st r).1 >>= fun st₁ => pure (st₁, (takeLazy st r).2))
      = .ok (st', rest) := by
    dsimp only [step] at h
    rw [hcounts] at h
    exact h
  cases hcounted : repeatCounted st n.1 n.2 (takeLazy st r).1 with
  | error e =>
    rw [hcounted] at h
    cases h
  | ok st₁ =>
    obtain ⟨hrep, a, items, hitems, rfl⟩ := repeatLast_cases (repeatCounted_cases hcounted)
    rw [hcounted] at h
    cases h
    obtain ⟨pre, rfl, -⟩ := takeCounts_cases hcounts
    have := length_afterMark_le r
    rw [takeLazy_snd]
    refine ⟨.again (.counts hcounts) hrep hitems (fun hq => absurd hq (by decide)), hrest.afterMark, ?_⟩
    rw [List.length_append, List.length_cons]
    omega

theorem steps_of_sign {q : Char} {wrap : Node → Node} (hq : q = '*' ∨ q = '+' ∨ q = '?')
    (hplus : q = '+' → ∃ greedy, wrap = .plus greedy) (hrest : Plain s)
    (h : (repeatLast st wrap >>= fun st₁ => pure (st₁, (takeLazy st s).2)) = .ok (st', rest)) :
    Steps st q s st' rest := by
  cases hlast : repeatLast st wrap with
  | error e =>
    rw [hlast] at h
    cases h
  | ok st₁ =>
    obtain ⟨hrep, a, items, hitems, rfl⟩ := repeatLast_cases hlast
    rw [hlast] at h
    cases h
    rw [takeLazy_snd]
    exact ⟨.again (.sign hq) hrep hitems hplus, hrest.afterMark, length_afterMark_le s⟩

theorem steps_of_char {c : Char} (hslash : c ≠ '\\') (hset : c ≠ '[') (hbrace : c ≠ '{') (hgroup : c ≠ '(')
    (hrest : Plain s) (h : step st c s = .ok (st', rest)) : Steps st c s st' rest := by
  unfold step at h
  dsimp only at h
  split at h
  · exact absurd rfl hgroup
  · cases hclose : st.close with
    | error e =>
      rw [hclose] at h
      cases h
    | ok st₁ =>
      rw [hclose] at h
      cases h
      exact ⟨.closes hclose, hrest, Nat.le_refl _⟩
  · cases h
    exact ⟨.bar, hrest, Nat.le_refl _⟩
  · cases h
    exact ⟨.caret, hrest, Nat.le_refl _⟩
  · cases h
    exact ⟨.dollar, hrest, Nat.le_refl _⟩
  · cases h
    exact ⟨.dot _, hrest, Nat.le_refl _⟩
  · exact absurd rfl hset
  · exact steps_of_sign (.inl rfl) (fun hc => absurd hc (by decide)) hrest h
  · exact steps_of_sign (.inr (.inl rfl)) (fun _ => ⟨_, rfl⟩) hrest h
  · exact steps_of_sign (.inr (.inr rfl)) (fun hc => absurd hc (by decide)) hrest h
  · exact absurd rfl hbrace
  · exact absurd rfl hslash
  · next _ hclose hbar hcaret hdollar hdot _ hstar hplus hmark _ _ =>
    cases h
    refine ⟨.literal ?_, hrest, Nat.le_refl _⟩
    simp only [specials, List.mem_cons, List.not_mem_nil, or_false, not_or]
    exact ⟨hslash, hset, hbrace, hgroup, hclose, hbar, hstar, hplus, hmark, hdot, hcaret, hdollar⟩

theorem steps_of_step {c : Char} (hplain : Plain (c :: s)) (h : step st c s = .ok (st', rest)) :
    Steps st c s st' rest := by
  cases hplain with
  | char hslash hset hbrace hgroup hrest => exact steps_of_char hslash hset hbrace hgroup hrest h
  | group hmark hrest =>
    have h : takeGroup st s = .ok (st', rest) := h
    rw [takeGroup_eq hmark] at h
    cases h
    exact ⟨.opens, hrest, Nat.le_refl _⟩
  | @escape c s hc hrest =>
    have h : takeBackslash st (c :: s) = .ok (st', rest) := h
    obtain ⟨rfl, n, rfl, hsign⟩ := takeBackslash_cases hc h
    exact ⟨.escape hc hsign, hrest, Nat.le_succ _⟩
  | set hset hrest => exact steps_of_set hset hrest h
  | counts hcounts hrest => exact steps_of_counts hcounts hrest h

inductive Reads : State → List Char → State → Prop
  | done {st : State} : Reads st [] st
  | step {st st' fin : State} {c : Char} {s rest : List Char} :
    Took st (c :: s) st' rest → Reads st' rest fin → Reads st (c :: s) fin

theorem reads_of_readAll {fin : State} {fuel : Nat} (hplain : Plain s) (hfuel : s.length ≤ fuel)
    (h : readAll fuel st s = .ok fin) : Reads st s fin := by
  -- Each step takes at least one character, so that the fuel never falls below what is left.
  induction fuel generalizing st s with
  | zero =>
    obtain rfl := List.length_eq_zero_iff.1 (Nat.le_zero.1 hfuel)
    rw [readAll] at h
    cases h
    exact .done
  | succ fuel ih =>
    cases s with
    | nil =>
      rw [readAll] at h
      cases h
      exact .done
    | cons c s =>
      rw [readAll] at h
      cases hstep : step st c s with
      | error e =>
        rw [hstep] at h
        cases h
      | ok x =>
        obtain ⟨st', rest⟩ := x
        obtain ⟨htook, hrest, hle⟩ := steps_of_step hplain hstep
        rw [hstep] at h
        exact .step htook (ih hrest (by simp only [List.length_cons] at hfuel; omega) h)

/-! ## Flags -/

/-- No flags are set. -/
structure Flagless (st : State) : Prop where
  flags : st.flags = {}
  group : st.group.flags = {}
  outer : ∀ g ∈ st.outer, g.flags = {}

theorem Flagless.opened (h : Flagless st) : Flagless (st.open_ st.flags true) := by
  refine ⟨h.flags, h.flags, fun g hg => ?_⟩
  rcases List.mem_cons.1 hg with rfl | hg
  · exact h.group
  · exact h.outer g hg

theorem close_cases (h : st.close = .ok st') : ∃ g outer node, st.outer = g :: outer
    ∧ st' = { flags := st.group.flags, group := { g with items := node :: g.items }, outer } := by
  unfold State.close at h
  split at h
  · cases h
  · next g outer houter =>
    cases h
    exact ⟨g, outer, _, houter, rfl⟩

theorem Took.flagless (h : Took st s st' rest) (hst : Flagless st) : Flagless st' := by
  cases h with
  | literal | dot | caret | dollar | escape | set | bar | again => exact ⟨hst.flags, hst.group, hst.outer⟩
  | opens => exact hst.opened
  | closes hclose =>
    obtain ⟨g, outer, node, houter, rfl⟩ := close_cases hclose
    have hmem : ∀ g' ∈ g :: outer, g'.flags = {} := houter ▸ hst.outer
    exact ⟨hst.group, hmem g List.mem_cons_self, fun g' hg' => hmem g' (List.mem_cons_of_mem _ hg')⟩

end RecordMill.Pattern

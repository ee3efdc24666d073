import RecordMill.Proofs.Pattern.Language
import RecordMill.Proofs.Pattern.Skipping

/-!
# Scanning for literals

Each piece that the scan takes is one item that reading makes, repeated as the piece is. Whatever the items
match contains what the scan has gathered.
-/

namespace RecordMill.Pattern

/-! ## Pieces -/

/-- Reading stands outside of all groups, in the first alternative. -/
structure Top (st : State) : Prop where
  flagless : Flagless st
  outer : st.outer = []
  branches : st.group.branches = []

theorem Top.push {st : State} (h : Top st) (n : Node) : Top (st.push n) :=
  ⟨⟨h.flagless.flags, h.flagless.group, h.flagless.outer⟩, h.outer, h.branches⟩

/-- From here the text is read to its end. -/
structure Ahead (st fin : State) (bs : Bytes) : Prop where
  top : Top st
  reads : ∃ s, chars? bs = some s ∧ Reads st s fin

variable {st fin : State} {bs rest t : Bytes}

/-- The bytes behind the scanned ones are plain, and no mark is the first. -/
structure Tail (t : Bytes) : Prop where
  plain : ∀ b ∈ t, b < 0x80
  mark : t.head? ≠ some 63

theorem Tail.split_wide (ht : Tail t) {w x : Bytes} (hw : ∀ b ∈ w, 0x80 ≤ b) (h : w ++ x = bs ++ t) :
    ∃ y, bs = w ++ y ∧ x = y ++ t := by
  rcases List.append_eq_append_iff.1 h with ⟨y, hbs, hx⟩ | ⟨y, hw', ht'⟩
  · exact ⟨y, hbs, hx⟩
  · cases y with
    | nil => exact ⟨[], by simpa using hw'.symm, by simpa using ht'.symm⟩
    | cons b y =>
      have hlow := ht.plain b (by rw [ht']; exact List.mem_cons_self)
      have hhigh := hw b (by rw [hw']; simp)
      exact absurd hlow (UInt8.not_lt.2 hhigh)

def specialBytes : Bytes := [124, 42, 43, 63, 123, 40, 91, 92, 46, 94, 36]

theorem piece_ordinary {b : UInt8} (hb : b ∉ specialBytes) (s : Bytes) : Filter.piece? (b :: s) =
    if b ≥ 0x80 then match Utf8.front? (b :: s) with
      | some (_, n) => some (none, s.drop (n - 1))
      | none => some (none, s)
    else some (some b, s) := by
  simp only [specialBytes, List.mem_cons, List.not_mem_nil, or_false, not_or] at hb
  obtain ⟨hbar, hstar, hplus, hmark, hbrace, hgroup, hset, hslash, hdot, hcaret, hdollar⟩ := hb
  have hquantifier : ¬ (b = 124 ∨ Filter.isQuantifier b) := by
    simp only [Filter.isQuantifier, Bool.or_eq_true, beq_iff_eq, not_or]
    exact ⟨hbar, ⟨⟨hstar, hplus⟩, hmark⟩, hbrace⟩
  unfold Filter.piece?
  dsimp only
  rw [if_neg hquantifier, if_neg hgroup, if_neg hset, if_neg hslash]
  exact if_neg (not_or.2 ⟨hdot, not_or.2 ⟨hcaret, hdollar⟩⟩)

theorem piece_plain {b : UInt8} (hb : b < 0x80) (hc : Char.ofNat b.toNat ∉ specials) (s : Bytes) :
    Filter.piece? (b :: s) = some (some b, s) := by
  have hall : specialBytes.all fun k => specials.contains (Char.ofNat k.toNat) := by decide
  have hordinary : b ∉ specialBytes := fun hmem => hc (List.contains_iff_mem.1 (List.all_eq_true.1 hall b hmem))
  rw [piece_ordinary hordinary, if_neg (UInt8.not_le.2 hb)]

theorem piece_wide {w : Bytes} {n : Nat} (hw : ∀ b ∈ w, 0x80 ≤ b) (hne : w ≠ [])
    (hfront : ∀ s, Utf8.front? (w ++ s) = some (n, w.length)) (s : Bytes) :
    Filter.piece? (w ++ s) = some (none, s) := by
  obtain ⟨b, w, rfl⟩ := List.exists_cons_of_ne_nil hne
  have hb : (0x80 : UInt8) ≤ b := hw b List.mem_cons_self
  have hall : specialBytes.all fun k => k < 0x80 := by decide
  have hordinary : b ∉ specialBytes := fun hmem =>
    absurd (of_decide_eq_true (List.all_eq_true.1 hall b hmem)) (UInt8.not_lt.2 hb)
  have hfront' : Utf8.front? (b :: (w ++ s)) = some (n, w.length + 1) := hfront s
  rw [List.cons_append, piece_ordinary hordinary, if_pos hb, hfront']
  simp

theorem isSign_of_literal {c : Char} (h : Filter.isLiteralEscape (Bytes.ofChar c)) (hc : c.toNat < 0x80) :
    isSign c := by
  have hall : ∀ n < 0x80, Filter.isLiteralEscape (Bytes.ofChar (Char.ofNat n)) → isSign (Char.ofNat n) := by decide
  have := hall c.toNat hc
  rw [Char.ofNat_toNat] at this
  exact this h

/-- One more item is read in front of these bytes. If the piece is a literal, the item is just that. -/
def NextItem (st fin : State) (literal : Option UInt8) (bs : Bytes) : Prop := ∃ st' node, Ahead st' fin bs
  ∧ st'.group.items = node :: st.group.items ∧ ∀ b, literal = some b → b < 0x80 ∧ node = .set (.single false b.toNat)

namespace NextItem

variable {literal : Option UInt8} {s r : List Char}

theorem of_push {n : Node} (h : Top st) (hchars : chars? bs = some s) (hreads : Reads (st.push n) s fin)
    (hliteral : ∀ b, literal = some b → b < 0x80 ∧ n = .set (.single false b.toNat)) : NextItem st fin literal bs :=
  ⟨st.push n, n, ⟨h.push n, s, hchars, hreads⟩, rfl, hliteral⟩

theorem of_literal {c : Char} (h : Top st) (ht : Tail t) (hne : bs ≠ []) (hc : c ∉ specials)
    (hchars : chars? (bs ++ t) = some (c :: s)) (hreads : Reads (st.pushChar c.toNat) s fin)
    (hpiece : Filter.piece? bs = some (literal, rest)) : NextItem st fin literal (rest ++ t) := by
  obtain ⟨x, hspelled, hx⟩ := chars?_cons hchars
  generalize hbs : bs ++ t = y at hspelled
  cases hspelled with
  | @plain b _ hb =>
    obtain ⟨b', bs, rfl⟩ := List.exists_cons_of_ne_nil hne
    cases hbs
    rw [piece_plain hb hc] at hpiece
    cases hpiece
    refine of_push h hx hreads fun b' hb' => ?_
    cases hb'
    exact ⟨hb, by rw [h.flagless.flags, toNat_ofNat hb]⟩
  | wide hwne hw _ hfront =>
    -- The tail behind the scanned bytes is plain, so the character ends before it.
    obtain ⟨bs', rfl, rfl⟩ := ht.split_wide hw hbs.symm
    rw [piece_wide hw hwne hfront] at hpiece
    cases hpiece
    exact of_push h hx hreads nofun

theorem of_escape {c : Char} {n : Node} (h : Top st) (hc : escapable c)
    (hsign : isSign c → n = .set (.single st.flags.fold c.toNat)) (hchars : chars? (bs ++ t) = some (c :: s))
    (hreads : Reads (st.push n) s fin) (hpiece : Filter.piece? (92 :: bs) = some (literal, rest)) :
    NextItem st fin literal (rest ++ t) := by
  cases bs with
  | nil => cases hpiece
  | cons b bs =>
  obtain ⟨x, hx, hlast⟩ := chars?_plain (toNat_of_escapable hc) hchars
  obtain ⟨rfl, rfl⟩ := List.cons.inj hx
  have hvalue : Filter.piece? (92 :: Bytes.ofChar c :: bs)
    = some (if Filter.isLiteralEscape (Bytes.ofChar c) then some (Bytes.ofChar c) else none, bs) := rfl
  obtain ⟨hliteral, rfl⟩ := Prod.mk.inj (Option.some.inj (hvalue.symm.trans hpiece))
  refine of_push h hlast hreads fun b hb => ?_
  rw [hb] at hliteral
  split at hliteral
  · next hlit =>
    cases hliteral
    have hc' := toNat_of_escapable hc
    have hto := toNat_ofChar hc'
    refine ⟨UInt8.lt_iff_toNat_lt.2 (by rw [hto]; exact hc'), ?_⟩
    rw [hsign (isSign_of_literal hlit hc'), h.flagless.flags, hto]
  · cases hliteral

theorem of_set {n : Node} (h : Top st) (hset : SetText true (afterCaret s) r) (hchars : chars? (bs ++ t) = some s)
    (hreads : Reads (st.push n) r fin) (hpiece : Filter.piece? (91 :: bs) = some (literal, rest)) :
    NextItem st fin literal (rest ++ t) := by
  have hvalue : Filter.piece? (91 :: bs) = (Filter.skipSet bs).map (none, ·) := rfl
  obtain ⟨r', hskip, hr⟩ := Option.map_eq_some_iff.1 (hvalue.symm.trans hpiece)
  cases hr
  have hfull := Filter.skipSet_append (t := t) hskip
  rcases skipSet_text hchars hset with hnone | ⟨bs', hchars', hsome⟩
  · rw [hfull] at hnone
    cases hnone
  · rw [hfull] at hsome
    cases hsome
    exact of_push h hchars' hreads nofun

theorem of_group (h : Top st) (hfin : fin.outer = []) (hchars : chars? (bs ++ t) = some s)
    (hreads : Reads (st.open_ st.flags true) s fin) (hpiece : Filter.piece? (40 :: bs) = some (literal, rest)) :
    NextItem st fin literal (rest ++ t) := by
  have hvalue : Filter.piece? (40 :: bs) = (Filter.skipGroup 1 bs).map (none, ·) := rfl
  obtain ⟨r, hskip, hr⟩ := Option.map_eq_some_iff.1 (hvalue.symm.trans hpiece)
  cases hr
  have hfull := Filter.skipGroup_append (t := t) hskip
  have hinside : Inside st.group 1 (st.open_ st.flags true) := by
    refine ⟨h.flagless.opened, ?_, ?_⟩ <;> simp [State.open_, h.outer]
  rcases skipGroup_reads hchars hreads hfin hinside with hnone | ⟨bs', s', node, hsome, hchars', hflags, hreads'⟩
  · rw [hfull] at hnone
    cases hnone
  · rw [hfull] at hsome
    cases hsome
    have htop : Top { flags := {}, group := { st.group with items := node :: st.group.items } } :=
      ⟨⟨rfl, hflags, fun g hg => by cases hg⟩, rfl, h.branches⟩
    exact ⟨_, node, ⟨htop, s', hchars', hreads'⟩, rfl, nofun⟩

end NextItem

theorem piece_reads {literal : Option UInt8} (hfin : fin.outer = []) (ht : Tail t) (h : Ahead st fin (bs ++ t))
    (hne : bs ≠ []) (hpiece : Filter.piece? bs = some (literal, rest)) : NextItem st fin literal (rest ++ t) := by
  obtain ⟨htop, s, hchars, hreads⟩ := h
  cases hreads with
  | done => exact absurd (List.append_eq_nil_iff.1 (chars?_nil hchars)).1 hne
  | @step _ st' _ c s r htook hrest =>
  have hplain : c.toNat < 0x80 → ∃ bs', bs = Bytes.ofChar c :: bs' ∧ chars? (bs' ++ t) = some s := by
    intro hc
    obtain ⟨x, hx, hrest⟩ := chars?_plain hc hchars
    obtain ⟨b, bs', rfl⟩ := List.exists_cons_of_ne_nil hne
    obtain ⟨rfl, rfl⟩ := List.cons.inj hx
    exact ⟨bs', rfl, hrest⟩
  cases htook with
  | literal hc => exact .of_literal htop ht hne hc hchars hrest hpiece
  | dot | caret | dollar =>
    obtain ⟨bs, rfl, hbehind⟩ := hplain (by decide)
    cases hpiece
    exact .of_push htop hbehind hrest nofun
  | bar =>
    obtain ⟨bs, rfl, -⟩ := hplain (by decide)
    cases hpiece
  | again hrepeats =>
    -- A quantifier without a piece in front of it is given up on.
    have hbyte : ∃ b bs', bs = b :: bs' ∧ Filter.isQuantifier b := by
      cases hrepeats with
      | sign hq =>
        rcases hq with rfl | rfl | rfl <;> obtain ⟨bs', rfl, -⟩ := hplain (by decide) <;> exact ⟨_, _, rfl, by decide⟩
      | counts =>
        obtain ⟨bs', rfl, -⟩ := hplain (by decide)
        exact ⟨_, _, rfl, by decide⟩
    obtain ⟨b, bs', rfl, hb⟩ := hbyte
    unfold Filter.piece? at hpiece
    dsimp only at hpiece
    rw [if_pos (.inr hb)] at hpiece
    cases hpiece
  | escape hc hsign =>
    obtain ⟨bs, rfl, hbehind⟩ := hplain (by decide)
    exact .of_escape htop hc hsign hbehind hrest hpiece
  | set n hset =>
    obtain ⟨bs, rfl, hbehind⟩ := hplain (by decide)
    exact .of_set htop hset hbehind hrest hpiece
  | opens =>
    obtain ⟨bs, rfl, hbehind⟩ := hplain (by decide)
    exact .of_group htop hfin hbehind hrest hpiece
  | closes hclose =>
    obtain ⟨g, outer, node, houter, -⟩ := close_cases hclose
    rw [htop.outer] at houter
    cases houter

theorem chars?_afterMark {s : List Char} (ht : Tail t) (h : chars? (bs ++ t) = some s) :
    chars? ((if bs.head? = some 63 then bs.tail else bs) ++ t) = some (afterMark s) := by
  unfold afterMark
  by_cases hs : s.head? = some '?'
  · cases s with
    | nil => cases hs
    | cons c s =>
      cases hs
      obtain ⟨x, hx, hrest⟩ := chars?_plain (by decide) h
      cases bs with
      | nil => exact absurd (by rw [← List.nil_append t, hx]; rfl) ht.mark
      | cons b bs =>
        obtain ⟨rfl, rfl⟩ := List.cons.inj hx
        exact hrest
  · have hbs : bs.head? ≠ some 63 := by
      intro hmark
      cases bs with
      | nil => cases hmark
      | cons b bs =>
        cases hmark
        exact hs (head?_of_byte (by decide) h rfl)
    rw [if_neg hbs, if_neg hs]
    exact h

theorem dropWhile_char {c : Char} {s : List Char} (hc : c ≠ '}') (h : chars? bs = some (c :: s)) :
    ∃ bs', chars? bs' = some s ∧ bs.dropWhile (· ≠ 125) = bs'.dropWhile (· ≠ 125) := by
  obtain ⟨bs', hfirst, hrest⟩ := chars?_cons h
  refine ⟨bs', hrest, ?_⟩
  cases hfirst with
  | plain hb =>
    refine List.dropWhile_cons_of_pos (decide_eq_true ?_)
    rintro rfl
    exact hc rfl
  | wide _ hw =>
    refine List.dropWhile_append_of_pos fun b hb => decide_eq_true ?_
    rintro rfl
    exact absurd (hw 125 hb) (by decide)

theorem dropWhile_body {pre s : List Char} (hpre : '}' ∉ pre) (h : chars? bs = some (pre ++ '}' :: s)) :
    ∃ bs', bs.dropWhile (· ≠ 125) = 125 :: bs' ∧ chars? bs' = some s := by
  induction pre generalizing bs with
  | nil =>
    obtain ⟨bs', rfl, hbs'⟩ := chars?_plain (by decide) h
    exact ⟨bs', rfl, hbs'⟩
  | cons c pre ih =>
    obtain ⟨hc, hpre⟩ := not_or.1 (mt List.mem_cons.2 hpre)
    obtain ⟨bs₁, h₁, hdrop⟩ := dropWhile_char (Ne.symm hc) h
    rw [hdrop]
    exact ih hpre h₁

theorem skipQuantifier_sign {q : UInt8} (hq : q ≠ 123) (bs : Bytes) :
    Filter.skipQuantifier q bs = some (if bs.head? = some 63 then bs.tail else bs) := by
  unfold Filter.skipQuantifier
  rw [if_neg hq]
  rfl

theorem skipQuantifier_brace {y : Bytes} (hdrop : (bs ++ t).dropWhile (· ≠ 125) = 125 :: y)
    (hskip : Filter.skipQuantifier 123 bs = some rest) :
    ∃ r, y = r ++ t ∧ rest = if r.head? = some 63 then r.tail else r := by
  unfold Filter.skipQuantifier at hskip
  rw [if_pos rfl] at hskip
  rw [List.dropWhile_append] at hdrop
  cases hbs : bs.dropWhile (· ≠ 125) with
  | nil =>
    rw [hbs] at hskip
    cases hskip
  | cons d r =>
    rw [hbs] at hskip hdrop
    obtain ⟨-, rfl⟩ := List.cons.inj hdrop
    exact ⟨r, rfl, (Option.some.inj hskip).symm⟩

theorem quantifier_reads {q : UInt8} {node : Node} {items : List Node} (ht : Tail t) (h : Ahead st fin (q :: (bs ++ t)))
    (hq : Filter.isQuantifier q) (hskip : Filter.skipQuantifier q bs = some rest)
    (hitems : st.group.items = node :: items) :
    ∃ (st' : State) (wrap : Node → Node), Ahead st' fin (rest ++ t) ∧ st'.group.items = wrap node :: items
      ∧ (q = 43 → ∃ greedy, wrap = .plus greedy) := by
  obtain ⟨htop, s, hchars, hreads⟩ := h
  cases hreads with
  | done => cases chars?_nil hchars
  | @step _ st' _ c s r htook hrest =>
  have hflagless := htook.flagless htop.flagless
  have hplain : c.toNat < 0x80 → q = Bytes.ofChar c ∧ chars? (bs ++ t) = some s := by
    intro hc
    obtain ⟨x, hx, hrest⟩ := chars?_plain hc hchars
    obtain ⟨rfl, rfl⟩ := List.cons.inj hx
    exact ⟨rfl, hrest⟩
  cases htook with
  | literal hc =>
    simp only [Filter.isQuantifier, Bool.or_eq_true, beq_iff_eq] at hq
    have hc' : some c = some (Char.ofNat q.toNat) :=
      head?_of_byte (by rcases hq with ((rfl | rfl) | rfl) | rfl <;> decide) hchars rfl
    obtain rfl := Option.some.inj hc'
    rcases hq with ((rfl | rfl) | rfl) | rfl <;> exact absurd (by decide) hc
  | dot | caret | dollar | bar | escape | set | opens | closes =>
    obtain ⟨rfl, -⟩ := hplain (by decide)
    exact absurd hq (by decide)
  | @again _ _ _ a items' wrap hrepeats hrep hitems' hplus =>
    obtain ⟨rfl, rfl⟩ := List.cons.inj (hitems'.symm.trans hitems)
    cases hrepeats with
    | sign hsign =>
      have hc : c.toNat < 0x80 := by rcases hsign with rfl | rfl | rfl <;> decide
      obtain ⟨rfl, hbehind⟩ := hplain hc
      have hbrace : Bytes.ofChar c ≠ 123 := by rcases hsign with rfl | rfl | rfl <;> decide
      obtain rfl := Option.some.inj ((skipQuantifier_sign hbrace bs).symm.trans hskip)
      refine ⟨_, wrap, ⟨⟨hflagless, htop.outer, htop.branches⟩, _, chars?_afterMark ht hbehind, hrest⟩, rfl,
        fun h43 => hplus ?_⟩
      rcases hsign with rfl | rfl | rfl
      · cases h43
      · rfl
      · cases h43
    | @counts _ r n hcounts =>
      obtain ⟨rfl, hbehind⟩ := hplain (by decide)
      -- Counts hold no closing brace, so that the first one ends them.
      obtain ⟨pre, rfl, hpre⟩ := takeCounts_cases hcounts
      have hclose : '}' ∉ pre := fun hmem => by rcases hpre _ hmem with hdigit | hcomma <;> contradiction
      obtain ⟨y, hdrop, hy⟩ := dropWhile_body hclose hbehind
      obtain ⟨r', rfl, rfl⟩ := skipQuantifier_brace hdrop hskip
      exact ⟨_, wrap, ⟨⟨hflagless, htop.outer, htop.branches⟩, _, chars?_afterMark ht hy, hrest⟩, rfl,
        fun h => by cases h⟩

end RecordMill.Pattern

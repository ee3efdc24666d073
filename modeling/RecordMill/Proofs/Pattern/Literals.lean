import Mathlib
import RecordMill.Pattern.Basic
import RecordMill.Proofs.Pattern.Scanning

/-!
# Literals of every match

A match of the items goes through the text of the subject, and what the scan has gathered from the same items
stands there.
-/

namespace RecordMill.Pattern

variable {cs : Subject} {i j k : Nat}

/-! ## Items in a row -/

/-- The items, latest first, match one after another. -/
def SpansRow (cs : Subject) : List Node → Nat → Nat → Prop
  | [], i, j => i = j
  | node :: items, i, k => ∃ j, SpansRow cs items i j ∧ node.Spans cs j k

theorem Group.spansRow_of_branch {g : Group} (h : g.branch.Spans cs i j) : SpansRow cs g.items i j := by
  unfold Group.branch at h
  generalize g.items = items at h
  induction items generalizing j with
  | nil => exact h
  | cons node items ih =>
    -- The latest item is the right part of the outermost pair.
    rw [List.reverse_cons] at h
    cases hfirst : items.reverse with
    | nil =>
      rw [hfirst] at h
      obtain rfl := List.reverse_eq_nil_iff.1 hfirst
      exact ⟨i, rfl, h⟩
    | cons a rest =>
      rw [hfirst] at h ih
      dsimp only [List.cons_append] at h
      rw [List.foldl_append] at h
      obtain ⟨l, hl, hnode⟩ := h
      exact ⟨l, ih hl, hnode⟩

theorem CharSet.eq_of_has_single {c code : Nat} (h : (CharSet.single false c).has code) : code = c := by
  simp only [has, single, groupHas, Category.inRuns, List.any_cons, List.any_nil, Bool.or_false, Bool.bne_false,
    Bool.and_eq_true,
    decide_eq_true_eq, Bool.false_eq_true, if_false] at h
  omega

/-! ## What a filter asks for -/

/-- A run of bytes below 128 stands at a place of the subject. -/
structure Found (cs : Subject) (run : Bytes) (p : Nat) : Prop where
  plain : ∀ b ∈ run, b < 0x80
  stands : Stands cs run p

theorem Found.nil (cs : Subject) (p : Nat) : Found cs [] p := ⟨nofun, .nil cs p⟩

theorem Found.push {run : Bytes} {p : Nat} {b : UInt8} (h : Found cs run p) (hb : b < 0x80)
    (hnext : cs[p + run.length]? = some b.toNat) : Found cs (run ++ [b]) p := by
  refine ⟨fun c hc => ?_, h.stands.push hnext⟩
  rcases List.mem_append.1 hc with hc | hc
  · exact h.plain c hc
  · rwa [List.mem_singleton.1 hc]

namespace Filter

structure Met (cs : Subject) (f : Filter) : Prop where
  lead : Found cs f.lead 0
  tail : ∃ p, Found cs f.tail p ∧ p + f.tail.length = cs.size
  required : ∀ r ∈ f.required, ∃ p, Found cs r p

theorem Met.empty (cs : Subject) : Met cs {} := ⟨.nil cs 0, ⟨cs.size, .nil cs cs.size, rfl⟩, nofun⟩

theorem Met.keeps {f : Filter} {s : Bytes} (h : f.Met (subject (Utf8.units s))) : f.rejects s = false := by
  have hlead : Bytes.startsWith s f.lead := by
    obtain ⟨a, z, hs, ha, -⟩ := h.lead.stands.in_text h.lead.plain
    rw [ha rfl] at hs
    exact List.isPrefixOf_iff_prefix.2 ⟨z, hs.symm⟩
  have htail : Bytes.endsWith s f.tail := by
    obtain ⟨p, hfound, hend⟩ := h.tail
    obtain ⟨a, z, hs, -, hz⟩ := hfound.stands.in_text hfound.plain
    rw [hz hend, List.append_nil] at hs
    exact List.isSuffixOf_iff_suffix.2 ⟨a, hs.symm⟩
  have hrequired : ∀ r ∈ f.required, Bytes.contains r s := by
    intro r hr
    obtain ⟨p, hfound⟩ := h.required r hr
    obtain ⟨a, z, rfl, -⟩ := hfound.stands.in_text hfound.plain
    exact Bytes.contains_of_append a r z
  simp only [rejects, hlead, htail, Bool.not_true, Bool.false_or, List.any_eq_false, Bool.not_eq_true',
    Bool.not_eq_false]
  exact hrequired

/-! ## What the scan has gathered -/

/-- The scan has gone through items that match from `i` to `j`. -/
structure Gathered (cs : Subject) (anchored : Bool) (sc : Scan) (i j : Nat) : Prop where
  start : anchored → i = 0
  filter : sc.filter.Met cs
  run : ∃ p, Found cs sc.run p ∧ p + sc.run.length = j ∧ (sc.leading → p = i)

variable {anchored : Bool} {sc sc' : Scan}

theorem Gathered.flush (h : Gathered cs anchored sc i j) (k : Nat) : Gathered cs anchored (sc.flush anchored) i k := by
  obtain ⟨p, hfound, -, hleading⟩ := h.run
  refine ⟨h.start, ?_, k, .nil cs k, rfl, nofun⟩
  unfold Scan.flush
  dsimp only
  split
  · exact h.filter
  split
  · next hlead =>
    -- Nothing but literals stands in front of the run, so it begins where the match does.
    rw [Bool.and_eq_true] at hlead
    obtain rfl : p = 0 := (hleading hlead.1).trans (h.start hlead.2)
    exact ⟨hfound, h.filter.tail, h.filter.required⟩
  split
  · refine ⟨h.filter.lead, h.filter.tail, fun r hr => ?_⟩
    rcases List.mem_append.1 hr with hr | hr
    · exact h.filter.required r hr
    · rw [List.mem_singleton.1 hr]
      exact ⟨p, hfound⟩
  · exact h.filter

theorem Gathered.push {b : UInt8} (h : Gathered cs anchored sc i j) (hb : b < 0x80) (hnext : cs[j]? = some b.toNat) :
    Gathered cs anchored { sc with run := sc.run ++ [b] } i (j + 1) := by
  obtain ⟨p, hfound, hj, hleading⟩ := h.run
  refine ⟨h.start, h.filter, p, hfound.push hb (by rwa [hj]), ?_, hleading⟩
  rw [List.length_append, List.length_singleton]
  omega

theorem Gathered.add {literal q : Option UInt8} {node item : Node} (h : Gathered cs anchored sc i j)
    (hliteral : ∀ b, literal = some b → b < 0x80 ∧ node = .set (.single false b.toNat)) (hitem : q = none → item = node)
    (hplus : q = some 43 → ∃ greedy, item = .plus greedy node) (hspans : item.Spans cs j k) :
    Gathered cs anchored (sc.add anchored literal q) i k := by
  have hbyte : ∀ b l, literal = some b → node.Spans cs j l → l = j + 1
      ∧ Gathered cs anchored { sc with run := sc.run ++ [b] } i (j + 1) := by
    intro b l hb hnode
    obtain ⟨hlow, rfl⟩ := hliteral b hb
    obtain ⟨⟨c, hc, hhas⟩, hl⟩ := hnode
    exact ⟨hl, h.push hlow (by rw [hc, CharSet.eq_of_has_single hhas])⟩
  unfold Scan.add
  split
  · exact h.flush k
  · next b =>
    rw [hitem rfl] at hspans
    obtain ⟨rfl, hpushed⟩ := hbyte b k rfl hspans
    exact hpushed
  · next b =>
    -- The first round takes the byte; the others may take more of them.
    obtain ⟨greedy, rfl⟩ := hplus rfl
    obtain ⟨n, l, hfirst, -⟩ := hspans
    exact (hbyte b l rfl hfirst).2.flush k
  · exact h.flush k

/-! ## The scan -/

theorem length_of_skipGroup {depth : Nat} {s r : Bytes} (h : skipGroup depth s = some r) : r.length ≤ s.length := by
  fun_induction skipGroup depth s with
  | case1 | case3 => cases h
  | case2 _ _ _ ih | case4 _ _ _ _ _ ih | case5 _ _ ih | case7 _ _ _ ih | case8 _ _ _ _ _ _ _ ih =>
    have := ih h
    simp only [List.length_cons]
    omega
  | case6 =>
    cases h
    exact Nat.le_succ _

theorem length_of_piece {literal : Option UInt8} {s rest : Bytes} (h : piece? s = some (literal, rest)) :
    rest.length < s.length := by
  cases s with
  | nil => cases h
  | cons c s =>
  rw [List.length_cons, Nat.lt_succ_iff]
  unfold piece? at h
  dsimp only at h
  split at h
  · cases h
  split at h
  · obtain ⟨r, hskip, hr⟩ := Option.map_eq_some_iff.1 h
    cases hr
    exact length_of_skipGroup hskip
  split at h
  · obtain ⟨r, hskip, hr⟩ := Option.map_eq_some_iff.1 h
    cases hr
    exact skipSet_length_le _ _ hskip
  split at h
  · split at h
    · cases h
    · cases h
      exact Nat.le_succ _
  split at h
  · cases h
    exact Nat.le_refl _
  split at h
  · split at h
    · cases h
      rw [List.length_drop]
      exact Nat.sub_le _ _
    · cases h
      exact Nat.le_refl _
  · cases h
    exact Nat.le_refl _

theorem length_of_skipQuantifier {q : UInt8} {s rest : Bytes} (h : skipQuantifier q s = some rest) :
    rest.length ≤ s.length := by
  unfold skipQuantifier at h
  obtain ⟨r, hr, hrest⟩ := Option.map_eq_some_iff.1 h
  have hle : r.length ≤ s.length := by
    split at hr
    · have hdrop := (List.dropWhile_suffix (fun b : UInt8 => decide (b ≠ 125)) (l := s)).length_le
      split at hr
      · cases hr
      · next hs =>
        cases hr
        rw [hs, List.length_cons] at hdrop
        omega
    · cases hr
      exact Nat.le_refl _
  rw [← hrest]
  split
  · rw [List.length_tail]
    omega
  · exact hle

end Filter

theorem gathered_of_scan {st fin : State} {anchored : Bool} {sc sc' : Filter.Scan} {s t : Bytes} {fuel : Nat}
    (hfuel : s.length ≤ fuel) (ht : Tail t) (hfin : fin.outer = []) (hst : Ahead st fin (s ++ t))
    (hitems : ∀ j, SpansRow cs st.group.items i j → Filter.Gathered cs anchored sc i j)
    (hscan : Filter.scan anchored fuel sc s = some sc') :
    ∃ st', Ahead st' fin t ∧ ∀ j, SpansRow cs st'.group.items i j → Filter.Gathered cs anchored sc' i j := by
  induction fuel generalizing st sc s with
  | zero =>
    obtain rfl := List.length_eq_zero_iff.1 (Nat.le_zero.1 hfuel)
    cases hscan
    exact ⟨st, hst, hitems⟩
  | succ fuel ih =>
    cases s with
    | nil =>
      cases hscan
      exact ⟨st, hst, hitems⟩
    | cons c tail =>
    rw [Filter.scan.eq_3 _ _ _ _ (List.cons_ne_nil c tail)] at hscan
    cases hpiece : Filter.piece? (c :: tail) with
    | none =>
      rw [hpiece] at hscan
      cases hscan
    | some x =>
    obtain ⟨literal, rest⟩ := x
    rw [hpiece] at hscan
    have hlength := Filter.length_of_piece hpiece
    obtain ⟨st₁, node, hst₁, hitems₁, hliteral⟩ := piece_reads hfin ht hst (List.cons_ne_nil c tail) hpiece
    have halone : ∀ j, SpansRow cs st₁.group.items i j →
        Filter.Gathered cs anchored (sc.add anchored literal none) i j := by
      intro j hrow
      rw [hitems₁] at hrow
      obtain ⟨l, hl, hnode⟩ := hrow
      exact (hitems l hl).add hliteral (fun _ => rfl) nofun hnode
    cases rest with
    | nil => exact ih (Nat.zero_le _) hst₁ halone hscan
    | cons q after =>
    dsimp only at hscan
    split at hscan
    · next hq =>
      cases hskip : Filter.skipQuantifier q after with
      | none =>
        rw [hskip] at hscan
        cases hscan
      | some r =>
      rw [hskip] at hscan
      have hless := Filter.length_of_skipQuantifier hskip
      obtain ⟨st₂, wrap, hst₂, hitems₂, hplus⟩ := quantifier_reads ht hst₁ hq hskip hitems₁
      refine ih (by simp only [List.length_cons] at hlength hfuel; omega) hst₂ (fun j hrow => ?_) hscan
      rw [hitems₂] at hrow
      obtain ⟨l, hl, hnode⟩ := hrow
      refine (hitems l hl).add hliteral nofun (fun hq => ?_) hnode
      obtain ⟨greedy, rfl⟩ := hplus (Option.some.inj hq)
      exact ⟨greedy, rfl⟩
    · exact ih (by simp only [List.length_cons] at hlength hfuel ⊢; omega) hst₁ halone hscan

/-! ## The ends of a pattern -/

theorem Filter.Gathered.finish {anchored anchoredEnd : Bool} {sc : Scan} (h : Gathered cs anchored sc i j)
    (hend : anchoredEnd → j = cs.size) : (sc.finish anchored anchoredEnd).Met cs := by
  unfold Scan.finish
  split
  · next hboth =>
    rw [Bool.and_eq_true] at hboth
    obtain ⟨p, hfound, hj, hleading⟩ := h.run
    refine ⟨?_, ⟨p, hfound, hj.trans (hend hboth.1)⟩, h.filter.required⟩
    dsimp only
    split
    · next hlead =>
      rw [Bool.and_eq_true] at hlead
      obtain rfl : p = 0 := (hleading hlead.1).trans (h.start hlead.2)
      exact hfound
    · exact h.filter.lead
  · exact (h.flush j).filter

variable {fin : State}

theorem ahead_of_reads {pattern : Bytes} {s : List Char} (hchars : chars? pattern = some s) (hreads : Reads {} s fin) :
    ∃ st, Ahead st fin (if pattern.head? = some 94 then pattern.tail else pattern)
      ∧ ∀ cs i j, SpansRow cs st.group.items i j → i = j ∧ (pattern.head? = some 94 → i = 0) := by
  have htop : Top {} := ⟨⟨rfl, rfl, nofun⟩, rfl, rfl⟩
  split
  · next hcaret =>
    have hs := head?_of_byte (by decide) hchars hcaret
    cases hreads with
    | done => cases hs
    | @step _ st' _ c s r htook hrest =>
    obtain rfl := Option.some.inj hs
    obtain ⟨bs, rfl, hbs⟩ := chars?_plain (by decide) hchars
    cases htook with
    | literal hc => exact absurd (by decide) hc
    | again hrepeats =>
      cases hrepeats with
      | sign hq => rcases hq with hq | hq | hq <;> exact absurd hq (by decide)
    | caret =>
      refine ⟨_, ⟨⟨⟨rfl, rfl, fun g hg => by cases hg⟩, rfl, rfl⟩, s, hbs, hrest⟩, fun cs i j hrow => ?_⟩
      obtain ⟨l, rfl, hbegin, rfl⟩ := hrow
      exact ⟨rfl, fun _ => by simpa [Anchor.holds] using hbegin⟩
  · next hcaret => exact ⟨{}, ⟨htop, s, hchars, hreads⟩, fun cs i j hrow => ⟨hrow, fun h => absurd h hcaret⟩⟩

theorem Group.spansRow_of_node {g : Group} (hg : g.branches = []) (h : g.node.Spans cs i j) :
    SpansRow cs g.items i j := by
  unfold Group.node at h
  rw [hg] at h
  exact spansRow_of_branch h

theorem spansRow_of_ahead {st : State} {anchoredEnd : Bool} (h : Ahead st fin (if anchoredEnd then [36] else []))
    (hspans : fin.group.node.Spans cs i j) :
    ∃ k, SpansRow cs st.group.items i k ∧ (anchoredEnd → k = cs.size) := by
  obtain ⟨htop, s, hchars, hreads⟩ := h
  cases anchoredEnd with
  | false =>
    rw [if_neg Bool.false_ne_true, chars?_of_nil] at hchars
    cases hchars
    cases hreads
    exact ⟨j, Group.spansRow_of_node htop.branches hspans, nofun⟩
  | true =>
    rw [if_pos rfl] at hchars
    have hs := head?_of_byte (by decide) hchars rfl
    cases hreads with
    | done => cases hs
    | @step _ st' _ c s r htook hrest =>
    obtain rfl := Option.some.inj hs
    obtain ⟨bs, hbs, hbehind⟩ := chars?_plain (by decide) hchars
    obtain ⟨-, rfl⟩ := List.cons.inj hbs
    rw [chars?_of_nil] at hbehind
    cases hbehind
    cases htook with
    | literal hc => exact absurd (by decide) hc
    | again hrepeats =>
      cases hrepeats with
      | sign hq => rcases hq with hq | hq | hq <;> exact absurd hq (by decide)
    | dollar =>
      cases hrest
      obtain ⟨k, hk, hend, -⟩ := Group.spansRow_of_node (by exact htop.branches) hspans
      rw [htop.flagless.flags] at hend
      exact ⟨k, hk, fun _ => by simpa [Anchor.holds] using hend⟩

def endMark (anchoredEnd : Bool) : Bytes := if anchoredEnd then [36] else []

theorem tail_endMark (anchoredEnd : Bool) : Tail (endMark anchoredEnd) := by
  cases anchoredEnd with
  | false => exact ⟨nofun, by decide⟩
  | true => exact ⟨List.forall_mem_singleton.2 (by decide), by decide⟩

/-- A filter is what the scan of the pattern without its anchors comes to, if there are no flags. -/
theorem Filter.ofPattern_cases (pattern : Bytes) : ofPattern? pattern = none ∨ ∃ anchoredEnd body,
    body ++ endMark anchoredEnd = (if pattern.head? = some 94 then pattern.tail else pattern)
    ∧ ofPattern? pattern = (scan (decide (pattern.head? = some 94)) body.length {} body).bind fun st =>
      let f := st.finish (decide (pattern.head? = some 94)) anchoredEnd
      if f = {} then none else some f := by
  unfold ofPattern?
  split
  · exact .inl rfl
  dsimp only
  generalize (if pattern.head? = some 94 then pattern.tail else pattern) = p
  have hsplit : (p.getLast? = some 36 && !isEscapedAfter p.dropLast) → p.dropLast ++ [36] = p := by
    intro hend
    rw [Bool.and_eq_true, decide_eq_true_iff] at hend
    obtain ⟨q, rfl⟩ := List.getLast?_eq_some_iff.1 hend.1
    rw [List.dropLast_concat]
  generalize (decide (p.getLast? = some 36) && !isEscapedAfter p.dropLast) = anchoredEnd at hsplit
  refine .inr ⟨anchoredEnd, if anchoredEnd then p.dropLast else p, ?_, rfl⟩
  cases anchoredEnd with
  | false => exact List.append_nil p
  | true => exact hsplit rfl

theorem Filter.met_of_spans {pattern : Bytes} {s : List Char} {f : Filter} (hchars : chars? pattern = some s)
    (hreads : Reads {} s fin) (hfin : fin.outer = []) (hfilter : ofPattern? pattern = some f)
    (hspans : fin.group.node.Spans cs i j) : f.Met cs := by
  obtain ⟨st₀, hst₀, hstart⟩ := ahead_of_reads hchars hreads
  rcases ofPattern_cases pattern with hnone | ⟨anchoredEnd, body, hbody, hvalue⟩
  · rw [hnone] at hfilter
    cases hfilter
  rw [hvalue] at hfilter
  obtain ⟨sc, hscan, hf⟩ := Option.bind_eq_some_iff.1 hfilter
  have hgathered : ∀ l, SpansRow cs st₀.group.items i l → Gathered cs (decide (pattern.head? = some 94)) {} i l := by
    intro l hrow
    obtain ⟨hl, hzero⟩ := hstart cs i l hrow
    exact ⟨fun h => hzero (of_decide_eq_true h), .empty cs, l, .nil cs l, rfl, fun _ => hl.symm⟩
  obtain ⟨st₁, hst₁, hscanned⟩ := gathered_of_scan (Nat.le_refl _) (tail_endMark anchoredEnd) hfin
    (hbody.symm ▸ hst₀) hgathered hscan
  obtain ⟨l, hrow, hend⟩ := spansRow_of_ahead hst₁ hspans
  have hmet := (hscanned l hrow).finish hend
  dsimp only at hf
  split at hf
  · cases hf
  · rwa [← Option.some.inj hf]

/-! ## Compiled patterns -/

theorem reads_of_compile {longest : Bool} {pattern : Bytes} {chars : List Char} {p : Pattern}
    (hchars : chars? pattern = some chars) (hplain : Plain chars) (h : compile longest pattern = .ok p) :
    ∃ fin, Reads {} chars fin ∧ fin.outer = [] ∧ p.node = fin.group.node ∧ p.filter = Filter.ofPattern? pattern := by
  unfold compile at h
  cases hparse : parse pattern with
  | error e =>
    rw [hparse] at h
    cases h
  | ok node =>
  rw [hparse] at h
  cases h
  unfold parse at hparse
  rw [hchars] at hparse
  dsimp only at hparse
  cases hread : readAll chars.length {} chars with
  | error e =>
    rw [hread] at hparse
    cases hparse
  | ok fin =>
  rw [hread] at hparse
  change (if !fin.outer.isEmpty then _ else _) = _ at hparse
  split at hparse
  · cases hparse
  next houter =>
  change (if fin.group.node.height.alone > maxHeight then _ else _) = _ at hparse
  split at hparse
  · cases hparse
  · cases hparse
    exact ⟨fin, reads_of_readAll hplain (Nat.le_refl _) hread, by simpa using houter, rfl, rfl⟩

/-- A filter turns no subject away that the pattern matches in, and so changes no answer. -/
theorem matches_kept_by_filter {longest : Bool} {pattern : Bytes} {chars : List Char} {p : Pattern}
    (hchars : chars? pattern = some chars) (hplain : Plain chars) (hcompile : compile longest pattern = .ok p)
    (s : Bytes) :
    (∀ f, p.filter = some f → p.node.Occurs (subject (Utf8.units s)) → f.rejects s = false)
      ∧ p.isMatch s = p.node.occursIn (subject (Utf8.units s)) := by
  obtain ⟨fin, hreads, houter, hnode, hfilter⟩ := reads_of_compile hchars hplain hcompile
  have hkept : ∀ f, p.filter = some f → p.node.Occurs (subject (Utf8.units s)) → f.rejects s = false := by
    rintro f hf ⟨i, j, -, hspans⟩
    rw [hnode] at hspans
    exact (Filter.met_of_spans hchars hreads houter (hfilter.symm.trans hf) hspans).keeps
  refine ⟨hkept, ?_⟩
  unfold isMatch
  split
  · next hrejects =>
    cases hf : p.filter with
    | none =>
      rw [hf] at hrejects
      cases hrejects
    | some f =>
      rw [hf] at hrejects
      have hrejects : f.rejects s = true := hrejects
      have hno : ¬ p.node.occursIn (subject (Utf8.units s)) := by
        intro hoccurs
        rw [hkept f hf (Node.occurs_of_occursIn hoccurs)] at hrejects
        cases hrejects
      rw [Bool.not_eq_true] at hno
      exact hno.symm
  · rfl

theorem matches_kept_by_filter_anchored : ∃ p f, compile false (text "^ab[0-9]+c$") = .ok p ∧ p.filter = some f
    ∧ p.node.Occurs (subject (Utf8.units (text "ab12c"))) ∧ f.rejects (text "ab12c") = false := by
  have hchars : chars? (text "^ab[0-9]+c$") = some "^ab[0-9]+c$".toList := by cbv
  have hset : SetText true (afterCaret "0-9]+c$".toList) "+c$".toList :=
    .item (by decide) (by decide) (by cbv) (.close _)
  have hplain : Plain "^ab[0-9]+c$".toList := by
    refine .char ?_ ?_ ?_ ?_ (.char ?_ ?_ ?_ ?_
      (.char ?_ ?_ ?_ ?_ (.set hset (.char ?_ ?_ ?_ ?_ (.char ?_ ?_ ?_ ?_ (.char ?_ ?_ ?_ ?_ .nil))))))
      <;> decide
  have hvalue : (compile false (text "^ab[0-9]+c$")).toOption.map (fun p =>
      (p.filter, p.node.occursIn (subject (Utf8.units (text "ab12c")))))
          = some (some { lead := text "ab", tail := text "c" }, true) := by
    cbv
  cases hcompile : compile false (text "^ab[0-9]+c$") with
  | error e =>
    rw [hcompile] at hvalue
    cases hvalue
  | ok p =>
    rw [hcompile] at hvalue
    obtain ⟨hfilter, hoccurs⟩ := Prod.mk.inj (Option.some.inj hvalue)
    have hmatch := Node.occurs_of_occursIn hoccurs
    exact ⟨p, _, rfl, hfilter, hmatch, (matches_kept_by_filter hchars hplain hcompile _).1 _ hfilter hmatch⟩

/-- A bracket that ends a range is taken for the start of a name where a colon follows it, and the set is left too
late. -/
theorem match_lost_by_filter : (compile false (text "[!-[:]|:]]ab")).toOption.map (fun p =>
    (p.filter, p.node.occursIn (subject (Utf8.units (text "!"))), p.isMatch (text "!")))
      = some (some { required := [text "ab"] }, true, false) := by
  cbv

end RecordMill.Pattern

import RecordMill.Pattern.Path

/-!
# What patterns match

A pattern matches from one place of a subject to another. Whatever the search by sets of places finds is
such a match.
-/

namespace RecordMill.Pattern

/-! ## Rounds -/

def Rounds (R : Nat → Nat → Prop) : Nat → Nat → Nat → Prop
  | 0, i, j => i = j
  | n + 1, i, k => ∃ j, R i j ∧ Rounds R n j k

namespace Rounds

variable {R Q : Nat → Nat → Prop} {m n i j k : Nat}

theorem one (h : R i j) : Rounds R 1 i j := ⟨j, h, rfl⟩

theorem trans (h : Rounds R m i j) (h' : Rounds R n j k) : Rounds R (m + n) i k := by
  induction m generalizing i with
  | zero =>
    obtain rfl : i = j := h
    rw [Nat.zero_add]
    exact h'
  | succ m ih =>
    obtain ⟨l, hl, hrest⟩ := h
    rw [Nat.succ_add]
    exact ⟨l, hl, ih hrest⟩

theorem mono (hRQ : ∀ i j, R i j → Q i j) (h : Rounds R n i j) : Rounds Q n i j := by
  induction n generalizing i with
  | zero => exact h
  | succ n ih =>
    obtain ⟨l, hl, hrest⟩ := h
    exact ⟨l, hRQ _ _ hl, ih hrest⟩

end Rounds

/-! ## Patterns -/

def Node.Spans (cs : Subject) : Node → Nat → Nat → Prop
  | .empty, i, j => i = j
  | .set s, i, j => (∃ c, cs[i]? = some c ∧ s.has c) ∧ j = i + 1
  | .anchor a, i, j => a.holds cs i ∧ i = j
  | .group a, i, j => a.Spans cs i j
  | .cat a b, i, k => ∃ j, a.Spans cs i j ∧ b.Spans cs j k
  | .alt a b, i, j => a.Spans cs i j ∨ b.Spans cs i j
  | .opt _ a, i, j => i = j ∨ a.Spans cs i j
  | .star _ a, i, j => ∃ n, Rounds (a.Spans cs) n i j
  | .plus _ a, i, j => ∃ n, Rounds (a.Spans cs) (n + 1) i j
  -- A maximum below the minimum, which no pattern can be written with, is none.
  | .times _ min max a, i, j => ∃ n, min ≤ n ∧ (∀ m, max = some m → n ≤ m ∨ n = min) ∧ Rounds (a.Spans cs) n i j

def Node.Occurs (node : Node) (cs : Subject) : Prop := ∃ i j, j ≤ cs.size ∧ node.Spans cs i j

/-! ## Sets of places -/

namespace Places

variable {R Q : Nat → Nat → Prop} {n : Nat} {s t u : Places}

theorem testBit_all (n i : Nat) : (all n).testBit i = decide (i < n) := by
  rw [all, Nat.one_shiftLeft, Nat.testBit_two_pow_sub_one]

theorem testBit_within (s : Places) (n i : Nat) : (s.within n).testBit i = (s.testBit i && decide (i < n)) := by
  rw [within, Nat.testBit_and, testBit_all]

theorem testBit_single (n i : Nat) : (single n).testBit i = decide (n = i) := by
  rw [single, Nat.one_shiftLeft, Nat.testBit_two_pow]

theorem of_testBit_collect {p : Nat → Bool} {start n i : Nat} (h : (collect p start n).testBit i) :
    i < n ∧ p (start + i) := by
  fun_induction collect p start n generalizing i with
  | case1 start n hn hone =>
    obtain ⟨rfl, hp⟩ : n = 1 ∧ p start := by simpa using hone
    obtain rfl : i = 0 := by simpa [Nat.testBit_one_eq_true_iff_self_eq_zero] using h
    exact ⟨Nat.one_pos, hp⟩
  | case2 start n hn hone => simp at h
  | case3 start n hn ih₁ ih₂ =>
    rw [Nat.testBit_or, Bool.or_eq_true, Nat.testBit_shiftLeft, Bool.and_eq_true, decide_eq_true_iff] at h
    rcases h with h | ⟨hle, h⟩
    · obtain ⟨hlt, hp⟩ := ih₁ h
      exact ⟨by omega, hp⟩
    · obtain ⟨hlt, hp⟩ := ih₂ h
      exact ⟨by omega, by rwa [show start + i = start + n / 2 + (i - n / 2) by omega]⟩

/-- Only the first `n` places. -/
def Below (n : Nat) (s : Places) : Prop := ∀ i, s.testBit i → i < n

/-- Every place of `t` is one of the first `n`, and from it there is a step into `s`. -/
def LeadsTo (R : Nat → Nat → Prop) (n : Nat) (t s : Places) :
    Prop :=
  ∀ i, t.testBit i → i < n ∧ ∃ j, s.testBit j ∧ R i j

theorem LeadsTo.below (h : LeadsTo R n t s) : Below n t := fun i hi => (h i hi).1

theorem LeadsTo.mono (hRQ : ∀ i j, R i j → Q i j) (h : LeadsTo R n t s) : LeadsTo Q n t s := by
  intro i hi
  obtain ⟨hlt, j, hj, hR⟩ := h i hi
  exact ⟨hlt, j, hj, hRQ _ _ hR⟩

theorem LeadsTo.trans (h : LeadsTo R n u t) (h' : LeadsTo Q n t s) : LeadsTo (fun i k => ∃ j, R i j ∧ Q j k) n u s := by
  intro i hi
  obtain ⟨hlt, j, hj, hR⟩ := h i hi
  obtain ⟨-, k, hk, hQ⟩ := h' j hj
  exact ⟨hlt, k, hk, j, hR, hQ⟩

theorem LeadsTo.or (h : LeadsTo R n t s) (h' : LeadsTo R n u s) : LeadsTo R n (t ||| u) s := by
  intro i hi
  rw [Nat.testBit_or, Bool.or_eq_true] at hi
  exact hi.elim (h i) (h' i)

theorem Below.leadsTo (h : Below n s) (hR : ∀ i, R i i) : LeadsTo R n s s := fun i hi => ⟨h i hi, i, hi, hR i⟩

theorem leadsTo_close {f : Places → Places} (hf : ∀ s, Below n s → LeadsTo R n (f s) s) (k : Nat) (hs : Below n s) :
    LeadsTo (fun i j => ∃ m, m ≤ k ∧ Rounds R m i j) n (close f k s) s := by
  induction k generalizing s with
  | zero => exact hs.leadsTo fun i => ⟨0, Nat.le_refl 0, rfl⟩
  | succ k ih =>
    rw [close]
    split
    · exact hs.leadsTo fun i => ⟨0, Nat.zero_le _, rfl⟩
    · have hfirst : LeadsTo (fun i j => i = j ∨ R i j) n (s ||| f s) s :=
        (hs.leadsTo fun i => .inl rfl).or ((hf s hs).mono fun i j => .inr)
      refine ((ih hfirst.below).trans hfirst).mono ?_
      rintro i l ⟨j, ⟨m, hm, hrounds⟩, rfl | hR⟩
      · exact ⟨m, by omega, hrounds⟩
      · exact ⟨m + 1, by omega, hrounds.trans (.one hR)⟩

theorem leadsTo_iterate {f : Places → Places} (hf : ∀ s, Below n s → LeadsTo R n (f s) s) (k : Nat) (met : Places)
    (hs : Below n s) :
    LeadsTo (Rounds R k) n (iterate f k s met).1 s := by
  induction k generalizing s met with
  | zero => exact hs.leadsTo fun i => rfl
  | succ k ih =>
    rw [iterate]
    have hfirst := hf s hs
    split
    · next hfix =>
      -- A set that the step leaves alone has steps inside itself, as many as one likes.
      rw [hfix] at hfirst
      have hinside : ∀ m, LeadsTo (Rounds R m) n s s := by
        intro m
        induction m with
        | zero => exact hs.leadsTo fun i => rfl
        | succ m ih => exact (hfirst.trans ih).mono fun i l ⟨j, hR, hrounds⟩ => ⟨j, hR, hrounds⟩
      exact hinside (k + 1)
    · refine ((ih _ hfirst.below).trans hfirst).mono ?_
      rintro i l ⟨j, hrounds, hR⟩
      exact hrounds.trans (.one hR)

theorem leadsTo_sweep (rounds width : Nat) {via : Places} (hvia : ∀ i, via.testBit i → ∃ m, Rounds R m i (i + width))
    (hs : Below n s) : LeadsTo (fun i j => ∃ m, Rounds R m i j) n (sweep rounds width via s) s := by
  induction rounds generalizing width via s with
  | zero => exact hs.leadsTo fun i => ⟨0, rfl⟩
  | succ rounds ih =>
    rw [sweep]
    have hfirst : LeadsTo (fun i j => ∃ m, Rounds R m i j) n (s ||| (s >>> width &&& via)) s := by
      refine (hs.leadsTo fun i => ⟨0, rfl⟩).or fun i hi => ?_
      rw [Nat.testBit_and, Bool.and_eq_true, Nat.testBit_shiftRight] at hi
      have := hs _ hi.1
      exact ⟨by omega, width + i, hi.1, by rw [Nat.add_comm]; exact hvia i hi.2⟩
    have hboth : ∀ i, (via &&& via >>> width).testBit i → ∃ m, Rounds R m i (i + 2 * width) := by
      intro i hi
      rw [Nat.testBit_and, Bool.and_eq_true, Nat.testBit_shiftRight] at hi
      obtain ⟨m, hm⟩ := hvia i hi.1
      obtain ⟨m', hm'⟩ := hvia _ hi.2
      rw [Nat.add_comm width i] at hm'
      exact ⟨m + m', by rw [show i + 2 * width = i + width + width by omega]; exact hm.trans hm'⟩
    refine ((ih (2 * width) hboth hfirst.below).trans hfirst).mono ?_
    rintro i l ⟨j, ⟨m, hm⟩, m', hm'⟩
    exact ⟨m + m', hm.trans hm'⟩

end Places

/-! ## Windows of a set -/

namespace Bits

open Places

def Fits (b : Bits) : Prop := ∀ w t, (b.words.getD w 0).testBit t → b.whole.testBit (wordSize * w + t)

theorem cut_spec (k : Nat) (s : Places) (acc : Array Places) : (cut k s acc).size = acc.size + max k 1
    ∧ (∀ w, w < acc.size → (cut k s acc).getD w 0 = acc.getD w 0)
    ∧ ∀ w t, acc.size ≤ w → ((cut k s acc).getD w 0).testBit t → s.testBit (wordSize * (w - acc.size) + t) := by
  fun_induction cut k s acc with
  | case1 k s acc hk =>
    refine ⟨by rw [Array.size_push]; omega, fun w hw => ?_, fun w t hw ht => ?_⟩
    · simp [Array.getD_eq_getD_getElem?, Array.getElem?_push_lt hw, hw]
    · rcases Nat.lt_or_eq_of_le hw with hlt | rfl
      · have hnone : (acc.push s)[w]? = none := Array.getElem?_eq_none (by rw [Array.size_push]; omega)
        simp [Array.getD_eq_getD_getElem?, hnone] at ht
      · simpa [Array.getD_eq_getD_getElem?] using ht
  | case2 k s acc hk ih₁ ih₂ =>
    obtain ⟨hsize₁, hold₁, hnew₁⟩ := ih₁
    obtain ⟨hsize₂, hold₂, hnew₂⟩ := ih₂
    refine ⟨by omega, fun w hw => ?_, fun w t hw ht => ?_⟩
    · rw [hold₂ w (by omega), hold₁ w hw]
    · by_cases hleft : w < acc.size + k / 2
      · rw [hold₂ w (by omega)] at ht
        have := hnew₁ w t hw ht
        rw [testBit_within, Bool.and_eq_true] at this
        exact this.1
      · have := hnew₂ w t (by omega) ht
        rw [Nat.testBit_shiftRight, hsize₁] at this
        rwa [show wordSize * (w - acc.size) + t
            = wordSize * (k / 2) + (wordSize * (w - (acc.size + max (k / 2) 1)) + t) by
          rw [← Nat.add_assoc, ← Nat.mul_add]; congr 2; omega]

theorem fits_ofPlaces (n : Nat) (s : Places) : (ofPlaces n s).Fits := by
  intro w t h
  show s.testBit (wordSize * w + t)
  simpa using (cut_spec ((n + wordSize - 1) / wordSize) s #[]).2.2 w t (Nat.zero_le _) h

variable {b : Bits}

theorem Fits.joined (hb : b.Fits) {i k t : Nat} (h : (b.joined i k).testBit t) :
    b.whole.testBit (wordSize * i + t) := by
  fun_induction Bits.joined b i k generalizing t with
  | case1 i k hk => exact hb i t h
  | case2 i k hk ih₁ ih₂ =>
    rw [Nat.testBit_or, Bool.or_eq_true, Nat.testBit_shiftLeft, Bool.and_eq_true, decide_eq_true_iff] at h
    rcases h with h | ⟨hle, h⟩
    · exact ih₁ h
    · have := ih₂ h
      rwa [show wordSize * i + t = wordSize * (i + k / 2) + (t - wordSize * (k / 2)) by rw [Nat.mul_add]; omega]

theorem Fits.slice (hb : b.Fits) {lo n i : Nat} (h : (b.slice lo n).testBit i) : i < n ∧ b.whole.testBit (lo + i) := by
  unfold Bits.slice at h
  split at h
  · next hlo =>
    rw [testBit_within, Bool.and_eq_true, decide_eq_true_iff] at h
    exact ⟨h.2, by rw [hlo, Nat.zero_add]; exact h.1⟩
  split at h
  · rw [testBit_within, Bool.and_eq_true, decide_eq_true_iff, Nat.testBit_shiftRight] at h
    exact ⟨h.2, h.1⟩
  · rw [testBit_within, Bool.and_eq_true, decide_eq_true_iff, Nat.testBit_shiftRight] at h
    have := hb.joined h.1
    rw [← Nat.add_assoc, Nat.div_add_mod] at this
    exact ⟨h.2, this⟩

end Bits

/-! ## Walks -/

theorem Rounds.shift {R : Nat → Nat → Prop} {lo n i j : Nat} (h : Rounds (fun i j => R (lo + i) (lo + j)) n i j) :
    Rounds R n (lo + i) (lo + j) := by
  induction n generalizing i with
  | zero => exact congrArg (lo + ·) h
  | succ n ih =>
    obtain ⟨l, hl, hrest⟩ := h
    exact ⟨lo + l, hl, ih hrest⟩

namespace Walk

open Places

variable {f g : Walk} {R Q : Nat → Nat → Prop}

/-- From every place that the walk leads back to there is a step into the set. -/
def Sound (f : Walk) (R : Nat → Nat → Prop) : Prop :=
  ∀ lo n s, Below n s → LeadsTo (fun i j => R (lo + i) (lo + j)) n (f lo n s) s

theorem Sound.comp (hf : f.Sound R) (hg : g.Sound Q) :
    Sound (fun lo n s => f lo n (g lo n s)) fun i k => ∃ j, R i j ∧ Q j k := by
  intro lo n s hs
  have hlast := hg lo n s hs
  refine ((hf lo n _ hlast.below).trans hlast).mono ?_
  rintro i k ⟨j, hR, hQ⟩
  exact ⟨lo + j, hR, hQ⟩

theorem Sound.closeBack (hf : f.Sound R) : Sound (Walk.closeBack f) fun i j => ∃ m, Rounds R m i j := by
  intro lo n s hs
  fun_induction Walk.closeBack f lo n s with
  | case1 => simp [LeadsTo]
  | case2 lo n s hzero hsmall =>
    refine (leadsTo_close (hf lo n) (n + 1) hs).mono ?_
    rintro i j ⟨m, -, hm⟩
    exact ⟨m, hm.shift⟩
  | case3 lo n s hzero hlarge right ihright ihleft =>
    have hright : LeadsTo (fun i j => ∃ m, Rounds R m (lo + i) (lo + j)) n right s := by
      intro i hi
      rw [Nat.testBit_shiftLeft, Bool.and_eq_true, decide_eq_true_iff] at hi
      have hshifted : Below (n - n / 2) (s >>> (n / 2)) := fun k hk => by
        rw [Nat.testBit_shiftRight] at hk
        have := hs _ hk
        omega
      obtain ⟨hlt, j, hj, m, hm⟩ := ihright hshifted (i - n / 2) hi.2
      rw [Nat.testBit_shiftRight] at hj
      refine ⟨by omega, n / 2 + j, hj, m, ?_⟩
      rw [show lo + i = lo + n / 2 + (i - n / 2) by omega, ← Nat.add_assoc]
      exact hm
    have hleft : Below (n / 2) ((s ||| f lo n right).within (n / 2)) := fun k hk => by
      rw [testBit_within, Bool.and_eq_true, decide_eq_true_iff] at hk
      exact hk.2
    refine LeadsTo.or (fun i hi => ?_) hright
    obtain ⟨hlt, j, hj, m, hm⟩ := ihleft hleft i hi
    rw [testBit_within, Bool.and_eq_true, Nat.testBit_or, Bool.or_eq_true] at hj
    refine ⟨by omega, ?_⟩
    rcases hj.1 with hj | hj
    · exact ⟨j, hj, m, hm⟩
    -- One step leads from the left half to the right one.
    · obtain ⟨-, k, hk, hR⟩ := hf lo n right hright.below j hj
      obtain ⟨-, l, hl, m', hm'⟩ := hright k hk
      exact ⟨l, hl, m + (1 + m'), hm.trans ((Rounds.one hR).trans hm')⟩

end Walk

/-! ## Paths -/

namespace Path

open Places

def Goes : Path → Nat → Nat → Prop
  | .stay via, i, j => via.whole.testBit i ∧ i = j
  | .move via, i, j => via.whole.testBit i ∧ j = i + 1
  | .cat a b, i, k => ∃ j, a.Goes i j ∧ b.Goes j k
  | .alt a b, i, j => a.Goes i j ∨ b.Goes i j
  | .opt _ a, i, j => i = j ∨ a.Goes i j
  | .star _ a, i, j => ∃ n, Rounds a.Goes n i j
  | .plus _ a, i, j => ∃ n, Rounds a.Goes (n + 1) i j
  | .upTo _ k a, i, j => ∃ n, n ≤ k ∧ Rounds a.Goes n i j
  | .exactly k a, i, j => Rounds a.Goes k i j

def Fits : Path → Prop
  | .stay via | .move via => via.Fits
  | .cat a b | .alt a b => a.Fits ∧ b.Fits
  | .opt _ a | .star _ a | .plus _ a | .upTo _ _ a | .exactly _ a => a.Fits

theorem Fits.starBack {a : Path} (ha : a.Fits) (hback : Walk.Sound a.back a.Goes) :
    Walk.Sound (Path.starBack a a.back) fun i j => ∃ m, Rounds a.Goes m i j := by
  cases a with
  | move via =>
    intro lo n s hs
    have hvia : ∀ i, (via.slice lo n).testBit i → ∃ m,
        Rounds (fun i j => (Path.move via).Goes (lo + i) (lo + j)) m i (i + 1) :=
      fun i hi => ⟨1, .one ⟨(Bits.Fits.slice ha hi).2, rfl⟩⟩
    refine (leadsTo_sweep (n.log2 + 2) 1 hvia hs).mono ?_
    rintro i j ⟨m, hm⟩
    exact ⟨m, hm.shift⟩
  | _ => exact hback.closeBack

theorem Fits.back {p : Path} (hp : p.Fits) : Walk.Sound p.back p.Goes := by
  induction p with
  | stay via =>
    intro lo n s hs i hi
    simp only [Path.back, Nat.testBit_and, Nat.testBit_or, testBit_single, Bool.and_eq_true, Bool.or_eq_true,
      decide_eq_true_iff] at hi
    have hlt := hs i hi.1
    rcases hi.2 with hvia | rfl
    · exact ⟨hlt, i, hi.1, (Bits.Fits.slice hp hvia).2, rfl⟩
    · omega
  | move via =>
    intro lo n s hs i hi
    simp only [Path.back, Nat.testBit_and, Nat.testBit_or, Nat.testBit_shiftRight, testBit_single, Bool.and_eq_true,
      Bool.or_eq_true, decide_eq_true_iff] at hi
    rcases hi with ⟨hnext, hvia⟩ | ⟨hi, rfl⟩
    · obtain ⟨hlt, hwhole⟩ := Bits.Fits.slice hp hvia
      exact ⟨hlt, 1 + i, hnext, hwhole, by omega⟩
    · exact absurd (hs _ hi) (Nat.lt_irrefl _)
  | cat a b iha ihb => exact (iha hp.1).comp (ihb hp.2)
  | alt a b iha ihb =>
    intro lo n s hs
    exact ((iha hp.1 lo n s hs).mono fun i j => .inl).or ((ihb hp.2 lo n s hs).mono fun i j => .inr)
  | opt greedy a iha =>
    intro lo n s hs
    exact (hs.leadsTo fun i => .inl rfl).or ((iha hp lo n s hs).mono fun i j => .inr)
  | star greedy a iha => exact Fits.starBack hp (iha hp)
  | plus greedy a iha =>
    intro lo n s hs
    have ha : a.Fits := hp
    refine ((iha ha).comp (ha.starBack (iha ha)) lo n s hs).mono ?_
    rintro i k ⟨j, hj, m, hm⟩
    exact ⟨m, j, hj, hm⟩
  | upTo greedy k a iha =>
    intro lo n s hs
    refine (leadsTo_close (iha hp lo n) k hs).mono ?_
    rintro i j ⟨m, hle, hm⟩
    exact ⟨m, hle, hm.shift⟩
  | exactly k a iha =>
    intro lo n s hs
    exact (leadsTo_iterate (iha hp lo n) k 0 hs).mono fun i j => Rounds.shift

end Path

/-! ## The path of a pattern -/

theorem Path.fits_either {size : Nat} {a b : Path} (ha : a.Fits) (hb : b.Fits) : (Path.either size a b).Fits := by
  unfold Path.either
  split
  · exact Bits.fits_ofPlaces _ _
  · exact ⟨ha, hb⟩

theorem Path.goes_either {size i j : Nat} {a b : Path} (h : (Path.either size a b).Goes i j) :
    a.Goes i j ∨ b.Goes i j := by
  unfold Path.either at h
  split at h
  · obtain ⟨hor, rfl⟩ := h
    simp only [Bits.ofPlaces, Nat.testBit_or, Bool.or_eq_true] at hor
    exact hor.imp (⟨·, rfl⟩) (⟨·, rfl⟩)
  · exact h

namespace Node

variable {cs : Subject}

theorem fits_path (node : Node) : (node.path cs).Fits := by
  induction node with
  | empty | set | anchor => exact Bits.fits_ofPlaces _ _
  | group a ih | opt _ a ih | star _ a ih | plus _ a ih => exact ih
  | cat a b iha ihb => exact ⟨iha, ihb⟩
  | alt a b iha ihb => exact Path.fits_either iha ihb
  | times greedy min max a ih =>
    cases max with
    | some max => exact ⟨ih, ih⟩
    | none =>
      cases min with
      | zero => exact ih
      | succ min => exact ⟨ih, ih⟩

theorem of_testBit_placesOf {p : Nat → Bool} {i : Nat} (h : (path.placesOf cs p).whole.testBit i) : p i := by
  have := (Places.of_testBit_collect h).2
  rwa [Nat.zero_add] at this

theorem spans_of_goes {node : Node} {i j : Nat} (h : (node.path cs).Goes i j) : node.Spans cs i j := by
  induction node generalizing i j with
  | empty => exact h.2
  | set s =>
    obtain ⟨hbit, hj⟩ := h
    have hhas := of_testBit_placesOf hbit
    cases hc : cs[i]? with
    | none => simp [hc] at hhas
    | some c =>
      rw [hc] at hhas
      exact ⟨⟨c, hc, hhas⟩, hj⟩
  | anchor a => exact ⟨of_testBit_placesOf h.1, h.2⟩
  | group a ih => exact ih h
  | cat a b iha ihb =>
    obtain ⟨k, ha, hb⟩ := h
    exact ⟨k, iha ha, ihb hb⟩
  | alt a b iha ihb => exact (Path.goes_either h).imp iha ihb
  | opt greedy a ih => exact h.imp id ih
  | star greedy a ih | plus greedy a ih =>
    obtain ⟨n, hn⟩ := h
    exact ⟨n, hn.mono fun _ _ => ih⟩
  | times greedy min max a ih =>
    cases max with
    | some max =>
      obtain ⟨k, hexact, n, hle, hmore⟩ := h
      refine ⟨min + n, Nat.le_add_right _ _, fun m hm => ?_,
        (hexact.mono fun _ _ => ih).trans (hmore.mono fun _ _ => ih)⟩
      cases hm
      omega
    | none =>
      cases min with
      | zero =>
        obtain ⟨n, hn⟩ := h
        exact ⟨n, Nat.zero_le _, nofun, hn.mono fun _ _ => ih⟩
      | succ min =>
        obtain ⟨k, hexact, n, hmore⟩ := h
        exact ⟨min + (n + 1), by omega, nofun, (hexact.mono fun _ _ => ih).trans (hmore.mono fun _ _ => ih)⟩

theorem occurs_of_occursIn {node : Node} (h : node.occursIn cs) : node.Occurs cs := by
  have hne : (node.path cs).back 0 (cs.size + 1) (Places.all (cs.size + 1)) ≠ 0 := by simpa [occursIn] using h
  obtain ⟨i, hi⟩ := Nat.exists_testBit_of_ne_zero hne
  have hall : Places.Below (cs.size + 1) (Places.all (cs.size + 1)) := fun k hk => by
    rwa [Places.testBit_all, decide_eq_true_iff] at hk
  obtain ⟨-, j, hj, hgoes⟩ := (node.fits_path.back 0 (cs.size + 1) _ hall) i hi
  rw [Nat.zero_add, Nat.zero_add] at hgoes
  exact ⟨i, j, Nat.le_of_lt_succ (hall j hj), spans_of_goes hgoes⟩

end Node

end RecordMill.Pattern

import RecordMill.Proofs.Host.Lines
import RecordMill.Proofs.Record.FailedSplit
import RecordMill.Text.Utf8

/-!
# Texts cut in pieces

There are no more words in the lines of a text than it has bytes, so a text that fits in memory has a number of words
that is counted without overflow. And a text that is cut at every separator of one byte can be put together again. Main
statement: `byte_separates`. A backslash alone is a pattern that does not compile.
-/

namespace RecordMill

/-! ## Words -/

namespace Utf8

theorem length_units (s : Bytes) : (units s).length ≤ s.length := by
  fun_induction units s with
  | case1 => exact Nat.le_refl 0
  | case2 b rest code n h ih =>
    rw [List.length_drop] at ih
    simp only [List.length_cons]
    omega
  | case3 b rest h ih => exact Nat.succ_le_succ ih

theorem length_wordsOf (word : Bytes) (us : List Unit) :
    2 * (wordsOf word us).length ≤ us.length + 1 + if word.isEmpty then 0 else 1 := by
  fun_induction wordsOf word us with
  | case1 word h => exact Nat.zero_le _
  | case2 word h => rw [if_neg h]; exact Nat.le_refl 2
  | case3 word u rest hblank h ih =>
    rw [if_pos h]
    exact Nat.le_succ_of_le ih
  | case4 word u rest hblank h ih =>
    rw [if_neg h]
    rw [List.isEmpty_nil, if_pos rfl] at ih
    simp only [List.length_cons]
    omega
  | case5 word u rest hblank ih =>
    rw [List.length_cons]
    split at ih <;> omega

theorem length_words (s : Bytes) : 2 * (words s).length ≤ s.length + 1 :=
  Nat.le_trans (length_wordsOf [] (units s)) (Nat.succ_le_succ (length_units s))

end Utf8

namespace Bytes

theorem length_cutAt (c : UInt8) (s : Bytes) : (cutAt c s).flatten.length ≤ s.length := by
  induction s with
  | nil => exact Nat.le_refl 0
  | cons b s ih =>
    rw [cutAt]
    split
    · exact Nat.le_succ_of_le ih
    · cases hcut : cutAt c s with
      | nil => exact Nat.succ_le_succ (Nat.zero_le _)
      | cons p ps =>
        rw [hcut] at ih
        exact Nat.succ_le_succ ih

end Bytes

namespace Reader

theorem length_trimEnd (line : Bytes) : (trimEnd line).length ≤ line.length := by
  unfold trimEnd
  split
  · rw [List.length_dropLast]
    exact Nat.sub_le ..
  · exact Nat.le_refl _

theorem length_lines (s : Bytes) : (lines s).flatten.length ≤ s.length := by
  have hcut := Bytes.length_cutAt 10 s
  unfold lines
  dsimp only
  generalize Bytes.cutAt 10 s = pieces at hcut
  have htrim : ∀ l : List Bytes, (l.map trimEnd).flatten.length ≤ l.flatten.length := fun l => by
    induction l with
    | nil => exact Nat.le_refl 0
    | cons a l ih =>
      rw [List.map_cons, List.flatten_cons, List.flatten_cons, List.length_append, List.length_append]
      exact Nat.add_le_add (length_trimEnd a) ih
  split
  · refine Nat.le_trans (htrim _) (Nat.le_trans ?_ hcut)
    rcases List.eq_nil_or_concat pieces with rfl | ⟨front, last, rfl⟩
    · exact Nat.le_refl 0
    · simp
  · exact Nat.le_trans (htrim _) hcut

def words (s : Bytes) : List Bytes := (lines s).flatMap Utf8.words

theorem length_words (s : Bytes) : (words s).length ≤ s.length := by
  refine Nat.le_trans ?_ (length_lines s)
  rw [words]
  induction lines s with
  | nil => exact Nat.le_refl 0
  | cons line rest ih =>
    have hline := Utf8.length_words line
    rw [List.flatMap_cons, List.length_append, List.flatten_cons, List.length_append]
    omega

theorem length_words_of_mem {s line : Bytes} (h : line ∈ lines s) : 2 * (Utf8.words line).length ≤ s.length + 1 := by
  obtain ⟨before, after, heq⟩ := List.append_of_mem h
  have hall := length_lines s
  have hline := Utf8.length_words line
  rw [heq, List.flatten_append, List.flatten_cons, List.length_append, List.length_append] at hall
  omega

end Reader

/-! ## Separators of one byte -/

namespace Bytes

variable {c : UInt8} {s p : Bytes}

theorem exists_cutAt (c : UInt8) (s : Bytes) : ∃ p ps, cutAt c s = p :: ps := by
  cases s with
  | nil => exact ⟨[], [], rfl⟩
  | cons b s =>
    unfold cutAt
    split
    · exact ⟨_, _, rfl⟩
    · split <;> exact ⟨_, _, rfl⟩

theorem cutAt_separator (c : UInt8) (s : Bytes) : cutAt c (c :: s) = [] :: cutAt c s := if_pos rfl

theorem cutAt_other {b : UInt8} {ps : List Bytes} (hb : b ≠ c) (h : cutAt c s = p :: ps) :
    cutAt c (b :: s) = (b :: p) :: ps := by
  rw [cutAt, if_neg hb, h]

theorem join_cutAt (c : UInt8) (s : Bytes) : join [c] (cutAt c s) = s := by
  induction s with
  | nil => rfl
  | cons b s ih =>
    obtain ⟨p, ps, hcut⟩ := exists_cutAt c s
    rw [hcut] at ih
    by_cases hb : b = c
    · subst hb
      rw [cutAt_separator, hcut]
      exact congrArg (b :: ·) ih
    · rw [cutAt_other hb hcut]
      exact congrArg (b :: ·) ih

theorem not_mem_of_cutAt (hp : p ∈ cutAt c s) : c ∉ p := by
  induction s generalizing p with
  | nil =>
    rw [List.mem_singleton.1 hp]
    exact List.not_mem_nil
  | cons b s ih =>
    obtain ⟨q, qs, hcut⟩ := exists_cutAt c s
    by_cases hb : b = c
    · subst hb
      rw [cutAt_separator] at hp
      rcases List.mem_cons.1 hp with rfl | hp
      · exact List.not_mem_nil
      · exact ih hp
    · rw [cutAt_other hb hcut] at hp
      rcases List.mem_cons.1 hp with rfl | hp
      · exact List.not_mem_cons_of_ne_of_not_mem (Ne.symm hb) (ih (hcut ▸ List.mem_cons_self))
      · exact ih (hcut ▸ List.mem_cons_of_mem q hp)

end Bytes

namespace FieldList

variable {s : Bytes} {c : UInt8}

theorem split_at_byte (hs : s ≠ []) (hspace : c ≠ 32) (hbackslash : c ≠ 92) (r : Records) :
    Records.split s [c] r = (.ok (Bytes.cutAt c s), r) := by
  have hempty : ¬s.isEmpty := by simpa using hs
  have hblank : [c] ≠ [32] := fun h => hspace (List.cons.inj h).1
  unfold Records.split
  rw [if_neg hempty, if_neg hblank]
  dsimp only
  rw [if_neg hbackslash]
  rfl

theorem unfit_backslash (longest : Bool) : Unfit longest [92] := by
  refine ⟨nofun, by decide, fun _ h => (List.cons.inj h).1.symm, ?_⟩
  have hparse : (Pattern.parse [92]).toOption.isSome = false := by decide +kernel
  unfold Pattern.compile
  cases h : Pattern.parse [92] with
  | error e => exact ⟨e, rfl⟩
  | ok node =>
    rw [h] at hparse
    cases hparse

/-- A text is cut at every occurrence of a separator of one byte other than a space: joined with the separator the
pieces are the text again, and none of them holds it. But a backslash separates nothing; as a pattern it does not
compile. -/
theorem byte_separates (hs : s ≠ []) (hspace : c ≠ 32) :
    (c ≠ 92 → ∀ r, ∃ parts, Records.split s [c] r = (.ok parts, r) ∧ Bytes.join [c] parts = s ∧ ∀ p ∈ parts, c ∉ p)
      ∧ (c = 92 → ∀ x : Context, Ownership.Reachable x → Records.split s [c] x.toRecords
        = (.error .pattern, x.toRecords)) := by
  refine ⟨fun hbackslash r => ?_, ?_⟩
  · exact ⟨Bytes.cutAt c s, split_at_byte hs hspace hbackslash r, Bytes.join_cutAt c s, fun p => Bytes.not_mem_of_cutAt⟩
  · rintro rfl x hx
    obtain ⟨longest, hpatterns⟩ := hx.coherent
    exact split_of_unfit hpatterns hs (unfit_backslash longest)

theorem byte_separates_commas :
    text ",a,,b" ≠ [] ∧ ∃ parts, Records.split (text ",a,,b") [44] (Context.ofSettings {} {}).toRecords
    = (.ok parts, (Context.ofSettings {} {}).toRecords)
    ∧ Bytes.join [44] parts = text ",a,,b" ∧ ∀ p ∈ parts, 44 ∉ p := by
  have hs : text ",a,,b" ≠ [] := by decide
  exact ⟨hs, (byte_separates hs (by decide)).1 (by decide) _⟩

theorem backslash_separates_nothing : ¬∀ s c, s ≠ [] → c ≠ 32 →
    ∃ parts r, Records.split s [c] (Context.ofSettings {} {}).toRecords = (.ok parts, r) ∧ Bytes.join [c] parts = s
      ∧ ∀ p ∈ parts, c ∉ p := by
  intro hsplits
  obtain ⟨parts, r, h, -⟩ := hsplits (text "a\\b") 92 (by decide) (by decide)
  obtain ⟨longest, hpatterns⟩ := (Ownership.Reachable.start {} {}).coherent
  rw [split_of_unfit hpatterns (by decide) (unfit_backslash longest)] at h
  cases h

end FieldList

end RecordMill

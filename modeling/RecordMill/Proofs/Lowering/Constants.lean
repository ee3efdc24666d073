import Mathlib.Data.List.Forall2
import RecordMill.Lowering.Native
import RecordMill.Proofs.Heap.Packing
import RecordMill.Proofs.Machine.Building

/-!
# Text constants

A text constant of a body is two words and the pair of them. The pairs of a body are read off its instructions, and a
pair stands for a text when it is the packed form of that text for a table of literals. -/

namespace RecordMill

open Machine (Value Inst Action Body)

/-! ## Pairs -/

namespace Machine

/-- The packed string of a pair, if its words are defined by the two instructions before it. -/
def words? (v w : Value) : Option Inst → Option Inst → Option Packed
  | some ⟨.iconst .i64 lo, [v']⟩, some ⟨.iconst .i64 hi, [w']⟩ => if v' = v ∧ w' = w then some ⟨lo, hi⟩ else none
  | _, _ => none

/-- The pairs among instructions, of which `a` and `b` are those just before. -/
def pairsAfter (a b : Option Inst) : List Inst → List (Option Packed)
  | [] => []
  | i :: is => match i.action with
    | .concat v w => words? v w a b :: pairsAfter b (some i) is
    | _ => pairsAfter b (some i) is

/-- The pairs of a body in order, `none` for one that is not of two constant words. -/
def Body.pairs (f : Body) : List (Option Packed) := pairsAfter none none f.insts.toList

theorem pairsAfter_append (a b : Option Inst) (is js : List Inst) :
    ∃ a' b', pairsAfter a b (is ++ js) = pairsAfter a b is ++ pairsAfter a' b' js := by
  induction is generalizing a b with
  | nil => exact ⟨a, b, rfl⟩
  | cons i is ih =>
    obtain ⟨a', b', h⟩ := ih b (some i)
    refine ⟨a', b', ?_⟩
    simp only [List.cons_append, pairsAfter, h]
    split <;> rfl

/-- Whatever comes before, these are the pairs among the instructions. -/
def Pairs (is : List Inst) (qs : List Packed) : Prop := ∀ a b, pairsAfter a b is = qs.map some

namespace Pairs

variable {is js : List Inst} {qs rs : List Packed}

theorem append (h : Pairs is qs) (h' : Pairs js rs) : Pairs (is ++ js) (qs ++ rs) := by
  intro a b
  obtain ⟨a', b', heq⟩ := pairsAfter_append a b is js
  rw [heq, h a b, h' a' b', List.map_append]

theorem nil (h : ∀ i ∈ is, ∀ v w, i.action ≠ .concat v w) : Pairs is [] := by
  induction is with
  | nil => exact fun _ _ => rfl
  | cons i is ih =>
    intro a b
    have hrest := ih (fun j hj => h j (.tail _ hj)) b (some i)
    rw [pairsAfter]
    split
    · next v w hi => exact absurd hi (h i (.head _) v w)
    · exact hrest

theorem one (q : Packed) (v w : Value) (rs : List Value) :
    Pairs [⟨.iconst .i64 q.lo, [v]⟩, ⟨.iconst .i64 q.hi, [w]⟩, ⟨.concat v w, rs⟩] [q] := by
  intro a b
  simp [pairsAfter, words?]

end Pairs

end Machine

/-! ## Texts -/

/-- The second list is the first with more empty texts. -/
inductive Spaced : List Bytes → List Bytes → Prop where
  | nil : Spaced [] []
  | empty {ts us : List Bytes} : Spaced ts us → Spaced ts ([] :: us)
  | cons {ts us : List Bytes} (t : Bytes) : Spaced ts us → Spaced (t :: ts) (t :: us)

theorem Spaced.append {ts us ts' us' : List Bytes} (h : Spaced ts us) (h' : Spaced ts' us') :
    Spaced (ts ++ ts') (us ++ us') := by
  induction h with
  | nil => exact h'
  | empty _ ih => exact ih.empty
  | cons t _ ih => exact ih.cons t

theorem Spaced.of_empty {ts us : List Bytes} (h : Spaced ([] :: ts) us) : Spaced ts us := by
  generalize hts : [] :: ts = ts' at h
  induction h with
  | nil => cases hts
  | empty _ ih => exact (ih hts).empty
  | cons t h _ =>
    obtain ⟨rfl, rfl⟩ := List.cons.inj hts
    exact h.empty

namespace Packed

variable {table table' : List Bytes} {t : Bytes} {q : Packed}

/-- The packed form of a text, for a table of literals. -/
def Means (table : List Bytes) (t : Bytes) (q : Packed) :
    Prop :=
  ∃ n, q = literal n t ∧ (maxInline < t.length → table[n]? = some t)

theorem Means.mono (h : Means table t q) (ht : table <+: table') : Means table' t q := by
  obtain ⟨n, hq, hn⟩ := h
  refine ⟨n, hq, fun hlong => ?_⟩
  obtain ⟨more, rfl⟩ := ht
  have hlt := (List.getElem?_eq_some_iff.1 (hn hlong)).1
  rw [List.getElem?_append_left hlt, hn hlong]

theorem means_inline (h : t.length ≤ maxInline) :
    Means table t (inline t) := ⟨0, by rw [literal, if_pos h], fun hlong => by omega⟩

theorem means_empty : Means table [] empty := means_inline (Nat.zero_le _)

theorem Means.string (h : Means table t q) (ht : table.length ≤ 2 ^ 64) {heap : Heap}
    (hl : heap.literals = table.toArray) :
    heap.string q = .ok t := by
  obtain ⟨n, rfl, hn⟩ := h
  by_cases hshort : t.length ≤ maxInline
  · rw [literal, if_pos hshort]
    simp only [Heap.string, Heap.storage, storage_inline hshort]
    exact congrArg Except.ok (inlineBytes_inline hshort)
  · have hlong : maxInline < t.length := by omega
    have hlt := (List.getElem?_eq_some_iff.1 (hn hlong)).1
    have htext : heap.literals[n]? = some t := by rw [hl, List.getElem?_toArray, hn hlong]
    simp only [Heap.string, Heap.storage, storage_literal hlong, toNat_lo_literal hlong (Nat.lt_of_lt_of_le hlt ht)]
    rw [htext]
    rfl

end Packed

/-! ## The table -/

namespace Native

variable {table table' ts ts' : List Bytes}

def extended (table ts : List Bytes) :
    List Bytes := ts.foldl (fun table t => if t ∈ table then table else table ++ [t]) table

@[simp] theorem extended_nil (table : List Bytes) : extended table [] = table := rfl

theorem extended_append (table ts ts' : List Bytes) :
    extended table (ts ++ ts') = extended (extended table ts) ts' := List.foldl_append

theorem prefix_extended (table ts : List Bytes) : table <+: extended table ts := by
  induction ts generalizing table with
  | nil => exact List.prefix_rfl
  | cons t ts ih =>
    have hone : table <+: if t ∈ table then table else table ++ [t] := by
      split
      · exact List.prefix_rfl
      · exact List.prefix_append ..
    exact hone.trans (ih _)

theorem extended_of_mem {t : Bytes} (h : t ∈ table) : extended table [t] = table := if_pos h

/-- Those texts that are too long to be held in place. -/
def long (ts : List Bytes) : List Bytes := ts.filter (Packed.maxInline < ·.length)

theorem long_append (ts ts' : List Bytes) : long (ts ++ ts') = long ts ++ long ts' := List.filter_append ..

/-- Instructions have been added whose pairs are the texts, and the long ones are in the table. -/
structure Writes (ts : List Bytes) (p p' : Progress) : Prop where
  literals : p'.literals = extended p.literals (long ts)
  insts : ∃ is us qs, p'.draft.body.insts.toList = p.draft.body.insts.toList ++ is ∧ Spaced ts us ∧ Machine.Pairs is qs
    ∧ List.Forall₂ (Packed.Means p'.literals) us qs

variable {p p' p'' : Progress}

theorem Writes.trans (h : Writes ts p p') (h' : Writes ts' p' p'') : Writes (ts ++ ts') p p'' where
  literals := by rw [h'.literals, h.literals, long_append, extended_append]
  insts := by
    obtain ⟨is, us, qs, hinsts, hspaced, hpairs, hmeans⟩ := h.insts
    obtain ⟨is', us', qs', hinsts', hspaced', hpairs', hmeans'⟩ := h'.insts
    refine ⟨is ++ is', us ++ us', qs ++ qs',
      by rw [hinsts', hinsts, List.append_assoc], hspaced.append hspaced', hpairs.append hpairs',
      List.rel_append (hmeans.imp fun _ _ hm => hm.mono ?_) hmeans'⟩
    rw [h'.literals]
    exact prefix_extended ..

theorem Writes.of_none {is : List Inst} (hl : p'.literals = p.literals)
    (hinsts : p'.draft.body.insts.toList = p.draft.body.insts.toList ++ is)
    (h : ∀ i ∈ is, ∀ v w, i.action ≠ .concat v w) :
    Writes [] p p' :=
  ⟨hl, is, [], [], hinsts, .nil, .nil h, .nil⟩

theorem Writes.of_empty (h : Writes ([] :: ts) p p') : Writes ts p p' where
  literals := h.literals
  insts := by
    obtain ⟨is, us, qs, hinsts, hspaced, hrest⟩ := h.insts
    exact ⟨is, us, qs, hinsts, hspaced.of_empty, hrest⟩

theorem Writes.refl (p : Progress) : Writes [] p p := .of_none rfl (List.append_nil _).symm (by simp)

end Native

end RecordMill

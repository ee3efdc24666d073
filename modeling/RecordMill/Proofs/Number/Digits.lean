import RecordMill.Number.Reading

/-!
# Digits and fronts of texts

What a run of digits is worth, and the longest front of a text that has a form.
-/

namespace RecordMill

namespace Bytes

/-! ## Runs -/

/-- The text does not go on with a byte of the class. -/
def Stops (p : UInt8 → Bool) (r : Bytes) : Prop := ∀ b, r.head? = some b → p b = false

variable {p : UInt8 → Bool} {xs r : Bytes}

theorem stops_nil : Stops p [] := nofun

theorem stops_cons {b : UInt8} (hb : p b = false) : Stops p (b :: r) := fun c hc => by
  cases hc
  exact hb

theorem takeWhile_run (hxs : ∀ b ∈ xs, p b) (hr : Stops p r) : (xs ++ r).takeWhile p = xs := by
  rw [List.takeWhile_append_of_pos hxs]
  cases r with
  | nil => exact List.append_nil xs
  | cons b r => rw [List.takeWhile_cons_of_neg (by simp [hr b rfl]), List.append_nil]

theorem dropWhile_run (hxs : ∀ b ∈ xs, p b) (hr : Stops p r) : (xs ++ r).dropWhile p = r := by
  rw [List.dropWhile_append_of_pos hxs]
  cases r with
  | nil => rfl
  | cons b r => exact List.dropWhile_cons_of_neg (by simp [hr b rfl])

theorem all_takeWhile (s : Bytes) : ∀ b ∈ s.takeWhile p, p b := List.all_eq_true.1 List.all_takeWhile

/-! ## Values -/

theorem value_append (base : Nat) (xs : Bytes) (d : UInt8) :
    value base (xs ++ [d]) = value base xs * base + digitValue d := by
  simp [value]

theorem digit_lowerDigit {d : Nat} (h : d < 10) : isDigit (lowerDigit d) ∧ digitValue (lowerDigit d) = d := by
  have hall : ∀ d : Fin 10, isDigit (lowerDigit d) ∧ digitValue (lowerDigit d) = d := by decide
  exact hall ⟨d, h⟩

theorem decimal_spec (n : Nat) : (∀ d ∈ decimal n, isDigit d) ∧ value 10 (decimal n) = n := by
  induction n using Nat.strongRecOn with
  | _ n ih =>
    rw [decimal, radix]
    split
    · next h =>
      have hn : n < 10 := h.resolve_right (by decide)
      simpa [value] using digit_lowerDigit hn
    · next h =>
      have hmod := digit_lowerDigit (Nat.mod_lt n (show 0 < 10 by decide))
      obtain ⟨hdigits, hvalue⟩ := ih (n / 10) (Nat.div_lt_self (by omega) (by omega))
      refine ⟨fun d hd => ?_, ?_⟩
      · rcases List.mem_append.1 hd with hd | hd
        · exact hdigits d hd
        · exact List.mem_singleton.1 hd ▸ hmod.1
      · rw [value_append, hmod.2]
        show value 10 (decimal (n / 10)) * 10 + _ = n
        rw [hvalue]
        omega

theorem decimal_ne_nil (n : Nat) : decimal n ≠ [] := by
  rw [decimal, radix]
  split <;> simp

theorem value_le_append (xs ys : Bytes) : value 10 xs ≤ value 10 (xs ++ ys) := by
  induction ys generalizing xs with
  | nil => exact Nat.le_of_eq (congrArg (value 10) (List.append_nil xs).symm)
  | cons d ys ih =>
    have h := ih (xs ++ [d])
    rw [List.append_assoc, List.singleton_append, value_append] at h
    omega

/-! ## Longest fronts -/

/-- The longest front of a text that has a form. -/
structure Longest (P : Bytes → Prop) (s p : Bytes) : Prop where
  has : P p
  front : p <+: s
  longest : ∀ q, P q → q <+: s → q.length ≤ p.length

theorem exists_longest {P : Bytes → Prop} {s q : Bytes} (hq : P q) (hfront : q <+: s) : ∃ p, Longest P s p := by
  -- Fronts are not longer than the text, so that one can get longer only so often.
  generalize hroom : s.length - q.length = room
  induction room using Nat.strongRecOn generalizing q with
  | _ room ih =>
    by_cases hmax : ∀ u, P u → u <+: s → u.length ≤ q.length
    · exact ⟨q, hq, hfront, hmax⟩
    · simp only [Classical.not_forall] at hmax
      obtain ⟨u, hu, hufront, hlonger⟩ := hmax
      have := hufront.length_le
      exact ih _ (by omega) hu hufront rfl

theorem Longest.not_longer {P : Bytes → Prop} {p r x : Bytes} (h : Longest P (p ++ r) p) (hx : x <+: r) (hne : x ≠ []) :
    ¬P (p ++ x) := by
  intro hlonger
  have hle := h.longest (p ++ x) hlonger ((List.prefix_append_right_inj p).2 hx)
  rw [List.length_append] at hle
  have := List.length_pos_iff.2 hne
  omega

theorem Longest.stops {P : Bytes → Prop} {c : UInt8 → Bool} (h : Longest P (xs ++ r) xs)
    (hgoes : ∀ b, c b → P (xs ++ [b])) : Stops c r := by
  intro b hb
  cases r with
  | nil => cases hb
  | cons d r =>
    cases hb
    cases hc : c b with
    | false => rfl
    | true => exact absurd (hgoes b hc) (h.not_longer ⟨r, rfl⟩ (List.cons_ne_nil b []))

end Bytes

end RecordMill

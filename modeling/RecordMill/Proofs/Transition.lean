/-!
# Machines and their runs

A machine takes one step at a time until it ends. One machine follows another when every step of the
first is some steps of the second; then both end alike, unless the second gives up on the way.
-/

namespace RecordMill

/-- What a step comes to: another state, or the end of the run. -/
inductive Turn (S R : Type) where
  | next (s : S)
  | ended (r : R)

section Runs

variable {S R : Type}

/-- The step comes to a state with `Q` or to an end with `E`. -/
def Turn.Comes (Q : S → Prop) (E : R → Prop) : Turn S R → Prop
  | .next s => Q s
  | .ended r => E r

def runs (step : S → Turn S R) : Nat → S → Turn S R
  | 0, s => .next s
  | n + 1, s => match step s with
    | .next s => runs step n s
    | .ended r => .ended r

def Ends (step : S → Turn S R) (s : S) (r : R) : Prop := ∃ n, runs step n s = .ended r

def Turn.EndsIn (step : S → Turn S R) (turn : Turn S R) (r : R) : Prop := turn.Comes (fun s => Ends step s r) (· = r)

def Visits (step : S → Turn S R) (s t : S) : Prop := ∃ n, runs step n s = .next t

variable {step : S → Turn S R} {s t : S} {r r' : R} {n : Nat}

theorem runs_add (a b : Nat) (s : S) : runs step (a + b) s = match runs step a s with
    | .next t => runs step b t
    | .ended r => .ended r := by
  induction a generalizing s with
  | zero => rw [Nat.zero_add]; rfl
  | succ a ih =>
    rw [Nat.succ_add, runs, runs]
    cases step s with
    | next t => exact ih t
    | ended r => rfl

theorem runs_of_next (h : runs step n s = .next t) (k : Nat) : runs step (n + k) s = runs step k t := by
  rw [runs_add, h]

theorem runs_succ_eq_next : runs step (n + 1) s = .next t ↔ ∃ u, step s = .next u ∧ runs step n u = .next t := by
  rw [runs]
  cases step s with
  | next u => simp
  | ended r => simp

theorem exists_runs_of_le (h : runs step n s = .next t) {k : Nat} (hk : k ≤ n) : ∃ u, runs step k s = .next u := by
  obtain ⟨b, rfl⟩ := Nat.exists_eq_add_of_le hk
  rw [runs_add] at h
  cases hu : runs step k s with
  | next u => exact ⟨u, rfl⟩
  | ended r =>
    rw [hu] at h
    cases h

theorem runs_of_ended {k : Nat} (h : runs step n s = .ended r) (hk : n ≤ k) : runs step k s = .ended r := by
  obtain ⟨b, rfl⟩ := Nat.exists_eq_add_of_le hk
  rw [runs_add, h]

theorem runs_of_steps {step' : S → Turn S R} (h : ∀ s t, step s = .next t → step' s = .next t)
    (hrun : runs step n s = .next t) :
    runs step' n s = .next t := by
  induction n generalizing s with
  | zero => exact hrun
  | succ n ih =>
    obtain ⟨u, hstep, hrest⟩ := runs_succ_eq_next.1 hrun
    exact runs_succ_eq_next.2 ⟨u, h s u hstep, ih hrest⟩

theorem Ends.unique (h : Ends step s r) (h' : Ends step s r') : r = r' := by
  obtain ⟨a, ha⟩ := h
  obtain ⟨b, hb⟩ := h'
  have := runs_of_ended ha (Nat.le_max_left a b)
  rw [runs_of_ended hb (Nat.le_max_right a b)] at this
  cases this
  rfl

theorem Visits.refl (s : S) : Visits step s s := ⟨0, rfl⟩

theorem Visits.trans {u : S} (h : Visits step s t) (h' : Visits step t u) : Visits step s u := by
  obtain ⟨a, ha⟩ := h
  obtain ⟨b, hb⟩ := h'
  exact ⟨a + b, by rw [runs_of_next ha, hb]⟩

theorem Visits.of_step (h : step s = .next t) : Visits step s t := ⟨1, by rw [runs, h]; rfl⟩

theorem Visits.ends (h : Visits step s t) (h' : Ends step t r) : Ends step s r := by
  obtain ⟨a, ha⟩ := h
  obtain ⟨b, hb⟩ := h'
  exact ⟨a + b, by rw [runs_of_next ha, hb]⟩

theorem Ends.of_visits (h : Ends step s r) (hv : Visits step s t) : Ends step t r := by
  obtain ⟨a, ha⟩ := h
  obtain ⟨b, hb⟩ := hv
  have hlt : b < a := Nat.lt_of_not_le fun hle => by
    rw [runs_of_ended ha hle] at hb
    cases hb
  obtain ⟨k, rfl⟩ := Nat.exists_eq_add_of_le (Nat.le_of_lt hlt)
  exact ⟨k, (runs_of_next hb k).symm.trans ha⟩

theorem Ends.exists_last (h : Ends step s r) : ∃ n t, runs step n s = .next t ∧ step t = .ended r := by
  obtain ⟨n, hn⟩ := h
  induction n generalizing s with
  | zero => cases hn
  | succ n ih =>
    rw [runs] at hn
    cases hstep : step s with
    | ended r' =>
      rw [hstep] at hn
      cases hn
      exact ⟨0, s, rfl, hstep⟩
    | next t =>
      rw [hstep] at hn
      obtain ⟨k, u, hk, hu⟩ := ih hn
      exact ⟨k + 1, u, by rw [runs, hstep]; exact hk, hu⟩

/-! ## Proceeding by way of inner states -/

/-- After one step or more, all of them by way of states `Inside`, the run is in a state with `Q` or has
ended with `E`. -/
def Proceeds (step : S → Turn S R) (Inside Q : S → Prop) (E : R → Prop) (s : S) : Prop :=
  ∃ n, (∀ i, 0 < i → i ≤ n → ∀ t, runs step i s = .next t → Inside t)
    ∧ match runs step (n + 1) s with
      | .next t => Q t
      | .ended r => E r

variable {Inside Q Q' : S → Prop} {E E' : R → Prop}

theorem Proceeds.of_next (h : step s = .next t) (hQ : Q t) : Proceeds step Inside Q E s :=
  ⟨0, by omega, by simpa only [runs, h] using hQ⟩

theorem Proceeds.of_ended (h : step s = .ended r) (hE : E r) : Proceeds step Inside Q E s :=
  ⟨0, by omega, by simpa only [runs, h] using hE⟩

theorem Proceeds.of_step (h : (step s).Comes Q E) : Proceeds step Inside Q E s := by
  cases hs : step s with
  | next t =>
    rw [hs] at h
    exact .of_next hs h
  | ended r =>
    rw [hs] at h
    exact .of_ended hs h

/-- The run goes through a state, if it cannot have ended. -/
theorem Proceeds.visits (h : Proceeds step Inside Q (fun _ => False) s) : ∃ t, Visits step s t ∧ Q t := by
  obtain ⟨n, -, hn⟩ := h
  cases hr : runs step (n + 1) s with
  | next t =>
    rw [hr] at hn
    exact ⟨t, ⟨_, hr⟩, hn⟩
  | ended r =>
    rw [hr] at hn
    exact hn.elim

theorem Proceeds.ends (h : Proceeds step Inside (fun _ => False) E s) : ∃ r, Ends step s r ∧ E r := by
  obtain ⟨n, -, hn⟩ := h
  cases hr : runs step (n + 1) s with
  | next t =>
    rw [hr] at hn
    exact hn.elim
  | ended r =>
    rw [hr] at hn
    exact ⟨r, ⟨_, hr⟩, hn⟩

theorem Proceeds.ends_of_ends (h : Proceeds step Inside Q E s) (he : Ends step s r) :
    E r ∨ ∃ t, Q t ∧ Ends step t r := by
  obtain ⟨n, -, hn⟩ := h
  cases hr : runs step (n + 1) s with
  | next t =>
    rw [hr] at hn
    exact .inr ⟨t, hn, he.of_visits ⟨_, hr⟩⟩
  | ended r' =>
    rw [hr] at hn
    exact .inl (he.unique ⟨_, hr⟩ ▸ hn)

theorem Proceeds.mono (h : Proceeds step Inside Q E s) (hQ : ∀ t, Q t → Q' t) (hE : ∀ r, E r → E' r) :
    Proceeds step Inside Q' E' s := by
  obtain ⟨n, hi, hn⟩ := h
  refine ⟨n, hi, ?_⟩
  split at hn
  · exact hQ _ hn
  · exact hE _ hn

theorem Proceeds.trans (h : Proceeds step Inside Q E s) (h' : ∀ t, Q t → Inside t ∧ Proceeds step Inside Q' E t) :
    Proceeds step Inside Q' E s := by
  obtain ⟨n, hi, hn⟩ := h
  cases hr : runs step (n + 1) s with
  | ended r =>
    rw [hr] at hn
    exact ⟨n, hi, by rw [hr]; exact hn⟩
  | next t =>
    rw [hr] at hn
    obtain ⟨ht, k, hk, hlast⟩ := h' t hn
    refine ⟨n + 1 + k, fun i hpos hle u hu => ?_, ?_⟩
    · rcases Nat.lt_trichotomy i (n + 1) with hin | rfl | hin
      · exact hi i hpos (by omega) u hu
      · rw [hr] at hu
        cases hu
        exact ht
      · obtain ⟨j, rfl⟩ := Nat.exists_eq_add_of_lt hin
        rw [Nat.add_assoc, runs_of_next hr] at hu
        exact hk (j + 1) (by omega) (by omega) u hu
    · rw [Nat.add_assoc, runs_of_next hr]
      exact hlast

theorem Proceeds.widen {Inside' : S → Prop} (h : Proceeds step Inside Q E s) (hi : ∀ t, Inside t → Inside' t) :
    Proceeds step Inside' Q E s := by
  obtain ⟨n, hin, hn⟩ := h
  exact ⟨n, fun i hpos hle t ht => hi t (hin i hpos hle t ht), hn⟩

theorem Proceeds.finish (h : Proceeds step Inside (fun t => Q t ∨ Inside t ∧ Proceeds step Inside Q E t) E s) :
    Proceeds step Inside Q E s := by
  obtain ⟨n, hi, hn⟩ := h
  cases hr : runs step (n + 1) s with
  | ended r =>
    rw [hr] at hn
    exact ⟨n, hi, by rw [hr]; exact hn⟩
  | next t =>
    rw [hr] at hn
    rcases hn with hQ | hrest
    · exact ⟨n, hi, by rw [hr]; exact hQ⟩
    · exact Proceeds.trans (Q := fun u => u = t) ⟨n, hi, by rw [hr]⟩ fun u hu => hu ▸ hrest

theorem Proceeds.of_visits (h : step s = .next t) (ht : Inside t) (h' : Proceeds step Inside Q E t) :
    Proceeds step Inside Q E s := by
  refine Proceeds.trans (.of_next h (Q := fun u => u = t) rfl) ?_
  rintro _ rfl
  exact ⟨ht, h'⟩

end Runs

/-! ## One machine follows another -/

section Follows

variable {S₁ R₁ S₂ R₂ : Type}

/-- Every step of the first machine is some steps of the second, and at its end the second ends the same
way. The second may give up instead. -/
structure Simulation (step₁ : S₁ → Turn S₁ R₁) (step₂ : S₂ → Turn S₂ R₂) (Rel : S₁ → S₂ → Prop)
    (Same : R₁ → R₂ → Prop) (GivesUp : R₂ → Prop) (Inside : S₂ → Prop) : Prop where
  next : ∀ {s₁ s₁' s₂}, Rel s₁ s₂ → step₁ s₁ = .next s₁' → Proceeds step₂ Inside (Rel s₁') GivesUp s₂
  ended : ∀ {s₁ r₁ s₂}, Rel s₁ s₂ → step₁ s₁ = .ended r₁ →
    Proceeds step₂ Inside (fun _ => False) (fun r₂ => Same r₁ r₂ ∨ GivesUp r₂) s₂

namespace Simulation

variable {step₁ : S₁ → Turn S₁ R₁} {step₂ : S₂ → Turn S₂ R₂} {Rel : S₁ → S₂ → Prop} {Same : R₁ → R₂ → Prop}
  {GivesUp : R₂ → Prop} {Inside : S₂ → Prop} {s₁ : S₁} {s₂ : S₂}

/-- What the first machine comes to, the second comes to as well, if it cannot give up. -/
theorem reaches (h : Simulation step₁ step₂ Rel Same (fun _ => False) Inside) (hr : Rel s₁ s₂) {n : Nat} {t₁ : S₁}
    (hn : runs step₁ n s₁ = .next t₁) : ∃ t₂, Visits step₂ s₂ t₂ ∧ Rel t₁ t₂ := by
  induction n generalizing s₁ s₂ with
  | zero =>
    cases hn
    exact ⟨s₂, .refl _, hr⟩
  | succ n ih =>
    obtain ⟨u₁, hstep, hrest⟩ := runs_succ_eq_next.1 hn
    obtain ⟨u₂, hvisits, hu⟩ := (h.next hr hstep).visits
    obtain ⟨t₂, hrun, ht⟩ := ih hu hrest
    exact ⟨t₂, hvisits.trans hrun, ht⟩

theorem ends (h : Simulation step₁ step₂ Rel Same GivesUp Inside) (hr : Rel s₁ s₂) {r₁ : R₁} (he : Ends step₁ s₁ r₁) :
    ∃ r₂, Ends step₂ s₂ r₂ ∧ (Same r₁ r₂ ∨ GivesUp r₂) := by
  obtain ⟨n, hn⟩ := he
  induction n generalizing s₁ s₂ with
  | zero => cases hn
  | succ n ih =>
    rw [runs] at hn
    cases hs : step₁ s₁ with
    | next s₁' =>
      rw [hs] at hn
      obtain ⟨k, -, hk⟩ := h.next hr hs
      cases hrun : runs step₂ (k + 1) s₂ with
      | next s₂' =>
        rw [hrun] at hk
        obtain ⟨r₂, he, hsame⟩ := ih hk hn
        exact ⟨r₂, Visits.ends ⟨_, hrun⟩ he, hsame⟩
      | ended r₂ =>
        rw [hrun] at hk
        exact ⟨r₂, ⟨_, hrun⟩, .inr hk⟩
    | ended r =>
      rw [hs] at hn
      cases hn
      obtain ⟨k, -, hk⟩ := h.ended hr hs
      cases hrun : runs step₂ (k + 1) s₂ with
      | next s₂' =>
        rw [hrun] at hk
        exact hk.elim
      | ended r₂ =>
        rw [hrun] at hk
        exact ⟨r₂, ⟨_, hrun⟩, hk⟩

theorem ends_of_ends (h : Simulation step₁ step₂ Rel Same GivesUp Inside) (hr : Rel s₁ s₂) {r₂ : R₂}
    (he : Ends step₂ s₂ r₂) : GivesUp r₂ ∨ ∃ r₁, Ends step₁ s₁ r₁ ∧ Same r₁ r₂ := by
  obtain ⟨n, hn⟩ := he
  induction n using Nat.strongRecOn generalizing s₁ s₂ with
  | _ n ih =>
    cases hs : step₁ s₁ with
    | next s₁' =>
      obtain ⟨k, -, hk⟩ := h.next hr hs
      cases hrun : runs step₂ (k + 1) s₂ with
      | next s₂' =>
        rw [hrun] at hk
        have hlt : k + 1 < n := Nat.lt_of_not_le fun hle => by
          rw [runs_of_ended hn hle] at hrun
          cases hrun
        obtain ⟨j, rfl⟩ := Nat.exists_eq_add_of_lt hlt
        rw [Nat.add_assoc, runs_of_next hrun] at hn
        rcases ih (j + 1) (by omega) hk hn with hg | ⟨r₁, he, hsame⟩
        · exact .inl hg
        · exact .inr ⟨r₁, Visits.ends (.of_step hs) he, hsame⟩
      | ended r =>
        rw [hrun] at hk
        obtain rfl : r = r₂ := Ends.unique ⟨_, hrun⟩ ⟨_, hn⟩
        exact .inl hk
    | ended r₁ =>
      obtain ⟨k, -, hk⟩ := h.ended hr hs
      cases hrun : runs step₂ (k + 1) s₂ with
      | next s₂' =>
        rw [hrun] at hk
        exact hk.elim
      | ended r =>
        rw [hrun] at hk
        obtain rfl : r = r₂ := Ends.unique ⟨_, hrun⟩ ⟨_, hn⟩
        rcases hk with hsame | hg
        · exact .inr ⟨r₁, ⟨1, by rw [runs, hs]⟩, hsame⟩
        · exact .inl hg

/-- A state that the second machine comes to is an inner one, or the first comes to one that it stands for. What the
first was in before, the second was in before. -/
theorem visits (h : Simulation step₁ step₂ Rel Same GivesUp Inside) (hr : Rel s₁ s₂) {n : Nat} {t₂ : S₂}
    (hn : runs step₂ n s₂ = .next t₂) : Inside t₂ ∨ ∃ k t₁, runs step₁ k s₁ = .next t₁ ∧ Rel t₁ t₂
      ∧ ∀ j < k, ∀ u₁, runs step₁ j s₁ = .next u₁ → ∃ i < n, ∃ u₂, runs step₂ i s₂ = .next u₂ ∧ Rel u₁ u₂ := by
  induction n using Nat.strongRecOn generalizing s₁ s₂ with
  | _ n ih =>
    rcases Nat.eq_zero_or_pos n with rfl | hpos
    · cases hn
      exact .inr ⟨0, s₁, rfl, hr, nofun⟩
    · cases hs : step₁ s₁ with
      | next s₁' =>
        obtain ⟨k, hin, hk⟩ := h.next hr hs
        rcases Nat.lt_or_ge k n with hlt | hle
        · cases hrun : runs step₂ (k + 1) s₂ with
          | next s₂' =>
            rw [hrun] at hk
            obtain ⟨m, rfl⟩ := Nat.exists_eq_add_of_le (show k + 1 ≤ n from hlt)
            rw [runs_of_next hrun] at hn
            rcases ih m (by omega) hk hn with hi | ⟨l, t₁, hl, ht, hbefore⟩
            · exact .inl hi
            · refine .inr ⟨l + 1, t₁, by rw [runs, hs]; exact hl, ht, fun j hj u₁ hu => ?_⟩
              cases j with
              | zero =>
                cases hu
                exact ⟨0, hpos, s₂, rfl, hr⟩
              | succ j =>
                rw [runs, hs] at hu
                obtain ⟨i, hi, u₂, hu₂, hrel⟩ := hbefore j (Nat.lt_of_succ_lt_succ hj) u₁ hu
                exact ⟨k + 1 + i, by omega, u₂, by rw [runs_of_next hrun, hu₂], hrel⟩
          | ended r =>
            rw [runs_of_ended hrun hlt] at hn
            cases hn
        · exact .inl (hin n hpos hle t₂ hn)
      | ended r₁ =>
        obtain ⟨k, hin, hk⟩ := h.ended hr hs
        rcases Nat.lt_or_ge k n with hlt | hle
        · cases hrun : runs step₂ (k + 1) s₂ with
          | next s₂' =>
            rw [hrun] at hk
            exact hk.elim
          | ended r =>
            rw [runs_of_ended hrun hlt] at hn
            cases hn
        · exact .inl (hin n hpos hle t₂ hn)

end Simulation

end Follows

end RecordMill

import RecordMill.Proofs.Format.Directives
import RecordMill.Proofs.Number.Digits

/-!
# Formats one after another

Main statements: `sprintf_eq_write`, formatted text is what the pieces of the format write, and `sprintf_compositional`,
a format that ends between directives and one behind it are written one after the other, each with its own arguments. -/

namespace RecordMill.Format

open Bytes (isDigit Stops)

variable {p : Place} {d : Shape} {s t : Bytes} {args args' : List Arg}

/-! ## Arguments -/

theorem takeArg_eq (args : List Arg) : takeArg args = (argument args 0, args.drop 1) := by cases args <;> rfl

theorem argument_drop (args : List Arg) (n i : Nat) : argument (args.drop n) i = argument args (n + i) := by
  simp [argument, List.getD_eq_getElem?_getD]

theorem isSome_field? (verb : UInt8) (a : Arg) (hverb : verb ≠ 99) : (field? verb a).isSome = takesArgument verb := by
  have hlisted : ∀ n : Fin 256, UInt8.ofNat n ≠ 99 → takesArgument (UInt8.ofNat n)
      = "dioxXuseEfFgG".toList.contains (Char.ofNat n) := by decide +kernel
  have h := hlisted ⟨verb.toNat, verb.toNat_lt⟩ (by simpa using hverb)
  rw [UInt8.ofNat_toNat] at h
  rw [h]
  unfold field?
  generalize Char.ofNat verb.toNat = c
  split <;> simp_all

theorem writeVerb_rest (spec : Spec) (args : List Arg) (verb : UInt8) :
    (writeVerb spec args verb).2 = args.drop (if takesArgument verb then 1 else 0) := by
  unfold writeVerb
  rw [takeArg_eq]
  by_cases hverb : verb = 99
  · subst hverb
    rfl
  · have hsome := isSome_field? verb (argument args 0) hverb
    dsimp only
    rw [if_neg hverb]
    cases hfield : field? verb (argument args 0) with
    | none => rw [← hsome, hfield]; rfl
    | some v => rw [← hsome, hfield]; rfl

/-! ## The scanner

It finds the same directives as the reading byte by byte. -/

/-- What follows once everything in front of the verb has been read. -/
def closed (d : Shape) : Bytes → List Piece
  | [] => [.unfinished d]
  | verb :: s => .directive d verb :: pieces s

theorem read_congr {q : Place} {b : UInt8} (hnext : p.next b = q.next b) (hended : p.ended d b = q.ended d b) :
    read p d (b :: s) = read q d (b :: s) := by
  rw [read, read, hnext, hended]

theorem read_step {b : UInt8} (h : p.next b ≠ .between) :
    read p d (b :: s) = read (p.next b) ((p.next b).add b d) s := if_neg h

theorem read_verb (hp : p ≠ .between ∧ p ≠ .percent) (h : ∀ b, s.head? = some b → p.next b = .between) :
    read p d s = closed d s := by
  cases s with
  | nil => exact if_neg hp.1
  | cons b s =>
    refine (if_pos (h b rfl)).trans ?_
    cases p <;> first | rfl | exact absurd rfl hp.1 | exact absurd rfl hp.2

/-- What is not a literal percent sign is read as if a flag had come before. -/
theorem read_percent (h : s.head? ≠ some 37) : read .percent d s = read .flags d s := by
  cases s with
  | nil => rfl
  | cons b s =>
    have hb : b ≠ 37 := fun hb => h (congrArg some hb)
    exact read_congr (if_neg hb) (if_neg hb)

theorem read_flags {fl : Bytes} (hfl : ∀ b ∈ fl, isFlag b) :
    read .flags d (fl ++ s) = read .flags { d with flags := d.flags ++ fl } s := by
  induction fl generalizing d with
  | nil => rw [List.append_nil]; rfl
  | cons b fl ih =>
    have hb : Place.next .flags b = .flags := if_pos (hfl b List.mem_cons_self)
    rw [List.cons_append, read_step (by rw [hb]; nofun), hb, ih fun c hc => hfl c (List.mem_cons_of_mem b hc)]
    simp [Place.add]

theorem read_width {ds es : Bytes} (hds : ∀ b ∈ ds, isDigit b) :
    read .width { d with width := .digits es } (ds ++ s) = read .width { d with width := .digits (es ++ ds) } s := by
  induction ds generalizing es with
  | nil => rw [List.append_nil]; rfl
  | cons b ds ih =>
    have hb : Place.next .width b = .width := if_pos (hds b List.mem_cons_self)
    rw [List.cons_append, read_step (by rw [hb]; nofun), hb]
    simp only [Place.add, Amount.push]
    rw [ih fun c hc => hds c (List.mem_cons_of_mem b hc), List.append_assoc, List.singleton_append]

theorem read_precision {ds es : Bytes} (hds : ∀ b ∈ ds, isDigit b) :
    read .precision { d with precision := some (.digits es) } (ds ++ s)
      = read .precision { d with precision := some (.digits (es ++ ds)) } s := by
  induction ds generalizing es with
  | nil => rw [List.append_nil]; rfl
  | cons b ds ih =>
    have hb : Place.next .precision b = .precision := if_pos (hds b List.mem_cons_self)
    rw [List.cons_append, read_step (by rw [hb]; nofun), hb]
    simp only [Place.add, Option.map_some, Amount.push]
    rw [ih fun c hc => hds c (List.mem_cons_of_mem b hc), List.append_assoc, List.singleton_append]

theorem stops_dropWhile (c : UInt8 → Bool) (s : Bytes) : Stops c (s.dropWhile c) := by
  intro b hb
  have h := List.head?_dropWhile_not c s
  rw [hb] at h
  simpa using h

theorem read_of_behindWidth (hp : p ≠ .between ∧ p ≠ .percent)
    (hnext : ∀ b, s.head? = some b → p.next b = Place.behindWidth b) (hd : d.precision = none) :
    ∃ pr rest, read p d s = closed { d with precision := pr } rest
      ∧ ∀ spec args, readPrecision spec args s
        = (setPrecision args spec pr, args.drop (pr.elim 0 Amount.takes), rest) := by
  by_cases hpoint : s.head? = some 46
  · obtain ⟨s, rfl⟩ : ∃ t, s = 46 :: t := by
      cases s with
      | nil => cases hpoint
      | cons b t => exact ⟨t, by cases hpoint; rfl⟩
    have hb : p.next 46 = .point := hnext 46 rfl
    rw [read_step (by rw [hb]; nofun), hb]
    by_cases hstar : s.head? = some 42
    · obtain ⟨s, rfl⟩ : ∃ t, s = 42 :: t := by
        cases s with
        | nil => cases hstar
        | cons b t => exact ⟨t, by cases hstar; rfl⟩
      refine ⟨some .star, s, ?_, fun spec args => ?_⟩
      · exact read_verb (p := .pointStar) ⟨nofun, nofun⟩ fun _ _ => rfl
      · rw [readPrecision, takeArg_eq]
        rfl
    · refine ⟨some (.digits (s.takeWhile isDigit)), s.dropWhile isDigit, ?_, fun spec args => ?_⟩
      · have hskip : read .point { d with precision := some (.digits []) } s
            = read .precision { d with precision := some (.digits []) } s := by
          cases s with
          | nil => rfl
          | cons b s =>
            have hb : b ≠ 42 := fun hb => hstar (congrArg some hb)
            exact read_congr (if_neg hb) rfl
        show read .point { d with precision := some (.digits []) } s = _
        rw [hskip]
        conv => lhs; rw [← List.takeWhile_append_dropWhile (p := isDigit) (l := s)]
        rw [read_precision (Bytes.all_takeWhile s), List.nil_append]
        exact read_verb ⟨nofun, nofun⟩ fun b hb => by
          simp [Place.next, Place.behindPoint, stops_dropWhile isDigit s b hb]
      · rw [readPrecision]
        · rfl
        · rintro t rfl
          exact hstar rfl
  · refine ⟨none, s, ?_, fun spec args => ?_⟩
    · rw [← hd]
      refine read_verb hp fun b hb => (hnext b hb).trans (if_neg ?_)
      rintro rfl
      exact hpoint hb
    · rw [readPrecision]
      · rfl
      · rintro t rfl
        exact hpoint rfl
      · rintro t rfl
        exact hpoint rfl

theorem read_of_behindFlags (fl : Bytes) (hflags : Stops isFlag s) : ∃ w q rest, (q ≠ .between ∧ q ≠ .percent)
    ∧ (∀ b, rest.head? = some b → q.next b = Place.behindWidth b)
    ∧ read .flags { flags := fl } s = read q { flags := fl, width := w } rest
    ∧ ∀ args, readWidth { flags := fl } args s = (w.setWidth args { flags := fl }, args.drop w.takes, rest) := by
  by_cases hstar : s.head? = some 42
  · obtain ⟨s, rfl⟩ : ∃ t, s = 42 :: t := by
      cases s with
      | nil => cases hstar
      | cons b t => exact ⟨t, by cases hstar; rfl⟩
    refine ⟨.star, .star, s, ⟨nofun, nofun⟩, fun _ _ => rfl, rfl, fun args => ?_⟩
    rw [readWidth, takeArg_eq]
    rfl
  · have hdigits : ∀ args, readWidth { flags := fl } args s
        = ({ flags := fl, width := s.takeWhile isDigit }, args, s.dropWhile isDigit) := fun args => by
      rw [readWidth]
      · rfl
      · rintro t rfl
        exact hstar rfl
    refine ⟨.digits (s.takeWhile isDigit), .width, s.dropWhile isDigit, ⟨nofun, nofun⟩, fun b hb => ?_, ?_, hdigits⟩
    · exact if_neg (by simp [stops_dropWhile isDigit s b hb])
    · -- Neither a flag nor a star follows, so that it does not matter whether a digit of the width has come.
      have hskip : read .flags { flags := fl } s = read .width { flags := fl } s := by
        cases s with
        | nil => rfl
        | cons b s =>
          have hflag : isFlag b = false := hflags b rfl
          have hb : b ≠ 42 := fun hb => hstar (congrArg some hb)
          refine read_congr ?_ rfl
          simp [Place.next, Place.behindFlags, hflag, hb]
      rw [hskip]
      have hread : read .width { flags := fl, width := .digits [] } (s.takeWhile isDigit ++ s.dropWhile isDigit)
          = read .width { flags := fl, width := .digits ([] ++ s.takeWhile isDigit) } (s.dropWhile isDigit) :=
        read_width (d := { flags := fl }) (Bytes.all_takeWhile s)
      rwa [List.takeWhile_append_dropWhile, List.nil_append] at hread

/-- What comes behind a percent sign is the same directive for both, and it is followed by the same text. -/
theorem read_directive (hs : s.head? ≠ some 37) : ∃ d rest, read .percent {} s = closed d rest
    ∧ ∀ args, readSpec args s = (d.spec args, args.drop d.takes, rest) := by
  obtain ⟨w, q, rest, hq, hnext, hread, hwidth⟩ := read_of_behindFlags (s.takeWhile isFlag) (stops_dropWhile isFlag s)
  obtain ⟨pr, rest', hclosed, hprecision⟩ :=
    read_of_behindWidth (d := { flags := s.takeWhile isFlag, width := w }) hq hnext rfl
  refine ⟨{ flags := s.takeWhile isFlag, width := w, precision := pr }, rest', ?_, fun args => ?_⟩
  · rw [read_percent hs, ← hclosed, ← hread]
    conv => lhs; rw [← List.takeWhile_append_dropWhile (p := isFlag) (l := s)]
    rw [read_flags (d := {}) (Bytes.all_takeWhile s)]
    rfl
  · unfold readSpec
    simp only [span, hwidth, hprecision, List.drop_drop]
    rfl

/-! ## Formats -/

theorem sprintf_nil (args : List Arg) : sprintf [] args = [] := sprintf.eq_1 args

theorem sprintf_percent (rest : Bytes) (args : List Arg) : sprintf (37 :: 37 :: rest) args = 37 :: sprintf rest args :=
  sprintf.eq_3 args rest

theorem sprintf_unfinished {args args' : List Arg} {spec : Spec} (hs : s.head? ≠ some 37)
    (h : readSpec args s = (spec, args', [])) :
    sprintf (37 :: s) args = spec.text := by
  cases s with
  | nil =>
    cases h
    exact sprintf.eq_2 args
  | cons b t =>
    rw [sprintf.eq_4 _ _ (List.cons_ne_nil b t) fun rest e => hs (by rw [e]; rfl)]
    split
    · next h' =>
      rw [h] at h'
      cases h'
      rfl
    · next h' =>
      rw [h] at h'
      cases h'

theorem pieces_plain {b : UInt8} (hb : b ≠ 37) (s : Bytes) :
    pieces (b :: s) = .plain b :: pieces s := if_pos (if_neg hb)

theorem sprintf_eq_write (f : Bytes) (args : List Arg) : sprintf f args = write (pieces f) args := by
  induction hn : f.length using Nat.strongRecOn generalizing f args with
  | _ n ih =>
    subst hn
    match f with
    | [] => exact sprintf_nil args
    | b :: s =>
      by_cases hb : b = 37
      · subst hb
        by_cases hs : s.head? = some 37
        · obtain ⟨s, rfl⟩ : ∃ t, s = 37 :: t := by
            cases s with
            | nil => cases hs
            | cons b t => exact ⟨t, by cases hs; rfl⟩
          rw [sprintf_percent, ih s.length (Nat.lt_succ_of_lt (Nat.lt_succ_self _)) s args rfl]
          rfl
        · obtain ⟨d, rest, hread, hspec⟩ := read_directive hs
          have hpieces : pieces (37 :: s) = closed d rest := hread
          rw [hpieces]
          cases rest with
          | nil =>
            rw [sprintf_unfinished hs (hspec args)]
            exact (List.append_nil _).symm
          | cons verb rest =>
            have hlength : rest.length < s.length := by
              have := readSpec_length_le args s
              rwa [hspec] at this
            rw [sprintf_directive hs (hspec args), writeVerb_rest, List.drop_drop,
              ih rest.length (by simp; omega) rest _ rfl]
            rfl
      · rw [sprintf_plain hb, pieces_plain hb, ih s.length (by simp) s args rfl]
        rfl

/-! ## One format behind another -/

theorem read_between : read .between d s = pieces s := by
  cases s with
  | nil => rfl
  | cons b s =>
    by_cases hb : b = 37
    · subst hb
      rfl
    · exact (if_pos (if_neg hb)).trans (pieces_plain hb s).symm

theorem read_append (h : s.foldl Place.next p = .between) : read p d (s ++ t) = read p d s ++ pieces t := by
  induction s generalizing p d with
  | nil =>
    obtain rfl : p = .between := h
    exact read_between
  | cons b s ih =>
    rw [List.cons_append, read, read]
    split
    · next hb =>
      rw [ih (hb ▸ h)]
      rfl
    · exact ih h

theorem pieces_append {f₁ : Bytes} (h : Place.after f₁ = .between) (f₂ : Bytes) :
    pieces (f₁ ++ f₂) = pieces f₁ ++ pieces f₂ :=
  read_append h

/-! ## The arguments that count -/

theorem writeVerb_unknown {verb : UInt8} (h : takesArgument verb = false) (spec : Spec) (args : List Arg) :
    (writeVerb spec args verb).1 = [37, verb] := by
  have hverb : verb ≠ 99 := by
    rintro rfl
    exact absurd h (by decide)
  have hsome := isSome_field? verb (argument args 0) hverb
  rw [h] at hsome
  unfold writeVerb
  rw [takeArg_eq]
  dsimp only
  rw [if_neg hverb, Option.isSome_eq_false_iff.1 hsome |> Option.isNone_iff_eq_none.1]

theorem writeVerb_congr (h : argument args 0 = argument args' 0) (spec : Spec) (verb : UInt8) :
    (writeVerb spec args verb).1 = (writeVerb spec args' verb).1 := by
  unfold writeVerb
  rw [takeArg_eq, takeArg_eq, h]
  dsimp only
  split
  · rfl
  · split <;> rfl

theorem Amount.setWidth_congr {a : Amount} (h : ∀ i < a.takes, argument args i = argument args' i) (spec : Spec) :
    a.setWidth args spec = a.setWidth args' spec := by
  cases a with
  | digits ds => rfl
  | star => rw [setWidth, setWidth, h 0 Nat.one_pos]

theorem setPrecision_congr {pr : Option Amount} (h : ∀ i < pr.elim 0 Amount.takes, argument args i = argument args' i)
    (spec : Spec) :
    setPrecision args spec pr = setPrecision args' spec pr := by
  match pr with
  | none | some (.digits _) => rfl
  | some .star => rw [setPrecision, setPrecision, h 0 Nat.one_pos]

theorem Shape.spec_congr (h : ∀ i < d.takes, argument args i = argument args' i) : d.spec args = d.spec args' := by
  unfold Shape.spec
  rw [Amount.setWidth_congr fun i hi => h i (Nat.lt_add_right _ hi)]
  refine setPrecision_congr (fun i hi => ?_) _
  rw [argument_drop, argument_drop]
  exact h _ (Nat.add_lt_add_left hi _)

theorem Piece.write_congr {q : Piece} (h : ∀ i < q.takes, argument args i = argument args' i) :
    q.write args = q.write args' := by
  cases q with
  | plain b => rfl
  | percent => rfl
  | unfinished d => exact congrArg Spec.text (Shape.spec_congr h)
  | directive d verb =>
    have hspec : d.spec args = d.spec args' := Shape.spec_congr fun i hi => h i (Nat.lt_add_right _ hi)
    show (writeVerb (d.spec args) (args.drop d.takes) verb).1 = (writeVerb (d.spec args') (args'.drop d.takes) verb).1
    rw [hspec]
    cases hverb : takesArgument verb with
    | false => rw [writeVerb_unknown hverb, writeVerb_unknown hverb]
    | true =>
      refine writeVerb_congr ?_ _ _
      rw [argument_drop, argument_drop]
      exact h d.takes (by simp [Piece.takes, hverb])

theorem write_congr {ps : List Piece} (h : ∀ i < takenBy ps, argument args i = argument args' i) :
    write ps args = write ps args' := by
  induction ps generalizing args args' with
  | nil => rfl
  | cons q ps ih =>
    have hfirst : q.write args = q.write args' := Piece.write_congr fun i hi => h i (Nat.lt_add_right _ hi)
    have hrest : write ps (args.drop q.takes) = write ps (args'.drop q.takes) := ih fun i hi => by
      rw [argument_drop, argument_drop]
      exact h _ (Nat.add_lt_add_left hi _)
    rw [write, write, hfirst, hrest]

theorem write_append (ps qs : List Piece) (args : List Arg) :
    write (ps ++ qs) args = write ps args ++ write qs (args.drop (takenBy ps)) := by
  induction ps generalizing args with
  | nil => rfl
  | cons q ps ih =>
    rw [List.cons_append, write, write, ih, List.drop_drop, List.append_assoc]
    rfl

theorem sprintf_congr {f : Bytes} (h : ∀ i < taken f, argument args i = argument args' i) :
    sprintf f args = sprintf f args' := by
  rw [sprintf_eq_write, sprintf_eq_write]
  exact write_congr h

/-! ## Composition -/

def doubled (t : Bytes) : Bytes := t.flatMap fun b => if b = 37 then [37, 37] else [b]

theorem sprintf_doubled (t : Bytes) (args : List Arg) : sprintf (doubled t) args = t := by
  induction t with
  | nil => exact sprintf_nil args
  | cons b t ih =>
    rw [doubled, List.flatMap_cons]
    split
    · next hb =>
      subst hb
      exact (sprintf_percent _ args).trans (congrArg (37 :: ·) ih)
    · next hb => exact (sprintf_plain hb _ args).trans (congrArg (b :: ·) ih)

/-- A format that ends between directives is written as if nothing came behind it, and what comes behind it is written
with the arguments that the first has left. Missing arguments count as empty strings and surplus ones do not count; and
a text in which every percent sign is doubled is a format that shows the text, whatever the arguments. -/
theorem sprintf_compositional :
    (∀ f₁ f₂ args, Place.after f₁ = .between → sprintf (f₁ ++ f₂) args
      = sprintf f₁ args ++ sprintf f₂ (args.drop (taken f₁)))
      ∧ (∀ f args n, sprintf f (args ++ List.replicate n (.str [])) = sprintf f args)
      ∧ (∀ f args, sprintf f (args.take (taken f)) = sprintf f args)
      ∧ ∀ t args, sprintf (doubled t) args = t := by
  refine ⟨fun f₁ f₂ args h => ?_, fun f args n => sprintf_congr fun i _ => ?_, fun f args =>
    sprintf_congr fun i hi => ?_,
    sprintf_doubled⟩
  · rw [sprintf_eq_write, pieces_append h, write_append, ← sprintf_eq_write, ← sprintf_eq_write]
    rfl
  · simp only [argument, List.getD_eq_getElem?_getD, List.getElem?_append, List.getElem?_replicate]
    grind
  · simp only [argument, List.getD_eq_getElem?_getD, List.getElem?_take, if_pos hi]

/-- The first format takes a width and a number; its unknown verb and its percent sign take nothing. -/
theorem sprintf_compositional_star : Place.after (text "%-*d|%z%%") = .between
    ∧ sprintf (text "%-*d|%z%%" ++ text "%.2s.") [.int 4, .int 42, .str (text "abc")]
      = sprintf (text "%-*d|%z%%") [.int 4, .int 42, .str (text "abc")] ++ sprintf (text "%.2s.") [.str (text "abc")]
    ∧ sprintf (text "%-*d|%z%%") [.int 4, .int 42, .str (text "abc")] = text "42  |%z%" := by
  have hafter : Place.after (text "%-*d|%z%%") = .between := by decide
  exact ⟨hafter, sprintf_compositional.1 _ (text "%.2s.") [.int 4, .int 42, .str (text "abc")] hafter,
    by decide +kernel⟩

end RecordMill.Format

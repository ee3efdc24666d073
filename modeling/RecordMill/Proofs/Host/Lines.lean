import RecordMill.Host.Reader

/-!
# The lines of a text

A reader hands out the lines of its text one after another, wherever the blocks that it takes are cut.
-/

namespace RecordMill.Reader

/-! ## Lines -/

/-- The text is cut at every newline; what comes after the last one counts if there is something. -/
def lines (s : Bytes) : List Bytes :=
  let pieces := Bytes.cutAt 10 s
  (if pieces.getLast? = some [] then pieces.dropLast else pieces).map trimEnd

variable {s line back : Bytes}

theorem takeWhile_newline (h : 10 ∉ line) (back : Bytes) : (line ++ 10 :: back).takeWhile (· ≠ 10) = line := by
  rw [List.takeWhile_append_of_pos, List.takeWhile_cons_of_neg (by simp), List.append_nil]
  intro b hb
  have hne : b ≠ 10 := fun heq => h (heq ▸ hb)
  simpa using hne

theorem drop_newline (line back : Bytes) : (line ++ 10 :: back).drop (line.length + 1) = back := by
  rw [List.drop_append]
  simp

theorem cutAt_whole {c : UInt8} (h : c ∉ line) : Bytes.cutAt c line = [line] := by
  induction line with
  | nil => rfl
  | cons b line ih =>
    rw [List.mem_cons, not_or] at h
    rw [Bytes.cutAt, if_neg (Ne.symm h.1), ih h.2]

theorem cutAt_first {c : UInt8} (h : c ∉ line) (back : Bytes) :
    Bytes.cutAt c (line ++ c :: back) = line :: Bytes.cutAt c back := by
  induction line with
  | nil => rw [List.nil_append, Bytes.cutAt, if_pos rfl]
  | cons b line ih =>
    rw [List.mem_cons, not_or] at h
    rw [List.cons_append, Bytes.cutAt, if_neg (Ne.symm h.1), ih h.2]

theorem cutAt_ne_nil (c : UInt8) (s : Bytes) : Bytes.cutAt c s ≠ [] := by
  cases s with
  | nil => simp [Bytes.cutAt]
  | cons b s =>
    rw [Bytes.cutAt]
    split
    · simp
    · split <;> simp

theorem lines_whole (h : 10 ∉ line) (hne : line ≠ []) : lines line = [trimEnd line] := by
  simp [lines, cutAt_whole h, hne]

theorem lines_newline (h : 10 ∉ line) (back : Bytes) : lines (line ++ 10 :: back) = trimEnd line :: lines back := by
  obtain ⟨p, ps, hback⟩ := List.exists_cons_of_ne_nil (cutAt_ne_nil 10 back)
  simp only [lines, cutAt_first h, hback, List.getLast?_cons_cons, List.dropLast_cons_cons]
  split <;> rfl

theorem lines_ne_nil (h : s ≠ []) : lines s ≠ [] := by
  by_cases hmem : (10 : UInt8) ∈ s
  · obtain ⟨line, back, rfl, hline⟩ := List.eq_append_cons_of_mem hmem
    rw [lines_newline hline]
    exact List.cons_ne_nil _ _
  · rw [lines_whole hmem h]
    exact List.cons_ne_nil _ _

/-- When reading breaks off, what comes after the last newline is lost. -/
def linesUpTo (s : Bytes) : Option Failure → List Bytes
  | none => lines s
  | some _ => (Bytes.cutAt 10 s).dropLast.map trimEnd

variable {e : Option Failure}

theorem linesUpTo_newline (h : 10 ∉ line) (back : Bytes) (e : Option Failure) :
    linesUpTo (line ++ 10 :: back) e = trimEnd line :: linesUpTo back e := by
  cases e with
  | none => exact lines_newline h back
  | some e => simp only [linesUpTo, cutAt_first h, List.dropLast_cons_of_ne_nil (cutAt_ne_nil 10 back), List.map_cons]

theorem linesUpTo_failing (h : 10 ∉ line) (e : Failure) : linesUpTo line (some e) = [] := by
  simp [linesUpTo, cutAt_whole h]

theorem linesUpTo_nil (e : Option Failure) : linesUpTo [] e = [] := by
  cases e <;> rfl

/-! ## A reader -/

variable {d : Disk} {r : Reader} {acc : Bytes}

/-- The text `s` is still to come, and then `e` if something breaks it off. -/
inductive Gives (d : Disk) (r : Reader) (s : Bytes) (e : Option Failure) : Prop where
  | ofText (source : r.source = .text) (text : s = r.buffer) (failure : e = none)
  | ofNode {path : Bytes} {node : Node} {out : Readout} (source : r.source = .node path node)
      (unpacked : d.unpacked path node = .ok out) (text : s = r.buffer ++ out.text.drop r.offset)
        (failure : e = out.failure)

def Yields (d : Disk) (r : Reader) (s : Bytes) : Prop := r.Gives d s none

def stepsLeft (d : Disk) (r : Reader) :
    Nat := 2 * (available d r - r.offset) + if blockSize ≤ r.buffer.length then 1 else 0

theorem unpacked_of_not_isPacked {path : Bytes} (h : Disk.isPacked path = false) (d : Disk) (node : Node) :
    d.unpacked path node = .ok (d.readout path node) := by
  rw [Disk.isPacked, Bool.or_eq_false_iff] at h
  rw [Disk.unpacked, if_neg (by simp [h.1]), if_neg (by simp [h.2])]

theorem available_node {path : Bytes} {node : Node} {out : Readout} (h : r.source = .node path node)
    (hout : d.unpacked path node = .ok out) : available d r = out.text.length := by
  unfold available
  rw [h]
  dsimp only
  split
  · rw [hout]
    rfl
  · next hpacked =>
    rw [unpacked_of_not_isPacked (by simpa using hpacked), Except.ok.injEq] at hout
    subst hout
    cases node with
    | file l =>
      unfold Disk.readout Disk.content?
      cases hfile : d.file? l <;> simp [hfile, Buffer.size_eq_length]
    | directory => rfl
    | null => rfl
    | full => rfl

def ended : Option Failure → Except Failure (Option Bytes)
  | none => .ok none
  | some e => .error e

/-- What comes of a text: its first line, or its end. -/
def Gathered (d : Disk) (result : Except Failure (Option Bytes) × Reader) (s : Bytes) (e : Option Failure) : Prop :=
  (linesUpTo s e = [] ∧ result.1 = ended e ∧ result.2.Gives d [] e)
    ∨ ∃ t rest, result.1 = .ok (some t) ∧ linesUpTo s e = t :: linesUpTo rest e ∧ result.2.Gives d rest e

theorem gathered_whole (h : 10 ∉ s) (hr : r.Gives d [] none) :
    Gathered d (.ok (if s.isEmpty then none else some (trimEnd s)), r) s none := by
  cases s with
  | nil => exact .inl ⟨rfl, rfl, hr⟩
  | cons b s => exact .inr ⟨_, [], rfl, lines_whole h (by simp), hr⟩

theorem gathered_buffered {front later : Bytes} (h : 10 ∉ front) (hr : r.Gives d later e) :
    Gathered d (.ok (some (trimEnd front)), r) (front ++ 10 :: later) e :=
  .inr ⟨_, later, rfl, linesUpTo_newline h later e, hr⟩

theorem takeBlock_node {path : Bytes} {node : Node} {out : Readout} (hsource : r.source = .node path node)
    (hout : d.unpacked path node = .ok out) (n : Nat) :
    takeBlock d r n = match (out.text.drop r.offset).take n, out.failure with
      | [], some e => .error e
      | block, _ => .ok block := by
  unfold takeBlock
  rw [hsource]
  simp only [hout, bind, Except.bind, pure, Except.pure]
  rfl

theorem gathered_gather {fuel : Nat} (h : r.Gives d s e) (hacc : 10 ∉ acc) (hfuel : stepsLeft d r < fuel) :
    Gathered d (gather d fuel r acc) (acc ++ s) e := by
  induction fuel generalizing r acc s with
  | zero => omega
  | succ fuel ih =>
    unfold gather
    split
    · next hnewline =>
      have hmem : (10 : UInt8) ∈ r.buffer := by simpa [Bytes.has] using hnewline
      obtain ⟨line, back, hbuffer, hline⟩ := List.eq_append_cons_of_mem hmem
      have hfront : (10 : UInt8) ∉ acc ++ line := by simp [hacc, hline]
      simp only [hbuffer, takeWhile_newline hline, drop_newline]
      cases h with
      | ofText hsource hs he =>
        rw [hs, hbuffer, ← List.append_assoc]
        exact gathered_buffered hfront (.ofText hsource rfl he)
      | ofNode hsource hout hs he =>
        rw [hs, hbuffer, List.append_assoc line, ← List.append_assoc, List.cons_append]
        exact gathered_buffered hfront (.ofNode hsource hout rfl he)
    · next hnewline =>
      have hbuffer : (10 : UInt8) ∉ r.buffer := by simpa [Bytes.has] using hnewline
      have hfront : (10 : UInt8) ∉ acc ++ r.buffer := by simp [hacc, hbuffer]
      split
      · next hfull =>
        -- A full buffer moves to what was gathered.
        cases h with
        | ofText hsource => exact absurd hsource hfull.2
        | @ofNode path node out hsource hout hs he =>
          have hrest := @ih (out.text.drop r.offset) { r with buffer := [] } (acc ++ r.buffer)
            (.ofNode hsource hout rfl he) hfront ?_
          · rwa [List.append_assoc, ← hs] at hrest
          · have hsmaller : stepsLeft d { r with buffer := [] } < stepsLeft d r := by
              rw [stepsLeft, stepsLeft, if_pos hfull.1]
              simp [available, blockSize]
            omega
      · next hroom =>
        cases h with
        | ofText hsource hs he =>
          have hblock : takeBlock d r (blockSize - r.buffer.length) = .ok [] := by
            unfold takeBlock
            rw [hsource]
          rw [hblock, hs, he]
          exact gathered_whole hfront (.ofText hsource rfl rfl)
        | @ofNode path node out hsource hout hs he =>
          have hspace : 0 < blockSize - r.buffer.length := by
            have hnot : ¬ r.buffer.length ≥ blockSize := fun hfull => hroom ⟨hfull, by simp [hsource]⟩
            omega
          rw [takeBlock_node hsource hout]
          cases hrest : out.text.drop r.offset with
          | nil =>
            -- All has been taken, so that the rest of the line decides.
            have hgives : ({ r with buffer := [] } : Reader).Gives d [] e := .ofNode hsource hout (by simp [hrest]) he
            rw [hrest, List.append_nil] at hs
            rw [List.take_nil, ← he, hs]
            cases e with
            | none => exact gathered_whole hfront hgives
            | some e => exact .inl ⟨linesUpTo_failing hfront e, rfl, hgives⟩
          | cons b rest =>
            -- At least one byte is taken, so less is left of the file.
            obtain ⟨n, hn⟩ := Nat.exists_eq_succ_of_ne_zero (Nat.ne_of_gt hspace)
            have hlength : (b :: rest).length = available d r - r.offset := by
              rw [← hrest, List.length_drop, available_node hsource hout]
            have hafter : out.text.drop (r.offset + (b :: rest.take n).length) = rest.drop n := by
              have hsplit : b :: rest = (b :: rest.take n) ++ rest.drop n := by simp
              rw [← List.drop_drop, hrest]
              exact (congrArg (List.drop _) hsplit).trans List.drop_left
            rw [hn, List.take_succ_cons, hs, hrest]
            have hgather := @ih (r.buffer ++ b :: rest) { r with
                buffer := r.buffer ++ b :: rest.take n
                offset := r.offset + (b :: rest.take n).length } acc (.ofNode hsource hout ?_ he) hacc ?_
            · exact hgather
            · rw [hafter]
              simp
            · rw [List.length_cons] at hlength
              have hfewer : available d { r with
                  buffer := r.buffer ++ b :: rest.take n
                  offset := r.offset + (b :: rest.take n).length } - (r.offset + (b :: rest.take n).length) + 1
                  ≤ available d r - r.offset := by
                show available d r - _ + 1 ≤ _
                rw [List.length_cons]
                omega
              unfold stepsLeft at hfuel ⊢
              dsimp only at hfewer ⊢
              split <;> omega

theorem gathered_line (h : r.Gives d s e) : Gathered d (r.line d) s e := by
  have hsteps : stepsLeft d r < 2 * available d r + 3 := by
    unfold stepsLeft
    split <;> omega
  exact gathered_gather h (by simp) hsteps

theorem yields_line (h : r.Yields d s) : (s = [] ∧ (r.line d).1 = .ok none)
    ∨ ∃ t rest, (r.line d).1 = .ok (some t) ∧ lines s = t :: lines rest ∧ (r.line d).2.Yields d rest := by
  obtain ⟨hs, hresult, -⟩ | hfirst := gathered_line h
  · exact .inl ⟨Classical.byContradiction fun hne => lines_ne_nil hne hs, hresult⟩
  · exact .inr hfirst

/-! ## Files -/

def found (d : Disk) (path : Bytes) : Except Failure Readout :=
  match d.openRead path with
  | .error cause => .error (.openRead path cause)
  | .ok node => d.unpacked path node

theorem openFile_found (d : Disk) (path : Bytes) : match found d path with
    | .error e => openFile d path = .error e
    | .ok out => ∃ r, openFile d path = .ok r ∧ r.Gives d out.text out.failure := by
  unfold found openFile
  cases d.openRead path with
  | error cause => rfl
  | ok node =>
    dsimp only
    cases hout : d.unpacked path node with
    | error e => rfl
    | ok out => exact ⟨{ source := .node path node }, rfl, .ofNode rfl hout rfl rfl⟩

theorem found_regular {path : Bytes} {l : Location} (h : d.openRead path = .ok (.file l)) (hxz : ¬ text ".xz" <:+ path)
    (hlz4 : ¬ text ".lz4" <:+ path) : found d path = .ok { text := (d.content? l).getD [] } := by
  have hpacked : Disk.isPacked path = false := by
    rw [Disk.isPacked, Bool.or_eq_false_iff, Bool.eq_false_iff, Bool.eq_false_iff]
    exact ⟨mt List.isSuffixOf_iff_suffix.1 hxz, mt List.isSuffixOf_iff_suffix.1 hlz4⟩
  rw [found, h]
  exact unpacked_of_not_isPacked hpacked d _

theorem yields_openFile {path : Bytes} {l : Location} (h : d.openRead path = .ok (.file l))
    (hxz : ¬ text ".xz" <:+ path) (hlz4 : ¬ text ".lz4" <:+ path) :
    ∃ r, openFile d path = .ok r ∧ r.Yields d ((d.content? l).getD []) := by
  have hopened := openFile_found d path
  rw [found_regular h hxz hlz4] at hopened
  exact hopened

end RecordMill.Reader

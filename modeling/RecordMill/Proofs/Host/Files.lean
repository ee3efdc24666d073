import RecordMill.Host.Disk
import RecordMill.Host.Outputs

/-!
# Buffered text, paths and the files they name

What a writer has passed on and what it still keeps make up what it was given. A sink that fails has taken a part
from the front of what it was offered, and after that it is offered nothing more. Which place a path leads to depends
on the directories only, so what is written to files never changes it.
-/

namespace RecordMill

/-! ## Buffers -/

theorem Buffer.bytes_eq_nil {b : Buffer} (h : b.isEmpty) : b.bytes = [] := by
  have hsize : b.size = 0 := by simpa [isEmpty] using h
  rw [size_eq_length] at hsize
  exact List.eq_nil_of_length_eq_zero hsize

/-! ## Sinks -/

namespace Sink

theorem take_front (k : Sink) (s : Bytes) : ∃ t, (k.take s).2.content = k.content ++ t ∧ t <+: s := by
  unfold take content
  split
  · exact ⟨s, by simp, List.prefix_refl s⟩
  · next limit _ =>
    dsimp only
    split
    · exact ⟨s, by simp, List.prefix_refl s⟩
    · exact ⟨s.take (limit - k.taken.size), by simp, List.take_prefix ..⟩

theorem take_whole {k : Sink} {s : Bytes} (h : (k.take s).1 = none) : (k.take s).2.content = k.content ++ s := by
  unfold take content at *
  split
  · simp
  · next limit hlimit =>
    simp only [hlimit] at h ⊢
    split
    · simp
    · next hroom => simp [hroom] at h

end Sink

/-! ## Writers -/

namespace Writer

theorem fill_append (n : Nat) (b : Buffer) (s : Bytes) : (fill n b s).1 ++ (fill n b s).2.bytes = b.bytes ++ s := by
  unfold fill
  split <;> simp

theorem fillDirect_append (n : Nat) (b : Buffer) (s : Bytes) :
    (fillDirect n b s).1 ++ (fillDirect n b s).2.bytes = b.bytes ++ s := by
  unfold fillDirect
  split
  · simp
  · split
    · next hempty => simp [Buffer.bytes_eq_nil hempty]
    · dsimp only
      split <;> simp

theorem fillFor_append (k : Sink) (n : Nat) (b : Buffer) (s : Bytes) :
    (fillFor k n b s).1 ++ (fillFor k n b s).2.bytes = b.bytes ++ s := by
  unfold fillFor
  split
  · exact fillDirect_append n b s
  · exact fill_append n b s

/-- Beyond `base` the sink has taken a part `t` of the text `s`. What is left of it is in the buffer, unless something
failed. -/
def Passes (base : Bytes) (w : Writer) (k : Sink) (s : Bytes) : Prop :=
  ∃ t rest, k.content = base ++ t ∧ s = t ++ rest ∧ (w.failure = none → rest = w.pending.bytes)

namespace Passes

variable {base s : Bytes} {w : Writer} {k : Sink}

theorem front (h : Passes base w k s) : ∃ t, k.content = base ++ t ∧ t <+: s := by
  obtain ⟨t, rest, hk, rfl, -⟩ := h
  exact ⟨t, hk, List.prefix_append ..⟩

theorem offer (h : Passes base w k s) (hw : w.failure = none) {sent more : Bytes} {kept : Buffer}
    (hsent : sent ++ kept.bytes = w.pending.bytes ++ more) :
    Passes base { w with pending := kept, failure := (k.take sent).1 } (k.take sent).2 (s ++ more) := by
  obtain ⟨t, rest, hk, rfl, hrest⟩ := h
  obtain ⟨u, hu, v, rfl⟩ := k.take_front sent
  refine ⟨t ++ u, v ++ kept.bytes, ?_, ?_, fun hnone => ?_⟩
  · rw [hu, hk, List.append_assoc]
  · rw [List.append_assoc, hrest hw, ← hsent]
    simp
  · have hwhole := Sink.take_whole hnone
    rw [hu] at hwhole
    have huv : u = u ++ v := List.append_cancel_left hwhole
    have hv : v = [] := by simpa using huv
    simp [hv]

theorem write (h : Passes base w k s) (more : Bytes) :
    Passes base (w.write more k).2.1 (w.write more k).2.2 (s ++ more) := by
  unfold Writer.write
  split
  · next e he =>
    obtain ⟨t, rest, hk, rfl, -⟩ := h
    exact ⟨t, rest ++ more, hk, by simp, fun hnone => by simp [he] at hnone⟩
  · next hw =>
    have hfill := fillFor_append k w.capacity w.pending more
    dsimp only
    split
    · next hempty =>
      -- Everything fits into the buffer.
      obtain ⟨t, rest, hk, rfl, hrest⟩ := h
      refine ⟨t, rest ++ more, hk, by simp, fun _ => ?_⟩
      rw [List.isEmpty_iff.1 hempty, List.nil_append] at hfill
      rw [hfill, hrest hw]
    · exact h.offer hw hfill

theorem flush (h : Passes base w k s) : Passes base (w.flush k).2.1 (w.flush k).2.2 s := by
  unfold Writer.flush
  split
  · exact h
  · next hw =>
    split
    · exact h
    · have hall : w.pending.bytes ++ Buffer.empty.bytes = w.pending.bytes ++ [] := rfl
      have hoffer := h.offer hw hall
      rwa [List.append_nil] at hoffer

theorem flushed (h : Passes base w k s) (hflush : (w.flush k).1 = none) : (w.flush k).2.2.content = base ++ s := by
  obtain ⟨t, rest, hk, rfl, hrest⟩ := h
  unfold Writer.flush at *
  split
  · next e he => simp [he] at hflush
  · next hw =>
    rw [hrest hw]
    split
    · next hempty => simp [Buffer.bytes_eq_nil hempty, hk]
    · next hfull =>
      simp only [hw, hfull, if_false, Bool.false_eq_true] at hflush
      rw [Sink.take_whole hflush, hk, List.append_assoc]

end Passes

end Writer

theorem Outputs.close_eq (o : Outputs) (w : World) (h : o.pipes.entries = []) :
    o.close w = ((o.flush w).1, { (o.flush w).2.1 with files := {}, pipes := {} }, (o.flush w).2.2) := by
  have hpipes : (o.flush w).2.1.pipes.entries = [] := by
    show o.pipes.entries.map _ = []
    rw [h]
    rfl
  unfold close
  rcases hflush : o.flush w with ⟨errors, o', w'⟩
  rw [hflush] at hpipes
  simp only at hpipes ⊢
  rw [hpipes]
  rfl

/-! ## Files -/

theorem lookup_replace {α β : Type} [BEq α] [LawfulBEq α] [DecidableEq α] (es : List (α × β)) (a k : α) (b : β) :
    (es.map fun e => if e.1 = a then (a, b) else e).lookup k
      = if k = a then (es.lookup k).map fun _ => b else es.lookup k := by
  induction es with
  | nil => simp
  | cons e es ih =>
    obtain ⟨x, y⟩ := e
    rw [List.map_cons]
    by_cases hx : x = a
    · subst hx
      by_cases hk : k = x
      · simp [hk]
      · simp [hk, List.lookup_cons, beq_eq_false_iff_ne.2 hk, ih]
    · by_cases hk : k = x
      · simp [hk, hx]
      · simp [hx, List.lookup_cons, beq_eq_false_iff_ne.2 hk, ih]

namespace Disk

variable {d d' : Disk} {path : Bytes} {l : Location}

/-! ## Contents -/

theorem file?_put (d : Disk) (l k : Location) (b : Buffer) :
    (d.put l b).file? k = if k = l then some b else d.file? k := by
  unfold put file?
  split
  · next h =>
    obtain ⟨old, hold⟩ := Option.isSome_iff_exists.1 h
    dsimp only
    rw [lookup_replace]
    split
    · next hk => rw [hk, hold, Option.map_some]
    · rfl
  · next h =>
    have hnone : d.files.lookup l = none := Option.not_isSome_iff_eq_none.1 h
    dsimp only
    rw [List.lookup_append]
    by_cases hk : k = l
    · rw [hk, hnone]
      simp
    · simp [hk, List.lookup_cons, beq_eq_false_iff_ne.2 hk]

@[simp] theorem directories_put (d : Disk) (l : Location) (b : Buffer) : (d.put l b).directories = d.directories := by
  unfold put
  split <;> rfl

theorem content?_put (d : Disk) (l k : Location) (b : Buffer) :
    (d.put l b).content? k = if k = l then some b.bytes else d.content? k := by
  unfold content?
  rw [file?_put]
  split <;> rfl

/-! ## What a path names -/

theorem isDirectory_congr (h : d'.directories = d.directories) (l : Location) : d'.isDirectory l = d.isDirectory l := by
  unfold isDirectory
  rw [h]

theorem walk_congr (h : d'.directories = d.directories) {here : Location} {cs : List Bytes}
    (hwalk : d.walk here cs = .ok l) :
    d'.walk here cs = .ok l := by
  fun_induction walk d here cs with
  | case1 here => exact hwalk
  | case2 => cases hwalk
  | case3 here c cs hlength hdot ih =>
    rw [walk, if_neg hlength, if_pos hdot]
    exact ih hwalk
  | case4 here cs hlength hdot ih =>
    rw [walk, if_neg hlength, if_neg hdot, if_pos rfl]
    exact ih hwalk
  | case5 here c cs hlength hdot hdots next hlast =>
    rw [walk, if_neg hlength, if_neg hdot, if_neg hdots]
    exact (if_pos hlast).trans hwalk
  | case6 here c cs hlength hdot hdots next hlast hdir ih =>
    rw [walk, if_neg hlength, if_neg hdot, if_neg hdots]
    rw [← isDirectory_congr h] at hdir
    exact (if_neg hlast).trans ((if_pos hdir).trans (ih hwalk))
  | case7 => cases hwalk
  | case8 => cases hwalk
/-- The path leads to a regular file, or to a place where there can be one. -/
structure Names (d : Disk) (path : Bytes) (l : Location) : Prop where
  located : d.locate path = .ok l
  file : d.isDirectory l = false
  slash : path.getLast? ≠ some 47
  regular : device? l = none

namespace Names

theorem congr (h : d.Names path l) (hdirs : d'.directories = d.directories) : d'.Names path l := by
  refine ⟨?_, (isDirectory_congr hdirs l).trans h.file, h.slash, h.regular⟩
  have hlocated := h.located
  unfold locate at hlocated ⊢
  split at hlocated
  · cases hlocated
  · split at hlocated
    · cases hlocated
    · split at hlocated
      · cases hlocated
      · next hzero hempty hlength =>
        rw [if_neg hzero, if_neg hempty, if_neg hlength]
        exact walk_congr hdirs hlocated

/-- Opening for writing creates the file or empties it, and appending keeps what is there. -/
theorem openWrite (h : d.Names path l) (append : Bool) : ∃ d', d.openWrite path append = .ok (.file l, d')
    ∧ d'.directories = d.directories
    ∧ ∀ k, d'.content? k = if k = l then some (if append then (d.content? l).getD [] else []) else d.content? k := by
  unfold Disk.openWrite
  simp only [h.located, h.file, h.slash, h.regular, bind, Except.bind, pure, Except.pure]
  cases hfile : d.file? l with
  | none =>
    have hcontent : d.content? l = none := by rw [content?, hfile, Option.map_none]
    refine ⟨d.put l .empty, rfl, directories_put .., fun k => ?_⟩
    rw [content?_put, hcontent]
    simp
  | some b =>
    refine ⟨if append then d else d.put l .empty, rfl, ?_, fun k => ?_⟩
    · split <;> simp
    · have hcontent : d.content? l = some b.bytes := by rw [content?, hfile, Option.map_some]
      cases append with
      | false => simp [content?_put]
      | true =>
        by_cases hk : k = l
        · simp [hk, hcontent]
        · simp [hk]

end Names

theorem content?_write {append : Bool} {offset : Nat} {s more : Bytes} (hcontent : d.content? l = some s)
    (hend : append = false → offset = s.length) (k : Location) :
    (d.write l append offset more).content? k = if k = l then some (s ++ more) else d.content? k := by
  obtain ⟨b, hfile, rfl⟩ : ∃ b, d.file? l = some b ∧ b.bytes = s := by simpa [content?] using hcontent
  have hplace : append ∨ offset = b.size := by
    cases append with
    | true => exact .inl rfl
    | false => exact .inr ((hend rfl).trans b.size_eq_length.symm)
  unfold write
  simp only [hfile, Option.getD_some, if_pos hplace, content?_put, Buffer.bytes_push]

theorem directories_write (d : Disk) (l : Location) (append : Bool) (offset : Nat) (s : Bytes) :
    (d.write l append offset s).directories = d.directories := by
  unfold write
  dsimp only
  split <;> simp

end Disk

end RecordMill

import RecordMill.Proofs.Host.Files

/-!
# Output files hold what was written

Files are written through buffers that fill and empty independently of each other. Whatever their size, a file holds
what the first write since the last closing left of it and then the texts of all writes, in order.
-/

namespace RecordMill

/-! ## One open file -/

namespace OutputFile

variable {f : OutputFile} {d d' : Disk} {l : Location} {s : Bytes}

/-- What the file holds and what is still in the buffer make up `s`. -/
structure Holds (f : OutputFile) (d : Disk) (l : Location) (s : Bytes) : Prop where
  node : f.node = .file l
  sound : f.writer.failure = none
  content : ∃ t, d.content? l = some t ∧ s = t ++ f.writer.pending.bytes ∧ (f.append = false → f.offset = t.length)

/-- The file came out of a use that met no failure and touched no other file. -/
structure Took (r : Option Failure × OutputFile × Disk) (d : Disk) (l : Location) (s : Bytes) : Prop where
  ok : r.1 = none
  holds : r.2.1.Holds r.2.2 l s
  directories : r.2.2.directories = d.directories
  elsewhere : ∀ k, k ≠ l → r.2.2.content? k = d.content? k

namespace Holds

theorem congr (h : f.Holds d l s) (hd : d'.content? l = d.content? l) : f.Holds d' l s := by
  refine ⟨h.node, h.sound, ?_⟩
  rw [hd]
  exact h.content

theorem send (h : f.Holds d l s) {sent more : Bytes} {kept : Buffer}
    (hsent : sent ++ kept.bytes = f.writer.pending.bytes ++ more) :
    Took ({ f with writer := { f.writer with pending := kept } }.send d sent) d l (s ++ more) := by
  obtain ⟨t, ht, rfl, hend⟩ := h.content
  unfold OutputFile.send
  split
  · next hempty =>
    rw [List.isEmpty_iff.1 hempty, List.nil_append] at hsent
    exact ⟨rfl, ⟨h.node, h.sound, t, ht, by rw [hsent, List.append_assoc], hend⟩, rfl, fun _ _ => rfl⟩
  · simp only [h.node]
    refine ⟨rfl, ⟨rfl, h.sound, t ++ sent, ?_, ?_, fun happend => ?_⟩, Disk.directories_write .., fun k hk => ?_⟩
    · rw [Disk.content?_write ht hend, if_pos rfl]
    · rw [List.append_assoc, List.append_assoc, hsent]
    · rw [List.length_append, ← hend happend]
    · rw [Disk.content?_write ht hend, if_neg hk]

theorem write (h : f.Holds d l s) (more : Bytes) : Took (f.write d more) d l (s ++ more) := by
  unfold OutputFile.write
  split
  · next e he => cases h.sound.symm.trans he
  · exact h.send (Writer.fillDirect_append ..)

theorem flush (h : f.Holds d l s) : Took (f.flush d) d l s ∧ (f.flush d).2.2.content? l = some s := by
  have htook : Took (f.flush d) d l s := by
    unfold OutputFile.flush
    split
    · next e he => cases h.sound.symm.trans he
    · have hall : f.writer.pending.bytes ++ Buffer.empty.bytes = f.writer.pending.bytes ++ [] := rfl
      have hsend := h.send hall
      rwa [List.append_nil] at hsend
  have hempty : (f.flush d).2.1.writer.pending.bytes = [] := by
    unfold OutputFile.flush OutputFile.send
    simp only [h.sound, h.node]
    split <;> rfl
  obtain ⟨t, ht, hs, -⟩ := htook.holds.content
  rw [hempty, List.append_nil] at hs
  exact ⟨htook, hs ▸ ht⟩

end Holds

end OutputFile

namespace OutputFiles

/-! ## What is asked and what is due -/

inductive Op where
  | write (path s : Bytes) (append : Bool)
  | flush
  | close
  deriving DecidableEq

abbrev State := Outputs × World

def Op.run : Op → State → List Failure × State
  | .write path s append, (o, w) => ((o.write w path s append).1.toList, (o.write w path s append).2)
  | .flush, (o, w) => o.flush w
  | .close, (o, w) => o.close w

def after (st : State) (ops : List Op) : State := ops.foldl (fun st op => (op.run st).2) st

def failures : State → List Op → List Failure
  | _, [] => []
  | st, op :: ops => (op.run st).1 ++ failures (op.run st).2 ops

def Op.path? : Op → Option Bytes
  | .write path _ _ => some path
  | _ => none

def paths (ops : List Op) : List Bytes := ops.filterMap Op.path?

/-- The texts written to a path, and whether they asked to be appended. -/
def writes (path : Bytes) (ops : List Op) : List (Bytes × Bool) :=
  ops.filterMap fun
    | .write p s append => if p = path then some (s, append) else none
    | _ => none

/-- The first write says what becomes of the old contents. -/
def contents (old : Option Bytes) : List (Bytes × Bool) → Option Bytes
  | [] => old
  | (s, append) :: rest => some ((if append then old.getD [] else []) ++ s ++ (rest.map Prod.fst).flatten)

/-- The contents at the last closing, and what was written since. -/
structure Book where
  old : Location → Option Bytes
  recent : List Op := []

variable {place : Bytes → Location} {path : Bytes} {ops : List Op} {b : Book} {st : State}

namespace Book

def settled (place : Bytes → Location) (b : Book) (l : Location) : Option Bytes :=
  match (paths b.recent).find? (place · = l) with
  | some path => contents (b.old l) (writes path b.recent)
  | none => b.old l

def enter (place : Bytes → Location) (b : Book) : Op → Book
  | .write path s append => { b with recent := b.recent ++ [.write path s append] }
  | .flush => b
  | .close => { old := b.settled place }

end Book

theorem contents_nil_last {old : Option Bytes} {ws : List (Bytes × Bool)} (h : ws ≠ []) (append : Bool) :
    contents old (ws ++ [([], append)]) = contents old ws := by
  cases ws with
  | nil => exact absurd rfl h
  | cons w ws => simp [contents]

theorem exists_contents (old : Option Bytes) {ws : List (Bytes × Bool)} (h : ws ≠ []) :
    ∃ s, contents old ws = some s := by
  cases ws with
  | nil => exact absurd rfl h
  | cons w ws => exact ⟨_, rfl⟩

theorem contents_last {old : Option Bytes} {ws : List (Bytes × Bool)} {append : Bool} {t : Bytes}
    (h : contents old (ws ++ [([], append)]) = some t) (s : Bytes) :
    contents old (ws ++ [(s, append)]) = some (t ++ s) := by
  cases ws with
  | nil =>
    simp only [contents, List.nil_append, Option.some.injEq] at h ⊢
    simp [← h]
  | cons w ws =>
    simp only [contents, List.cons_append, Option.some.injEq] at h ⊢
    simp [← h]

@[simp] theorem paths_write (ops : List Op) (path s : Bytes) (append : Bool) :
    paths (ops ++ [.write path s append]) = paths ops ++ [path] := by
  simp [paths, Op.path?]

theorem writes_write (ops : List Op) (path s : Bytes) (append : Bool) :
    writes path (ops ++ [.write path s append]) = writes path ops ++ [(s, append)] := by
  simp [writes]

theorem writes_other {q : Bytes} (h : q ≠ path) (ops : List Op) (s : Bytes) (append : Bool) :
    writes q (ops ++ [.write path s append]) = writes q ops := by
  simp [writes, Ne.symm h]

theorem writes_eq_nil_iff : writes path ops = [] ↔ path ∉ paths ops := by
  induction ops with
  | nil => simp [writes, paths]
  | cons op ops ih =>
    cases op with
    | write p s append =>
      by_cases hp : p = path
      · subst hp
        simp [writes, paths, Op.path?]
      · have hcons : writes path (.write p s append :: ops) = writes path ops := by simp [writes, hp]
        rw [hcons, ih]
        simp [paths, Op.path?, Ne.symm hp]
    | flush | close => exact ih

/-! ## Many open files -/

abbrev Opened := List (Bytes × OutputFile)

def flushOne : List Failure × Opened × Disk → Bytes × OutputFile → List Failure × Opened × Disk
  | (errors, files, d), (path, f) =>
    (errors ++ (f.flush d).1.toList, files ++ [(path, (f.flush d).2.1)], (f.flush d).2.2)

def Hold (place : Bytes → Location) (due : Bytes → Bytes) (files : Opened) (d : Disk) : Prop :=
  ∀ e ∈ files, e.2.Holds d (place e.1) (due e.1)

/-- Each file holds it without the help of a buffer. -/
def Settled (place : Bytes → Location) (due : Bytes → Bytes) (files : Opened) (d : Disk) : Prop :=
  Hold place due files d ∧ ∀ e ∈ files, d.content? (place e.1) = some (due e.1)

theorem flush_files {due : Bytes → Bytes} {files done : Opened} {d : Disk} (hheld : Hold place due files d)
    (hdone : Settled place due done d) (hapart : ((done ++ files).map fun e => place e.1).Nodup) :
    ∃ files' d', files.foldl flushOne ([], done, d) = ([], files', d')
      ∧ files'.map Prod.fst = (done ++ files).map Prod.fst
      ∧ Settled place due files' d' ∧ d'.directories = d.directories
      ∧ ∀ k, (∀ e ∈ files, place e.1 ≠ k) → d'.content? k = d.content? k := by
  -- The files before the current one are settled, and the flush of another file leaves them so.
  induction files generalizing done d with
  | nil => exact ⟨done, d, rfl, by simp, hdone, rfl, fun _ _ => rfl⟩
  | cons e files ih =>
    obtain ⟨path, f⟩ := e
    obtain ⟨htook, hcontent⟩ := (hheld _ List.mem_cons_self).flush
    have hmove : done ++ (path, f) :: files = (done ++ [(path, f)]) ++ files := by simp
    have hbefore : ∀ e ∈ done, place e.1 ≠ place path := by
      rw [hmove, List.map_append, List.map_append] at hapart
      have hnodup := (List.nodup_append.1 (List.nodup_append.1 hapart).1).2.2
      intro e he
      exact hnodup _ (List.mem_map_of_mem he) _ (by simp)
    have hlater : ∀ e ∈ files, place e.1 ≠ place path := by
      rw [List.map_append, List.map_cons] at hapart
      have hnodup := (List.nodup_cons.1 (List.nodup_append.1 hapart).2.1).1
      intro e he heq
      exact hnodup (heq ▸ List.mem_map_of_mem he)
    obtain ⟨files', d', hfold, hkeys, hsettled, hdirs, helse⟩ := @ih (done ++ [(path, (f.flush d).2.1)]) (f.flush d).2.2
      (fun e he => (hheld e (List.mem_cons_of_mem _ he)).congr (htook.elsewhere _ (hlater e he)))
      ⟨fun e he => by
        rcases List.mem_append.1 he with he | he
        · exact (hdone.1 e he).congr (htook.elsewhere _ (hbefore e he))
        · obtain rfl := List.mem_singleton.1 he
          exact htook.holds,
      fun e he => by
        rcases List.mem_append.1 he with he | he
        · exact (htook.elsewhere _ (hbefore e he)).trans (hdone.2 e he)
        · obtain rfl := List.mem_singleton.1 he
          exact hcontent⟩
      (by simpa using hapart)
    refine ⟨files', d', ?_, ?_, hsettled, hdirs.trans htook.directories, fun k hk => ?_⟩
    · rw [List.foldl_cons]
      have hone : flushOne ([], done, d) (path, f) = ([], done ++ [(path, (f.flush d).2.1)], (f.flush d).2.2) := by
        simp only [flushOne, htook.ok, Option.toList_none, List.append_nil]
      rw [hone, hfold]
    · rw [hkeys]
      simp
    · rw [helse k fun e he => hk e (List.mem_cons_of_mem _ he)]
      exact htook.elsewhere k (Ne.symm (hk _ List.mem_cons_self))

theorem flush_eq (o : Outputs) (w : World) :
    Op.flush.run (o, w) = ((o.files.entries.foldl flushOne ([], [], w.disk)).1,
      { o with
        files := ⟨(o.files.entries.foldl flushOne ([], [], w.disk)).2.1⟩
        pipes := ⟨o.pipes.entries.map fun (line, p) => (line, p.flush)⟩ },
      { w with disk := (o.files.entries.foldl flushOne ([], [], w.disk)).2.2 }) := rfl

/-! ## Runs -/

/-- The state is what the book says, but for what is buffered. -/
structure Tracks (place : Bytes → Location) (d₀ : Disk) (b : Book) (st : State) : Prop where
  pipes : st.1.pipes.entries = []
  directories : st.2.disk.directories = d₀.directories
  apart : (st.1.files.entries.map fun e => place e.1).Nodup
  opened : ∀ path, path ∈ st.1.files.entries.map Prod.fst ↔ path ∈ paths b.recent
  held : ∀ e ∈ st.1.files.entries, ∃ s, contents (b.old (place e.1)) (writes e.1 b.recent) = some s
    ∧ e.2.Holds st.2.disk (place e.1) s
  rest : ∀ l, (∀ path ∈ paths b.recent, place path ≠ l) → st.2.disk.content? l = b.old l

namespace Tracks

variable {d₀ : Disk}

theorem again (h : Tracks place d₀ b st) (hpath : path ∈ paths b.recent) (append : Bool) :
    Tracks place d₀ (b.enter place (.write path [] append)) st := by
  refine ⟨h.pipes, h.directories, h.apart, fun q => ?_, fun e he => ?_, fun l hl => h.rest l fun q hq => ?_⟩
  · rw [h.opened q, Book.enter, paths_write, List.mem_append, List.mem_singleton]
    exact ⟨.inl, fun hq => hq.elim id fun hq => hq ▸ hpath⟩
  · obtain ⟨s, hs, hholds⟩ := h.held e he
    refine ⟨s, ?_, hholds⟩
    by_cases hq : e.1 = path
    · rw [Book.enter, hq, writes_write, contents_nil_last fun hnil => writes_eq_nil_iff.1 hnil hpath, ← hq]
      exact hs
    · rw [Book.enter, writes_other hq]
      exact hs
  · exact hl q (by simp [Book.enter, hq])

theorem opens {o : Outputs} {w : World} {d' : Disk} {f : OutputFile} {append : Bool} (h : Tracks place d₀ b (o, w))
    (hpath : path ∉ paths b.recent) (hplace : ∀ q ∈ paths b.recent, place q ≠ place path)
    (hdirs : d'.directories = w.disk.directories) (hcontent : ∀ k, d'.content? k
      = if k = place path then some (if append then (w.disk.content? (place path)).getD [] else [])
        else w.disk.content? k)
    (hfile : f.Holds d' (place path) (if append then (w.disk.content? (place path)).getD [] else [])) :
    Tracks place d₀ (b.enter place (.write path [] append))
      ({ o with files := ⟨o.files.entries ++ [(path, f)]⟩ }, { w with disk := d' }) := by
  have hheld : ∀ e ∈ o.files.entries, place e.1 ≠ place path :=
    fun e he => hplace _ ((h.opened _).1 (List.mem_map_of_mem he))
  refine ⟨h.pipes, hdirs.trans h.directories, ?_, fun q => ?_, fun e he => ?_, fun l hl => ?_⟩
  · rw [List.map_append, List.nodup_append]
    refine ⟨h.apart, by simp, fun k hk m hm => ?_⟩
    obtain ⟨e, he, rfl⟩ := List.mem_map.1 hk
    obtain rfl : m = place path := by simpa using hm
    exact hheld e he
  · have hq := h.opened q
    simp only [Book.enter, paths_write, List.map_append, List.mem_append, hq]
    simp
  · rcases List.mem_append.1 he with he | he
    · obtain ⟨s, hs, hholds⟩ := h.held e he
      have hne : e.1 ≠ path := fun heq => hheld e he (heq ▸ rfl)
      refine ⟨s, ?_, hholds.congr ?_⟩
      · rw [Book.enter, writes_other hne]
        exact hs
      · exact (hcontent _).trans (if_neg (hheld e he))
    · obtain rfl := List.mem_singleton.1 he
      refine ⟨_, ?_, hfile⟩
      rw [Book.enter, writes_write, writes_eq_nil_iff.2 hpath, h.rest (place path) hplace]
      simp [contents]
  · have hne : l ≠ place path := (hl path (by simp [Book.enter])).symm
    refine (hcontent l).trans ((if_neg hne).trans (h.rest l fun q hq => ?_))
    exact hl q (by simp [Book.enter, hq])

theorem fileAt (h : Tracks place d₀ b st) (hname : d₀.Names path (place path))
    (hinj : ∀ q ∈ paths b.recent, place q = place path → q = path) (append : Bool) :
    ∃ f o w, st.1.fileAt st.2 path append = .ok (f, o, w) ∧ (path, f) ∈ o.files.entries
      ∧ Tracks place d₀ (b.enter place (.write path [] append)) (o, w) := by
  obtain ⟨o, w⟩ := st
  unfold Outputs.fileAt Cache.find?
  cases hfind : o.files.entries.lookup path with
  | some f =>
    obtain ⟨front, back, hentries, -⟩ := List.lookup_eq_some_iff.1 hfind
    have hmem : (path, f) ∈ o.files.entries := by simp [hentries]
    exact ⟨f, o, w, rfl, hmem, h.again ((h.opened path).1 (List.mem_map_of_mem hmem)) append⟩
  | none =>
    have hpath : path ∉ paths b.recent := by
      intro hpath
      obtain ⟨e, he, rfl⟩ := List.mem_map.1 ((h.opened path).2 hpath)
      have hnot := List.lookup_eq_none_iff.1 hfind e he
      simp at hnot
    have hplace : ∀ q ∈ paths b.recent, place q ≠ place path := fun q hq heq => hpath (hinj q hq heq ▸ hq)
    obtain ⟨d', hopen, hdirs, hcontent⟩ := (hname.congr h.directories).openWrite append
    simp only [hopen]
    refine ⟨_, _, _, rfl, List.mem_append_right _ (List.mem_singleton.2 rfl), h.opens hpath hplace hdirs hcontent ?_⟩
    refine ⟨rfl, rfl, _, (hcontent _).trans (if_pos rfl), by simp, fun happend => ?_⟩
    dsimp only at happend
    simp [happend]

theorem write (h : Tracks place d₀ b st) (hname : d₀.Names path (place path))
    (hinj : ∀ q ∈ paths b.recent, place q = place path → q = path) (s : Bytes) (append : Bool) :
    ((Op.write path s append).run st).1 = []
      ∧ Tracks place d₀ (b.enter place (.write path s append)) ((Op.write path s append).run st).2 := by
  obtain ⟨f, o, w, hat, hmem, hopen⟩ := h.fileAt hname hinj append
  obtain ⟨due, hdue, hholds⟩ := hopen.held _ hmem
  have htook := hholds.write s
  have hrun : (Op.write path s append).run st = ([], { o with files := o.files.update path (f.write w.disk s).2.1 },
      { w with disk := (f.write w.disk s).2.2 }) := by
    obtain ⟨o₀, w₀⟩ := st
    simp only [Op.run, Outputs.write, hat, htook.ok]
    rfl
  have hkeys : ∀ {α : Type} (g : Bytes → α), ((o.files.update path (f.write w.disk s).2.1).entries.map fun e => g e.1)
      = o.files.entries.map fun e => g e.1 := by
    intro α g
    rw [Cache.update, List.map_map]
    refine List.map_congr_left fun e _ => ?_
    by_cases he : e.1 = path <;> simp [he]
  have hpaths : paths (b.enter place (.write path s append)).recent = paths
      (b.enter place (.write path [] append)).recent := by
    simp only [Book.enter, paths_write]
  rw [hrun]
  refine ⟨rfl, hopen.pipes, htook.directories.trans hopen.directories, ?_, fun q => ?_, fun e he => ?_, fun l hl => ?_⟩
  · rw [hkeys place]
    exact hopen.apart
  · have hfst := hkeys fun p => p
    rw [hpaths, ← hopen.opened q]
    exact iff_of_eq (congrArg (q ∈ ·) hfst)
  · obtain ⟨e, hold, rfl⟩ := List.mem_map.1 he
    split
    · rw [Book.enter, writes_write] at hdue
      refine ⟨due ++ s, ?_, htook.holds⟩
      rw [Book.enter, writes_write]
      exact contents_last hdue s
    · next hne =>
      obtain ⟨t, ht, hother⟩ := hopen.held e hold
      refine ⟨t, ?_, hother.congr (htook.elsewhere _ fun heq => hne ?_)⟩
      · rw [Book.enter, writes_other hne] at ht ⊢
        exact ht
      · have hpath := (hopen.opened e.1).1 (List.mem_map_of_mem hold)
        rw [Book.enter, paths_write, List.mem_append, List.mem_singleton] at hpath
        exact hpath.elim (hinj _ · heq) id
  · rw [hpaths] at hl
    have hne : l ≠ place path := (hl path (by simp [Book.enter])).symm
    exact (htook.elsewhere l hne).trans (hopen.rest l hl)

theorem flush (h : Tracks place d₀ b st) : (Op.flush.run st).1 = [] ∧ Tracks place d₀ b (Op.flush.run st).2
      ∧ ∀ l, (Op.flush.run st).2.2.disk.content? l = b.settled place l := by
  obtain ⟨o, w⟩ := st
  have hheld : Hold place (fun path =>
      (contents (b.old (place path)) (writes path b.recent)).getD []) o.files.entries w.disk := by
    intro e he
    obtain ⟨s, hs, hholds⟩ := h.held e he
    dsimp only
    rw [hs]
    exact hholds
  have hnone : Settled place (fun path => (contents (b.old (place path)) (writes path b.recent)).getD []) [] w.disk :=
    ⟨fun _ he => (List.not_mem_nil he).elim, fun _ he => (List.not_mem_nil he).elim⟩
  obtain ⟨files, d, hfold, hkeys, hsettled, hdirs, helse⟩ := flush_files hheld hnone h.apart
  rw [flush_eq, hfold]
  rw [List.nil_append] at hkeys
  have hplaces : (files.map fun e => place e.1) = o.files.entries.map fun e => place e.1 := by
    have hmap := congrArg (List.map place) hkeys
    rwa [List.map_map, List.map_map] at hmap
  have hrest : ∀ l, (∀ path ∈ paths b.recent, place path ≠ l) → d.content? l = b.old l := by
    intro l hl
    rw [helse l fun e he => hl e.1 ((h.opened e.1).1 (List.mem_map_of_mem he))]
    exact h.rest l hl
  refine ⟨rfl, ⟨?_, hdirs.trans h.directories, hplaces ▸ h.apart, fun q => ?_, fun e he => ?_, hrest⟩, fun l => ?_⟩
  · show o.pipes.entries.map _ = []
    rw [h.pipes]
    rfl
  · rw [← h.opened q]
    exact iff_of_eq (congrArg (q ∈ ·) hkeys)
  · have hpath : e.1 ∈ paths b.recent := (h.opened e.1).1 (hkeys ▸ List.mem_map_of_mem he)
    obtain ⟨s, hs⟩ := exists_contents (b.old (place e.1)) fun hnil => writes_eq_nil_iff.1 hnil hpath
    have hholds := hsettled.1 e he
    dsimp only at hholds
    rw [hs] at hholds
    exact ⟨s, hs, hholds⟩
  · unfold Book.settled
    cases hfind : (paths b.recent).find? (place · = l) with
    | none =>
      exact hrest l fun path hpath => by simpa using List.find?_eq_none.1 hfind path hpath
    | some path =>
      have hpath := List.mem_of_find?_eq_some hfind
      obtain rfl : place path = l := by simpa using List.find?_some hfind
      obtain ⟨e, he, rfl⟩ := List.mem_map.1 (hkeys ▸ (h.opened path).2 hpath)
      obtain ⟨s, hs⟩ := exists_contents (b.old (place e.1)) fun hnil => writes_eq_nil_iff.1 hnil hpath
      have hcontent := hsettled.2 e he
      dsimp only at hcontent ⊢
      rw [hcontent, hs]
      rfl

theorem close (h : Tracks place d₀ b st) :
    (Op.close.run st).1 = [] ∧ Tracks place d₀ (b.enter place .close) (Op.close.run st).2
    ∧ ∀ l, (Op.close.run st).2.2.disk.content? l = b.settled place l := by
  obtain ⟨hfailures, hflush, hsettled⟩ := h.flush
  obtain ⟨o, w⟩ := st
  have hrun : Op.close.run (o, w) = ((o.flush w).1, { (o.flush w).2.1 with files := {}, pipes := {} },
      (o.flush w).2.2) :=
    Outputs.close_eq o w h.pipes
  rw [hrun]
  refine ⟨hfailures, ⟨rfl, hflush.directories, List.nodup_nil, fun path => ?_, fun e he => ?_, fun l _ =>
    hsettled l⟩, hsettled⟩
  · simp [Book.enter, paths]
  · cases he

end Tracks

structure Distinct (place : Bytes → Location) (d : Disk) (paths : List Bytes) : Prop where
  names : ∀ path ∈ paths, d.Names path (place path)
  inj : ∀ p ∈ paths, ∀ q ∈ paths, place p = place q → p = q

theorem Distinct.mono {d : Disk} {ps qs : List Bytes} (h : Distinct place d ps) (hsub : qs ⊆ ps) :
    Distinct place d qs :=
  ⟨fun path hpath => h.names path (hsub hpath), fun p hp q hq => h.inj p (hsub hp) q (hsub hq)⟩

theorem paths_append (xs ys : List Op) : paths (xs ++ ys) = paths xs ++ paths ys := List.filterMap_append ..

theorem paths_flush (ops : List Op) : paths (.flush :: ops) = paths ops := rfl

theorem paths_close (ops : List Op) : paths (.close :: ops) = paths ops := rfl

theorem paths_filter (ops : List Op) : paths (ops.filter (· ≠ .flush)) = paths ops := by
  induction ops with
  | nil => rfl
  | cons op ops ih =>
    cases op with
    | write path s append => exact congrArg (path :: ·) ih
    | flush | close => exact ih

theorem Tracks.run {d₀ : Disk} (h : Tracks place d₀ b st) (ops : List Op)
    (hdistinct : Distinct place d₀ (paths (b.recent ++ ops))) :
    failures st ops = [] ∧ Tracks place d₀ (ops.foldl (Book.enter place) b) (after st ops) := by
  induction ops generalizing b st with
  | nil => exact ⟨rfl, h⟩
  | cons op ops ih =>
    have hstep : (op.run st).1 = [] ∧ Tracks place d₀ (b.enter place op) (op.run st).2
        ∧ paths ((b.enter place op).recent ++ ops) ⊆ paths (b.recent ++ op :: ops) := by
      cases op with
      | write path s append =>
        have hpath : path ∈ paths (b.recent ++ .write path s append :: ops) := by simp [paths, Op.path?]
        obtain ⟨hfailures, htracks⟩ := h.write (hdistinct.names path hpath)
          (fun q hq => hdistinct.inj q (paths_append .. ▸ List.mem_append_left _ hq) path hpath) s append
        exact ⟨hfailures, htracks, by simp [Book.enter]⟩
      | flush =>
        obtain ⟨hfailures, htracks, -⟩ := h.flush
        exact ⟨hfailures, htracks, by simp [Book.enter, paths_append, paths_flush]⟩
      | close =>
        obtain ⟨hfailures, htracks, -⟩ := h.close
        exact ⟨hfailures, htracks, by simp [Book.enter, paths_append, paths_close]⟩
    obtain ⟨hfailures, htracks, hsub⟩ := hstep
    obtain ⟨hrest, hdone⟩ := ih htracks (hdistinct.mono hsub)
    exact ⟨by rw [failures, hfailures, hrest, List.nil_append], hdone⟩

theorem tracks_start (n : Int) (w : World) : Tracks place w.disk ⟨w.disk.content?, []⟩ (Outputs.ofCapacity n, w) :=
  ⟨rfl, rfl, List.nodup_nil, by simp [Outputs.ofCapacity, paths], by simp [Outputs.ofCapacity], fun _ _ => rfl⟩

/-! ## The book of a run -/

namespace Book

theorem old_enter_all (h : Op.close ∉ ops) : (ops.foldl (enter place) b).old = b.old := by
  induction ops generalizing b with
  | nil => rfl
  | cons op ops ih =>
    rw [List.mem_cons, not_or] at h
    rw [List.foldl_cons, ih h.2]
    cases op with
    | write | flush => rfl
    | close => exact absurd rfl h.1

theorem writes_enter_all (h : Op.close ∉ ops) (path : Bytes) :
    writes path (ops.foldl (enter place) b).recent = writes path b.recent ++ writes path ops := by
  induction ops generalizing b with
  | nil => simp [writes]
  | cons op ops ih =>
    rw [List.mem_cons, not_or] at h
    rw [List.foldl_cons, ih h.2]
    cases op with
    | write p s append => by_cases hp : p = path <;> simp [enter, writes, hp]
    | flush => rfl
    | close => exact absurd rfl h.1

theorem mem_paths_enter_all (h : Op.close ∉ ops) (hrecent : b.recent = []) (path : Bytes) :
    path ∈ paths (ops.foldl (enter place) b).recent ↔ path ∈ paths ops := by
  have hwrites : writes path (ops.foldl (enter place) b).recent = writes path b.recent ++ writes path ops :=
    writes_enter_all h path
  rw [hrecent] at hwrites
  rw [← Decidable.not_iff_not, ← writes_eq_nil_iff, ← writes_eq_nil_iff, hwrites]
  rfl

theorem recent_of_closed (hrecent : b.recent = []) (h : ∀ op ∈ ops.getLast?, op = .close) :
    (ops.foldl (enter place) b).recent = [] := by
  rcases List.eq_nil_or_concat ops with rfl | ⟨front, op, rfl⟩
  · exact hrecent
  · obtain rfl := h op (by simp)
    rw [List.concat_eq_append, List.foldl_append]
    rfl

theorem enter_filter (b : Book) (ops : List Op) :
    (ops.filter (· ≠ .flush)).foldl (enter place) b = ops.foldl (enter place) b := by
  induction ops generalizing b with
  | nil => rfl
  | cons op ops ih =>
    cases op with
    | write | close => exact ih _
    | flush => exact ih b

theorem settled_place (hinj : ∀ q ∈ paths b.recent, place q = place path → q = path) (hpath : path ∈ paths b.recent) :
    b.settled place (place path) = contents (b.old (place path)) (writes path b.recent) := by
  unfold settled
  cases hfind : (paths b.recent).find? (place · = place path) with
  | none => simpa using List.find?_eq_none.1 hfind path hpath
  | some q =>
    have hq : place q = place path := by simpa using List.find?_some hfind
    rw [hinj q (List.mem_of_find?_eq_some hfind) hq]

theorem settled_other {l : Location} (hl : ∀ path ∈ paths b.recent, place path ≠ l) : b.settled place l = b.old l := by
  unfold settled
  cases hfind : (paths b.recent).find? (place · = l) with
  | none => rfl
  | some path =>
    have hplace : place path = l := by simpa using List.find?_some hfind
    exact absurd hplace (hl path (List.mem_of_find?_eq_some hfind))

end Book

/-! ## Generations -/

/-- What is at a place after a run in which `n` bytes are buffered. -/
def held (n : Int) (w : World) (ops : List Op) (l : Location) : Option Bytes :=
  (after (Outputs.ofCapacity n, w) ops).2.disk.content? l

def book (place : Bytes → Location) (w : World) (ops : List Op) :
    Book := ops.foldl (Book.enter place) ⟨w.disk.content?, []⟩

theorem after_append (st : State) (xs ys : List Op) :
    after st (xs ++ ys) = after (after st xs) ys := List.foldl_append ..

theorem failures_append (st : State) (xs ys : List Op) :
    failures st (xs ++ ys) = failures st xs ++ failures (after st xs) ys := by
  induction xs generalizing st with
  | nil => rfl
  | cons x xs ih => rw [List.cons_append, failures, failures, ih, List.append_assoc]; rfl

theorem settles {w : World} {last : Op} (n : Int) (hdistinct : Distinct place w.disk (paths ops))
    (hlast : last ∈ [Op.flush, .close]) :
    failures (Outputs.ofCapacity n, w) (ops ++ [last]) = [] ∧ ∀ l, held n w (ops ++ [last]) l
      = (book place w ops).settled place l := by
  obtain ⟨hfailures, htracks⟩ := (tracks_start n w).run ops hdistinct
  rw [failures_append, hfailures, List.nil_append, failures, failures, List.append_nil]
  unfold held
  rw [after_append]
  obtain rfl | rfl : last = .flush ∨ last = .close := by simpa using hlast
  · exact ⟨htracks.flush.1, htracks.flush.2.2⟩
  · exact ⟨htracks.close.1, htracks.close.2.2⟩

/-- However much is buffered, what is written to distinct files meets no failure. Take what was done from one closing,
or from the start, to the next. A flush or the closing leaves each file that was written with what the first of these
writes left of it and with the texts of all of them, and before that the file holds a part from the front. Nothing else
is touched. In the end the size of the buffers and the flushes in between are of no account. -/
theorem files_hold_what_was_written (n : Int) (w : World) (place : Bytes → Location) (earlier recent : List Op)
    (hdistinct : Distinct place w.disk (paths (earlier ++ recent))) (hearlier : ∀ op ∈ earlier.getLast?, op = .close)
    (hrecent : .close ∉ recent) :
    (∀ last ∈ [Op.flush, .close], failures (Outputs.ofCapacity n, w) (earlier ++ recent ++ [last]) = []
        ∧ (∀ path ∈ paths recent, held n w (earlier ++ recent ++ [last]) (place path)
          = contents (held n w earlier (place path)) (writes path recent))
        ∧ ∀ l, (∀ path ∈ paths recent, place path ≠ l) → held n w (earlier ++ recent ++ [last]) l = held n w earlier l)
      ∧ (∀ path ∈ paths recent, ∃ t s, held n w (earlier ++ recent) (place path) = some t
        ∧ contents (held n w earlier (place path)) (writes path recent) = some s ∧ t <+: s)
      ∧ (∀ l, (∀ path ∈ paths recent, place path ≠ l) → held n w (earlier ++ recent) l = held n w earlier l)
      ∧ ∀ (m : Int) (ops : List Op), ops.filter (· ≠ .flush) = (earlier ++ recent).filter (· ≠ .flush) →
        ∀ l, held m w (ops ++ [.close]) l = held n w (earlier ++ recent ++ [.close]) l := by
  have hclosed : (book place w earlier).recent = [] := Book.recent_of_closed rfl hearlier
  have hbook : book place w (earlier ++ recent) = recent.foldl (Book.enter place) (book place w earlier) :=
    List.foldl_append ..
  obtain ⟨hfailures, htracks⟩ := (tracks_start n w).run (earlier ++ recent) hdistinct
  have hfront : paths earlier ⊆ paths (earlier ++ recent) := by
    rw [paths_append]
    exact List.subset_append_left ..
  obtain ⟨-, hbefore⟩ := (tracks_start n w).run earlier (hdistinct.mono hfront)
  -- At a closing the book has the contents of all files.
  have hold : ∀ l, (book place w (earlier ++ recent)).old l = held n w earlier l := by
    intro l
    rw [hbook, Book.old_enter_all hrecent]
    refine (hbefore.rest l fun path hpath => ?_).symm
    have hpath : path ∈ paths (book place w earlier).recent := hpath
    rw [hclosed] at hpath
    cases hpath
  have hwrites : ∀ path, writes path (book place w (earlier ++ recent)).recent = writes path recent := by
    intro path
    rw [hbook, Book.writes_enter_all hrecent, hclosed]
    rfl
  have hpaths : ∀ path, path ∈ paths (book place w (earlier ++ recent)).recent ↔ path ∈ paths recent := by
    intro path
    rw [hbook]
    exact Book.mem_paths_enter_all hrecent hclosed path
  have hrest : ∀ {l}, (∀ path ∈ paths recent, place path ≠ l) →
      ∀ path ∈ paths (book place w (earlier ++ recent)).recent, place path ≠ l :=
    fun hl path hpath => hl path ((hpaths path).1 hpath)
  have hall : ∀ path ∈ paths recent, path ∈ paths (earlier ++ recent) :=
    fun path hpath => paths_append .. ▸ List.mem_append_right _ hpath
  refine ⟨fun last hlast => ?_, fun path hpath => ?_, fun l hl => ?_, fun m ops hsame l => ?_⟩
  · obtain ⟨hnone, hsettled⟩ := settles n hdistinct hlast
    refine ⟨hnone, fun path hpath => ?_, fun l hl => ?_⟩
    · rw [hsettled, Book.settled_place (fun q hq => hdistinct.inj q (hall q ((hpaths q).1 hq)) path (hall path hpath))
        ((hpaths path).2 hpath), hold, hwrites]
    · rw [hsettled, Book.settled_other (hrest hl), hold]
  · obtain ⟨e, he, rfl⟩ := List.mem_map.1 ((htracks.opened path).2 ((hpaths path).2 hpath))
    obtain ⟨s, hs, hholds⟩ := htracks.held e he
    obtain ⟨t, ht, hst, -⟩ := hholds.content
    refine ⟨t, s, ht, ?_, hst ▸ List.prefix_append ..⟩
    rw [← hold, ← hwrites]
    exact hs
  · rw [← hold]
    exact htracks.rest l (hrest hl)
  · have hops : Distinct place w.disk (paths ops) := by
      refine hdistinct.mono fun path hpath => ?_
      rw [← paths_filter, hsame, paths_filter] at hpath
      exact hpath
    rw [(settles m hops (by simp)).2, (settles n hdistinct (by simp)).2, book, book, ← Book.enter_filter, hsame,
      Book.enter_filter]

def twoFiles : World := { disk := { files := [(Disk.home ++ [text "a"], .ofBytes (text "old."))] } }

def inHome (path : Bytes) : Location := Disk.home ++ [path]

def firstUses : List Op := [.write (text "a") (text "new.") true, .close]

def nextUses :
    List Op := [.write (text "b") (text "1") true, .write (text "a") (text "ab") false,
      .write (text "b") (text "23") false,
  .flush, .write (text "a") (text "longer") true, .write (text "b") (text "4") false]

theorem distinct_twoFiles : Distinct inHome twoFiles.disk (paths (firstUses ++ nextUses)) := by
  refine ⟨fun path hpath => ?_, fun p _ q _ heq => ?_⟩
  · have hcases : path = text "a" ∨ path = text "b" := by
      revert path
      decide
    rcases hcases with rfl | rfl
    · exact ⟨rfl, by decide, by decide, by decide⟩
    · exact ⟨rfl, by decide, by decide, by decide⟩
  · simpa [inHome] using heq

theorem files_hold_what_was_written_interleaved :
    (∀ op ∈ firstUses.getLast?, op = .close) ∧ .close ∉ nextUses
    ∧ held 3 twoFiles firstUses (inHome (text "a")) = some (text "old.new.")
    ∧ contents (some (text "old.new.")) (writes (text "a") nextUses) = some (text "ablonger")
    ∧ held 3 twoFiles (firstUses ++ nextUses) (inHome (text "a")) = some (text "ablonger")
    ∧ held 3 twoFiles (firstUses ++ nextUses) (inHome (text "b")) = some (text "123")
    ∧ held 3 twoFiles (firstUses ++ nextUses ++ [.flush]) (inHome (text "b"))
      = contents (held 3 twoFiles firstUses (inHome (text "b"))) (writes (text "b") nextUses) := by
  have hfirst : ∀ op ∈ firstUses.getLast?, op = .close := by decide
  have hnext : Op.close ∉ nextUses := by decide
  have hall := files_hold_what_was_written 3 twoFiles inHome firstUses nextUses distinct_twoFiles hfirst hnext
  exact ⟨hfirst, hnext, by decide +kernel, by decide +kernel, by decide +kernel, by decide +kernel,
    (hall.1 .flush (by simp)).2.1 (text "b") (by decide)⟩

end OutputFiles

end RecordMill

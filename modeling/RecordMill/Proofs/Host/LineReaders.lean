import RecordMill.Proofs.Host.Lines

/-!
# Readers that keep their places

Main statement: `readers_resume`. Each path that is asked for has one reader, and only the calls for that path move it.
-/

namespace RecordMill

/-! ## Keys -/

namespace Cache

variable {α : Type} {c : Cache α} {key other : Bytes} {v : α}

def keys (c : Cache α) : List Bytes := c.entries.map Prod.fst

theorem find?_eq_none : c.find? key = none ↔ key ∉ c.keys := by
  simp only [find?, keys, List.lookup_eq_none_iff, List.mem_map, not_exists, not_and]
  exact forall_congr' fun e => imp_congr_right fun _ => by simpa using ne_comm

theorem find?_push (h : c.find? key = none) (other : Bytes) :
    (⟨c.entries ++ [(key, v)]⟩ : Cache α).find? other = if other = key then some v else c.find? other := by
  unfold find? at h ⊢
  rw [List.lookup_append]
  split
  · next heq => simp [heq, h]
  · next hne => simp [List.lookup_cons, beq_eq_false_iff_ne.2 hne]

theorem lookup_update (entries : List (Bytes × α)) (key : Bytes) (v : α) (other : Bytes) :
    (entries.map fun e => if e.1 = key then (key, v) else e).lookup other
      = if other = key then (entries.lookup key).map fun _ => v else entries.lookup other := by
  induction entries with
  | nil => simp
  | cons e entries ih =>
    obtain ⟨k, w⟩ := e
    rw [List.map_cons]
    by_cases hk : k = key
    · subst hk
      by_cases ho : other = k
      · simp [ho]
      · rw [if_pos rfl, List.lookup_cons, beq_eq_false_iff_ne.2 ho, ih, if_neg ho, if_neg ho, List.lookup_cons,
          beq_eq_false_iff_ne.2 ho]
    · rw [if_neg hk, List.lookup_cons, ih, List.lookup_cons, List.lookup_cons, beq_eq_false_iff_ne.2 (Ne.symm hk)]
      by_cases ho : other = key
      · rw [ho, beq_eq_false_iff_ne.2 (Ne.symm hk)]
      · rw [if_neg ho, if_neg ho]

theorem find?_update (h : (c.find? key).isSome) (other : Bytes) :
    (c.update key v).find? other = if other = key then some v else c.find? other := by
  obtain ⟨w, hw⟩ := Option.isSome_iff_exists.1 h
  have hlookup : c.entries.lookup key = some w := hw
  rw [find?, update, lookup_update, hlookup]
  rfl

theorem keys_update (c : Cache α) (key : Bytes) (v : α) : (c.update key v).keys = c.keys := by
  simp only [keys, update, List.map_map]
  refine List.map_congr_left fun e _ => ?_
  simp only [Function.comp]
  split
  · next h => exact h.symm
  · rfl

end Cache

/-! ## One reader -/

namespace Reader

variable {d : Disk} {r : Reader} {out : Readout} {n : Nat}

/-- What the call after `n` others answers. -/
def nth (out : Readout) (n : Nat) : Except Failure (Option Bytes) :=
  match (linesUpTo out.text out.failure)[n]? with
  | some line => .ok (some line)
  | none => ended out.failure

theorem nth_whole (s : Bytes) (n : Nat) : nth { text := s } n = .ok (lines s)[n]? := by
  unfold nth linesUpTo
  cases (lines s)[n]? <;> rfl

/-- The first `n` lines have been handed out, or all. -/
def Past (d : Disk) (out : Readout) (n : Nat) (r : Reader) : Prop :=
  ∃ s, r.Gives d s out.failure ∧ linesUpTo s out.failure = (linesUpTo out.text out.failure).drop n

theorem Past.line (h : Past d out n r) : (r.line d).1 = nth out n ∧ Past d out (n + 1) (r.line d).2 := by
  obtain ⟨s, hgives, hs⟩ := h
  unfold nth
  rw [← List.head?_drop, ← hs]
  obtain ⟨hnil, hresult, hrest⟩ | ⟨t, rest, hresult, hcons, hrest⟩ := gathered_line hgives
  · rw [hnil]
    refine ⟨hresult, [], hrest, ?_⟩
    rw [linesUpTo_nil, ← List.tail_drop, ← hs, hnil]
    rfl
  · rw [hcons]
    refine ⟨hresult, rest, hrest, ?_⟩
    rw [← List.tail_drop, ← hs, hcons]
    rfl

end Reader

/-! ## All readers -/

namespace Inputs

open Reader (found nth Past)

variable {d : Disk} {paths : List Bytes} {path : Bytes} {c : Inputs}

def opens (d : Disk) (path : Bytes) : Bool := (found d path).isOk

def reading (d : Disk) (paths : List Bytes) : Inputs := paths.foldl (fun c path => (c.line d path).2) {}

/-- Each path that was asked for and can be opened has one reader, which is past as many lines as were asked for. -/
structure Placed (d : Disk) (paths : List Bytes) (c : Inputs) : Prop where
  keys : c.keys = (paths.filter (opens d)).eraseDups
  places : ∀ path r, c.find? path = some r → ∃ out, found d path = .ok out ∧ Past d out (paths.count path) r

theorem eraseDups_snoc (paths : List Bytes) (path : Bytes) :
    (paths ++ [path]).eraseDups = if path ∈ paths then paths.eraseDups else paths.eraseDups ++ [path] := by
  rw [List.eraseDups_append]
  split
  · next h => simp [List.removeAll, h]
  · next h => simp [List.removeAll, h, List.eraseDups_cons]

namespace Placed

theorem start (d : Disk) : Placed d [] {} := ⟨rfl, fun _ _ h => by cases h⟩

variable {out : Readout} {e : Failure}

theorem find?_eq_none_of_error (h : Placed d paths c) (he : found d path = .error e) : c.find? path = none := by
  rw [Option.eq_none_iff_forall_not_mem]
  intro r hr
  obtain ⟨out, hout, -⟩ := h.places path r hr
  rw [he] at hout
  cases hout

theorem not_mem_of_unread (h : Placed d paths c) (hout : found d path = .ok out) (hnone : c.find? path = none) :
    path ∉ paths := by
  intro hmem
  have hopens : opens d path = true := by rw [opens, hout]; rfl
  exact Cache.find?_eq_none.1 hnone (h.keys ▸ List.mem_eraseDups.2 (List.mem_filter.2 ⟨hmem, hopens⟩))

theorem line_error (h : Placed d paths c) (he : found d path = .error e) : c.line d path = (.error e, c) := by
  have hopen := Reader.openFile_found d path
  rw [he] at hopen
  unfold Inputs.line Cache.get
  rw [h.find?_eq_none_of_error he, hopen]
  rfl

theorem get (h : Placed d paths c) (hout : found d path = .ok out) :
    ∃ r c', Cache.get c path (Reader.openFile d) = .ok (r, c')
    ∧ Past d out (paths.count path) r ∧ (∀ other, c'.find? other = if other = path then some r else c.find? other)
    ∧ c'.keys = ((paths ++ [path]).filter (opens d)).eraseDups := by
  have hopens : opens d path = true := by rw [opens, hout]; rfl
  have hkeys : ((paths ++ [path]).filter (opens d)).eraseDups = if path ∈ paths then c.keys else c.keys ++ [path] := by
    rw [List.filter_append, List.filter_cons_of_pos hopens, List.filter_nil, eraseDups_snoc, h.keys]
    simp only [List.mem_filter, hopens, and_true]
  rw [hkeys]
  cases hfind : c.find? path with
  | some r =>
    obtain ⟨out', hout', hpast⟩ := h.places path r hfind
    obtain rfl : out' = out := by simpa [hout] using hout'.symm
    have hmem : path ∈ paths := by
      have hkey : path ∈ c.keys := Classical.byContradiction fun hnot => by simp [Cache.find?_eq_none.2 hnot] at hfind
      rw [h.keys] at hkey
      exact (List.mem_filter.1 (List.mem_eraseDups.1 hkey)).1
    refine ⟨r, c, by rw [Cache.get, hfind], hpast, fun other => ?_, (if_pos hmem).symm⟩
    split
    · next heq => rw [heq, hfind]
    · rfl
  | none =>
    have hnot := h.not_mem_of_unread hout hfind
    have hopened := Reader.openFile_found d path
    rw [hout] at hopened
    obtain ⟨r, hopen, hgives⟩ := hopened
    refine ⟨r, ⟨c.entries ++ [(path, r)]⟩,
      by rw [Cache.get, hfind, hopen]; rfl, ⟨out.text, hgives, ?_⟩, Cache.find?_push hfind, ?_⟩
    · rw [List.count_eq_zero_of_not_mem hnot, List.drop_zero]
    · rw [if_neg hnot]
      exact List.map_append

theorem line_ok (h : Placed d paths c) (hout : found d path = .ok out) : (c.line d path).1 = nth out (paths.count path)
    ∧ (∀ other, other ≠ path → (c.line d path).2.find? other = c.find? other)
    ∧ Placed d (paths ++ [path]) (c.line d path).2 := by
  obtain ⟨r, c', hget, hpast, hfind, hkeys⟩ := h.get hout
  obtain ⟨hanswer, hnext⟩ := hpast.line
  have hline : c.line d path = ((r.line d).1, c'.update path (r.line d).2) := by rw [Inputs.line, hget]
  have hfound : ∀ other, (c'.update path (r.line d).2).find? other
      = if other = path then some (r.line d).2 else c.find? other := by
    intro other
    rw [Cache.find?_update (by simp [hfind]), hfind]
    split <;> rfl
  rw [hline]
  refine ⟨hanswer, fun other hne => by rw [hfound, if_neg hne], (Cache.keys_update c' path _).trans hkeys, ?_⟩
  intro other r' hr'
  rw [hfound] at hr'
  by_cases hother : other = path
  · rw [if_pos hother] at hr'
    cases hr'
    subst hother
    refine ⟨out, hout, ?_⟩
    rwa [List.count_append, List.count_singleton_self]
  · rw [if_neg hother] at hr'
    obtain ⟨out', hout', hpast'⟩ := h.places other r' hr'
    refine ⟨out', hout', ?_⟩
    rwa [List.count_append, List.count_singleton, if_neg (by simpa using Ne.symm hother), Nat.add_zero]

theorem line (h : Placed d paths c) (path : Bytes) : Placed d (paths ++ [path]) (c.line d path).2 := by
  cases hfound : found d path with
  | ok out => exact (h.line_ok hfound).2.2
  | error e =>
    rw [h.line_error hfound]
    have hnot : opens d path = false := by rw [opens, hfound]; rfl
    refine ⟨?_, fun other r hr => ?_⟩
    · rw [List.filter_append, List.filter_cons_of_neg (by simp [hnot]), List.filter_nil, List.append_nil]
      exact h.keys
    · obtain ⟨out, hout, hpast⟩ := h.places other r hr
      refine ⟨out, hout, ?_⟩
      have hne : other ≠ path := fun heq => by rw [heq, hfound] at hout; cases hout
      rwa [List.count_append, List.count_singleton, if_neg (by simpa using Ne.symm hne), Nat.add_zero]

end Placed

theorem placed_reading (d : Disk) (paths : List Bytes) : Placed d paths (reading d paths) := by
  have hfold : ∀ later done c, Placed d done c →
      Placed d (done ++ later) (later.foldl (fun c path => (c.line d path).2) c) := by
    intro later
    induction later with
    | nil => exact fun done c h => by rwa [List.append_nil]
    | cons path later ih =>
      intro done c h
      have hnext := ih (done ++ [path]) _ (h.line path)
      rwa [List.append_assoc] at hnext
  exact hfold paths [] {} (.start d)

/-- After any calls, the next one answers the line of its file whose number is that of the earlier calls for the same
path, and what ends the file when there is no such line. All other readers stay where they are. Failing to open the path
changes nothing, and there is one reader for each path that was asked for and can be opened. -/
theorem readers_resume (d : Disk) (paths : List Bytes) (path : Bytes) :
    (∀ l, d.openRead path = .ok (.file l) → ¬ text ".xz" <:+ path → ¬ text ".lz4" <:+ path →
      ((reading d paths).line d path).1 = .ok (Reader.lines ((d.content? l).getD []))[paths.count path]?)
    ∧ (∀ out, found d path = .ok out → ((reading d paths).line d path).1 = nth out (paths.count path))
    ∧ (∀ e, found d path = .error e → (reading d paths).line d path = (.error e, reading d paths))
    ∧ (∀ other, other ≠ path → ((reading d paths).line d path).2.find? other = (reading d paths).find? other)
    ∧ (reading d paths).keys = (paths.filter (opens d)).eraseDups := by
  have h := placed_reading d paths
  have hanswer : ∀ out, found d path = .ok out → ((reading d paths).line d path).1 = nth out (paths.count path) :=
    fun out hout => (h.line_ok hout).1
  refine ⟨fun l hl hxz hlz4 => ?_, hanswer, fun e he => h.line_error he, fun other hne => ?_, h.keys⟩
  · rw [hanswer _ (Reader.found_regular hl hxz hlz4), Reader.nth_whole]
  · cases hfound : found d path with
    | ok out => exact (h.line_ok hfound).2.1 other hne
    | error e => rw [h.line_error hfound]

/-- A file whose last line does not end, and another one. -/
def twoFiles : Disk := .ofEntries [(text "a", text "1\r\n\n2"), (text "b", text "x\n")]

/-- Two lines of the first file and all of the second have been asked for, and a missing file in between. -/
def someCalls : List Bytes := [text "a", text "gone", text "b", text "a"]

theorem readers_resume_in_turns :
    ((reading twoFiles someCalls).line twoFiles (text "a")).1 = .ok (some (text "2"))
    ∧ ((reading twoFiles someCalls).line twoFiles (text "b")).1 = .ok none
    ∧ (reading twoFiles someCalls).line twoFiles (text "gone")
      = (.error (.openRead (text "gone") .notFound), reading twoFiles someCalls)
    ∧ ((reading twoFiles someCalls).line twoFiles (text "a")).2.find? (text "b")
      = (reading twoFiles someCalls).find? (text "b")
    ∧ (reading twoFiles someCalls).keys = [text "a", text "b"] := by
  have ha := (readers_resume twoFiles someCalls (text "a")).1 (Disk.home ++ [text "a"]) rfl (by decide) (by decide)
  have hb := (readers_resume twoFiles someCalls (text "b")).2.1 { text := text "x\n" } rfl
  have hgone := (readers_resume twoFiles someCalls (text "gone")).2.2.1 (.openRead (text "gone") .notFound) rfl
  obtain ⟨-, -, -, hother, hkeys⟩ := readers_resume twoFiles someCalls (text "a")
  exact ⟨ha, hb, hgone, hother (text "b") (by decide), hkeys⟩

end Inputs

end RecordMill

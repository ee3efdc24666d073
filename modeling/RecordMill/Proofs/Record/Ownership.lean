import RecordMill.Proofs.Record.Contract

/-!
# Ownership over all calls

Main statement: `counts_follow_variables`. In every state that a run can get to, each call changes a count by as much as
the variables that hold the handle, and by one for a result that is owned. A call that fails changes none, except that
a string assigned to a variable that holds no string is never given back.
-/

namespace RecordMill.Ownership

open Act (Settles)
open Heap (one)

/-! ## Calls -/

/-- What can be asked of the context. -/
inductive Call where
  | nextLine
  | column (i : Int64)
  | setColumn (i : Int64) (s : Packed)
  | isMatch (s pattern : Packed)
  | splitInt (s : Packed) (map : UInt64) (separator : Packed)
  | splitStr (s : Packed) (map : UInt64) (separator : Packed)
  | concat (a b : Packed)
  | compareStr (a b : Packed)
  | readFileLine (path : Packed)
  | write (dest : Destination) (path : Packed) (s : Bytes)
  | printAll (dest : Destination) (path : Packed) (args : List Packed)
  | printf (dest : Destination) (path format : Packed) (args : List Format.Arg)
  | sprintf (format : Packed) (args : List Format.Arg)
  | loadInt (v : Variable)
  | storeInt (v : Variable) (n : Int64)
  | loadStr (v : Variable)
  | storeStr (v : Variable) (s : Packed)
  | loadMap (v : Variable)
  | storeMap (v : Variable) (m : UInt64)
  | flush
  | close

def keepNone {α : Type} (x : Act α) : Act UInt64 := do
  let _ ← x
  return 0

def keepStr (x : Act Packed) : Act UInt64 := do return (← x).handle

namespace Call

def act : Call → Act UInt64
  | nextLine => keepNone Act.nextLine
  | column i => keepStr (Act.column i)
  | setColumn i s => keepNone (Act.setColumn i s)
  | isMatch s pattern => keepNone (Act.isMatch s pattern)
  | splitInt s map separator => keepNone (Act.splitInt s map separator)
  | splitStr s map separator => keepNone (Act.splitStr s map separator)
  | concat a b => keepStr (Act.concat a b)
  | compareStr a b => keepNone (Act.compareStr a b)
  | readFileLine path => do return (← Act.readFileLine path).1.handle
  | write dest path s => keepNone (Act.write dest path s)
  | printAll dest path args => keepNone (Act.printAll dest path args)
  | printf dest path format args => keepNone (Act.printf dest path format args)
  | sprintf format args => keepStr (Act.sprintf format args)
  | loadInt v => keepNone (Act.loadInt v)
  | storeInt v n => keepNone (Act.storeInt v n)
  | loadStr v => keepNone (Act.loadStr v)
  | storeStr v s => keepNone (Act.storeStr v s)
  | loadMap v => keepNone (Act.loadMap v)
  | storeMap v m => keepNone (Act.storeMap v m)
  | flush => keepNone Act.flush
  | close => keepNone Act.close

/-- The handle that is referred to once more although the call is refused. -/
def stray (c : Context) : Call → UInt64
  | storeStr v s => if v.ty = .str ∨ c.heap.count s.handle = 0 then 0 else s.handle
  | _ => 0

end Call

theorem settles_keepNone {α : Type} {x : Act α} (hx : Settles x fun _ => 0) :
    Settles (keepNone x) id := hx.map fun _ => rfl

theorem settles_keepStr {x : Act Packed} (hx : Settles x Packed.handle) : Settles (keepStr x) id := hx.map fun _ => rfl

theorem settles_close : Settles Act.close fun _ => 0 := by
  constructor
  intro c held b _
  obtain ⟨errors, c', hrun, b', -⟩ := Act.close_books b
  rw [hrun]
  exact b'.congr fun a ha => also_zero held ha

theorem Call.settles (x : Call) (h : ∀ v s, x = .storeStr v s → v.ty = .str) : Settles x.act id := by
  cases x with
  | nextLine => exact settles_keepNone Act.settles_nextLine
  | column i => exact settles_keepStr (Act.settles_column i)
  | concat a b => exact settles_keepStr (Act.settles_concat a b)
  | sprintf format args => exact settles_keepStr (Act.settles_sprintf format args)
  | readFileLine path => exact (Act.settles_readFileLine path).map fun _ => rfl
  | storeStr v s => exact settles_keepNone (Act.settles_storeStr (h v s rfl) s)
  | storeMap v m => exact settles_keepNone (Act.settles_storeMap v m)
  | close => exact settles_keepNone settles_close
  | splitInt s map separator =>
    exact settles_keepNone (.of_same
      (inferInstanceAs (Act.Along SameCounts (Act.splitInto .int Int64.ofNat s map separator))))
  | splitStr s map separator =>
    exact settles_keepNone (.of_same
      (inferInstanceAs (Act.Along SameCounts (Act.splitInto .str Bytes.decimal s map separator))))
  | flush => exact settles_keepNone (.of_same (inferInstanceAs (Act.Along SameCounts (Act.onRecords Records.flush))))
  | _ => exact settles_keepNone (.of_same inferInstance)

theorem Call.books (x : Call) {c : Context} {held : UInt64 → Nat} (b : c.Books held)
    (hsize : (x.act c).2.heap.slots.size < UInt64.size) :
    match x.act c with
    | (.ok a, c') => c'.Books (also a held)
    | (.error _, c') => c'.owners = c.owners ∧ c'.Books (also (x.stray c) held) := by
  by_cases h : ∀ v s, x = .storeStr v s → v.ty = .str
  · have hstray : x.stray c = 0 := by
      cases x with
      | storeStr v s => exact if_pos (.inl (h v s rfl))
      | _ => rfl
    have hsettled := (x.settles h).books b hsize
    rcases hrun : x.act c with ⟨e | a, c'⟩ <;> rw [hrun] at hsettled
    · rw [hstray]
      exact ⟨hsettled.owners, (b.same hsettled).congr fun a ha => also_zero held ha⟩
    · exact hsettled
  · obtain ⟨v, s, rfl, hv⟩ : ∃ v s, x = .storeStr v s ∧ v.ty ≠ .str := by
      simpa only [Classical.not_forall, exists_prop] using h
    obtain ⟨e, c', hrun, howners, b'⟩ := Act.storeStr_of_ne hv s b
    have hcall : (Call.storeStr v s).act c = (.error e, c') := Act.bind_error hrun
    rw [hcall]
    simpa only [Call.stray, hv, false_or] using And.intro howners b'

/-! ## States of a run -/

/-- A state that a run can get to. Between calls the program uses the heap on its own account, which leaves each
variable the reference it holds. -/
inductive Reachable : Context → Prop
  | start (s : Settings) (world : World) : Reachable (.ofSettings s world)
  | call {c : Context} (x : Call) (h : Reachable c) (hsize : (x.act c).2.heap.slots.size < UInt64.size) :
    Reachable (x.act c).2
  | use {c : Context} (d : Heap.Deed) (h : Reachable c)
    (hkept : ∀ a, a ≠ 0 → c.owners.count a ≤ (d.apply c.heap).count a) :
    Reachable { c with heap := d.apply c.heap }
  | outside {c : Context} (world : World) (h : Reachable c) : Reachable { c with world }

theorem Reachable.books {c : Context} (h : Reachable c) : ∃ held, c.Books held := by
  induction h with
  | start s world =>
    obtain ⟨Γ, T, l, -⟩ := Context.Owns.start s world
    refine ⟨fun _ => 0, l.orderly, fun a ha => ?_⟩
    simpa using l.count a ha
  | call x h hsize ih =>
    obtain ⟨held, b⟩ := ih
    have hbooks := x.books b hsize
    rcases hrun : x.act _ with ⟨e | a, c'⟩ <;> rw [hrun] at hbooks
    · exact ⟨_, hbooks.2⟩
    · exact ⟨_, hbooks⟩
  | @use c d h hkept ih =>
    obtain ⟨held, b⟩ := ih
    refine ⟨fun a => (d.apply c.heap).count a - c.owners.count a, b.orderly.after [d], fun a ha => ?_⟩
    have hle := hkept a ha
    show (d.apply c.heap).count a = c.owners.count a + ((d.apply c.heap).count a - c.owners.count a)
    omega
  | outside world h ih =>
    obtain ⟨held, b⟩ := ih
    exact ⟨held, b.orderly, b.count⟩

/-- The state after closing `n` times. -/
def closed : Nat → Context → Context
  | 0, c => c
  | n + 1, c => closed n (Act.close c).2

theorem closed_books (n : Nat) {c : Context} {held : UInt64 → Nat} (b : c.Books held) :
    (closed n c).Books held ∧ (n ≠ 0 → ∀ a ∈ (closed n c).owners, a = 0) := by
  induction n generalizing c with
  | zero => exact ⟨b, fun h => absurd rfl h⟩
  | succ n ih =>
    obtain ⟨errors, c', hrun, b', hnone⟩ := Act.close_books b
    rw [closed, hrun]
    refine ⟨(ih b').1, fun _ => ?_⟩
    cases n with
    | zero => exact hnone
    | succ n => exact (ih b').2 (Nat.succ_ne_zero n)

/-- Counts change with the variables and with owned results. The law fails in one place, where a call is refused after
it took a reference. Closing gives back what the variables hold, once. -/
theorem counts_follow_variables {c : Context} (hc : Reachable c) :
    (∀ x : Call, (x.act c).2.heap.slots.size < UInt64.size → ∀ a, a ≠ 0 →
      match x.act c with
      | (.ok r, c') => c'.heap.count a + c.owners.count a = c.heap.count a + c'.owners.count a + one r a
      | (.error _, c') => c'.owners = c.owners ∧ c'.heap.count a = c.heap.count a + one (x.stray c) a)
    ∧ ∀ n, (∃ errors, (Act.close (closed n c)).1 = .ok errors) ∧ (∀ a ∈ (closed (n + 1) c).owners, a = 0)
      ∧ ∀ a, a ≠ 0 → (closed (n + 1) c).heap.count a + c.owners.count a = c.heap.count a := by
  obtain ⟨held, b⟩ := hc.books
  constructor
  · intro x hsize a ha
    have hbefore := b.count a ha
    have hbooks := x.books b hsize
    rcases hrun : x.act c with ⟨e | r, c'⟩ <;> rw [hrun] at hbooks
    · obtain ⟨howners, b'⟩ := hbooks
      have hafter := b'.count a ha
      rw [howners] at hafter
      unfold also at hafter
      exact ⟨howners, by omega⟩
    · have hafter := hbooks.count a ha
      unfold also at hafter
      dsimp only
      omega
  · intro n
    obtain ⟨errors, c', hrun, -⟩ := Act.close_books (closed_books n b).1
    obtain ⟨b', hnone⟩ := closed_books (n + 1) b
    have hnone := hnone (Nat.succ_ne_zero n)
    refine ⟨⟨errors, by rw [hrun]⟩, hnone, fun a ha => ?_⟩
    have hzero : (closed (n + 1) c).owners.count a = 0 := List.count_eq_zero.2 fun hmem => ha (hnone a hmem)
    rw [b'.count a ha, hzero, b.count a ha]
    omega

theorem Reachable.use_of_argv {c : Context} (h : Reachable c) (howners : c.owners = [0, 0, 0, 0, 1]) (d : Heap.Deed)
    (hkept : 0 < (d.apply c.heap).count 1) : Reachable { c with heap := d.apply c.heap } := by
  refine .use d h fun a ha => ?_
  rw [howners]
  by_cases hone : a = 1
  · subst hone
    exact hkept
  · have hnone : [0, 0, 0, 0, (1 : UInt64)].count a = 0 := List.count_eq_zero.2 (by simp [ha, hone])
    rw [hnone]
    exact Nat.zero_le _

/-- The program has made a string of sixteen bytes, on the heap next to the arguments. -/
def withString : Context :=
  let c := Context.ofSettings {} {}
  { c with heap := (Heap.Deed.use (.newStr (List.replicate 16 65))).apply c.heap }

theorem reachable_withString : Reachable withString :=
  Reachable.use_of_argv (.start {} {}) (by decide +kernel) _ (by decide +kernel)

/-- Kept as a separator, the string has two owners. As a number of fields it is refused, and has two owners as well.
Closing gives the arguments back, and not twice. -/
theorem counts_follow_variables_sixteen :
    Reachable withString
    ∧ (∃ c', (Call.storeStr .fs (.shared 2)).act withString = (.ok 0, c') ∧ c'.heap.count 2 = 2)
    ∧ (∃ e c', (Call.storeStr .nf (.shared 2)).act withString = (.error e, c') ∧ c'.heap.count 2 = 2)
    ∧ (closed 2 withString).heap.count 1 = 0 := by
  obtain ⟨hcalls, hclosed⟩ := counts_follow_variables reachable_withString
  have hbefore : withString.heap.count 2 = 1 := by decide +kernel
  refine ⟨reachable_withString, ?_, ?_, ?_⟩
  · obtain ⟨c', hrun⟩ : ∃ c', (Call.storeStr .fs (.shared 2)).act withString = (.ok 0, c') := ⟨_, by rfl⟩
    have hlaw := hcalls (.storeStr .fs (.shared 2)) (by decide +kernel) 2 (by decide)
    have hafter : ((Call.storeStr .fs (.shared 2)).act withString).2.owners.count 2 = 1 := by decide +kernel
    have howners : withString.owners.count 2 = 0 := by decide +kernel
    rw [hrun] at hlaw hafter
    dsimp only at hlaw hafter
    rw [hbefore, howners, hafter] at hlaw
    exact ⟨c', hrun, hlaw⟩
  · obtain ⟨e, c', hrun⟩ : ∃ e c', (Call.storeStr .nf (.shared 2)).act withString = (.error e, c') := ⟨_, _, by rfl⟩
    have hlaw := hcalls (.storeStr .nf (.shared 2)) (by decide +kernel) 2 (by decide)
    have hstray : (Call.storeStr .nf (.shared 2)).stray withString = 2 := by decide +kernel
    rw [hrun] at hlaw
    rw [hbefore, hstray] at hlaw
    exact ⟨e, c', hrun, hlaw.2⟩
  · obtain ⟨-, -, hcount⟩ := hclosed 1
    have hargv : withString.heap.count 1 = 1 ∧ withString.owners.count 1 = 1 := by decide +kernel
    have hlaw := hcount 1 (by decide)
    rw [hargv.1, hargv.2] at hlaw
    exact Nat.add_right_cancel hlaw

/-- A refused call can change a count. -/
theorem refused_call_changes_count :
    ¬ ∀ c, Reachable c → ∀ x : Call, (x.act c).2.heap.slots.size < UInt64.size → ∀ a, a ≠ 0 →
      match x.act c with
      | (.ok r, c') => c'.heap.count a + c.owners.count a = c.heap.count a + c'.owners.count a + one r a
      | (.error _, c') => c'.heap.count a = c.heap.count a := by
  intro hlaw
  obtain ⟨e, c', hrun⟩ : ∃ e c', (Call.storeStr .nf (.shared 2)).act withString = (.error e, c') := ⟨_, _, by rfl⟩
  have hone := hlaw withString reachable_withString (.storeStr .nf (.shared 2)) (by decide +kernel) 2 (by decide)
  have hafter : ((Call.storeStr .nf (.shared 2)).act withString).2.heap.count 2 = 2 := by decide +kernel
  have hbefore : withString.heap.count 2 = 1 := by decide +kernel
  rw [hrun] at hone hafter
  dsimp only at hone hafter
  rw [hbefore, hafter] at hone
  cases hone

end RecordMill.Ownership

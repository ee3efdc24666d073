import RecordMill.Proofs.Machine.Extension

/-!
# Bodies in single assignment form

Whatever a builder is asked for, and whatever of it is refused, every instruction stands at one place in one
block, every value has at most one definition, and blocks are marked as ended exactly where they are.
-/

namespace RecordMill.Machine

/-! ## The form of a body -/

/-- The instructions of a block pass control on at most with the last one, and it is known whether they do. -/
structure Ends (code : List Inst) (ended : Bool) : Prop where
  last : ended = true ↔ ∃ i, code.getLast? = some i ∧ i.action.isTerminator = true
  before : ∀ i ∈ code.dropLast, i.action.isTerminator = false

namespace Body

/-- The numbers of instructions as the blocks list them. -/
def placed (f : Body) : List Nat := f.blocks.toList.flatMap (·.insts.toList)

/-- The values that blocks and instructions define, each as often as it is. -/
def definitions (f : Body) : List Value := f.blocks.toList.flatMap (·.params) ++ f.insts.toList.flatMap (·.results)

end Body

namespace Ends

variable {code : List Inst}

theorem nil : Ends [] false where
  last := by simp
  before := by simp

theorem open_straight (h : Ends code false) : ∀ i ∈ code, i.action.isTerminator = false := by
  intro i hi
  rcases List.eq_nil_or_concat code with rfl | ⟨init, last, rfl⟩
  · cases hi
  · rw [List.concat_eq_append] at h hi
    have hbefore := h.before
    rw [List.dropLast_concat] at hbefore
    rcases List.mem_append.1 hi with hi | hi
    · exact hbefore i hi
    · obtain rfl := List.mem_singleton.1 hi
      simpa using h.last

theorem concat (h : Ends code false) (i : Inst) : Ends (code ++ [i]) i.action.isTerminator where
  last := by simp
  before := by
    rw [List.dropLast_concat]
    exact h.open_straight

end Ends

namespace FuncDraft

/-- A sound draft whose body is in single assignment form so far; what is defined are values of it. -/
structure Shaped (d : FuncDraft) : Prop where
  sound : d.Sound
  placed : d.body.placed.Perm (List.range d.body.insts.size)
  definitions : d.body.definitions.Nodup
  known : ∀ v ∈ d.body.definitions, v < d.body.values.size
  ends : ∀ {b : Nat} {x : Block}, d.body.blocks[b]? = some x → Ends (d.body.instsOf x) x.terminated

variable {d d' : FuncDraft}

theorem Shaped.start (name : Bytes) (sig : Signature) : Shaped { body := { name, sig } } where
  sound := .start name sig
  placed := .refl _
  definitions := List.nodup_nil
  known := by simp [Body.definitions]
  ends := by simp

theorem Shaped.define (h : d.Shaped) {defs : List Value} {n : Nat}
    (hdefs : defs.Perm (d.body.definitions ++ List.range' d.body.values.size n)) :
    defs.Nodup ∧ ∀ v ∈ defs, v < d.body.values.size + n := by
  constructor
  · refine hdefs.nodup_iff.2 (List.nodup_append.2 ⟨h.definitions, List.nodup_range', ?_⟩)
    intro v hv w hw
    exact Nat.ne_of_lt (Nat.lt_of_lt_of_le (h.known v hv) (List.mem_range'_1.1 hw).1)
  · intro v hv
    rcases List.mem_append.1 (hdefs.subset hv) with hv | hv
    · exact Nat.lt_add_right _ (h.known v hv)
    · exact (List.mem_range'_1.1 hv).2

end FuncDraft

/-- What can be done to a body under construction: an operation of its builder, or several of which each can depend on
the replies to those before, or a new builder, which has no current block yet. -/
inductive Build.Request : Type 1 where
  | ask {α : Type} (b : Build α) (h : Build.Recipe b)
  | rebuild

namespace FuncDraft

def serve (d : FuncDraft) : Build.Request → FuncDraft
  | .ask b _ => (b d).2
  | .rebuild => { d with current := none }

/-- Each request is made of what the ones before left. -/
def after (d : FuncDraft) (rs : List Build.Request) : FuncDraft := rs.foldl serve d

/-- A parameter for a block that does not exist is refused, and its value stays without a definition. -/
example :
    (after { body := { name := [], sig := {} } } [.ask _ (.blockParam 0 .i64), .ask _ .createBlock,
      .ask _ (.blockParam 0 .i32)]).body
    = { name := [], sig := {}, values := #[.i64, .i32], blocks := #[{ params := [1] }] } := by
  rfl

end FuncDraft

end RecordMill.Machine

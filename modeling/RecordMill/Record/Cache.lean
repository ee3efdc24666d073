import RecordMill.Text.Bytes

/-! # Values built once per key -/

namespace RecordMill

structure Cache (α : Type) where
  entries : List (Bytes × α) := []

namespace Cache

variable {α ε : Type}

def find? (c : Cache α) (key : Bytes) : Option α := c.entries.lookup key

/-- Builds the value on a first request; a failure is not remembered. -/
def get (c : Cache α) (key : Bytes) (build : Bytes → Except ε α) : Except ε (α × Cache α) :=
  match c.find? key with
  | some v => .ok (v, c)
  | none => do
    let v ← build key
    return (v, ⟨c.entries ++ [(key, v)]⟩)

def size (c : Cache α) : Nat := c.entries.length

def update (c : Cache α) (key : Bytes) (v : α) : Cache α :=
  ⟨c.entries.map fun e => if e.1 = key then (key, v) else e⟩

end Cache

end RecordMill

import Std.Data.ExtTreeMap

/-!
# A vector that tolerates gaps

It starts dense. A write a little past the end fills the gap with default values; a write far beyond
turns it, until it is cleared, into a map from indices.
-/

namespace RecordMill

inductive LazyVec (α : Type) where
  | dense (items : Array α)
  | sparse (items : Std.ExtTreeMap Int α compare)

namespace LazyVec

variable {α : Type}

def slack : Nat := 16

def empty : LazyVec α := .dense #[]

def ofList (xs : List α) : LazyVec α := .dense xs.toArray

def isSparse : LazyVec α → Bool
  | .dense _ => false
  | .sparse _ => true

def size : LazyVec α → Nat
  | .dense items => items.size
  | .sparse items => items.size

def get? : LazyVec α → Int → Option α
  | .dense items, i => if i < 0 then none else items[i.toNat]?
  | .sparse items, i => items[i]?

/-- The elements of a dense vector under their indices. -/
def scatter (items : Array α) : Std.ExtTreeMap Int α compare :=
  (items.toList.zipIdx).foldl (fun m (x, i) => m.insert (i : Int) x) ∅

/-- `none` for an index below zero in a dense vector. -/
def insert? [Inhabited α] : LazyVec α → Int → α → Option (LazyVec α)
  | .sparse items, i, x => some (.sparse (items.insert i x))
  | .dense items, i, x =>
    if i < 0 then none
    else
      let n := i.toNat
      if n < items.size then some (.dense (items.setIfInBounds n x))
      else if n < items.size + slack then
        some (.dense ((items ++ Array.replicate (n - items.size) default).push x))
      else some (.sparse ((scatter items).insert i x))

/-- Writes at the index that equals the number of stored elements. -/
def push : LazyVec α → α → LazyVec α
  | .dense items, x => .dense (items.push x)
  | .sparse items, x => .sparse (items.insert (items.size : Int) x)

end LazyVec

end RecordMill

import RecordMill.Pattern.Filter
import RecordMill.Pattern.Parser
import RecordMill.Pattern.Search
import RecordMill.Record.Cache

/-!
# Compiled patterns

Reading a pattern, finding its matches and cutting at them stand for a library of regular expressions that is not
part of the program. They follow its documented syntax and semantics: the leftmost match, of these the one that the
alternatives prefer or, on demand, the longest, and Unicode characters as the units. Of the program itself are only the
filter in front of a search and the cache of patterns by their text.
-/

namespace RecordMill

/-- A pattern ready for use. `longest` prefers the longest of the leftmost matches, as opposed to the
first in the order of the alternatives. -/
structure Pattern where
  node : Pattern.Node
  longest : Bool
  filter : Option Pattern.Filter

namespace Pattern

def compile (longest : Bool) (pattern : Bytes) : Except ParseError Pattern := do
  return { node := ← parse pattern, longest, filter := Filter.ofPattern? pattern }

/-- The codes of the characters of a text; stray bytes count as the replacement character. -/
def subject (units : List Utf8.Unit) : Subject := (units.map Utf8.Unit.code).toArray

def isMatch (p : Pattern) (s : Bytes) : Bool :=
  if (p.filter.map (·.rejects s)).getD false then false
  else p.node.occursIn (subject (Utf8.units s))

/-- The pieces between spans of positions, from `start` on. -/
def pieces (units : Array Utf8.Unit) (start : Nat) : List (Nat × Nat) → List Bytes
  | [] => [sliceBytes start units.size]
  | (a, b) :: rest => sliceBytes start a :: pieces units b rest
where
  sliceBytes (i j : Nat) : Bytes := ((units.extract i j).toList.map Utf8.Unit.bytes).flatten

/-- Cuts at the matches. A positive `n` bounds the number of pieces, though one cut is always made;
0 gives none. -/
def split (p : Pattern) (s : Bytes) (n : Int) : List Bytes :=
  if n = 0 then []
  else
    let units := Utf8.units s
    let found := (Search.ofSubject p.node p.longest (subject units)).all
    let found := if n < 0 then found else found.take (max (n.toNat - 1) 1)
    pieces units.toArray 0 found

/-! ## Patterns by their text -/

/-- A pattern that does not compile is not kept, so that every use reports it. -/
structure Patterns where
  longest : Bool
  compiled : Cache Pattern := {}

namespace Patterns

def get (ps : Patterns) (pattern : Bytes) : Except ParseError (Pattern × Patterns) := do
  let (p, compiled) ← ps.compiled.get pattern (compile ps.longest)
  return (p, { ps with compiled })

def isMatch (ps : Patterns) (pattern s : Bytes) : Except ParseError (Bool × Patterns) := do
  let (p, ps) ← ps.get pattern
  return (p.isMatch s, ps)

def split (ps : Patterns) (pattern s : Bytes) : Except ParseError (List Bytes × Patterns) := do
  let (p, ps) ← ps.get pattern
  return (p.split s (-1), ps)

def size (ps : Patterns) : Nat := ps.compiled.size

end Patterns

end Pattern

end RecordMill

/-!
Half-open ranges of byte positions.
-/

namespace SyntaxTree

structure TextRange where
  start : Nat
  stop : Nat
  deriving DecidableEq, Repr

namespace TextRange

/-- The range of `width` bytes from `start`. -/
def spanning (start width : Nat) : TextRange := ⟨start, start + width⟩

/-- A range read from two positions that must be in order. -/
def ordered? (start stop : Nat) : Option TextRange :=
  if start ≤ stop then some ⟨start, stop⟩ else none

def isEmpty (range : TextRange) : Bool := range.start == range.stop

/-- Both ends count as touched. -/
def touches (range : TextRange) (offset : Nat) : Bool :=
  range.start ≤ offset && offset ≤ range.stop

def shift (range : TextRange) (distance : Nat) : TextRange :=
  ⟨range.start + distance, range.stop + distance⟩

def describe (range : TextRange) : String := s!"{range.start}..{range.stop}"

end TextRange

end SyntaxTree

import Std.Data.HashSet
import SyntaxTree.Green

/-!
What two green values have in common: which parts of the one are the very values that occur in the
other.
-/

namespace SyntaxTree.Green

mutual

/-- A node whose stamp is known is not looked into again. -/
def Node.addStamps : Node → Std.HashSet Stamp → Std.HashSet Stamp
  | ⟨stamp, _, _, _, _, slots⟩, known =>
    if known.contains stamp then known else addSlotsStamps slots (known.insert stamp)

def addSlotsStamps : List (SyntaxTree.Slot Node Token) → Std.HashSet Stamp → Std.HashSet Stamp
  | [], known => known
  | slot :: rest, known => addSlotsStamps rest (addSlotStamps slot known)

/-- Adds the stamps of a value and of everything below it to the known ones. -/
def addSlotStamps : SyntaxTree.Slot Node Token → Std.HashSet Stamp → Std.HashSet Stamp
  | .node node, known => node.addStamps known
  | .token token, known => known.insert token.stamp
  | .absent, known => known

end

/-- The state of one part of a value, seen against another value. -/
inductive Origin
  | absent
  | shared (kind : Kind)
  | new (kind : Kind)
  deriving DecidableEq

def Origin.describe : Origin → String
  | absent => "absent"
  | shared kind => s!"{kind} shared"
  | new kind => s!"{kind} new"

mutual

def Node.origins (known : Std.HashSet Stamp) (depth : Nat) : Node → List (Nat × Origin)
  | ⟨stamp, kind, _, _, _, slots⟩ =>
    if known.contains stamp then
      [(depth, .shared kind)]
    else
      (depth, .new kind) :: slotsOrigins known (depth + 1) slots

def slotsOrigins (known : Std.HashSet Stamp) (depth : Nat) :
    List (SyntaxTree.Slot Node Token) → List (Nat × Origin)
  | [] => []
  | slot :: rest => slotOrigins known depth slot ++ slotsOrigins known depth rest

/-- The parts of a value with their depths, in preorder, down to the first shared ones. -/
def slotOrigins (known : Std.HashSet Stamp) (depth : Nat) :
    SyntaxTree.Slot Node Token → List (Nat × Origin)
  | .node node => node.origins known depth
  | .token token =>
    [(depth, if known.contains token.stamp then .shared token.kind else .new token.kind)]
  | .absent => [(depth, .absent)]

end

/-- How `new` is made of parts of `old`. -/
def sharing (old new : Green.Slot) : List (Nat × Origin) :=
  slotOrigins (addSlotStamps old ∅) 0 new

end SyntaxTree.Green

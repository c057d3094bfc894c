import SyntaxTree.KindSet
import SyntaxTree.Text.Quoted

/-!
Misfits: why a value cannot go into a slot, or why an edit names no slot.
-/

namespace SyntaxTree

inductive SlotError
  /-- A token kind was asked to have slots. -/
  | notANode (kind : Kind)
  | arityMismatch (kind : Kind) (expected found : Nat)
  | slotOutOfRange (kind : Kind) (index len : Nat)
  | requiredSlotAbsent (kind : Kind) (slot : String)
  | unexpectedKind (kind : Kind) (slot : String) (expected : KindSet) (found : Kind)
  /-- A node was given for a token or a token for a node; both are named by these words. -/
  | shapeMismatch (kind : Kind) (slot expected found : String)
  | notAList (kind : Kind)
  deriving DecidableEq

namespace SlotError

def message : SlotError → String
  | notANode kind => s!"{kind} is a token kind and has no slots"
  | arityMismatch kind expected found => s!"{kind} expects {expected} slots, found {found}"
  | slotOutOfRange kind index len => s!"slot {index} is out of range for {kind} with {len} slots"
  | requiredSlotAbsent kind slot => s!"slot `{slot}` of {kind} is required and cannot be absent"
  | unexpectedKind kind slot expected found =>
    s!"slot `{slot}` of {kind} expects one of " ++ expected.describe ++ s!", found {found}"
  | shapeMismatch kind slot expected found =>
    s!"slot `{slot}` of {kind} expects a {expected}, found a {found}"
  | notAList kind => s!"{kind} is not a list"

def variant : SlotError → String
  | notANode .. => "NotANode"
  | arityMismatch .. => "ArityMismatch"
  | slotOutOfRange .. => "SlotOutOfRange"
  | requiredSlotAbsent .. => "RequiredSlotAbsent"
  | unexpectedKind .. => "UnexpectedKind"
  | shapeMismatch .. => "ShapeMismatch"
  | notAList .. => "NotAList"

/-- The fields in order, each with its value. -/
def fields : SlotError → List (String × String)
  | notANode kind | notAList kind => [("kind", kind.name)]
  | arityMismatch kind expected found =>
    [("kind", kind.name), ("expected", toString expected), ("found", toString found)]
  | slotOutOfRange kind index len =>
    [("kind", kind.name), ("index", toString index), ("len", toString len)]
  | requiredSlotAbsent kind slot => [("kind", kind.name), ("slot", Text.quoted slot)]
  | unexpectedKind kind slot expected found =>
    [("kind", kind.name), ("slot", Text.quoted slot), ("expected", expected.describe),
      ("found", found.name)]
  | shapeMismatch kind slot expected found =>
    [("kind", kind.name), ("slot", Text.quoted slot), ("expected", Text.quoted expected),
      ("found", Text.quoted found)]

end SlotError

end SyntaxTree

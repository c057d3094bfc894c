import SyntaxTree.Red

/-!
The fold of a tree: every token gives a result by itself, every node from the results of its slots.
The traversals of the library are folds. Results are worked out when they are asked for, so that a
traversal goes only where it has to.
-/

namespace SyntaxTree.Red

/-- The results of the slots of a node, to be asked for. -/
abbrev Parts (NodeResult TokenResult : Type) := Unit → List (SyntaxTree.Slot NodeResult TokenResult)

variable {NodeResult TokenResult : Type}

mutual

def foldNode (onNode : Node → Parts NodeResult TokenResult → NodeResult)
    (onToken : Token → TokenResult) : Green.Node → Node → NodeResult
  | ⟨_, _, _, _, _, slots⟩, self =>
    onNode self fun _ => foldSlots onNode onToken slots self 0 self.offset

/-- The results of consecutive slots, the first of them at the given index and offset. -/
def foldSlots (onNode : Node → Parts NodeResult TokenResult → NodeResult)
    (onToken : Token → TokenResult) :
    List (SyntaxTree.Slot Green.Node Green.Token) → Node → Nat → Nat →
      List (SyntaxTree.Slot NodeResult TokenResult)
  | [], _, _, _ => []
  | slot :: rest, holder, index, offset =>
    foldSlot onNode onToken slot holder index offset ::
      foldSlots onNode onToken rest holder (index + 1) (offset + Green.Slot.width slot)

def foldSlot (onNode : Node → Parts NodeResult TokenResult → NodeResult)
    (onToken : Token → TokenResult) :
    SyntaxTree.Slot Green.Node Green.Token → Node → Nat → Nat →
      SyntaxTree.Slot NodeResult TokenResult
  | .node green, holder, index, offset =>
    .node (foldNode onNode onToken green (.child green offset index holder))
  | .token green, holder, index, offset => .token (onToken (.held green offset index holder))
  | .absent, _, _, _ => .absent

end

/-- Folds the tree below a node, the node included. -/
def Node.fold (onNode : Node → Parts NodeResult TokenResult → NodeResult)
    (onToken : Token → TokenResult) (node : Node) : NodeResult :=
  foldNode onNode onToken node.green node

/-- The results of consecutive slots are those of the slots seen one by one. -/
theorem foldSlots_eq_map (onNode : Node → Parts NodeResult TokenResult → NodeResult)
    (onToken : Token → TokenResult) (slots : List Green.Slot) (holder : Node) (index offset : Nat) :
    foldSlots onNode onToken slots holder index offset =
      (viewAll holder index offset slots).map (.map (Node.fold onNode onToken) onToken) := by
  induction slots generalizing index offset with
  | nil => rfl
  | cons slot rest inductionHypothesis =>
      cases slot <;> simp [foldSlots, foldSlot, viewAll, view, Slot.map, Node.fold, Node.green,
        inductionHypothesis]

/-- The result of a node in terms of the results of its slots. -/
theorem Node.fold_eq (onNode : Node → Parts NodeResult TokenResult → NodeResult)
    (onToken : Token → TokenResult) (node : Node) :
    node.fold onNode onToken =
      onNode node fun _ => node.slots.map (.map (Node.fold onNode onToken) onToken) := by
  rw [Node.fold, Node.slots, ← foldSlots_eq_map]
  cases node.green
  rfl

/-- What the first slot that gives something gives. -/
def firstFound {Value : Type}
    (parts : List (SyntaxTree.Slot (Unit → Option Value) (Unit → Option Value))) : Option Value :=
  parts.findSome? fun part => part.elim (· ()) (· ()) none

/-- The items that slots put in front of others, slot by slot. -/
def prepend {Item : Type} (parts : List (SyntaxTree.Slot (List Item → List Item)
    (List Item → List Item))) (rest : List Item) : List Item :=
  parts.foldr (fun part behind => part.elim (· behind) (· behind) behind) rest

end SyntaxTree.Red

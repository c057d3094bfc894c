import SyntaxTree.Red.Fold

/-!
Read-only visits. A visitor is given every node together with the action that visits what is below
it, and decides whether and when to run that.
-/

namespace SyntaxTree.Red

structure Visitor (Action : Type → Type) where
  onNode : Node → Action Unit → Action Unit
  onToken : Token → Action Unit

variable {Action : Type → Type} [Monad Action]

/-- Visits the slots of a node from left to right. -/
def Visitor.descend (visits : List (SyntaxTree.Slot (Action Unit) (Action Unit))) : Action Unit :=
  (visits.filterMap (·.present?)).forM id

def Node.accept (node : Node) (visitor : Visitor Action) : Action Unit :=
  node.fold (fun self visits => visitor.onNode self (Visitor.descend (visits ()))) visitor.onToken

inductive Visit
  | node (node : Node)
  | token (token : Token)

namespace Visitor

/-- Takes down every visit, and goes below a node unless it is told to stop there. -/
def recorder (stopsAt : Node → Bool) : Visitor (StateM (Array Visit)) where
  onNode node descend := do
    modify (·.push (.node node))
    unless stopsAt node do descend
  onToken token := modify (·.push (.token token))

/-- Collects what some nodes give; these are not gone below. -/
def collector {Value : Type} (find? : Node → Option Value) : Visitor (StateM (Array Value)) where
  onNode node descend :=
    match find? node with
    | some value => modify (·.push value)
    | none => descend
  onToken _ := pure ()

end Visitor

namespace Node

/-- The visits of a recorder. -/
def visits (node : Node) (stopsAt : Node → Bool) : List Visit :=
  ((node.accept (Visitor.recorder stopsAt)).run #[]).2.toList

/-- What the topmost nodes that give something give, from left to right. -/
def collect {Value : Type} (node : Node) (find? : Node → Option Value) : List Value :=
  ((node.accept (Visitor.collector find?)).run #[]).2.toList

end Node

end SyntaxTree.Red

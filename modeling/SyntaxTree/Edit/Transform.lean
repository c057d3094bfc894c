import SyntaxTree.Edit
import SyntaxTree.Red.Fold

/-!
Transforming a subtree from its leaves up. A node whose slots all come back as the very same values
is used again; any other node is rebuilt, and a misfit ends the run.
-/

namespace SyntaxTree

/-- What to do with a node, given the action that transforms its slots and rebuilds it where needed,
and what to put for a token. -/
structure Transform (Action : Type → Type) where
  onNode : Red.Node → Action Green.Node → Action Green.Node
  onToken : Red.Token → Action Green.Token

namespace Transform

variable {Action : Type → Type} [Monad Action]

/-- Goes through all slots and changes no token. -/
def identity : Transform Action where
  onNode _ rebuilt := rebuilt
  onToken token := pure token.green

/-- Changes tokens only. -/
def ofTokens (onToken : Red.Token → Action Green.Token) : Transform Action where
  onNode _ rebuilt := rebuilt
  onToken := onToken

def runSlot : SyntaxTree.Slot (Action Green.Node) (Action Green.Token) → Action Green.Slot
  | .node action => return .node (← action)
  | .token action => return .token (← action)
  | .absent => return .absent

variable [MonadLiftT Build Action]

/-- Transforms the slots from left to right and rebuilds the node unless all are the very same. -/
def rebuildSlots (node : Red.Node)
    (actions : Red.Parts (Action Green.Node) (Action Green.Token)) : Action Green.Node := do
  let slots ← (actions ()).mapM runSlot
  if Green.Slot.allIdentical node.green.slots slots then
    return node.green
  else
    liftM (Green.Node.tryCreate node.kind slots)

/-- The green node that comes in place of a node. -/
def greenOf (transform : Transform Action) (node : Red.Node) : Action Green.Node :=
  node.fold (fun self actions => transform.onNode self (rebuildSlots self actions))
    transform.onToken

end Transform

/-- Transforms a subtree and puts the result in its place. -/
def Red.Node.transform {Action : Type → Type} [Monad Action] [MonadLiftT Build Action]
    (node : Red.Node) (transform : Transform Action) : Action Red.Node := do
  let green ← transform.greenOf node
  liftM (node.replaceWith green)

end SyntaxTree

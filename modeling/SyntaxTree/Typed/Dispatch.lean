import SyntaxTree.Typed.View
import SyntaxTree.Red.Visitor

/-!
Dispatch on the kind. Visitors and transformers have one method for every node kind, which is given
the typed view of a node of that kind.
-/

namespace SyntaxTree.Typed

/-- A visitor whose methods decide whether and when to visit what is below a node. -/
structure KindVisitor (Action : Type → Type) where
  onNode : (kind : NodeKind) → NodeOf kind → Action Unit → Action Unit
  onToken : Red.Token → Action Unit

/-- Hands every node to the method of its kind. -/
def KindVisitor.dispatch {Action : Type → Type} (visitor : KindVisitor Action) :
    Red.Visitor Action where
  onNode node descend :=
    let any := AnyNode.ofNode node
    visitor.onNode any.kind any.view descend
  onToken := visitor.onToken

/-- A fold whose methods are given the actions that transform the slots of a node. -/
structure KindTransformer (Action : Type → Type) (Output : Type) where
  onNode : (kind : NodeKind) → NodeOf kind → Red.Parts (Action Output) (Action Output) →
    Action Output
  onToken : Red.Token → Action Output

namespace KindTransformer

variable {Action : Type → Type} {Output : Type}

/-- A transformer with the same method for all kinds. -/
def ofNodes (onNode : Red.Node → Red.Parts (Action Output) (Action Output) → Action Output)
    (onToken : Red.Token → Action Output) : KindTransformer Action Output where
  onNode _ view parts := onNode view.node parts
  onToken := onToken

/-- Transforms a node by the method of its kind. -/
def apply (transformer : KindTransformer Action Output) (node : Red.Node) : Action Output :=
  node.fold
    (fun self parts =>
      let any := AnyNode.ofNode self
      transformer.onNode any.kind any.view parts)
    transformer.onToken

/-- Transforms the slots that are not absent, from left to right. -/
def applySlots [Monad Action] (parts : Red.Parts (Action Output) (Action Output)) :
    Action (List Output) :=
  ((parts ()).filterMap (·.present?)).mapM id

section ApplySlots

variable [Monad Action] [LawfulMonad Action] {action : Action Output}
  {part : SyntaxTree.Slot (Action Output) (Action Output)}

theorem applySlots_cons_of_present (present : part.present? = some action)
    (rest : List (SyntaxTree.Slot (Action Output) (Action Output))) :
    applySlots (fun _ => part :: rest) = (do
      let output ← action
      return output :: (← applySlots fun _ => rest)) := by
  rw [applySlots, List.filterMap_cons_some present, List.mapM_cons]
  rfl

omit [LawfulMonad Action] in
theorem applySlots_cons_of_absent (absent : part.present? = none)
    (rest : List (SyntaxTree.Slot (Action Output) (Action Output))) :
    applySlots (fun _ => part :: rest) = applySlots fun _ => rest := by
  rw [applySlots, List.filterMap_cons_none absent]
  rfl

end ApplySlots

end KindTransformer

end SyntaxTree.Typed

import SyntaxTree.Typed.Field
import SyntaxTree.Edit

/-!
Typed edits. Values are staged by field, or as elements of a typed list; a value that still does not
fit, such as a token of the wrong kind, is a mistake of the caller.
-/

namespace SyntaxTree.Typed

/-- A staged edit of a node of one kind. -/
structure EditOf (owner : NodeKind) where
  staged : Staged

def NodeOf.modify {owner : NodeKind} (view : NodeOf owner) : EditOf owner := ⟨view.node.stage⟩

namespace EditOf

variable {owner : NodeKind}

def put {type : FieldType} (edit : EditOf owner) (field : Field owner type) (value : type.Value) :
    Build (EditOf owner) := do
  return ⟨← Build.ofFitOr .misfit (edit.staged.set field.index (type.toGreen value))⟩

def apply (edit : EditOf owner) : Build (NodeOf owner) := do
  NodeOf.require owner (← edit.staged.apply)

end EditOf

/-- Replaces all three slots in one step. -/
def RestArgument.replaceAll (argument : RestArgument) (comma ellipsis : Red.Token)
    (expression : Expression) : Build RestArgument := do
  let edited ← argument.node.replaceSlots
    [(RestArgument.leadingComma.index, tokenSlot comma),
      (RestArgument.ellipsis.index, tokenSlot ellipsis),
      (RestArgument.expression.index, nodeSlot expression)]
  NodeOf.require .restArgument edited

/-- A staged edit of a typed list. -/
structure ListEdit (Element : Type) where
  staged : Staged

def NodeList.modify {Element : Type} (list : NodeList Element) : ListEdit Element :=
  ⟨list.node.stage⟩

namespace ListEdit

variable {Element : Type}

def push [View Element] (edit : ListEdit Element) (element : Element) :
    Build (ListEdit Element) := do
  return ⟨← Build.ofFitOr .misfit (edit.staged.push (View.node element).green)⟩

def insert [View Element] (edit : ListEdit Element) (index : Nat) (element : Element) :
    Build (ListEdit Element) := do
  return ⟨← Build.ofFitOr .misfit (edit.staged.insert index (View.node element).green)⟩

def remove (edit : ListEdit Element) (index : Nat) : Build (ListEdit Element) := do
  return ⟨← Build.ofFitOr .misfit (edit.staged.remove index)⟩

def apply (edit : ListEdit Element) : Build (NodeList Element) := do
  NodeList.require (← edit.staged.apply)

end ListEdit

end SyntaxTree.Typed

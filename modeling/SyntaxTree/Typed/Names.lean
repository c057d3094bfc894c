import SyntaxTree.Typed.Field
import SyntaxTree.Red.Visitor

/-!
The names that occur below a node.
-/

namespace SyntaxTree.Typed

/-- The name as it is written: an identifier, or a module and an identifier around a colon. -/
def NameReference.name? : NameReference → Option String
  | .simple reference => (reference.get? SimpleNameReference.name).map (·.text)
  | .qualified reference => do
    let modulePrefix ← reference.get? QualifiedNameReference.modulePrefix
    let identifier ← reference.get? QualifiedNameReference.identifier
    return modulePrefix.text ++ ":" ++ identifier.text

/-- The names of all name references at or below a node, from left to right. -/
def names (node : Red.Node) : List String :=
  node.collect fun found => (NameReference.ofNode? found).bind NameReference.name?

end SyntaxTree.Typed

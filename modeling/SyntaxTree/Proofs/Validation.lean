import SyntaxTree.Proofs.Replacement

/-!
What staging lets through. Main statement: an edit is accepted exactly when the slots it leads to
pass the checks of the edited node and of all ancestors, so that no later step can fail.
-/

namespace SyntaxTree.Red

variable {root : Green.Node} {workspace : Workspace} {made : List Green.Slot} {node : Node}

theorem staged_edit_accepted_iff {staged : Staged} (history : Green.History workspace made)
    (rootMade : .node root ∈ made) (inTree : Node.InTree root node)
    (reachable : Staged.Reachable made node staged) (edit : Edit) :
    (∃ later, staged.edit edit = .ok later) ↔
      edit.InRange node.kind staged.slots.length ∧
        node.kind.checkSlots (edit.perform staged.slots) = .ok () ∧
        ∀ stamp, node.FitsAbove (.assemble stamp node.kind (edit.perform staged.slots) []) := by
  have accepted := Staged.edit_accepted_iff (reachable.admitsInPlace history inTree rootMade) edit
  rwa [reachable.node_eq, inTree.admitsInPlace_iff history rootMade] at accepted

theorem Node.InTree.replaceWith_ne_misuse {green : Green.Node} (inTree : Node.InTree root node)
    (history : Green.History workspace made) (rootMade : .node root ∈ made)
    (greenMade : .node green ∈ made) (cause : Misuse) (later : Workspace) :
    node.replaceWith green workspace ≠ .error (.misuse cause) later := by
  rcases inTree.replaceWith_run history rootMade greenMade with
    ⟨_, _, _, run, _⟩ | ⟨_, _, run⟩ <;> simp [run]

theorem Token.InTree.replaceWith_ne_misuse {token : Token} {green : Green.Token}
    (inTree : Token.InTree root token) (history : Green.History workspace made)
    (rootMade : .node root ∈ made) (greenMade : .token green ∈ made) (cause : Misuse)
    (later : Workspace) : token.replaceWith green workspace ≠ .error (.misuse cause) later := by
  rcases inTree.replaceWith_run history rootMade greenMade with
    ⟨_, _, _, run, _⟩ | ⟨_, _, run⟩ <;> simp [run]

end SyntaxTree.Red

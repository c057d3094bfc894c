import SyntaxTree.Proofs.Navigation

/-!
Handles at the same place. Main statements: two handles in trees are at the same place exactly when
the very same root and the same slot indexes lead to them, and within one tree they are then the
same.
-/

namespace SyntaxTree.Red

variable {workspace : Workspace} {made : List Green.Slot} {root firstRoot secondRoot : Green.Node}

namespace Node

variable {first second : Node}

theorem of_samePlace (same : first.samePlace second = true) :
    first.treeRoot.green.identical second.treeRoot.green = true ∧ first.path = second.path ∧
      first.hashKey = second.hashKey := by
  induction first generalizing second with
  | root green =>
      cases second with
      | root other =>
          refine ⟨same, rfl, ?_⟩
          rw [samePlace, Green.Node.identical, beq_iff_eq] at same
          simp [hashKey, Node.green, Node.offset, same]
      | child other otherOffset otherSlot otherParent => cases same
  | child green offset slot parent inductionHypothesis =>
      cases second with
      | root other => cases same
      | child other otherOffset otherSlot otherParent =>
          simp only [samePlace, Green.Node.identical, Bool.and_eq_true, beq_iff_eq] at same
          obtain ⟨⟨⟨sameGreen, sameOffset⟩, sameSlot⟩, sameParent⟩ := same
          obtain ⟨rootsIdentical, samePath, _⟩ := inductionHypothesis sameParent
          refine ⟨rootsIdentical, ?_, ?_⟩
          · rw [path, path, sameSlot, samePath]
          · simp [hashKey, Node.green, Node.offset, sameGreen, sameOffset]

/-- What a node is compared by: its own data and that of its ancestors. -/
def chain (node : Node) : List (Stamp × Nat × Option Nat) :=
  node.ancestors.map fun place => (place.green.stamp, place.offset, place.slotIndex?)

theorem samePlace_iff_chain : first.samePlace second = true ↔ first.chain = second.chain := by
  induction first generalizing second with
  | root green =>
      cases second <;>
        simp [samePlace, chain, ancestors, Green.Node.identical, Node.green, Node.offset,
          slotIndex?]
  | child green offset slot parent inductionHypothesis =>
      cases second with
      | root other => simp [samePlace, chain, ancestors, slotIndex?]
      | child other otherOffset otherSlot otherParent =>
          have parents := @inductionHypothesis otherParent
          rw [chain, chain] at parents
          simp [samePlace, chain, ancestors, Green.Node.identical, Node.green, Node.offset,
            slotIndex?, parents, and_assoc]

/-- In one tree the slot indexes above a node tell it from all others. -/
theorem InTree.eq_of_path (firstInTree : InTree root first) (secondInTree : InTree root second)
    (samePath : first.path = second.path) : first = second := by
  have reached := firstInTree.descend_path
  rw [samePath, secondInTree.descend_path] at reached
  exact (Except.ok.inj reached).symm

theorem InTree.samePlace_iff (firstInTree : InTree firstRoot first)
    (secondInTree : InTree secondRoot second) (history : Green.History workspace made)
    (firstMade : .node firstRoot ∈ made) (secondMade : .node secondRoot ∈ made) :
    first.samePlace second = true ↔
      firstRoot.identical secondRoot = true ∧ first.path = second.path := by
  constructor
  · intro same
    obtain ⟨rootsIdentical, samePath, _⟩ := of_samePlace same
    rw [firstInTree.treeRoot_eq, secondInTree.treeRoot_eq] at rootsIdentical
    exact ⟨rootsIdentical, samePath⟩
  · rintro ⟨rootsIdentical, samePath⟩
    obtain rfl := history.node_eq_of_identical firstMade secondMade rootsIdentical
    rw [firstInTree.eq_of_path secondInTree samePath]
    exact second.samePlace_self

end Node

namespace Token

variable {first second : Token}

theorem InTree.eq_of_path (firstInTree : InTree root first) (secondInTree : InTree root second)
    (samePath : first.path = second.path) : first = second := by
  cases first with
  | detached green => exact absurd firstInTree InTree.detached_iff
  | held green offset slot parent =>
      cases second with
      | detached other => exact absurd secondInTree InTree.detached_iff
      | held other otherOffset otherSlot otherParent =>
          obtain ⟨parentInTree, present, rfl⟩ := InTree.held_iff.mp firstInTree
          obtain ⟨otherInTree, otherPresent, rfl⟩ := InTree.held_iff.mp secondInTree
          obtain ⟨rfl, parentPath⟩ := List.cons.inj samePath
          obtain rfl := parentInTree.eq_of_path otherInTree parentPath
          rw [present] at otherPresent
          obtain rfl := SyntaxTree.Slot.token.inj (Option.some.inj otherPresent)
          rfl

theorem InTree.samePlace_iff (firstInTree : InTree firstRoot first)
    (secondInTree : InTree secondRoot second) (history : Green.History workspace made)
    (firstMade : .node firstRoot ∈ made) (secondMade : .node secondRoot ∈ made) :
    first.samePlace second = true ↔
      firstRoot.identical secondRoot = true ∧ first.path = second.path := by
  cases first with
  | detached green => exact absurd firstInTree InTree.detached_iff
  | held green offset slot parent =>
      cases second with
      | detached other => exact absurd secondInTree InTree.detached_iff
      | held other otherOffset otherSlot otherParent =>
          have parentInTree := (InTree.held_iff.mp firstInTree).1
          have otherInTree := (InTree.held_iff.mp secondInTree).1
          have parents := parentInTree.samePlace_iff otherInTree history firstMade secondMade
          constructor
          · intro same
            simp only [samePlace, Bool.and_eq_true, beq_iff_eq] at same
            obtain ⟨rootsIdentical, samePath⟩ := parents.mp same.2
            exact ⟨rootsIdentical, by rw [path, path, same.1.2, samePath]⟩
          · rintro ⟨rootsIdentical, samePath⟩
            obtain rfl := history.node_eq_of_identical firstMade secondMade rootsIdentical
            rw [firstInTree.eq_of_path secondInTree samePath]
            exact samePlace_self _

def chain (token : Token) : List (Stamp × Nat × Option Nat) :=
  (token.green.stamp, token.offset, token.slotIndex?) ::
    token.parent?.elim [] Node.chain

theorem samePlace_iff_chain : first.samePlace second = true ↔ first.chain = second.chain := by
  cases first <;> cases second <;>
    simp [samePlace, chain, Green.Token.identical, Token.green, Token.offset, slotIndex?, parent?,
      Node.samePlace_iff_chain, and_assoc]

theorem path_eq_of_samePlace (same : first.samePlace second = true) :
    first.path = second.path := by
  cases first with
  | detached green =>
      cases second with
      | detached other => rfl
      | held other otherOffset otherSlot otherParent => cases same
  | held green offset slot parent =>
      cases second with
      | detached other => cases same
      | held other otherOffset otherSlot otherParent =>
          simp only [samePlace, Bool.and_eq_true, beq_iff_eq] at same
          rw [path, path, same.1.2, (Node.of_samePlace same.2).2.1]

theorem eq_detached_of_parent? {token : Token} (detached : token.parent? = none) :
    token = .detached token.green := by
  cases token with
  | detached green => rfl
  | held green offset slot parent => cases detached

end Token

end SyntaxTree.Red

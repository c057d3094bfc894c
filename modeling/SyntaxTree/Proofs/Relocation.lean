import SyntaxTree.Proofs.Graft
import SyntaxTree.Proofs.Replacement

/-!
Where things are after a slot was replaced. Main statement: all that is neither above the slot nor
in it keeps its path and its value; what comes before the slot keeps its offset, and what comes
behind moves by as much as the new value is wider. Paths tell before from behind, since slots that
take up no text share their offsets with others.
-/

namespace SyntaxTree.Red

variable {root : Green.Node} {node : Node} {workspace : Workspace} {made : List Green.Slot}

theorem Node.InTree.set_present {index : Nat} {value : Green.Slot} {staged : Staged}
    (inTree : Node.InTree root node) (history : Green.History workspace made)
    (rootMade : .node root ∈ made) (accepted : node.stage.set index value = .ok staged) :
    ∃ old : Green.Slot, node.green.slots[index]? = some old := by
  have admitted : node.stage.node.AdmitsInPlace node.stage.slots :=
    inTree.admitsInPlace history rootMade
  have inRange : index < node.stage.slots.length :=
    @Staged.inRange_of_edit_eq_ok _ _ (.set index value) admitted accepted
  exact ⟨_, List.getElem?_eq_getElem inRange⟩

/-- The tree after a slot was replaced is the old tree with the new value grafted at the slot. -/
theorem Node.InTree.replaceSlot_eq_graft {index : Nat} {value : Green.Slot} {staged : Staged}
    (inTree : Node.InTree root node) (history : Green.History workspace made)
    (rootMade : .node root ∈ made) (available : Green.Available made value)
    (accepted : node.stage.set index value = .ok staged) (changed : staged.unchanged = false) :
    ∃ edited later, node.replaceSlot index value workspace = .ok edited later ∧
      edited.treeRoot = .root edited.treeRoot.green ∧
      .node edited.treeRoot.green = Green.Slot.graft (.node root) workspace.nextSerial
        (node.path.reverse ++ [index]) value := by
  have reachable := Staged.Reachable.start.edit (.set index value) available accepted
  have run := reachable.apply_of_changed history inTree rootMade changed
  obtain ⟨old, present⟩ := inTree.set_present history rootMade accepted
  have slots_eq : staged.slots = node.green.slots.set index value := by
    rw [(Staged.set_eq_ok_iff.mp accepted).2]
    rfl
  rw [slots_eq] at run
  refine ⟨_, _, (replaceSlot_of_accepted accepted workspace).trans run, ?_,
    inTree.withSlots_set_eq_graft present _ _⟩
  exact (inTree.regrown _ _).treeRoot_eq

end SyntaxTree.Red

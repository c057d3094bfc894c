import SyntaxTree.Proofs.Staging

/-!
What an edited tree shares with the tree before. Main statement: an edit builds the edited node and
its ancestors and nothing else; every ancestor keeps its kind and, but for the one on the path, the
very values in its slots.
-/

namespace SyntaxTree.Red

/-- What is built for a node on the spine: a node of the same kind without remarks of its own, with
a stamp that no value made before has. -/
structure Node.Renewed (made : List Green.Slot) (serial : Nat) (old new : Node) : Prop where
  kind_eq : new.kind = old.kind
  remarks_eq : new.green.remarks = []
  stamp_eq : new.green.stamp = ⟨serial⟩
  fresh : ∀ value ∈ made, Green.Slot.identical value (.node new.green) = false

namespace Node

variable {root : Green.Node} {node : Node} {workspace : Workspace} {made : List Green.Slot}

theorem renewed_withSlots (history : Green.History workspace made) {serial : Nat}
    (later : workspace.nextSerial ≤ serial) (node : Node) (slots : List Green.Slot) :
    Renewed made serial node (node.withSlots serial slots) := by
  have stamp_eq : (node.withSlots serial slots).green.stamp = ⟨serial⟩ := by
    simp [Green.Node.assemble]
  refine ⟨?_, ?_, stamp_eq, fun value present => history.not_identical_of_le present stamp_eq later⟩
  · simp [Node.kind, Green.Node.assemble]
  · simp [Green.Node.assemble]

theorem InTree.withSlots_descend_path (inTree : InTree root node) (serial : Nat)
    (slots : List Green.Slot) :
    (node.withSlots serial slots).treeRoot.descend node.path.reverse =
      .ok (node.withSlots serial slots) := by
  have grown := inTree.regrown (serial + 1) (.assemble ⟨serial⟩ node.kind slots [])
  have reached := grown.descend_path
  rw [regrown_path, ← grown.treeRoot_eq] at reached
  exact reached

/-- Along the path to an edited node, old and new tree go in step. -/
theorem InTree.descend_withSlots (inTree : InTree root node)
    (history : Green.History workspace made) {serial : Nat} (later : workspace.nextSerial ≤ serial)
    (slots : List Green.Slot) {front rest : List Nat} (split : node.path.reverse = front ++ rest) :
    ∃ old new, (Node.root root).descend front = .ok old ∧
      (node.withSlots serial slots).treeRoot.descend front = .ok new ∧
      Renewed made (serial + rest.length) old new ∧
      ∀ {index behind}, rest = index :: behind → ∃ next,
        (node.withSlots serial slots).treeRoot.descend (front ++ [index]) = .ok next ∧
        index < old.slotCount ∧ new.green.slots = old.green.slots.set index (.node next.green) := by
  -- The induction goes up while the path goes down, so `rest` loses its last index at each step.
  induction node generalizing serial slots rest with
  | root green =>
      obtain ⟨rfl, rfl⟩ := List.append_eq_nil_iff.mp split.symm
      rw [InTree.root_iff.mp inTree]
      exact ⟨_, _, rfl, rfl, renewed_withSlots history later _ slots, fun none => by cases none⟩
  | child green offset slot parent inductionHypothesis =>
      have here := inTree.withSlots_descend_path serial slots
      rcases List.eq_nil_or_concat' rest with rfl | ⟨earlier, last, rfl⟩
      · rw [List.append_nil] at split
        rw [← split]
        exact ⟨_, _, inTree.descend_path, here, renewed_withSlots history later _ slots,
          fun none => by cases none⟩
      · obtain ⟨parentInTree, present, _⟩ := InTree.child_iff.mp inTree
        rw [path, List.reverse_cons, ← List.append_assoc] at split
        obtain ⟨parentSplit, sameSlot⟩ := List.append_inj' split rfl
        cases sameSlot
        obtain ⟨old, new, oldFound, newFound, renewed, below⟩ :=
          inductionHypothesis parentInTree (Nat.le_succ_of_le later) _ parentSplit
        refine ⟨old, new, oldFound, newFound, ?_, ?_⟩
        · have sum : serial + (earlier ++ [slot]).length = serial + 1 + earlier.length := by
            simp
            omega
          rwa [sum]
        · intro index behind same
          cases earlier with
          | cons first more =>
              obtain ⟨rfl, _⟩ := List.cons.inj same
              exact below rfl
          | nil =>
              obtain ⟨rfl, _⟩ := List.cons.inj same
              rw [List.append_nil] at parentSplit
              subst parentSplit
              rw [parentInTree.descend_path] at oldFound
              rw [parentInTree.withSlots_descend_path] at newFound
              cases oldFound
              cases newFound
              rw [path, List.reverse_cons] at here
              obtain ⟨inRange, _⟩ := List.getElem?_eq_some_iff.mp present
              exact ⟨_, here, inRange, by simp [Green.Node.assemble]⟩

end Node

/-- The tree of an edited node consists of values made before and of the nodes on the spine. -/
theorem edited_values {root : Green.Node} {node : Node} {workspace : Workspace}
    {made : List Green.Slot} {staged : Staged} (history : Green.History workspace made)
    (rootMade : .node root ∈ made) (inTree : Node.InTree root node)
    (reachable : Staged.Reachable made node staged) :
    let edited := node.withSlots workspace.nextSerial staged.slots
    (∀ {place : Node}, Node.InTree edited.treeRoot.green place → .node place.green ∈ made ∨
      ∃ front rest new, node.path.reverse = front ++ rest ∧
        edited.treeRoot.descend front = .ok new ∧ place.green = new.green) ∧
    ∀ {token : Token}, Token.InTree edited.treeRoot.green token → .token token.green ∈ made := by
  intro edited
  have grown := inTree.regrown (workspace.nextSerial + 1)
    (.assemble ⟨workspace.nextSerial⟩ node.kind staged.slots [])
  have later := reachable.history_of_changed history inTree rootMade []
  have newRootMade : Slot.node edited.treeRoot.green ∈
      edited.ancestors.reverse.map (Slot.node ·.green) ++ made :=
    List.mem_append_left _ (List.mem_map.mpr
      ⟨_, List.mem_reverse.mpr edited.treeRoot_mem_ancestors, rfl⟩)
  constructor
  · intro place placeInTree
    rcases List.mem_append.mp (placeInTree.green_mem later newRootMade) with onSpine | before
    · obtain ⟨spine, present, same⟩ := List.mem_map.mp onSpine
      obtain ⟨spineInTree, rest, split⟩ := grown.of_mem_ancestors (List.mem_reverse.mp present)
      have found := spineInTree.descend_path
      rw [← grown.treeRoot_eq] at found
      rw [Node.regrown_path] at split
      exact .inr ⟨_, rest, spine, split, found, (Slot.node.inj same).symm⟩
    · exact .inl before
  · intro token tokenInTree
    rcases List.mem_append.mp (tokenInTree.green_mem later newRootMade) with onSpine | before
    · obtain ⟨_, _, same⟩ := List.mem_map.mp onSpine
      cases same
    · exact before

/-- An edit that changes anything builds the edited node and one node for each of its ancestors, and
no other value. Every ancestor keeps its kind and the very values in all its slots but the one on
the path, and the edited node has the very values staged. -/
theorem sharing_is_exact {root : Green.Node} {node : Node} {workspace : Workspace}
    {made : List Green.Slot} {staged : Staged} (history : Green.History workspace made)
    (rootMade : .node root ∈ made) (inTree : Node.InTree root node)
    (reachable : Staged.Reachable made node staged) (changed : staged.unchanged = false) :
    ∃ edited later, staged.apply workspace = .ok edited later ∧
      edited.green.slots = staged.slots ∧
      edited.treeRoot.descend node.path.reverse = .ok edited ∧
      (∀ {front rest}, node.path.reverse = front ++ rest → ∃ old new,
        (Node.root root).descend front = .ok old ∧ edited.treeRoot.descend front = .ok new ∧
        Node.Renewed made (workspace.nextSerial + rest.length) old new ∧
        ∀ {index behind}, rest = index :: behind → ∃ next,
          edited.treeRoot.descend (front ++ [index]) = .ok next ∧ index < old.slotCount ∧
          new.green.slots = old.green.slots.set index (.node next.green)) ∧
      later.nextSerial = workspace.nextSerial + (node.path.length + 1) ∧
      (∀ {place}, Node.InTree edited.treeRoot.green place → .node place.green ∈ made ∨
        ∃ front rest new, node.path.reverse = front ++ rest ∧
          edited.treeRoot.descend front = .ok new ∧ place.green = new.green) ∧
      ∀ {token}, Token.InTree edited.treeRoot.green token → .token token.green ∈ made := by
  have run := reachable.apply_of_changed history inTree rootMade changed
  obtain ⟨nodesKnown, tokensKnown⟩ := edited_values history rootMade inTree reachable
  refine ⟨_, _, run, ?_, inTree.withSlots_descend_path _ _, ?_, rfl, nodesKnown, tokensKnown⟩
  · simp [Green.Node.assemble]
  · exact inTree.descend_withSlots history (Nat.le_refl _) staged.slots

theorem sharing_is_exact_of_call :
    Staged.Sample.doubled.unchanged = false ∧ ∃ edited later,
      Staged.Sample.doubled.apply Green.Sample.workspace = .ok edited later ∧
      edited.green.slots = [.node Green.Sample.argument, .node Green.Sample.argument] ∧
      later.nextSerial = 11 ∧ ∃ new next, edited.treeRoot.descend [] = .ok new ∧
        edited.treeRoot.descend [2] = .ok next ∧
        new.green.slots = Green.Sample.call.slots.set 2 (.node next.green) := by
  have changed : Staged.Sample.doubled.unchanged = false := by decide
  obtain ⟨edited, later, run, slots_eq, _, levels, serial, _⟩ :=
    sharing_is_exact Green.Sample.history Green.Sample.call_mem Sample.arguments_inTree
      Staged.Sample.doubled_reachable changed
  obtain ⟨old, new, oldFound, newFound, _, below⟩ := @levels [] [2] rfl
  obtain ⟨next, nextFound, _, rebuilt⟩ := below rfl
  cases oldFound
  exact ⟨changed, edited, later, run, slots_eq, serial, new, next, newFound, nextFound, rebuilt⟩

end SyntaxTree.Red

import SyntaxTree.Proofs.Continuation
import SyntaxTree.Proofs.SameValue

/-!
Edits at places of which neither is above the other. The first leaves the node at the second place
as it is, held as it was held. Main statement: in whichever order the two are made, they are told
the same, and they end in trees that look alike.
-/

namespace SyntaxTree

namespace Green.History

variable {workspace : Workspace} {made : List Slot}

/-- A graft leaves the kinds of all nodes that are not at its place or below. -/
theorem kind_graft (history : History workspace made) {slot : Slot} {start place : Nat}
    {path other : List Nat} {old : Spot} {node : Node} (available : Available made slot)
    (found : slot.spot? start path = some old) (serial : Nat) (new : Slot)
    (there : slot.spot? start other = some ⟨.node node, place⟩) (notBelow : ¬ path <+: other) :
    ∃ later moved, (slot.graft serial path new).spot? start other = some ⟨.node later, moved⟩ ∧
      later.kind = node.kind := by
  by_cases above : other <+: path
  · obtain ⟨back, rfl⟩ := above
    have further : back ≠ [] := by
      rintro rfl
      exact notBelow (by simp)
    have regrafted := Slot.spot?_graft_append there serial back new
    obtain ⟨rebuilt, rebuilt_eq, kind_eq, _⟩ := Slot.exists_graft_node node serial new further
    rw [rebuilt_eq] at regrafted
    exact ⟨rebuilt, place, regrafted, kind_eq⟩
  · obtain ⟨moved, movedFound, content_eq, _⟩ :=
      history.spot?_graft available found serial new there above notBelow
    obtain ⟨content, movedStart⟩ := moved
    obtain rfl : content = .node node := content_eq
    exact ⟨node, movedStart, movedFound, rfl⟩

end Green.History

namespace Staged

/-- A tree with the slots staged for a node put in their place, with stamps from a given serial on.
Staged slots that are those of the node leave the tree as it is. -/
def graftInto (staged : Staged) (tree : Green.Slot) (serial : Nat) : Green.Slot :=
  if staged.unchanged then tree
  else tree.graft (serial + 1) staged.node.path.reverse
    (.node (.assemble ⟨serial⟩ staged.node.kind staged.slots []))

theorem graftInto_of_unchanged {staged : Staged} (unchanged : staged.unchanged = true)
    (tree : Green.Slot) (serial : Nat) : staged.graftInto tree serial = tree := by
  rw [graftInto, if_pos unchanged]

theorem graftInto_of_changed {staged : Staged} (changed : staged.unchanged = false)
    (tree : Green.Slot) (serial : Nat) :
    staged.graftInto tree serial = tree.graft (serial + 1) staged.node.path.reverse
      (.node (.assemble ⟨serial⟩ staged.node.kind staged.slots [])) := by
  rw [graftInto, if_neg (by simp [changed])]

theorem graftInto_eq_of_alike {first second : Staged} (alike : first.Alike second)
    (green_eq : first.node.green = second.node.green)
    (path_eq : first.node.path = second.node.path) (tree : Green.Slot) (serial : Nat) :
    first.graftInto tree serial = second.graftInto tree serial := by
  rw [graftInto, graftInto, unchanged, unchanged, green_eq, path_eq, alike.kind_eq, alike.slots_eq]

/-- The order of what is put at places of which neither is above the other does not count. -/
theorem graftInto_comm {first second : Staged}
    (notAbove : ¬ first.node.path.reverse <+: second.node.path.reverse)
    (notBelow : ¬ second.node.path.reverse <+: first.node.path.reverse) (tree : Green.Slot)
    (serial firstLater otherSerial secondLater : Nat) :
    Green.sameSlotValue (second.graftInto (first.graftInto tree serial) secondLater)
      (first.graftInto (second.graftInto tree otherSerial) firstLater) = true := by
  have itself := Green.sameSlotValue_self tree
  have assembled (staged : Staged) (stamp other : Stamp) : Green.sameSlotValue
      (.node (.assemble stamp staged.node.kind staged.slots []))
      (.node (.assemble other staged.node.kind staged.slots [])) = true :=
    Green.sameSlotValue_assemble (Green.sameSlotValues_self _) _ _ _ _
  cases firstVerdict : first.unchanged with
  | true =>
      rw [graftInto_of_unchanged firstVerdict, graftInto_of_unchanged firstVerdict]
      cases secondVerdict : second.unchanged with
      | true =>
          rw [graftInto_of_unchanged secondVerdict, graftInto_of_unchanged secondVerdict]
          exact itself
      | false =>
          rw [graftInto_of_changed secondVerdict, graftInto_of_changed secondVerdict]
          exact Green.Slot.graft_sameValue itself (assembled second _ _) _ _ _
  | false =>
      rw [graftInto_of_changed firstVerdict, graftInto_of_changed firstVerdict]
      cases secondVerdict : second.unchanged with
      | true =>
          rw [graftInto_of_unchanged secondVerdict, graftInto_of_unchanged secondVerdict]
          exact Green.Slot.graft_sameValue itself (assembled first _ _) _ _ _
      | false =>
          rw [graftInto_of_changed secondVerdict, graftInto_of_changed secondVerdict]
          exact Green.Slot.graft_comm tree notAbove notBelow (assembled first _ _)
            (assembled second _ _) _ _ _ _

variable {workspace : Workspace} {made : List Green.Slot} {root : Green.Node} {node : Red.Node}
  {staged : Staged}

/-- The tree that comes of applying what is staged, told from the tree before. -/
theorem Reachable.apply_graftInto (reachable : Reachable made node staged)
    (history : Green.History workspace made) (inTree : Red.Node.InTree root node)
    (rootMade : .node root ∈ made) :
    ∃ edited later more grown, staged.apply workspace = .ok edited later ∧
      Green.History later more ∧ made ⊆ more ∧ .node grown ∈ more ∧
      edited.treeRoot = .root grown ∧
      .node grown = staged.graftInto (.node root) workspace.nextSerial := by
  obtain ⟨edited, later, more, run, goneOn, included, newRootMade, editedInTree, outcome⟩ :=
    reachable.apply_goesOn history inTree rootMade
  refine ⟨edited, later, more, _, run, goneOn, included, newRootMade, editedInTree.treeRoot_eq, ?_⟩
  rcases outcome with ⟨unchanged, _, rfl⟩ | ⟨changed, rfl⟩
  · rw [graftInto_of_unchanged unchanged, inTree.treeRoot_eq]
    rfl
  · rw [graftInto_of_changed changed, reachable.node_eq]
    exact inTree.withSlots_eq_graft _ _

end Staged

namespace Red.Node

variable {workspace : Workspace} {made : List Green.Slot} {root grown : Green.Node}
  {first second : Red.Node}

/-- Nodes at one path are held in the same way if their parents are of one kind. -/
theorem heldElementSpec?_eq {node other : Red.Node} (path_eq : node.path = other.path)
    (parents : ∀ {parent twin}, node.parent? = some parent → other.parent? = some twin →
      parent.kind = twin.kind) : node.heldElementSpec? = other.heldElementSpec? := by
  cases node with
  | root green =>
      cases other with
      | root twin => rfl
      | child twin offset slot parent => cases path_eq
  | child green offset slot parent =>
      cases other with
      | root twin => cases path_eq
      | child twin otherOffset otherSlot otherParent =>
          obtain ⟨rfl, _⟩ := List.cons.inj path_eq
          rw [heldElementSpec?, heldElementSpec?, parents rfl rfl]

/-- A graft elsewhere leaves the kind of the parent, so that a node is held as it was. -/
theorem InTree.held_after_graft (history : Green.History workspace made)
    (rootMade : .node root ∈ made) (firstInTree : InTree root first)
    (secondInTree : InTree root second) (notAbove : ¬ first.path.reverse <+: second.path.reverse)
    {serial : Nat} {new : Green.Slot}
    (grafted : .node grown = Green.Slot.graft (.node root) serial first.path.reverse new)
    {found : Red.Node} (foundInTree : InTree grown found) (path_eq : found.path = second.path) :
    found.heldElementSpec? = second.heldElementSpec? := by
  apply heldElementSpec?_eq path_eq
  intro parent twin parentAbove twinAbove
  obtain ⟨parentInTree, slot, foundPath⟩ := foundInTree.parent parentAbove
  obtain ⟨twinInTree, twinSlot, secondPath⟩ := secondInTree.parent twinAbove
  have parentPath : parent.path = twin.path := by
    rw [foundPath, secondPath] at path_eq
    exact (List.cons.inj path_eq).2
  have twinNotBelow : ¬ first.path.reverse <+: twin.path.reverse := by
    intro above
    rw [secondPath, List.reverse_cons] at notAbove
    exact notAbove (above.trans (List.prefix_append _ _))
  obtain ⟨later, moved, laterFound, kind_eq⟩ := history.kind_graft (.inr rootMade)
    firstInTree.spot?_path serial new twinInTree.spot?_path twinNotBelow
  have parentFound := parentInTree.spot?_path
  rw [parentPath, grafted, laterFound] at parentFound
  cases parentFound
  exact kind_eq

/-- After an edit elsewhere a node is found at its path, the very same and held in the same way. -/
theorem InTree.exists_elsewhere (history : Green.History workspace made)
    (rootMade : .node root ∈ made) (firstInTree : InTree root first)
    (secondInTree : InTree root second) (notAbove : ¬ first.path.reverse <+: second.path.reverse)
    (notBelow : ¬ second.path.reverse <+: first.path.reverse) {staged : Staged}
    (node_eq : staged.node = first) {serial : Nat}
    (grafted : .node grown = staged.graftInto (.node root) serial) :
    ∃ found, (Node.root grown).descend second.path.reverse = .ok found ∧ InTree grown found ∧
      found.path = second.path ∧ found.green = second.green ∧
      found.heldElementSpec? = second.heldElementSpec? := by
  cases verdict : staged.unchanged with
  | true =>
      rw [Staged.graftInto_of_unchanged verdict] at grafted
      cases grafted
      exact ⟨second, secondInTree.descend_path, secondInTree, rfl, rfl, rfl⟩
  | false =>
      rw [Staged.graftInto_of_changed verdict, node_eq] at grafted
      obtain ⟨⟨content, start⟩, movedFound, content_eq, _⟩ := history.spot?_graft (.inr rootMade)
        firstInTree.spot?_path (serial + 1) (.node (.assemble ⟨serial⟩ first.kind staged.slots []))
        secondInTree.spot?_path notBelow notAbove
      obtain rfl : content = .node second.green := content_eq
      rw [← grafted] at movedFound
      obtain ⟨found, reached, foundInTree, reverse_eq, green_eq, _⟩ := exists_inTree movedFound
      have path_eq : found.path = second.path := List.reverse_injective reverse_eq
      exact ⟨found, reached, foundInTree, path_eq, green_eq, firstInTree.held_after_graft history
        rootMade secondInTree notAbove grafted foundInTree path_eq⟩

/-- Edits a node, and then the node found at a path of the tree that comes of it. Gives that node,
what its edits are told, and the node that comes of them. -/
def editThen (node : Red.Node) (edits : List Edit) (path : List Nat) (more : List Edit) :
    Build (Red.Node × List (Option SlotError) × Red.Node) := do
  let edited ← (node.stage.tryEdits edits).1.apply
  let found ← Build.ofMisuse (edited.treeRoot.descend path)
  let (staged, verdicts) := found.stage.tryEdits more
  let last ← staged.apply
  return (found, verdicts, last)

/-- Editing elsewhere first changes nothing about what edits of a node are told and put there. -/
theorem InTree.editThen_run (history : Green.History workspace made)
    (rootMade : .node root ∈ made) (firstInTree : InTree root first)
    (secondInTree : InTree root second) (notAbove : ¬ first.path.reverse <+: second.path.reverse)
    (notBelow : ¬ second.path.reverse <+: first.path.reverse) {onFirst onSecond : List Edit}
    (firstAvailable : ∀ edit ∈ onFirst, Green.Available made edit.value)
    (secondAvailable : ∀ edit ∈ onSecond, Green.Available made edit.value) :
    ∃ found last later serial,
      first.editThen onFirst second.path.reverse onSecond workspace =
        .ok (found, (second.stage.tryEdits onSecond).2, last) later ∧
      found.green = second.green ∧
      .node last.treeRoot.green = (second.stage.tryEdits onSecond).1.graftInto
        ((first.stage.tryEdits onFirst).1.graftInto (.node root) workspace.nextSerial) serial := by
  have firstReachable : Staged.Reachable made first (first.stage.tryEdits onFirst).1 :=
    Staged.Reachable.start.of_tryEdits firstAvailable
  obtain ⟨edited, between, more, grown, editedRun, goneOn, included, grownMade, treeRoot_eq,
    grafted⟩ := firstReachable.apply_graftInto history firstInTree rootMade
  obtain ⟨found, reached, foundInTree, path_eq, green_eq, held_eq⟩ :=
    firstInTree.exists_elsewhere history rootMade secondInTree notAbove notBelow
      firstReachable.node_eq grafted
  have foundReachable : Staged.Reachable more found (found.stage.tryEdits onSecond).1 :=
    Staged.Reachable.start.of_tryEdits fun edit present =>
      (secondAvailable edit present).mono included
  obtain ⟨last, later, _, final, lastRun, _, _, _, lastRoot_eq, regrafted⟩ :=
    foundReachable.apply_graftInto goneOn foundInTree grownMade
  have secondReachable : Staged.Reachable made second (second.stage.tryEdits onSecond).1 :=
    Staged.Reachable.start.of_tryEdits secondAvailable
  have alike : found.stage.Alike second.stage :=
    ⟨congrArg Green.Node.kind green_eq, held_eq, congrArg Green.Node.slots green_eq⟩
  obtain ⟨verdicts_eq, alikeStaged⟩ := alike.tryEdits onSecond
  refine ⟨found, last, later, between.nextSerial, ?_, green_eq, ?_⟩
  · rw [editThen, Build.bind_run_of_ok editedRun, treeRoot_eq, reached, Build.ofMisuse_ok,
      Build.bind_run_of_ok (Build.pure_run _ _)]
    simp only
    rw [Build.bind_run_of_ok lastRun, Build.pure_run, verdicts_eq]
  · rw [lastRoot_eq, ← grafted, ← Staged.graftInto_eq_of_alike alikeStaged]
    · exact regrafted
    · rw [foundReachable.node_eq, secondReachable.node_eq, green_eq]
    · rw [foundReachable.node_eq, secondReachable.node_eq, path_eq]

end Red.Node

namespace Red

/-- Edits of two nodes of which neither is above the other can be made in either order. The node
edited second is found at its old path as the very same value, its edits are told what they are told
in the tree before, and the two final trees look alike. -/
theorem independent_edits_commute {workspace : Workspace} {made : List Green.Slot}
    {root : Green.Node} {first second : Node} (history : Green.History workspace made)
    (rootMade : .node root ∈ made) (firstInTree : Node.InTree root first)
    (secondInTree : Node.InTree root second)
    (notAbove : ¬ first.path.reverse <+: second.path.reverse)
    (notBelow : ¬ second.path.reverse <+: first.path.reverse) {onFirst onSecond : List Edit}
    (firstAvailable : ∀ edit ∈ onFirst, Green.Available made edit.value)
    (secondAvailable : ∀ edit ∈ onSecond, Green.Available made edit.value) :
    ∃ secondFound secondLast secondLater firstFound firstLast firstLater,
      first.editThen onFirst second.path.reverse onSecond workspace =
        .ok (secondFound, (second.stage.tryEdits onSecond).2, secondLast) secondLater ∧
      second.editThen onSecond first.path.reverse onFirst workspace =
        .ok (firstFound, (first.stage.tryEdits onFirst).2, firstLast) firstLater ∧
      secondFound.green = second.green ∧ firstFound.green = first.green ∧
      secondLast.treeRoot.green.sameValue firstLast.treeRoot.green = true := by
  obtain ⟨secondFound, secondLast, secondLater, secondSerial, secondRun, second_eq, secondGrafted⟩ :=
    firstInTree.editThen_run history rootMade secondInTree notAbove notBelow firstAvailable
      secondAvailable
  obtain ⟨firstFound, firstLast, firstLater, firstSerial, firstRun, first_eq, firstGrafted⟩ :=
    secondInTree.editThen_run history rootMade firstInTree notBelow notAbove secondAvailable
      firstAvailable
  refine ⟨secondFound, secondLast, secondLater, firstFound, firstLast, firstLater, secondRun,
    firstRun, second_eq, first_eq, ?_⟩
  have firstNode : (first.stage.tryEdits onFirst).1.node = first :=
    (Staged.Reachable.start.of_tryEdits firstAvailable).node_eq
  have secondNode : (second.stage.tryEdits onSecond).1.node = second :=
    (Staged.Reachable.start.of_tryEdits secondAvailable).node_eq
  rw [← firstNode, ← secondNode] at notAbove notBelow
  have alike := Staged.graftInto_comm notAbove notBelow (.node root) workspace.nextSerial
    firstSerial workspace.nextSerial secondSerial
  rwa [← secondGrafted, ← firstGrafted] at alike

open Green.Sample (functionToken argumentToken history call_mem) in
theorem independent_edits_commute_of_call :
    ∃ secondFound secondLast secondLater firstFound firstLast firstLater,
      Sample.functionName.editThen [.set 0 (.token argumentToken)] [2, 0, 1]
        [.set 0 (.token functionToken)] Green.Sample.workspace =
          .ok (secondFound, [none], secondLast) secondLater ∧
      Sample.variableName.editThen [.set 0 (.token functionToken)] [0]
        [.set 0 (.token argumentToken)] Green.Sample.workspace =
          .ok (firstFound, [none], firstLast) firstLater ∧
      secondLast.treeRoot.green.sameValue firstLast.treeRoot.green = true := by
  have firstAvailable : ∀ edit ∈ [Edit.set 0 (.token argumentToken)],
      Green.Available Green.Sample.made edit.value := by
    simp [Edit.value, Green.Available, Green.Sample.made]
  have secondAvailable : ∀ edit ∈ [Edit.set 0 (.token functionToken)],
      Green.Available Green.Sample.made edit.value := by
    simp [Edit.value, Green.Available, Green.Sample.made]
  obtain ⟨secondFound, secondLast, secondLater, firstFound, firstLast, firstLater, secondRun,
    firstRun, _, _, alike⟩ := independent_edits_commute history call_mem
      Sample.functionName_inTree Sample.variableName_inTree (by decide) (by decide) firstAvailable
      secondAvailable
  exact ⟨secondFound, secondLast, secondLater, firstFound, firstLast, firstLater, secondRun,
    firstRun, alike⟩

end Red

end SyntaxTree

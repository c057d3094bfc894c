import SyntaxTree.Proofs.Place
import SyntaxTree.Edit

/-!
The spine of an edit: the edited node and its ancestors, built anew. Rebuilding goes up and finds
its way back down; main statement: together the two give the handle at the old place in a tree in
which every ancestor has the old slots but for the one on the path.
-/

namespace SyntaxTree

/-- The workspace after some stamps were handed out and some events recorded. -/
def Workspace.after (workspace : Workspace) (stamps : Nat) (events : List Event) : Workspace :=
  ⟨workspace.nextSerial + stamps, workspace.events ++ events.toArray⟩

@[simp]
theorem Workspace.after_nextSerial (workspace : Workspace) (stamps : Nat) (events : List Event) :
    (workspace.after stamps events).nextSerial = workspace.nextSerial + stamps := rfl

namespace Red.Node

/-- Whether every ancestor accepts its slots when a green node is put in place of this node. -/
def FitsAbove : Red.Node → Green.Node → Prop
  | root _, _ => True
  | child _ _ slot parent, green =>
    parent.kind.checkSlots (parent.green.slots.set slot (.node green)) = .ok () ∧
      ∀ stamp, parent.FitsAbove
        (.assemble stamp parent.kind (parent.green.slots.set slot (.node green)) [])

/-- The handle at the place of this node when a green node is there and the ancestors are built
anew, with consecutive stamps from a given serial on. -/
def regrown : Red.Node → Nat → Green.Node → Red.Node
  | root _, _, green => root green
  | child _ offset slot parent, serial, green =>
    child green offset slot <| parent.regrown (serial + 1)
      (.assemble ⟨serial⟩ parent.kind (parent.green.slots.set slot (.node green)) [])

def spineEvents : Red.Node → List Event
  | root _ => []
  | child _ _ slot parent => .rebuilt parent.kind slot :: parent.spineEvents

theorem rebuild_run (node : Red.Node) (green : Green.Node) (workspace : Workspace)
    (fits : node.FitsAbove green) :
    node.rebuild green workspace =
      .ok (node.regrown workspace.nextSerial green).treeRoot.green
        (workspace.after node.path.length node.spineEvents) := by
  induction node generalizing green workspace with
  | root old => simp [rebuild, regrown, treeRoot, Node.green, Workspace.after, path, spineEvents]
  | child old offset slot parent inductionHypothesis =>
      obtain ⟨parentFits, aboveFits⟩ := fits
      rw [rebuild, Build.bind_run_of_ok (Green.Node.create_run parentFits [] workspace),
        Build.bind_run_of_ok (Build.record_run _ _), inductionHypothesis _ _ (aboveFits _)]
      simp [regrown, treeRoot, path, spineEvents, Workspace.after, Nat.add_assoc, Nat.add_comm]

@[simp]
theorem regrown_green (node : Red.Node) (serial : Nat) (green : Green.Node) :
    (node.regrown serial green).green = green := by
  cases node <;> rfl

@[simp]
theorem regrown_offset (node : Red.Node) (serial : Nat) (green : Green.Node) :
    (node.regrown serial green).offset = node.offset := by
  cases node <;> rfl

@[simp]
theorem regrown_path (node : Red.Node) (serial : Nat) (green : Green.Node) :
    (node.regrown serial green).path = node.path := by
  induction node generalizing serial green with
  | root old => rfl
  | child old offset slot parent inductionHypothesis => simp [regrown, path, inductionHypothesis]

@[simp]
theorem regrown_regrown (node : Red.Node) (serial later : Nat) (green other : Green.Node) :
    (node.regrown serial green).regrown later other = node.regrown later other := by
  induction node generalizing serial later green other with
  | root old => rfl
  | child old offset slot parent inductionHypothesis =>
      simp [regrown, Node.kind, inductionHypothesis, Green.Node.assemble]

theorem regrown_heldElementSpec? (node : Red.Node) (serial : Nat) (green : Green.Node) :
    (node.regrown serial green).heldElementSpec? = node.heldElementSpec? := by
  cases node with
  | root old => rfl
  | child old offset slot parent =>
      simp [regrown, heldElementSpec?, Node.kind, Green.Node.assemble]

@[simp]
theorem regrown_textBefore (node : Red.Node) (serial : Nat) (green : Green.Node) :
    (node.regrown serial green).textBefore = node.textBefore := by
  induction node generalizing serial green with
  | root old => rfl
  | child old offset slot parent inductionHypothesis =>
      simp [regrown, textBefore, inductionHypothesis, Green.Node.assemble, List.take_set_of_le]

@[simp]
theorem regrown_textAfter (node : Red.Node) (serial : Nat) (green : Green.Node) :
    (node.regrown serial green).textAfter = node.textAfter := by
  induction node generalizing serial green with
  | root old => rfl
  | child old offset slot parent inductionHypothesis =>
      simp [regrown, textAfter, inductionHypothesis, Green.Node.assemble, List.drop_set_of_lt]

theorem InTree.regrown {root : Green.Node} {node : Red.Node} (inTree : InTree root node)
    (serial : Nat) (green : Green.Node) :
    InTree (node.regrown serial green).treeRoot.green (node.regrown serial green) := by
  induction node generalizing serial green with
  | root old => exact .root
  | child old offset slot parent inductionHypothesis =>
      obtain ⟨parentInTree, present, rfl⟩ := child_iff.mp inTree
      obtain ⟨inRange, _⟩ := List.getElem?_eq_some_iff.mp present
      refine child_iff.mpr ⟨inductionHypothesis parentInTree _ _, ?_, ?_⟩
      · simp [Green.Node.assemble, inRange]
      · simp [Green.Node.slotOffset, Green.Node.assemble, List.take_set_of_le]

theorem InTree.regrown_history {root green : Green.Node} {node : Red.Node} {workspace : Workspace}
    {made : List Green.Slot} (inTree : InTree root node) (rootMade : .node root ∈ made)
    (history : Green.History workspace (.node green :: made)) (fits : node.FitsAbove green)
    (events : List Event) :
    Green.History (workspace.after node.path.length events)
      ((node.regrown workspace.nextSerial green).ancestors.reverse.map (Slot.node ·.green) ++
        made) := by
  -- Each step makes the parent, so that above it there is one value more to make things of.
  induction node generalizing green workspace made with
  | root old => exact history.pass (Nat.le_refl _)
  | child old offset slot parent inductionHypothesis =>
      obtain ⟨parentFits, aboveFits⟩ := fits
      obtain ⟨parentInTree, present, _⟩ := child_iff.mp inTree
      have stillMade : .node root ∈ .node green :: made := List.mem_cons_of_mem _ rootMade
      have available : ∀ value ∈ parent.green.slots.set slot (.node green),
          Green.Available (.node green :: made) value := by
        intro value valuePresent
        rcases List.mem_or_eq_of_mem_set valuePresent with kept | rfl
        · exact history.slots_available (parentInTree.green_mem history stillMade) value kept
        · exact .inr List.mem_cons_self
      have grown := history.node available (Green.Node.create_run parentFits [] workspace)
      have above := inductionHypothesis parentInTree stillMade grown (aboveFits _)
      simpa [Red.Node.regrown, ancestors, Node.green] using above.pass (by simp [path]; omega)

/-- Going up and down again ends at the old place. -/
theorem replaceGreen_run {root : Green.Node} {node : Red.Node} (inTree : InTree root node)
    (green : Green.Node) (workspace : Workspace) (fits : node.FitsAbove green) :
    node.replaceGreen green workspace =
      .ok (node.regrown workspace.nextSerial green)
        (workspace.after node.path.length
          (node.spineEvents ++ [Event.replaced node.kind node.path.length])) := by
  have returns := (inTree.regrown workspace.nextSerial green).descend_path
  rw [regrown_path] at returns
  rw [replaceGreen, Build.bind_run_of_ok (node.rebuild_run green workspace fits),
    Build.bind_run_of_ok (Build.record_run _ _), returns]
  simp [Build.ofMisuse, Workspace.after]

/-- The handle at the place of this node when it and its ancestors are built anew, with other slots
and with consecutive stamps. -/
def withSlots (node : Node) (serial : Nat) (slots : List Green.Slot) : Node :=
  node.regrown (serial + 1) (.assemble ⟨serial⟩ node.kind slots [])

@[simp]
theorem withSlots_green (node : Node) (serial : Nat) (slots : List Green.Slot) :
    (node.withSlots serial slots).green = .assemble ⟨serial⟩ node.kind slots [] :=
  regrown_green _ _ _

@[simp]
theorem withSlots_offset (node : Node) (serial : Nat) (slots : List Green.Slot) :
    (node.withSlots serial slots).offset = node.offset :=
  regrown_offset _ _ _

@[simp]
theorem withSlots_path (node : Node) (serial : Nat) (slots : List Green.Slot) :
    (node.withSlots serial slots).path = node.path :=
  regrown_path _ _ _

@[simp]
theorem withSlots_withSlots (node : Node) (serial later : Nat) (slots more : List Green.Slot) :
    (node.withSlots serial slots).withSlots later more = node.withSlots later more := by
  simp [withSlots, Node.kind, Green.Node.assemble]

theorem slot?_withSlots_set {node : Node} {index : Nat} {old : Green.Slot} (serial : Nat)
    (value : Green.Slot) (present : node.green.slots[index]? = some old) :
    (node.withSlots serial (node.green.slots.set index value)).slot? index =
      some (view (node.withSlots serial (node.green.slots.set index value)) index
        (node.offset + node.green.slotOffset index) value) := by
  obtain ⟨inRange, _⟩ := List.getElem?_eq_some_iff.mp present
  simp [slot?, Green.Node.slot?, Green.Node.slotOffset, Green.Node.assemble, inRange,
    List.take_set_of_le]

end Red.Node

namespace Red.Token

def FitsAbove : Token → Green.Token → Prop
  | detached _, _ => True
  | held _ _ slot parent, green =>
    parent.kind.checkSlots (parent.green.slots.set slot (.token green)) = .ok () ∧
      ∀ stamp, parent.FitsAbove
        (.assemble stamp parent.kind (parent.green.slots.set slot (.token green)) [])

def regrown : Token → Nat → Green.Token → Token
  | detached _, _, green => detached green
  | held _ offset slot parent, serial, green =>
    held green offset slot (parent.withSlots serial (parent.green.slots.set slot (.token green)))

@[simp]
theorem regrown_green (token : Token) (serial : Nat) (green : Green.Token) :
    (token.regrown serial green).green = green := by
  cases token <;> rfl

@[simp]
theorem regrown_path (token : Token) (serial : Nat) (green : Green.Token) :
    (token.regrown serial green).path = token.path := by
  cases token <;> simp [regrown, path]

@[simp]
theorem regrown_textBefore (token : Token) (serial : Nat) (green : Green.Token) :
    (token.regrown serial green).textBefore = token.textBefore := by
  cases token <;>
    simp [regrown, textBefore, Node.withSlots, Green.Node.assemble, List.take_set_of_le]

@[simp]
theorem regrown_textAfter (token : Token) (serial : Nat) (green : Green.Token) :
    (token.regrown serial green).textAfter = token.textAfter := by
  cases token <;>
    simp [regrown, textAfter, Node.withSlots, Green.Node.assemble, List.drop_set_of_lt]

theorem InTree.regrown {root : Green.Node} {token : Token} (inTree : InTree root token)
    (serial : Nat) (green : Green.Token) :
    ∃ grown, (token.regrown serial green).treeRoot? = some (.root grown) ∧
      InTree grown (token.regrown serial green) := by
  cases token with
  | detached old => exact absurd inTree detached_iff
  | held old offset slot parent =>
      obtain ⟨parentInTree, present, offset_eq⟩ := held_iff.mp inTree
      have grown := parentInTree.regrown (serial + 1) (.assemble ⟨serial⟩ parent.kind
        (parent.green.slots.set slot (.token green)) [])
      refine ⟨(parent.withSlots serial
        (parent.green.slots.set slot (.token green))).treeRoot.green, ?_, ?_⟩
      · exact congrArg some (grown.treeRoot_eq)
      · refine ⟨_, slot, grown, ?_⟩
        have found := Node.slot?_withSlots_set serial (.token green) present
        rwa [← offset_eq] at found

end Red.Token

end SyntaxTree

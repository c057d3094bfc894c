import SyntaxTree.Proofs.History
import SyntaxTree.Red

/-!
Handles as places in a tree. A handle is in a tree when it is the root or what a handle in the tree
gives for one of its slots. Main statements: the slot indexes above a handle lead back to it from
the root, and the text of the tree is that before the handle, its own, and that behind it.
-/

namespace SyntaxTree.Red

theorem viewAll_getElem? (holder : Node) (first offset index : Nat) (slots : List Green.Slot) :
    (viewAll holder first offset slots)[index]? =
      (slots[index]?).map
        (view holder (first + index) (offset + Green.Slot.totalWidth (slots.take index))) := by
  induction slots generalizing first offset index with
  | nil => simp [viewAll]
  | cons slot rest inductionHypothesis =>
      cases index with
      | zero => simp [viewAll, Green.Slot.totalWidth]
      | succ index =>
          simp [viewAll, inductionHypothesis, Green.Slot.totalWidth, Nat.add_assoc, Nat.add_comm 1]

@[simp]
theorem Slot.green_view (holder : Node) (index offset : Nat) (slot : Green.Slot) :
    Slot.green (view holder index offset slot) = slot := by
  cases slot <;> rfl

theorem map_green_viewAll (holder : Node) (index offset : Nat) (slots : List Green.Slot) :
    (viewAll holder index offset slots).map Slot.green = slots := by
  induction slots generalizing index offset with
  | nil => rfl
  | cons slot rest inductionHypothesis => simp [viewAll, inductionHypothesis]

namespace Node

/-- Handles see the slots of the green node, in order. -/
theorem map_green_slots (node : Node) : node.slots.map Slot.green = node.green.slots :=
  map_green_viewAll node 0 node.offset node.green.slots

theorem length_slots (node : Node) : node.slots.length = node.slotCount := by
  rw [slotCount, ← node.map_green_slots, List.length_map]

theorem slots_getElem? (node : Node) (index : Nat) : node.slots[index]? = node.slot? index := by
  rw [slots, viewAll_getElem?, Nat.zero_add]
  rfl

theorem green_mem_slots {node : Node} {slot : Slot} (present : slot ∈ node.slots) :
    slot.green ∈ node.green.slots :=
  node.map_green_slots ▸ List.mem_map_of_mem present

theorem slots_getElem?_of_slot? {node : Node} {index : Nat} {slot : Slot}
    (shown : node.slot? index = some slot) : node.green.slots[index]? = some slot.green := by
  obtain ⟨green, found, rfl⟩ := Option.map_eq_some_iff.mp shown
  rw [Slot.green_view]
  exact found

/-- The slots of a node, seen from one of them. -/
theorem slots_split {node : Node} {index : Nat} {slot : Slot} (shown : node.slot? index = some slot) :
    node.slots = node.slots.take index ++ slot :: node.slots.drop (index + 1) := by
  rw [← slots_getElem?] at shown
  obtain ⟨inRange, found⟩ := List.getElem?_eq_some_iff.mp shown
  rw [← found, List.getElem_cons_drop inRange, List.take_append_drop]

/-- The handles that can be reached from a root by asking for slots. -/
inductive InTree (root : Green.Node) : Node → Prop
  | root : InTree root (.root root)
  | child {parent node : Node} {index : Nat} :
      InTree root parent → parent.slot? index = some (.node node) → InTree root node

theorem slot?_eq_node_iff {parent node : Node} {index : Nat} :
    parent.slot? index = some (.node node) ↔
      ∃ green, parent.green.slots[index]? = some (.node green) ∧
        node = .child green (parent.offset + parent.green.slotOffset index) index parent := by
  simp only [slot?, Green.Node.slot?, Option.map_eq_some_iff]
  constructor
  · rintro ⟨slot, found, seen⟩
    cases slot with
    | node green =>
        cases seen
        exact ⟨green, found, rfl⟩
    | token green => cases seen
    | absent => cases seen
  · rintro ⟨green, found, rfl⟩
    exact ⟨.node green, found, rfl⟩

theorem slot?_eq_token_iff {parent : Node} {token : Token} {index : Nat} :
    parent.slot? index = some (.token token) ↔
      ∃ green, parent.green.slots[index]? = some (.token green) ∧
        token = .held green (parent.offset + parent.green.slotOffset index) index parent := by
  simp only [slot?, Green.Node.slot?, Option.map_eq_some_iff]
  constructor
  · rintro ⟨slot, found, seen⟩
    cases slot with
    | node green => cases seen
    | token green =>
        cases seen
        exact ⟨green, found, rfl⟩
    | absent => cases seen
  · rintro ⟨green, found, rfl⟩
    exact ⟨.token green, found, rfl⟩

theorem sizeOf_child_lt {node child : Node} {index : Nat}
    (present : node.slot? index = some (.node child)) :
    sizeOf child.green < sizeOf node.green := by
  obtain ⟨green, found, rfl⟩ := slot?_eq_node_iff.mp present
  have inSlots := List.sizeOf_lt_of_mem (List.mem_of_getElem? found)
  have slotsInNode : sizeOf node.green.slots < sizeOf node.green := by
    cases node.green
    simp only [Green.Node.mk.sizeOf_spec]
    omega
  rw [SyntaxTree.Slot.node.sizeOf_spec] at inSlots
  change sizeOf green < sizeOf node.green
  omega

theorem mem_slots_iff {node : Node} {slot : Slot} :
    slot ∈ node.slots ↔ ∃ index, node.slot? index = some slot := by
  simp only [List.mem_iff_getElem?, slots_getElem?]

/-- What holds of a node whenever it holds of its child nodes holds of all nodes. -/
theorem below_induction {motive : Node → Prop}
    (step : ∀ node : Node, (∀ {below}, .node below ∈ node.slots → motive below) → motive node)
    (node : Node) : motive node :=
  step node fun present =>
    have := sizeOf_child_lt (mem_slots_iff.mp present).choose_spec
    below_induction step _
termination_by sizeOf node.green

namespace InTree

variable {root : Green.Node}

theorem root_iff {green : Green.Node} : InTree root (.root green) ↔ green = root := by
  constructor
  · intro inTree
    cases inTree with
    | root => rfl
    | child _ found =>
        obtain ⟨_, _, same⟩ := slot?_eq_node_iff.mp found
        cases same
  · rintro rfl
    exact .root

theorem child_iff {green : Green.Node} {offset slot : Nat} {parent : Node} :
    InTree root (.child green offset slot parent) ↔
      InTree root parent ∧ parent.green.slots[slot]? = some (.node green) ∧
        offset = parent.offset + parent.green.slotOffset slot := by
  constructor
  · intro inTree
    cases inTree with
    | child parentInTree found =>
        obtain ⟨_, present, same⟩ := slot?_eq_node_iff.mp found
        cases same
        exact ⟨parentInTree, present, rfl⟩
  · rintro ⟨parentInTree, present, rfl⟩
    exact .child parentInTree (slot?_eq_node_iff.mpr ⟨green, present, rfl⟩)

theorem parent {node parent : Node} (inTree : InTree root node)
    (above : node.parent? = some parent) :
    InTree root parent ∧ ∃ slot, node.path = slot :: parent.path := by
  cases node with
  | root green => cases above
  | child green offset slot holder =>
      cases above
      exact ⟨(child_iff.mp inTree).1, slot, rfl⟩

theorem treeRoot_eq {node : Node} (inTree : InTree root node) : node.treeRoot = .root root := by
  induction node with
  | root green =>
      rw [root_iff.mp inTree]
      rfl
  | child green offset slot parent inductionHypothesis =>
      exact inductionHypothesis (child_iff.mp inTree).1

theorem green_mem {workspace : Workspace} {made : List Green.Slot} {node : Node}
    (inTree : InTree root node) (history : Green.History workspace made)
    (rootMade : .node root ∈ made) : .node node.green ∈ made := by
  induction node with
  | root green => rwa [← root_iff.mp inTree] at rootMade
  | child green offset slot parent inductionHypothesis =>
      obtain ⟨parentInTree, present, _⟩ := child_iff.mp inTree
      have available := history.slots_available (inductionHypothesis parentInTree) _
        (List.mem_of_getElem? present)
      rcases available with absent | greenMade
      · cases absent
      · exact greenMade

end InTree

theorem requireNode_eq_ok_iff {parent node : Node} {index : Nat} {expectation : String} :
    parent.requireNode index expectation = .ok node ↔ parent.slot? index = some (.node node) := by
  rw [← slot_eq_ok_iff]
  unfold requireNode
  cases parent.slot index with
  | error cause => simp [bind, Except.bind]
  | ok slot => cases slot <;> simp [bind, Except.bind, pure, Except.pure, throw, throwThe,
      MonadExceptOf.throw]

theorem requireToken_eq_ok_iff {parent : Node} {token : Token} {index : Nat}
    {expectation : String} :
    parent.requireToken index expectation = .ok token ↔
      parent.slot? index = some (.token token) := by
  rw [← slot_eq_ok_iff]
  unfold requireToken
  cases parent.slot index with
  | error cause => simp [bind, Except.bind]
  | ok slot => cases slot <;> simp [bind, Except.bind, pure, Except.pure, throw, throwThe,
      MonadExceptOf.throw]

theorem descend_append (node : Node) (front back : List Nat) :
    node.descend (front ++ back) =
      (node.descend front).bind fun reached => reached.descend back := by
  induction front generalizing node with
  | nil => rfl
  | cons index rest inductionHypothesis =>
      cases found : node.requireNode index "spine slot holds a node" with
      | ok next => simp [descend, found, bind, Except.bind, inductionHypothesis]
      | error cause => simp [descend, found, bind, Except.bind]

/-- The slot indexes above a handle lead back to it. -/
theorem InTree.descend_path {root : Green.Node} {node : Node} (inTree : InTree root node) :
    (Node.root root).descend node.path.reverse = .ok node := by
  induction node with
  | root green =>
      rw [InTree.root_iff.mp inTree]
      rfl
  | child green offset slot parent inductionHypothesis =>
      obtain ⟨parentInTree, present, rfl⟩ := InTree.child_iff.mp inTree
      rw [path, List.reverse_cons, descend_append, inductionHypothesis parentInTree]
      have found := slot?_eq_node_iff.mpr ⟨green, present, rfl⟩
      simp [Except.bind, descend, requireNode_eq_ok_iff.mpr found, bind]

theorem treeRoot_mem_ancestors (node : Node) : node.treeRoot ∈ node.ancestors := by
  induction node with
  | root green => exact List.mem_cons_self
  | child green offset slot parent inductionHypothesis =>
      exact List.mem_cons_of_mem _ inductionHypothesis

theorem InTree.of_mem_ancestors {root : Green.Node} {node place : Node} (inTree : InTree root node)
    (above : place ∈ node.ancestors) :
    InTree root place ∧ ∃ rest, node.path.reverse = place.path.reverse ++ rest := by
  induction node with
  | root green =>
      obtain rfl := List.mem_singleton.mp above
      exact ⟨inTree, [], by simp⟩
  | child green offset slot parent inductionHypothesis =>
      rcases List.mem_cons.mp above with rfl | higher
      · exact ⟨inTree, [], by simp⟩
      · obtain ⟨placeInTree, rest, split⟩ :=
          inductionHypothesis (InTree.child_iff.mp inTree).1 higher
        exact ⟨placeInTree, rest ++ [slot], by simp [path, split]⟩

def textBefore : Node → String
  | root _ => ""
  | child _ _ slot parent =>
    parent.textBefore ++ Green.textOfSlots (parent.green.slots.take slot)

def textAfter : Node → String
  | root _ => ""
  | child _ _ slot parent =>
    Green.textOfSlots (parent.green.slots.drop (slot + 1)) ++ parent.textAfter

namespace InTree

variable {root : Green.Node} {node : Node}

/-- The text of the tree, seen from a node. -/
theorem text_eq (inTree : InTree root node) :
    root.text = node.textBefore ++ node.text ++ node.textAfter := by
  induction node with
  | root green => simp [root_iff.mp inTree, textBefore, textAfter, text, Node.green]
  | child green offset slot parent inductionHypothesis =>
      obtain ⟨parentInTree, present, _⟩ := child_iff.mp inTree
      have split := Green.textOfSlots_split present
      rw [inductionHypothesis parentInTree, text, Green.Node.text_eq parent.green, split,
        textBefore, textAfter, text, Node.green, Green.textOfSlot_node]
      simp only [String.append_assoc]

/-- A node starts where the text before it ends. -/
theorem offset_eq_size {workspace : Workspace} {made : List Green.Slot} (inTree : InTree root node)
    (history : Green.History workspace made) (rootMade : .node root ∈ made) :
    node.offset = node.textBefore.utf8ByteSize := by
  induction node with
  | root green => rfl
  | child green offset slot parent inductionHypothesis =>
      obtain ⟨parentInTree, _, rfl⟩ := child_iff.mp inTree
      have available := history.slots_available (parentInTree.green_mem history rootMade)
      rw [textBefore, String.utf8ByteSize_append, ← inductionHypothesis parentInTree, Node.offset,
        Green.Node.slotOffset]
      refine congrArg (parent.offset + ·) (Green.totalWidth_eq_size ?_)
      intro value present
      exact history.width_eq_size (available value (List.mem_of_mem_take present))

theorem width_eq_size {workspace : Workspace} {made : List Green.Slot} (inTree : InTree root node)
    (history : Green.History workspace made) (rootMade : .node root ∈ made) :
    node.width = node.text.utf8ByteSize :=
  history.width_eq_size (.inr (inTree.green_mem history rootMade))

end InTree

end Node

namespace Token

variable {root : Green.Node}

/-- The tokens that nodes of a tree give for their slots. -/
def InTree (root : Green.Node) (token : Token) : Prop :=
  ∃ parent index, Node.InTree root parent ∧ parent.slot? index = some (.token token)

theorem InTree.held_iff {green : Green.Token} {offset slot : Nat} {parent : Node} :
    InTree root (.held green offset slot parent) ↔
      Node.InTree root parent ∧ parent.green.slots[slot]? = some (.token green) ∧
        offset = parent.offset + parent.green.slotOffset slot := by
  constructor
  · rintro ⟨_, _, parentInTree, found⟩
    obtain ⟨_, present, same⟩ := Node.slot?_eq_token_iff.mp found
    cases same
    exact ⟨parentInTree, present, rfl⟩
  · rintro ⟨parentInTree, present, rfl⟩
    exact ⟨parent, slot, parentInTree, Node.slot?_eq_token_iff.mpr ⟨green, present, rfl⟩⟩

theorem InTree.detached_iff {green : Green.Token} : ¬ InTree root (.detached green) := by
  rintro ⟨_, _, _, found⟩
  obtain ⟨_, _, same⟩ := Node.slot?_eq_token_iff.mp found
  cases same

def path : Token → List Nat
  | detached _ => []
  | held _ _ slot parent => slot :: parent.path

def treeRoot? (token : Token) : Option Node := token.parent?.map (·.treeRoot)

def textBefore : Token → String
  | detached _ => ""
  | held _ _ slot parent =>
    parent.textBefore ++ Green.textOfSlots (parent.green.slots.take slot)

def textAfter : Token → String
  | detached _ => ""
  | held _ _ slot parent =>
    Green.textOfSlots (parent.green.slots.drop (slot + 1)) ++ parent.textAfter

namespace InTree

variable {workspace : Workspace} {made : List Green.Slot} {token : Token}

theorem green_mem (inTree : InTree root token) (history : Green.History workspace made)
    (rootMade : .node root ∈ made) : .token token.green ∈ made := by
  obtain ⟨parent, index, parentInTree, found⟩ := inTree
  obtain ⟨_, present, rfl⟩ := Node.slot?_eq_token_iff.mp found
  have available := history.slots_available (parentInTree.green_mem history rootMade) _
    (List.mem_of_getElem? present)
  rcases available with absent | greenMade
  · cases absent
  · exact greenMade

theorem treeRoot?_eq (inTree : InTree root token) : token.treeRoot? = some (.root root) := by
  obtain ⟨parent, index, parentInTree, found⟩ := inTree
  obtain ⟨_, _, rfl⟩ := Node.slot?_eq_token_iff.mp found
  exact congrArg some parentInTree.treeRoot_eq

theorem text_eq (inTree : InTree root token) :
    root.text = token.textBefore ++ token.text ++ token.textAfter := by
  cases token with
  | detached old => exact absurd inTree detached_iff
  | held old offset slot parent =>
      obtain ⟨parentInTree, present, _⟩ := held_iff.mp inTree
      rw [parentInTree.text_eq, Node.text, Green.Node.text_eq, Green.textOfSlots_split present,
        textBefore, textAfter, Green.textOfSlot_token, Token.text, Token.green]
      simp only [String.append_assoc]

theorem offset_eq_size (inTree : InTree root token) (history : Green.History workspace made)
    (rootMade : .node root ∈ made) : token.offset = token.textBefore.utf8ByteSize := by
  cases token with
  | detached old => rfl
  | held old offset slot parent =>
      obtain ⟨parentInTree, _, rfl⟩ := held_iff.mp inTree
      have available := history.slots_available (parentInTree.green_mem history rootMade)
      rw [textBefore, String.utf8ByteSize_append, ← parentInTree.offset_eq_size history rootMade,
        Token.offset, Green.Node.slotOffset]
      refine congrArg (parent.offset + ·) (Green.totalWidth_eq_size ?_)
      intro value valuePresent
      exact history.width_eq_size (available value (List.mem_of_mem_take valuePresent))

end InTree

end Token

/-! Handles in the call `f(a)`. -/

namespace Sample

open Green.Sample (call)

def functionName : Node := .child Green.Sample.functionName 0 0 (.root call)

def arguments : Node := .child Green.Sample.arguments 2 2 (.root call)

def argument : Node := .child Green.Sample.argument 2 0 arguments

def variableName : Node := .child Green.Sample.variableName 2 1 argument

def argumentToken : Token := .held Green.Sample.argumentToken 2 0 variableName

theorem functionName_inTree : Node.InTree call functionName :=
  Node.InTree.root.child (show (Node.root call).slot? 0 = some (.node functionName) from rfl)

theorem arguments_inTree : Node.InTree call arguments :=
  Node.InTree.root.child (show (Node.root call).slot? 2 = some (.node arguments) from rfl)

theorem argument_inTree : Node.InTree call argument :=
  arguments_inTree.child (show arguments.slot? 0 = some (.node argument) from rfl)

theorem variableName_inTree : Node.InTree call variableName :=
  argument_inTree.child (show argument.slot? 1 = some (.node variableName) from rfl)

theorem argumentToken_inTree : Token.InTree call argumentToken :=
  ⟨variableName, 0, variableName_inTree, rfl⟩

end Sample

end SyntaxTree.Red

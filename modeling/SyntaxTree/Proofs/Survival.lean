import SyntaxTree.Proofs.Continuation
import SyntaxTree.Proofs.Diagnostics
import SyntaxTree.Proofs.Relocation

/-!
Which diagnostics survive an edit. The path to a slot forks off subtrees on its left and on its
right; with the nodes on the path and the slot itself they make up the tree. Main statement:
replacing the slot takes away what the nodes on the path carry themselves and what the old slot did,
keeps the diagnostics on the left in place, and moves those on the right.
-/

namespace SyntaxTree

/-- The same diagnostic further on, or further back if the distance is negative. -/
structure Diagnostic.Moved (distance : Int) (before after : Diagnostic) : Prop where
  severity_eq : after.severity = before.severity
  code_eq : after.code = before.code
  message_eq : after.message = before.message
  start_eq : (after.range.start : Int) = before.range.start + distance
  stop_eq : (after.range.stop : Int) = before.range.stop + distance

theorem Diagnostic.Moved.unique {distance : Int} {before first second : Diagnostic}
    (firstMoved : Moved distance before first) (secondMoved : Moved distance before second) :
    first = second := by
  obtain ⟨severity, code, message, ⟨start, stop⟩⟩ := first
  obtain ⟨_, _, _, ⟨_, _⟩⟩ := second
  obtain ⟨rfl, rfl, rfl, firstStart, firstStop⟩ := firstMoved
  obtain ⟨rfl, rfl, rfl, secondStart, secondStop⟩ := secondMoved
  simp only [mk.injEq, TextRange.mk.injEq, true_and] at firstStart firstStop secondStart secondStop ⊢
  omega

theorem Diagnostic.moved_shift (diagnostic : Diagnostic) (distance : Nat) :
    Moved distance diagnostic (diagnostic.shift distance) :=
  ⟨rfl, rfl, rfl, rfl, rfl⟩

theorem Remark.moved_locate (remark : Remark) {distance : Int} {before after : TextRange}
    (start_eq : (after.start : Int) = before.start + distance)
    (stop_eq : (after.stop : Int) = before.stop + distance) :
    Diagnostic.Moved distance (remark.locate before) (remark.locate after) :=
  ⟨rfl, rfl, rfl, start_eq, stop_eq⟩

namespace Green

theorem forall₂_locate (remarks : List Remark) {distance : Int} {before after : TextRange}
    (start_eq : (after.start : Int) = before.start + distance)
    (stop_eq : (after.stop : Int) = before.stop + distance) :
    List.Forall₂ (Diagnostic.Moved distance) (remarks.map (·.locate before))
      (remarks.map (·.locate after)) := by
  rw [List.forall₂_map_left_iff, List.forall₂_map_right_iff, List.forall₂_same]
  exact fun remark _ => remark.moved_locate start_eq stop_eq

theorem moved_slotsDiagnosticsFrom {slots : List Slot} {distance : Int} {start later : Nat}
    (each : ∀ slot ∈ slots, ∀ start later : Nat, (later : Int) = start + distance →
      List.Forall₂ (Diagnostic.Moved distance) (slotDiagnosticsFrom slot start)
        (slotDiagnosticsFrom slot later))
    (later_eq : (later : Int) = start + distance) :
    List.Forall₂ (Diagnostic.Moved distance) (slotsDiagnosticsFrom slots start)
      (slotsDiagnosticsFrom slots later) := by
  induction slots generalizing start later with
  | nil => exact .nil
  | cons slot rest inductionHypothesis =>
      rw [List.forall_mem_cons] at each
      refine List.rel_append (each.1 start later later_eq) (inductionHypothesis each.2 ?_)
      omega

/-- What a value carries moves with the place where it starts. -/
theorem History.moved_diagnosticsFrom {workspace : Workspace} {made : List Slot}
    (history : History workspace made) {value : Slot} (available : Available made value)
    {distance : Int} {start later : Nat} (later_eq : (later : Int) = start + distance) :
    List.Forall₂ (Diagnostic.Moved distance) (slotDiagnosticsFrom value start)
      (slotDiagnosticsFrom value later) := by
  refine history.induction_on (motive := fun value => ∀ start later : Nat,
    (later : Int) = start + distance →
      List.Forall₂ (Diagnostic.Moved distance) (slotDiagnosticsFrom value start)
        (slotDiagnosticsFrom value later)) ?_ ?_ ?_ available start later later_eq
  · exact fun _ _ _ => .nil
  · intro call token earlier after called start later later_eq
    have trivia := TokenCall.trivia_le_width called
    refine forall₂_locate token.remarks ?_ ?_ <;> simp only <;> omega
  · intro stamp kind slots remarks _ each start later later_eq
    rw [slotDiagnosticsFrom, Node.diagnosticsFrom_eq, Node.diagnosticsFrom_eq]
    refine List.rel_append (forall₂_locate _ later_eq ?_) (moved_slotsDiagnosticsFrom each later_eq)
    simp only [TextRange.spanning]
    omega

end Green

namespace Red

theorem viewAll_take (holder : Node) (index offset count : Nat) (slots : List Green.Slot) :
    (viewAll holder index offset slots).take count =
      viewAll holder index offset (slots.take count) := by
  induction slots generalizing index offset count with
  | nil => simp [viewAll]
  | cons slot rest inductionHypothesis => cases count <;> simp [viewAll, inductionHypothesis]

theorem viewAll_drop (holder : Node) (index offset count : Nat) (slots : List Green.Slot) :
    (viewAll holder index offset slots).drop count =
      viewAll holder (index + count) (offset + Green.Slot.totalWidth (slots.take count))
        (slots.drop count) := by
  induction slots generalizing index offset count with
  | nil => simp [viewAll]
  | cons slot rest inductionHypothesis =>
      cases count with
      | zero => simp [viewAll, Green.Slot.totalWidth]
      | succ count =>
          simp [viewAll, inductionHypothesis, Green.Slot.totalWidth, Nat.add_assoc, Nat.add_comm 1]

/-- A node on the path to a slot, with its slots on either side of the path. -/
structure Fork where
  node : Node
  left : List Slot
  right : List Slot

namespace Fork

def leftDiagnostics (fork : Fork) : List Diagnostic := fork.left.flatMap Slot.diagnostics

def rightDiagnostics (fork : Fork) : List Diagnostic := fork.right.flatMap Slot.diagnostics

end Fork

namespace Node

def forkAt (node : Node) (index : Nat) : Fork :=
  ⟨node, node.slots.take index, node.slots.drop (index + 1)⟩

/-- The nodes on the path to a slot of a node, innermost first. -/
def forks : Node → Nat → List Fork
  | root green, index => [(root green).forkAt index]
  | child green offset slot parent, index =>
    (child green offset slot parent).forkAt index :: parent.forks slot

/-- The nodes on the path to a slot are the holder of the slot and its ancestors. -/
theorem map_node_forks (node : Node) (index : Nat) :
    (node.forks index).map (·.node) = node.ancestors := by
  induction node generalizing index with
  | root green => rfl
  | child green offset slot parent inductionHypothesis =>
      rw [forks, List.map_cons, inductionHypothesis, ancestors]
      rfl

variable {root : Green.Node} {workspace : Workspace} {made : List Green.Slot} {node : Node}

theorem InTree.diagnostics_of_subset (history : Green.History workspace made)
    (rootMade : .node root ∈ made) (inTree : InTree root node) {index offset : Nat}
    {slots : List Green.Slot} (shown : viewAll node index offset slots ⊆ node.slots) :
    (viewAll node index offset slots).flatMap Slot.diagnostics =
      Green.slotsDiagnosticsFrom slots offset := by
  refine diagnostics_viewAll rfl (fun _ => rfl) fun present => ?_
  obtain ⟨index, found⟩ := mem_slots_iff.mp (shown present)
  exact (inTree.child found).diagnostics_eq history rootMade

theorem InTree.leftDiagnostics_forkAt (history : Green.History workspace made)
    (rootMade : .node root ∈ made) (inTree : InTree root node) (index : Nat) :
    (node.forkAt index).leftDiagnostics =
      Green.slotsDiagnosticsFrom (node.green.slots.take index) node.offset := by
  have shown : (viewAll node 0 node.offset (node.green.slots.take index)) ⊆ node.slots := by
    rw [← viewAll_take]
    exact List.take_subset _ _
  rw [← inTree.diagnostics_of_subset history rootMade shown, ← viewAll_take]
  rfl

theorem InTree.rightDiagnostics_forkAt (history : Green.History workspace made)
    (rootMade : .node root ∈ made) (inTree : InTree root node) (index : Nat) :
    (node.forkAt index).rightDiagnostics =
      Green.slotsDiagnosticsFrom (node.green.slots.drop (index + 1))
        (node.offset + node.green.slotOffset (index + 1)) := by
  have shown : viewAll node (0 + (index + 1)) (node.offset + node.green.slotOffset (index + 1))
      (node.green.slots.drop (index + 1)) ⊆ node.slots := by
    rw [Green.Node.slotOffset, ← viewAll_drop]
    exact List.drop_subset _ _
  rw [← inTree.diagnostics_of_subset history rootMade shown, Green.Node.slotOffset, ← viewAll_drop]
  rfl

/-- The diagnostics of a node, seen from one of its slots. -/
theorem InTree.diagnostics_forkAt (history : Green.History workspace made)
    (rootMade : .node root ∈ made) (inTree : InTree root node) {index : Nat} {slot : Slot}
    (shown : node.slot? index = some slot) :
    node.diagnostics = node.ownDiagnostics ++ (node.forkAt index).leftDiagnostics ++
      slot.diagnostics ++ (node.forkAt index).rightDiagnostics := by
  rw [inTree.diagnostics_eq_append history rootMade, slots_split shown, List.flatMap_append,
    List.flatMap_cons]
  simp only [List.append_assoc]
  rfl

/-- The diagnostics of a tree, seen from a slot. -/
theorem InTree.diagnostics_forks (history : Green.History workspace made)
    (rootMade : .node root ∈ made) (inTree : InTree root node) {index : Nat} {slot : Slot}
    (shown : node.slot? index = some slot) :
    (Node.root root).diagnostics =
      (node.forks index).reverse.flatMap
          (fun fork => fork.node.ownDiagnostics ++ fork.leftDiagnostics) ++
        slot.diagnostics ++ (node.forks index).flatMap Fork.rightDiagnostics := by
  have innermost := inTree.diagnostics_forkAt history rootMade shown
  induction node generalizing index slot with
  | root green =>
      rw [InTree.root_iff.mp inTree] at innermost ⊢
      rw [innermost]
      simp [forks, forkAt]
  | child green offset position parent inductionHypothesis =>
      obtain ⟨parentInTree, present, rfl⟩ := InTree.child_iff.mp inTree
      have found : parent.slot? position = some (.node _) :=
        slot?_eq_node_iff.mpr ⟨green, present, rfl⟩
      have outer := inductionHypothesis parentInTree found
        (parentInTree.diagnostics_forkAt history rootMade found)
      rw [outer, Slot.diagnostics, innermost]
      simp [forks, forkAt]

end Node

/-- What becomes of a node on the path to a slot: nothing is left of its own diagnostics, those on
its left stay, and those on its right move. -/
structure Fork.Bared (distance : Int) (before after : Fork) : Prop where
  own_eq : after.node.ownDiagnostics = []
  left_eq : after.leftDiagnostics = before.leftDiagnostics
  right_moved :
    List.Forall₂ (Diagnostic.Moved distance) before.rightDiagnostics after.rightDiagnostics

theorem Fork.Bared.left_diagnostics {distance : Int} {before after : List Fork}
    (bared : List.Forall₂ (Fork.Bared distance) before after) :
    after.reverse.flatMap (fun fork => fork.node.ownDiagnostics ++ fork.leftDiagnostics) =
      before.reverse.flatMap Fork.leftDiagnostics := by
  induction bared with
  | nil => rfl
  | cons innermost _ inductionHypothesis =>
      simp only [List.reverse_cons, List.flatMap_append, List.flatMap_singleton,
        inductionHypothesis, innermost.own_eq, innermost.left_eq, List.nil_append]

namespace Node

variable {root grown : Green.Node} {workspace later : Workspace} {made more : List Green.Slot}
  {node : Node}

theorem InTree.bared_forkAt (history : Green.History workspace made) (rootMade : .node root ∈ made)
    (inTree : InTree root node) {index : Nat} {old value : Green.Slot}
    (present : node.green.slots[index]? = some old) (grownHistory : Green.History later more)
    (grownMade : .node grown ∈ more) {serial : Nat}
    (grownIn : InTree grown (node.withSlots serial (node.green.slots.set index value))) :
    Fork.Bared (value.width - old.width) (node.forkAt index)
      ((node.withSlots serial (node.green.slots.set index value)).forkAt index) := by
  have wider := Green.Slot.totalWidth_take_set present (Nat.lt_add_one index) value
  refine ⟨?_, ?_, ?_⟩
  · rw [forkAt, ownDiagnostics, withSlots_green]
    rfl
  · rw [grownIn.leftDiagnostics_forkAt grownHistory grownMade,
      inTree.leftDiagnostics_forkAt history rootMade, withSlots_green, withSlots_offset]
    simp [Green.Node.assemble, List.take_set_of_le]
  · rw [grownIn.rightDiagnostics_forkAt grownHistory grownMade,
      inTree.rightDiagnostics_forkAt history rootMade, withSlots_green, withSlots_offset]
    have kept : (node.green.slots.set index value).drop (index + 1) =
        node.green.slots.drop (index + 1) := List.drop_set_of_lt (Nat.lt_add_one index)
    simp only [Green.Node.assemble, Green.Node.slotOffset, kept]
    refine Green.moved_slotsDiagnosticsFrom ?_ (by omega)
    intro slot slotPresent start later later_eq
    have available := history.slots_available (inTree.green_mem history rootMade) slot
      (List.mem_of_mem_drop slotPresent)
    exact history.moved_diagnosticsFrom available later_eq

/-- Every node on the path to a replaced slot is bared. -/
theorem InTree.bared_forks (history : Green.History workspace made) (rootMade : .node root ∈ made)
    (inTree : InTree root node) {index : Nat} {old value : Green.Slot}
    (present : node.green.slots[index]? = some old) (grownHistory : Green.History later more)
    (grownMade : .node grown ∈ more) {serial : Nat}
    (grownIn : InTree grown (node.withSlots serial (node.green.slots.set index value))) :
    List.Forall₂ (Fork.Bared (value.width - old.width)) (node.forks index)
      ((node.withSlots serial (node.green.slots.set index value)).forks index) := by
  have innermost := inTree.bared_forkAt history rootMade present grownHistory grownMade grownIn
  induction node generalizing index old value serial with
  | root green => exact .cons innermost .nil
  | child green offset position parent inductionHypothesis =>
      obtain ⟨parentInTree, parentPresent, _⟩ := InTree.child_iff.mp inTree
      obtain ⟨parentGrown, _, _⟩ := InTree.child_iff.mp grownIn
      have parentBared :=
        parentInTree.bared_forkAt history rootMade parentPresent grownHistory grownMade parentGrown
      have outer := inductionHypothesis parentInTree parentPresent parentGrown parentBared
      have total := Green.Slot.totalWidth_set present value
      have width_eq := history.width_eq_totalWidth (inTree.green_mem history rootMade)
      change green.width = Green.Slot.totalWidth green.slots at width_eq
      have distance_eq : ((Green.Slot.totalWidth (green.slots.set index value) : Nat) : Int) -
          green.width = value.width - old.width := by
        change Green.Slot.totalWidth (green.slots.set index value) + old.width =
          Green.Slot.totalWidth green.slots + value.width at total
        omega
      refine .cons innermost ?_
      rw [← distance_eq]
      exact outer

end Node

variable {root : Green.Node} {workspace : Workspace} {made : List Green.Slot} {node : Node}

theorem Slot.diagnostics_alone (history : Green.History workspace made) {value : Green.Slot}
    (available : Green.Available made value) :
    (Slot.alone value).diagnostics = Green.slotDiagnosticsFrom value 0 := by
  cases value with
  | node green =>
      have greenMade : .node green ∈ made := available.resolve_left (by simp)
      exact Node.InTree.root.diagnostics_eq history greenMade
  | token green => rfl
  | absent => rfl

theorem Slot.shift_diagnostics_alone (history : Green.History workspace made) {value : Green.Slot}
    (available : Green.Available made value) (start : Nat) :
    (Slot.alone value).diagnostics.map (·.shift start) = Green.slotDiagnosticsFrom value start := by
  have start_eq : (start : Int) = (0 : Nat) + start := by simp
  have moved := history.moved_diagnosticsFrom available start_eq
  rw [diagnostics_alone history available]
  rw [← List.forall₂_eq_eq_eq, List.forall₂_map_left_iff]
  exact moved.imp fun before _ moved => (before.moved_shift start).unique moved

theorem Node.InTree.diagnostics_slot (history : Green.History workspace made)
    (rootMade : .node root ∈ made) (inTree : Node.InTree root node) {index offset : Nat}
    {value : Green.Slot} (shown : node.slot? index = some (view node index offset value)) :
    (view node index offset value).diagnostics = Green.slotDiagnosticsFrom value offset := by
  cases value with
  | node green => exact (inTree.child shown).diagnostics_eq history rootMade
  | token green => rfl
  | absent => rfl

end Red

end SyntaxTree

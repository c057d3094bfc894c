import SyntaxTree.Proofs.Staging

/-!
Putting one value in place of another. Main statements: a node or token in a tree is replaced
exactly when every ancestor accepts its slots with the new value, and the answer is the new value at
the old place.
-/

namespace SyntaxTree

theorem Green.Slot.allIdentical_set {slots : List Green.Slot} {index : Nat} {old : Green.Slot}
    (present : slots[index]? = some old) (new : Green.Slot) :
    allIdentical slots (slots.set index new) = old.identical new := by
  induction slots generalizing index with
  | nil => simp at present
  | cons slot slots inductionHypothesis =>
      cases index with
      | zero =>
          obtain rfl : slot = old := by simpa using present
          simp [allIdentical]
      | succ index => simp [allIdentical, @inductionHypothesis index (by simpa using present)]

namespace Red

variable {root : Green.Node} {workspace : Workspace} {made : List Green.Slot}

namespace Node

variable {node : Node} {index : Nat} {value : Green.Slot}

theorem replaceSlot_of_refused {reason : SlotError}
    (refused : node.stage.set index value = .error reason) (workspace : Workspace) :
    node.replaceSlot index value workspace = .error (.rejected reason) workspace := by
  rw [replaceSlot, refused, Build.ofFit_error, Build.bind_run_of_error (Build.reject_run _ _)]

theorem replaceSlot_of_accepted {staged : Staged}
    (accepted : node.stage.set index value = .ok staged) (workspace : Workspace) :
    node.replaceSlot index value workspace = staged.apply workspace := by
  rw [replaceSlot, accepted, Build.ofFit_ok, Build.bind_run_of_ok (Build.pure_run _ _)]

theorem InTree.set_accepted_iff (inTree : InTree root node)
    (history : Green.History workspace made) (rootMade : .node root ∈ made)
    (inRange : index < node.green.slots.length) :
    (∃ staged, node.stage.set index value = .ok staged) ↔
      node.AdmitsInPlace (node.green.slots.set index value) := by
  have admitted : node.stage.node.AdmitsInPlace node.stage.slots :=
    inTree.admitsInPlace history rootMade
  exact Staged.edit_accepted_iff_of_inRange admitted (.set index value) inRange

theorem InTree.replaceSlot_of_admitted {old : Green.Slot} (inTree : InTree root node)
    (history : Green.History workspace made) (rootMade : .node root ∈ made)
    (available : Green.Available made value) (present : node.green.slots[index]? = some old)
    (other : old.identical value = false)
    (admitted : node.AdmitsInPlace (node.green.slots.set index value)) :
    node.replaceSlot index value workspace =
      .ok (node.withSlots workspace.nextSerial (node.green.slots.set index value))
        (workspace.after (node.path.length + 1)
          (node.spineEvents ++ [Event.replaced node.kind node.path.length])) := by
  obtain ⟨inRange, _⟩ := List.getElem?_eq_some_iff.mp present
  obtain ⟨staged, accepted⟩ := (inTree.set_accepted_iff history rootMade inRange).mpr admitted
  obtain rfl := (Staged.set_eq_ok_iff.mp accepted).2
  have reachable := Staged.Reachable.start.edit (.set index value) available accepted
  rw [replaceSlot_of_accepted accepted, reachable.apply_of_changed history inTree rootMade
    ((Green.Slot.allIdentical_set present value).trans other)]
  rfl

theorem InTree.replaceSlot_of_not_admitted (inTree : InTree root node)
    (history : Green.History workspace made) (rootMade : .node root ∈ made)
    (inRange : index < node.green.slots.length)
    (notAdmitted : ¬ node.AdmitsInPlace (node.green.slots.set index value)) :
    ∃ reason, node.replaceSlot index value workspace = .error (.rejected reason) workspace := by
  cases outcome : node.stage.set index value with
  | ok staged =>
      exact absurd ((inTree.set_accepted_iff history rootMade inRange).mp ⟨staged, outcome⟩)
        notAdmitted
  | error reason => exact ⟨reason, replaceSlot_of_refused outcome workspace⟩

/-- Every ancestor accepts a new node in place of a child exactly when the parent admits it. -/
theorem InTree.fitsAbove_iff {old green : Green.Node} {offset slot : Nat} {parent : Node}
    (inTree : InTree root (Node.child old offset slot parent))
    (history : Green.History workspace made) (rootMade : .node root ∈ made) :
    (Node.child old offset slot parent).FitsAbove green ↔
      parent.AdmitsInPlace (parent.green.slots.set slot (.node green)) := by
  obtain ⟨parentInTree, _⟩ := InTree.child_iff.mp inTree
  exact (parentInTree.admitsInPlace_iff history rootMade _).symm

theorem InTree.fitsAbove_self (inTree : InTree root node) (history : Green.History workspace made)
    (rootMade : .node root ∈ made) : node.FitsAbove node.green := by
  cases node with
  | root green => trivial
  | child old offset slot parent =>
      obtain ⟨parentInTree, present, _⟩ := InTree.child_iff.mp inTree
      obtain ⟨inRange, found⟩ := List.getElem?_eq_some_iff.mp present
      rw [inTree.fitsAbove_iff history rootMade, Node.green, ← found, List.set_getElem_self]
      exact parentInTree.admitsInPlace history rootMade

theorem replaceWith_of_same {green : Green.Node} (same : green.identical node.green = true)
    (now : Workspace) :
    node.replaceWith green now = .ok node (now.after 0 [.unchanged node.kind]) := by
  rw [replaceWith.eq_def, if_pos same, Build.bind_run_of_ok (Build.record_run _ _)]
  simp [Workspace.after]

theorem InTree.replaceWith_of_identical {green : Green.Node} (inTree : InTree root node)
    (history : Green.History workspace made) (rootMade : .node root ∈ made)
    (greenMade : .node green ∈ made) (same : green.identical node.green = true) :
    green = node.green ∧
      node.replaceWith green workspace = .ok node (workspace.after 0 [.unchanged node.kind]) := by
  constructor
  · exact history.node_eq_of_identical greenMade (inTree.green_mem history rootMade) same
  · exact replaceWith_of_same same workspace

/-- Another node that fits comes in place of the old one, and the ancestors are built anew. -/
theorem InTree.replaceWith_of_fits {green : Green.Node} (inTree : InTree root node)
    (history : Green.History workspace made) (rootMade : .node root ∈ made)
    (greenMade : .node green ∈ made) (other : green.identical node.green = false)
    (fits : node.FitsAbove green) :
    ∃ events, node.replaceWith green workspace =
      .ok (node.regrown workspace.nextSerial green) (workspace.after node.path.length events) := by
  cases node with
  | root old =>
      refine ⟨[], ?_⟩
      rw [replaceWith, if_neg (by simp [other])]
      simp [Node.regrown, Workspace.after, path]
  | child old offset slot parent =>
      obtain ⟨parentInTree, present, offset_eq⟩ := InTree.child_iff.mp inTree
      have differs : Green.Slot.identical (.node old) (.node green) = false := by
        rw [← other]
        exact Bool.beq_comm
      have holder := parentInTree.replaceSlot_of_admitted history rootMade (.inr greenMade) present
        differs ((inTree.fitsAbove_iff history rootMade).mp fits)
      have found := slot?_withSlots_set workspace.nextSerial (.node green) present
      refine ⟨parent.spineEvents ++ [Event.replaced parent.kind parent.path.length], ?_⟩
      rw [replaceWith, if_neg (by simp [other]), Build.bind_run_of_ok holder,
        requireNode_eq_ok_iff.mpr found, ← offset_eq, Build.ofMisuse_ok, Build.pure_run]
      rfl

theorem InTree.replaceWith_of_misfit {green : Green.Node} (inTree : InTree root node)
    (history : Green.History workspace made) (rootMade : .node root ∈ made)
    (other : green.identical node.green = false) (misfit : ¬ node.FitsAbove green) :
    ∃ reason, node.replaceWith green workspace = .error (.rejected reason) workspace := by
  cases node with
  | root old => exact absurd trivial misfit
  | child old offset slot parent =>
      obtain ⟨parentInTree, present, _⟩ := InTree.child_iff.mp inTree
      obtain ⟨inRange, _⟩ := List.getElem?_eq_some_iff.mp present
      obtain ⟨reason, refused⟩ := parentInTree.replaceSlot_of_not_admitted history rootMade inRange
        fun admitted => misfit ((inTree.fitsAbove_iff history rootMade).mpr admitted)
      refine ⟨reason, ?_⟩
      rw [replaceWith, if_neg (by simp [other]), Build.bind_run_of_error refused]

/-- Replacing a node either succeeds or refuses what does not fit. -/
theorem InTree.replaceWith_run {green : Green.Node} (inTree : InTree root node)
    (history : Green.History workspace made) (rootMade : .node root ∈ made)
    (greenMade : .node green ∈ made) :
    (node.FitsAbove green ∧ ∃ replaced later,
      node.replaceWith green workspace = .ok replaced later ∧
        (green = node.green ∧ replaced = node ∨
          replaced = node.regrown workspace.nextSerial green)) ∨
    (¬ node.FitsAbove green ∧ ∃ reason,
      node.replaceWith green workspace = .error (.rejected reason) workspace) := by
  cases same : green.identical node.green with
  | true =>
      obtain ⟨rfl, run⟩ := inTree.replaceWith_of_identical history rootMade greenMade same
      exact .inl ⟨inTree.fitsAbove_self history rootMade, node, _, run, .inl ⟨rfl, rfl⟩⟩
  | false =>
      by_cases fits : node.FitsAbove green
      · obtain ⟨events, run⟩ := inTree.replaceWith_of_fits history rootMade greenMade same fits
        exact .inl ⟨fits, _, _, run, .inr rfl⟩
      · exact .inr ⟨fits, inTree.replaceWith_of_misfit history rootMade same fits⟩

end Node

namespace Token

variable {token : Token} {green : Green.Token}

theorem replaceWith_of_same (same : green.identical token.green = true) (now : Workspace) :
    token.replaceWith green now = .ok token (now.after 0 [.unchanged token.kind]) := by
  rw [replaceWith.eq_def, if_pos same, Build.bind_run_of_ok (Build.record_run _ _)]
  simp [Workspace.after]

namespace InTree

theorem fitsAbove_iff {old : Green.Token} {offset slot : Nat} {parent : Node}
    (inTree : InTree root (.held old offset slot parent))
    (history : Green.History workspace made) (rootMade : .node root ∈ made) :
    (held old offset slot parent).FitsAbove green ↔
      parent.AdmitsInPlace (parent.green.slots.set slot (.token green)) := by
  obtain ⟨parentInTree, _⟩ := held_iff.mp inTree
  exact (parentInTree.admitsInPlace_iff history rootMade _).symm

theorem fitsAbove_self (inTree : InTree root token) (history : Green.History workspace made)
    (rootMade : .node root ∈ made) : token.FitsAbove token.green := by
  cases token with
  | detached green => trivial
  | held old offset slot parent =>
      obtain ⟨parentInTree, present, _⟩ := held_iff.mp inTree
      obtain ⟨inRange, found⟩ := List.getElem?_eq_some_iff.mp present
      rw [inTree.fitsAbove_iff history rootMade, Token.green, ← found, List.set_getElem_self]
      exact parentInTree.admitsInPlace history rootMade

theorem replaceWith_of_identical (inTree : InTree root token)
    (history : Green.History workspace made) (rootMade : .node root ∈ made)
    (greenMade : .token green ∈ made) (same : green.identical token.green = true) :
    green = token.green ∧
      token.replaceWith green workspace =
        .ok token (workspace.after 0 [.unchanged token.kind]) := by
  constructor
  · have equal := history.eq_of_identical (.inr greenMade)
      (.inr (inTree.green_mem history rootMade)) same
    cases equal
    rfl
  · exact replaceWith_of_same same workspace

theorem replaceWith_of_fits (inTree : InTree root token)
    (history : Green.History workspace made) (rootMade : .node root ∈ made)
    (greenMade : .token green ∈ made) (other : green.identical token.green = false)
    (fits : token.FitsAbove green) :
    ∃ stamps events, token.replaceWith green workspace =
      .ok (token.regrown workspace.nextSerial green) (workspace.after stamps events) := by
  cases token with
  | detached old => exact absurd inTree detached_iff
  | held old offset slot parent =>
      obtain ⟨parentInTree, present, offset_eq⟩ := held_iff.mp inTree
      have differs : Green.Slot.identical (.token old) (.token green) = false := by
        rw [← other]
        exact Bool.beq_comm
      have holder := parentInTree.replaceSlot_of_admitted history rootMade (.inr greenMade) present
        differs ((inTree.fitsAbove_iff history rootMade).mp fits)
      have found := Node.slot?_withSlots_set workspace.nextSerial (.token green) present
      refine ⟨parent.path.length + 1,
        parent.spineEvents ++ [Event.replaced parent.kind parent.path.length], ?_⟩
      rw [replaceWith, if_neg (by simp [other]), Build.bind_run_of_ok holder,
        Node.requireToken_eq_ok_iff.mpr found, ← offset_eq, Build.ofMisuse_ok, Build.pure_run]
      rfl

theorem replaceWith_of_misfit (inTree : InTree root token)
    (history : Green.History workspace made) (rootMade : .node root ∈ made)
    (other : green.identical token.green = false) (misfit : ¬ token.FitsAbove green) :
    ∃ reason, token.replaceWith green workspace = .error (.rejected reason) workspace := by
  cases token with
  | detached old => exact absurd trivial misfit
  | held old offset slot parent =>
      obtain ⟨parentInTree, present, _⟩ := held_iff.mp inTree
      obtain ⟨inRange, _⟩ := List.getElem?_eq_some_iff.mp present
      obtain ⟨reason, refused⟩ := parentInTree.replaceSlot_of_not_admitted history rootMade inRange
        fun admitted => misfit ((inTree.fitsAbove_iff history rootMade).mpr admitted)
      refine ⟨reason, ?_⟩
      rw [replaceWith, if_neg (by simp [other]), Build.bind_run_of_error refused]

theorem replaceWith_run (inTree : InTree root token) (history : Green.History workspace made)
    (rootMade : .node root ∈ made) (greenMade : .token green ∈ made) :
    (token.FitsAbove green ∧ ∃ replaced later,
      token.replaceWith green workspace = .ok replaced later ∧
        (green = token.green ∧ replaced = token ∨
          replaced = token.regrown workspace.nextSerial green)) ∨
    (¬ token.FitsAbove green ∧ ∃ reason,
      token.replaceWith green workspace = .error (.rejected reason) workspace) := by
  cases same : green.identical token.green with
  | true =>
      obtain ⟨rfl, run⟩ := inTree.replaceWith_of_identical history rootMade greenMade same
      exact .inl ⟨inTree.fitsAbove_self history rootMade, token, _, run, .inl ⟨rfl, rfl⟩⟩
  | false =>
      by_cases fits : token.FitsAbove green
      · obtain ⟨_, _, run⟩ := inTree.replaceWith_of_fits history rootMade greenMade same fits
        exact .inl ⟨fits, _, _, run, .inr rfl⟩
      · exact .inr ⟨fits, inTree.replaceWith_of_misfit history rootMade same fits⟩

end InTree

end Token

end Red

end SyntaxTree

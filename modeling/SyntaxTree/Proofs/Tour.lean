import SyntaxTree.Edit.Transform
import SyntaxTree.Proofs.Navigation
import SyntaxTree.Proofs.Replacement

/-!
Tours of trees. A tour goes from handle to handle: it enters trees, asks handles it has come by, and
edits trees at them, each move depending on handles from moves before. Main statement: whatever way a
tour came by a handle, the handle is anchored in its tree.
-/

namespace SyntaxTree

namespace Build

variable {Result : Type} {workspace later : Workspace} {result : Result}

theorem ofMisuse_run_eq_ok {answer : Except Misuse Result}
    (run : ofMisuse answer workspace = .ok result later) : answer = .ok result := by
  cases answer with
  | ok value =>
      cases run
      rfl
  | error cause => cases run

theorem ofFit_run_eq_ok {fit : Except SlotError Result}
    (run : ofFit fit workspace = .ok result later) : fit = .ok result := by
  cases fit with
  | ok value =>
      cases run
      rfl
  | error reason => cases run

end Build

namespace Red

/-- The ways of editing a tree at a node. -/
inductive Change
  | stage (edits : List Edit)
  | setSlot (index : Nat) (value : Green.Slot)
  | setSlots (values : List (Nat × Green.Slot))
  | replace (green : Green.Node)
  | transform (transform : Transform Build)

def Node.change (node : Node) : Change → Build Node
  | .stage edits => (node.stage.tryEdits edits).1.apply
  | .setSlot index value => node.replaceSlot index value
  | .setSlots values => node.replaceSlots values
  | .replace green => node.replaceWith green
  | .transform parts => node.transform parts

def Slot.change (change : Change) : Slot → Build (List Slot)
  | .node node => return [.node (← node.change change)]
  | .token _ | .absent => return []

def Slot.replaceToken (green : Green.Token) : Slot → Build (List Slot)
  | .token token => return [.token (← token.replaceWith green)]
  | .node _ | .absent => return []

/-- One move of a tour. Handles are named by the order in which the tour came by them. -/
inductive Move
  | enter (green : Green.Node)
  | ask (number : Nat) (query : Query)
  | edit (number : Nat) (change : Change)
  | replaceToken (number : Nat) (green : Green.Token)

def named (handles : List Slot) (number : Nat) : Slot := handles[number]?.getD .absent

/-- The handles that a move comes by. An edit gives the edited node or token in the new tree. -/
def Move.run (handles : List Slot) : Move → Build (List Slot)
  | enter green => return [.node (.root green)]
  | ask number query => return (named handles number).answers query
  | edit number change => (named handles number).change change
  | replaceToken number green => (named handles number).replaceToken green

structure Tour where
  workspace : Workspace
  handles : List Slot

namespace Tour

def begin (workspace : Workspace) : Tour := ⟨workspace, []⟩

/-- Makes one move. A move that fails comes by no handle. -/
def move (tour : Tour) (move : Move) : Tour :=
  match move.run tour.handles tour.workspace with
  | .ok found later => ⟨later, tour.handles ++ found⟩
  | .error _ later => ⟨later, tour.handles⟩

def run (tour : Tour) (moves : List Move) : Tour := moves.foldl move tour

end Tour

/-- Whether a handle is in some tree. -/
def Slot.Rooted (handle : Slot) : Prop := ∃ root, handle.InTree root

section Edits

variable {workspace later : Workspace} {node edited : Node}

theorem Node.rooted_of_replaceGreen {green : Green.Node}
    (run : node.replaceGreen green workspace = .ok edited later) : Slot.Rooted (.node edited) := by
  obtain ⟨root, _, _, recorded⟩ := Build.bind_run_eq_ok_iff.mp run
  obtain ⟨_, _, _, descended⟩ := Build.bind_run_eq_ok_iff.mp recorded
  exact ⟨root, Node.InTree.root.descend (Build.ofMisuse_run_eq_ok descended)⟩

theorem Staged.rooted_of_apply {staged : Staged} (rooted : Slot.Rooted (.node staged.node))
    (run : staged.apply workspace = .ok edited later) : Slot.Rooted (.node edited) := by
  rw [Staged.apply] at run
  split at run
  · cases run
    exact rooted
  · obtain ⟨green, _, _, replaced⟩ := Build.bind_run_eq_ok_iff.mp run
    exact Node.rooted_of_replaceGreen replaced

/-- Edits stay at the node where they are staged. -/
theorem Node.stage_tryEdits_node (node : Node) (edits : List Edit) :
    (node.stage.tryEdits edits).1.node = node := by
  have available : ∀ edit ∈ edits, Green.Available (edits.map Edit.value) edit.value :=
    fun edit present => .inr (List.mem_map_of_mem present)
  exact (Staged.Reachable.start.of_tryEdits available).node_eq

theorem Node.stage_setAll_node {staged : Staged} {values : List (Nat × Green.Slot)}
    (accepted : node.stage.setAll values = .ok staged) : staged.node = node := by
  have available : ∀ entry ∈ values, Green.Available (values.map Prod.snd) entry.2 :=
    fun entry present => .inr (List.mem_map_of_mem present)
  exact (Staged.Reachable.start.of_setAll available accepted).node_eq

theorem Node.rooted_of_replaceSlot {index : Nat} {value : Green.Slot}
    (rooted : Slot.Rooted (.node node))
    (run : node.replaceSlot index value workspace = .ok edited later) :
    Slot.Rooted (.node edited) := by
  obtain ⟨staged, _, fit, applied⟩ := Build.bind_run_eq_ok_iff.mp run
  have accepted := Build.ofFit_run_eq_ok fit
  have sameNode : staged.node = node := by
    obtain ⟨_, rfl⟩ := Staged.set_eq_ok_iff.mp accepted
    rfl
  rw [← sameNode] at rooted
  exact Staged.rooted_of_apply rooted applied

theorem Node.rooted_of_replaceWith {green : Green.Node} (rooted : Slot.Rooted (.node node))
    (run : node.replaceWith green workspace = .ok edited later) : Slot.Rooted (.node edited) := by
  rw [Node.replaceWith.eq_def] at run
  split at run
  · cases run
    exact rooted
  · cases node with
    | root old =>
        cases run
        exact ⟨green, .root⟩
    | child old offset slot parent =>
        obtain ⟨root, inTree⟩ := rooted
        have parentRooted : Slot.Rooted (.node parent) := ⟨root, (Node.InTree.child_iff.mp inTree).1⟩
        obtain ⟨holder, _, replaced, required⟩ := Build.bind_run_eq_ok_iff.mp run
        obtain ⟨newRoot, holderInTree⟩ := Node.rooted_of_replaceSlot parentRooted replaced
        have shown := Node.requireNode_eq_ok_iff.mp (Build.ofMisuse_run_eq_ok required)
        exact ⟨newRoot, Node.InTree.child holderInTree shown⟩

theorem Token.rooted_of_replaceWith {token replacement : Token} {green : Green.Token}
    (rooted : Slot.Rooted (.token token))
    (run : token.replaceWith green workspace = .ok replacement later) :
    Slot.Rooted (.token replacement) := by
  obtain ⟨root, inTree⟩ := rooted
  rw [Token.replaceWith.eq_def] at run
  split at run
  · cases run
    exact ⟨root, inTree⟩
  · cases token with
    | detached old => exact absurd inTree Token.InTree.detached_iff
    | held old offset slot parent =>
        have parentRooted : Slot.Rooted (.node parent) := ⟨root, (Token.InTree.held_iff.mp inTree).1⟩
        obtain ⟨holder, _, replaced, required⟩ := Build.bind_run_eq_ok_iff.mp run
        obtain ⟨newRoot, holderInTree⟩ := Node.rooted_of_replaceSlot parentRooted replaced
        have shown := Node.requireToken_eq_ok_iff.mp (Build.ofMisuse_run_eq_ok required)
        exact ⟨newRoot, holder, slot, holderInTree, shown⟩

/-- An edit that succeeds gives a handle in the new tree. -/
theorem Node.rooted_of_change {change : Change} (rooted : Slot.Rooted (.node node))
    (run : node.change change workspace = .ok edited later) : Slot.Rooted (.node edited) := by
  cases change with
  | stage edits =>
      rw [← node.stage_tryEdits_node edits] at rooted
      exact Staged.rooted_of_apply rooted run
  | setSlot index value => exact Node.rooted_of_replaceSlot rooted run
  | setSlots values =>
      obtain ⟨staged, _, fit, applied⟩ := Build.bind_run_eq_ok_iff.mp run
      rw [← Node.stage_setAll_node (Build.ofFit_run_eq_ok fit)] at rooted
      exact Staged.rooted_of_apply rooted applied
  | replace green => exact Node.rooted_of_replaceWith rooted run
  | transform parts =>
      obtain ⟨green, _, _, replaced⟩ := Build.bind_run_eq_ok_iff.mp run
      exact Node.rooted_of_replaceWith rooted replaced

end Edits

namespace Slot.Rooted

variable {handle : Slot} {found : List Slot} {workspace later : Workspace}

theorem named {handles : List Slot} (rooted : ∀ handle ∈ handles, handle.Rooted) (number : Nat) :
    (named handles number).Rooted := by
  rw [Red.named]
  cases chosen : handles[number]? with
  | some handle => exact rooted handle (List.mem_of_getElem? chosen)
  | none => exact ⟨.assemble ⟨0⟩ .list [] [], trivial⟩

theorem answers (rooted : handle.Rooted) (query : Query) :
    ∀ slot ∈ handle.answers query, slot.Rooted := by
  obtain ⟨root, inTree⟩ := rooted
  exact fun slot present => ⟨root, inTree.answers query slot present⟩

theorem change {change : Change} (rooted : handle.Rooted)
    (run : handle.change change workspace = .ok found later) : ∀ slot ∈ found, slot.Rooted := by
  cases handle with
  | node node =>
      obtain ⟨edited, _, changed, same⟩ := Build.bind_run_eq_ok_iff.mp run
      cases same
      exact List.forall_mem_singleton.mpr (Node.rooted_of_change rooted changed)
  | token _ | absent =>
      cases run
      exact List.forall_mem_nil _

theorem replaceToken {green : Green.Token} (rooted : handle.Rooted)
    (run : handle.replaceToken green workspace = .ok found later) :
    ∀ slot ∈ found, slot.Rooted := by
  cases handle with
  | token token =>
      obtain ⟨replacement, _, replaced, same⟩ := Build.bind_run_eq_ok_iff.mp run
      cases same
      exact List.forall_mem_singleton.mpr (Token.rooted_of_replaceWith rooted replaced)
  | node _ | absent =>
      cases run
      exact List.forall_mem_nil _

end Slot.Rooted

/-- A move from handles in trees comes by handles in trees. -/
theorem Move.rooted_of_run {move : Move} {handles found : List Slot} {workspace later : Workspace}
    (rooted : ∀ handle ∈ handles, handle.Rooted)
    (run : move.run handles workspace = .ok found later) : ∀ handle ∈ found, handle.Rooted := by
  cases move with
  | enter green =>
      cases run
      exact List.forall_mem_singleton.mpr ⟨green, .root⟩
  | ask number query =>
      cases run
      exact (Slot.Rooted.named rooted number).answers query
  | edit number change => exact (Slot.Rooted.named rooted number).change run
  | replaceToken number green => exact (Slot.Rooted.named rooted number).replaceToken run

namespace Tour

variable {tour : Tour}

theorem rooted_move (rooted : ∀ handle ∈ tour.handles, handle.Rooted) (move : Move) :
    ∀ handle ∈ (tour.move move).handles, handle.Rooted := by
  rw [Tour.move]
  split
  · next run => exact List.forall_mem_append.mpr ⟨rooted, move.rooted_of_run rooted run⟩
  · exact rooted

theorem rooted_run (rooted : ∀ handle ∈ tour.handles, handle.Rooted) (moves : List Move) :
    ∀ handle ∈ (tour.run moves).handles, handle.Rooted := by
  induction moves generalizing tour with
  | nil => exact rooted
  | cons move rest inductionHypothesis => exact inductionHypothesis (rooted_move rooted move)

end Tour

/-- Whatever way a tour came by a handle, the slot indexes above it lead from the root of its tree to
what it sees, at its offset, and back to the handle itself. -/
theorem handles_stay_anchored (workspace : Workspace) (moves : List Move) {handle : Slot}
    (present : handle ∈ ((Tour.begin workspace).run moves).handles) : handle.Anchored := by
  have empty : ∀ handle ∈ (Tour.begin workspace).handles, handle.Rooted := List.forall_mem_nil _
  obtain ⟨root, inTree⟩ := Tour.rooted_run empty moves handle present
  exact inTree.anchored

namespace Sample

/-- A list that holds the same argument twice. -/
def twice : Green.Node :=
  .assemble ⟨9⟩ .list [.node Green.Sample.argument, .node Green.Sample.argument] []

/-- Goes to the name in the second argument, puts another name there, goes up in the new tree, and
from its root down to the name in the first argument. -/
def detour : Tour :=
  (Tour.begin ⟨10, #[]⟩).run
    [.enter twice, .ask 0 (.slot 1), .ask 1 .lastToken,
      .replaceToken 2 Green.Sample.functionToken, .ask 3 .ancestors, .ask 6 .firstToken]

end Sample

open Green.Sample (functionToken argumentToken) in
theorem handles_stay_anchored_of_detour :
    (∃ token, .token token ∈ Sample.detour.handles ∧ token.green = functionToken ∧
      token.offset = 1 ∧ token.Anchored) ∧
    ∃ token, .token token ∈ Sample.detour.handles ∧ token.green = argumentToken ∧
      token.offset = 0 ∧ token.Anchored := by
  have replaced : ∃ token, Sample.detour.handles[3]? = some (.token token) ∧
      token.green = functionToken ∧ token.offset = 1 := ⟨_, rfl, rfl, rfl⟩
  have first : ∃ token, Sample.detour.handles[7]? = some (.token token) ∧
      token.green = argumentToken ∧ token.offset = 0 := ⟨_, rfl, rfl, rfl⟩
  obtain ⟨second, secondFound, secondGreen, secondOffset⟩ := replaced
  obtain ⟨first, firstFound, firstGreen, firstOffset⟩ := first
  have secondPresent := List.mem_of_getElem? secondFound
  have firstPresent := List.mem_of_getElem? firstFound
  exact ⟨⟨second, secondPresent, secondGreen, secondOffset,
      handles_stay_anchored _ _ secondPresent⟩,
    first, firstPresent, firstGreen, firstOffset, handles_stay_anchored _ _ firstPresent⟩

end Red

end SyntaxTree

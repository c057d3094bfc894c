import SyntaxTree.Proofs.SamePlace
import SyntaxTree.Red.Handle

/-!
How handles are come by. A handle is made anew for a place, with new handles for its ancestors, or it
is reached from one at hand, whose ancestors it shares. Main statements: whatever way a handle was
come by, it has its place, and there is a naming of stamps by which the stamps of every handle stand
for its node and the ancestors of that.
-/

namespace SyntaxTree.Red

variable {workspace later : Workspace} {made : List Green.Slot}

namespace HandleSlot

def stamps : HandleSlot → List Stamp
  | .node handle => handle.stamps
  | .token handle => handle.stamps
  | .absent => []

/-- The nodes whose handles the stamps are of. -/
def ancestors : HandleSlot → List Node
  | .node handle => handle.node.ancestors
  | .token handle => handle.token.ancestors
  | .absent => []

/-- Whether a handle is in the tree of some node that was made, or is a token of no tree. -/
def Placed (made : List Green.Slot) (handle : HandleSlot) : Prop :=
  (∃ root, .node root ∈ made ∧ handle.value.InTree root) ∨
    ∃ green stamps, handle = .token ⟨.detached green, stamps⟩ ∧ .token green ∈ made

end HandleSlot

/-- The handles that have been come by, latest first, and the workspace as it is now. A handle is
made anew for a place, or reached from one at hand. -/
inductive Materialized (made : List Green.Slot) : Workspace → List HandleSlot → Prop
  | start {workspace : Workspace} : Materialized made workspace []
  | pass {workspace later : Workspace} {handles : List HandleSlot} :
      Materialized made workspace handles → workspace.nextSerial ≤ later.nextSerial →
      Materialized made later handles
  | node {workspace later : Workspace} {handles : List HandleSlot} {root : Green.Node} {node : Node}
      {handle : NodeHandle} :
      Materialized made workspace handles → .node root ∈ made → Node.InTree root node →
      NodeHandle.fresh node workspace = .ok handle later →
      Materialized made later (.node handle :: handles)
  | token {workspace later : Workspace} {handles : List HandleSlot} {root : Green.Node}
      {token : Token} {handle : TokenHandle} :
      Materialized made workspace handles → .node root ∈ made → Token.InTree root token →
      TokenHandle.fresh token workspace = .ok handle later →
      Materialized made later (.token handle :: handles)
  | detached {workspace later : Workspace} {handles : List HandleSlot} {green : Green.Token}
      {handle : TokenHandle} :
      Materialized made workspace handles → .token green ∈ made →
      TokenHandle.fresh (.detached green) workspace = .ok handle later →
      Materialized made later (.token handle :: handles)
  | slot {workspace later : Workspace} {handles : List HandleSlot} {holder : NodeHandle}
      {index : Nat} {found : HandleSlot} :
      Materialized made workspace handles → .node holder ∈ handles →
      holder.slot index workspace = .ok found later → Materialized made later (found :: handles)
  | parent {workspace : Workspace} {handles : List HandleSlot} {handle above : NodeHandle} :
      Materialized made workspace handles → .node handle ∈ handles →
      handle.parent? = some above → Materialized made workspace (.node above :: handles)
  | tokenParent {workspace : Workspace} {handles : List HandleSlot} {handle : TokenHandle}
      {above : NodeHandle} :
      Materialized made workspace handles → .token handle ∈ handles →
      handle.parent? = some above → Materialized made workspace (.node above :: handles)
  | treeRoot {workspace : Workspace} {handles : List HandleSlot} {handle : NodeHandle} :
      Materialized made workspace handles → .node handle ∈ handles →
      Materialized made workspace (.node handle.treeRoot :: handles)

/-- Whether every stamp of a handle was given out, to the handle of the node that it stands for. -/
structure HandleSlot.Named (meaning : Stamp → Node) (workspace : Workspace) (handle : HandleSlot) :
    Prop where
  map_stamps : handle.stamps.map meaning = handle.ancestors
  stamp_lt : ∀ stamp ∈ handle.stamps, stamp.serial < workspace.nextSerial

namespace HandleSlot.Named

variable {meaning : Stamp → Node} {handle : HandleSlot}

theorem pass (named : handle.Named meaning workspace)
    (increased : workspace.nextSerial ≤ later.nextSerial) : handle.Named meaning later :=
  ⟨named.map_stamps, fun stamp present =>
    Nat.lt_of_lt_of_le (named.stamp_lt stamp present) increased⟩

/-- Names stay when stamps are given out that were not in use. -/
theorem congr (named : handle.Named meaning workspace) {other : Stamp → Node}
    (kept : ∀ stamp : Stamp, stamp.serial < workspace.nextSerial → other stamp = meaning stamp) :
    handle.Named other workspace := by
  refine ⟨?_, named.stamp_lt⟩
  rw [← named.map_stamps]
  exact List.map_congr_left fun stamp present => kept stamp (named.stamp_lt stamp present)

end HandleSlot.Named

/-- A name for a stamp not yet in use changes no name that is. -/
theorem update_of_lt (meaning : Stamp → Node) (node : Node) {next : Nat} {stamp : Stamp}
    (earlier : stamp.serial < next) : Function.update meaning ⟨next⟩ node stamp = meaning stamp := by
  apply Function.update_of_ne
  rintro rfl
  exact Nat.lt_irrefl _ earlier

theorem freshStamps_eq_ok {nodes : List Node} {stamps : List Stamp} (meaning : Stamp → Node)
    (run : freshStamps nodes workspace = .ok stamps later) :
    workspace.nextSerial ≤ later.nextSerial ∧ (∀ stamp ∈ stamps, stamp.serial < later.nextSerial) ∧
      ∃ other : Stamp → Node, stamps.map other = nodes ∧
        ∀ stamp : Stamp, stamp.serial < workspace.nextSerial → other stamp = meaning stamp := by
  induction nodes generalizing workspace stamps meaning with
  | nil =>
      cases run
      exact ⟨Nat.le_refl _, List.forall_mem_nil _, meaning, rfl, fun _ _ => rfl⟩
  | cons node rest inductionHypothesis =>
      obtain ⟨stamp, middle, given, further⟩ := Build.bind_run_eq_ok_iff.mp run
      obtain ⟨others, final, othersGiven, same⟩ := Build.bind_run_eq_ok_iff.mp further
      cases given
      cases same
      -- The rest is named from where the first stamp stands for the first node.
      obtain ⟨increased, below, other, map_eq, kept⟩ :=
        inductionHypothesis (Function.update meaning ⟨workspace.nextSerial⟩ node) othersGiven
      have next_lt : workspace.nextSerial < later.nextSerial := increased
      refine ⟨Nat.le_of_lt next_lt, List.forall_mem_cons.mpr ⟨next_lt, below⟩, other, ?_, ?_⟩
      · rw [List.map_cons, map_eq, kept _ (Nat.lt_succ_self _), Function.update_self]
      · intro stamp earlier
        rw [kept stamp (Nat.lt_succ_of_lt earlier), update_of_lt meaning node earlier]

theorem NodeHandle.fresh_eq_ok {node : Node} {handle : NodeHandle}
    (run : fresh node workspace = .ok handle later) :
    handle.node = node ∧ freshStamps node.ancestors workspace = .ok handle.stamps later := by
  obtain ⟨stamps, _, given, same⟩ := Build.bind_run_eq_ok_iff.mp run
  cases same
  exact ⟨rfl, given⟩

theorem TokenHandle.fresh_eq_ok {token : Token} {handle : TokenHandle}
    (run : fresh token workspace = .ok handle later) :
    handle.token = token ∧ freshStamps token.ancestors workspace = .ok handle.stamps later := by
  obtain ⟨stamps, _, given, same⟩ := Build.bind_run_eq_ok_iff.mp run
  cases same
  exact ⟨rfl, given⟩

/-- What a handle gives for a slot: a node under a stamp of its own, or a token, or absence. -/
theorem NodeHandle.slot_cases {holder : NodeHandle} {index : Nat} {found : HandleSlot}
    (run : holder.slot index workspace = .ok found later) :
    (∃ child, holder.node.slot? index = some (.node child) ∧
      found = .node ⟨child, ⟨workspace.nextSerial⟩ :: holder.stamps⟩ ∧
      later = { workspace with nextSerial := workspace.nextSerial + 1 }) ∨
    (∃ token, holder.node.slot? index = some (.token token) ∧
      found = .token ⟨token, holder.stamps⟩ ∧ later = workspace) ∨
    holder.node.slot? index = some .absent ∧ found = .absent ∧ later = workspace := by
  obtain ⟨shown, middle, looked, further⟩ := Build.bind_run_eq_ok_iff.mp run
  cases seen : holder.node.slot index with
  | error cause =>
      rw [seen] at looked
      cases looked
  | ok slot =>
      rw [seen] at looked
      cases looked
      rw [Node.slot_eq_ok_iff] at seen
      cases shown with
      | node child =>
          obtain ⟨stamp, _, given, same⟩ := Build.bind_run_eq_ok_iff.mp further
          cases given
          cases same
          exact .inl ⟨child, seen, rfl, rfl⟩
      | token token =>
          cases further
          exact .inr (.inl ⟨token, seen, rfl, rfl⟩)
      | absent =>
          cases further
          exact .inr (.inr ⟨seen, rfl, rfl⟩)

theorem NodeHandle.parent?_eq_some {handle above : NodeHandle}
    (found : handle.parent? = some above) :
    handle.node.ancestors.tail = above.node.ancestors ∧ handle.stamps.tail = above.stamps := by
  obtain ⟨node, stamps⟩ := handle
  cases node with
  | root green => cases found
  | child green offset slot parent =>
      cases found
      exact ⟨rfl, rfl⟩

theorem TokenHandle.parent?_eq_some {handle : TokenHandle} {above : NodeHandle}
    (found : handle.parent? = some above) :
    handle.token.ancestors = above.node.ancestors ∧ handle.stamps = above.stamps := by
  obtain ⟨token, stamps⟩ := handle
  cases token with
  | detached green => cases found
  | held green offset slot parent =>
      cases found
      exact ⟨rfl, rfl⟩

theorem Node.ancestors_drop (node : Node) :
    node.ancestors.drop (node.ancestors.length - 1) = node.treeRoot.ancestors := by
  induction node with
  | root green => rfl
  | child green offset slot parent inductionHypothesis =>
      have above : 0 < parent.ancestors.length :=
        List.length_pos_of_mem parent.treeRoot_mem_ancestors
      obtain ⟨count, count_eq⟩ := Nat.exists_eq_add_of_lt above
      rw [Nat.zero_add] at count_eq
      rw [count_eq, Nat.add_sub_cancel] at inductionHypothesis
      rw [ancestors, List.length_cons, Nat.add_sub_cancel, count_eq, List.drop_succ_cons,
        inductionHypothesis]
      rfl

namespace HandleSlot.Named

variable {meaning : Stamp → Node}

theorem parent {handle above : NodeHandle}
    (named : HandleSlot.Named meaning workspace (.node handle))
    (found : handle.parent? = some above) : HandleSlot.Named meaning workspace (.node above) := by
  obtain ⟨ancestors_eq, stamps_eq⟩ := NodeHandle.parent?_eq_some found
  constructor
  · change above.stamps.map meaning = above.node.ancestors
    rw [← ancestors_eq, ← stamps_eq, List.map_tail]
    exact congrArg List.tail named.map_stamps
  · intro stamp present
    rw [stamps, ← stamps_eq] at present
    exact named.stamp_lt stamp (List.mem_of_mem_tail present)

theorem tokenParent {handle : TokenHandle} {above : NodeHandle}
    (named : HandleSlot.Named meaning workspace (.token handle))
    (found : handle.parent? = some above) : HandleSlot.Named meaning workspace (.node above) := by
  obtain ⟨ancestors_eq, stamps_eq⟩ := TokenHandle.parent?_eq_some found
  constructor
  · change above.stamps.map meaning = above.node.ancestors
    rw [← ancestors_eq, ← stamps_eq]
    exact named.map_stamps
  · intro stamp present
    rw [stamps, ← stamps_eq] at present
    exact named.stamp_lt stamp present

theorem treeRoot {handle : NodeHandle}
    (named : HandleSlot.Named meaning workspace (.node handle)) :
    HandleSlot.Named meaning workspace (.node handle.treeRoot) := by
  have map_eq : handle.stamps.map meaning = handle.node.ancestors := named.map_stamps
  constructor
  · have count : handle.stamps.length = handle.node.ancestors.length := by
      rw [← map_eq, List.length_map]
    change (handle.stamps.drop (handle.stamps.length - 1)).map meaning =
      handle.node.treeRoot.ancestors
    rw [List.map_drop, count, map_eq, handle.node.ancestors_drop]
  · intro stamp present
    exact named.stamp_lt stamp (List.mem_of_mem_drop present)

/-- A slot of a handle at hand can be named without changing the names in use. -/
theorem slot {holder : NodeHandle} {index : Nat} {found : HandleSlot}
    (named : HandleSlot.Named meaning workspace (.node holder))
    (run : holder.slot index workspace = .ok found later) :
    workspace.nextSerial ≤ later.nextSerial ∧ ∃ other : Stamp → Node, found.Named other later ∧
      ∀ stamp : Stamp, stamp.serial < workspace.nextSerial → other stamp = meaning stamp := by
  rcases NodeHandle.slot_cases run with
    ⟨child, shown, rfl, rfl⟩ | ⟨token, shown, rfl, rfl⟩ | ⟨_, rfl, rfl⟩
  · have ancestors_eq : child.ancestors = child :: holder.node.ancestors := by
      obtain ⟨_, _, rfl⟩ := Node.slot?_eq_node_iff.mp shown
      rfl
    have kept : ∀ stamp : Stamp, stamp.serial < workspace.nextSerial → _ :=
      fun stamp earlier => update_of_lt meaning child earlier
    refine ⟨Nat.le_succ _, Function.update meaning ⟨workspace.nextSerial⟩ child, ⟨?_, ?_⟩, kept⟩
    · have holderNamed := (named.congr kept).map_stamps
      exact (congrArg₂ List.cons (Function.update_self _ _ _) holderNamed).trans ancestors_eq.symm
    · refine List.forall_mem_cons.mpr ⟨Nat.lt_succ_self _, fun stamp present => ?_⟩
      exact Nat.lt_succ_of_lt (named.stamp_lt stamp present)
  · obtain ⟨green, _, rfl⟩ := Node.slot?_eq_token_iff.mp shown
    exact ⟨Nat.le_refl _, meaning, ⟨named.map_stamps, named.stamp_lt⟩, fun _ _ => rfl⟩
  · exact ⟨Nat.le_refl _, meaning, ⟨rfl, List.forall_mem_nil _⟩, fun _ _ => rfl⟩

end HandleSlot.Named

namespace HandleSlot.Placed

theorem node_iff {handle : NodeHandle} :
    HandleSlot.Placed made (.node handle) ↔
      ∃ root, .node root ∈ made ∧ Node.InTree root handle.node := by
  constructor
  · rintro (inTree | ⟨_, _, same, _⟩)
    · exact inTree
    · cases same
  · exact .inl

theorem token_iff {handle : TokenHandle} :
    HandleSlot.Placed made (.token handle) ↔
      (∃ root, .node root ∈ made ∧ Token.InTree root handle.token) ∨
        ∃ green, handle.token = .detached green ∧ .token green ∈ made := by
  obtain ⟨token, stamps⟩ := handle
  constructor
  · rintro (inTree | ⟨green, _, same, greenMade⟩)
    · exact .inl inTree
    · cases same
      exact .inr ⟨green, rfl, greenMade⟩
  · rintro (inTree | ⟨green, same, greenMade⟩)
    · exact .inl inTree
    · cases same
      exact .inr ⟨green, stamps, rfl, greenMade⟩

theorem of_held {handle : TokenHandle} {parent : Node}
    (placed : HandleSlot.Placed made (.token handle)) (held : handle.token.parent? = some parent) :
    ∃ root, .node root ∈ made ∧ Token.InTree root handle.token ∧ parent.treeRoot = .root root := by
  rcases token_iff.mp placed with ⟨root, rootMade, inTree⟩ | ⟨green, same, _⟩
  · have top := inTree.treeRoot?_eq
    rw [Token.treeRoot?, held, Option.map_some] at top
    exact ⟨root, rootMade, inTree, Option.some.inj top⟩
  · rw [same] at held
    cases held

theorem slot {holder : NodeHandle} {index : Nat} {found : HandleSlot}
    (placed : HandleSlot.Placed made (.node holder))
    (run : holder.slot index workspace = .ok found later) : found.Placed made := by
  obtain ⟨root, rootMade, inTree⟩ := node_iff.mp placed
  rcases NodeHandle.slot_cases run with
    ⟨child, shown, rfl, rfl⟩ | ⟨token, shown, rfl, rfl⟩ | ⟨shown, rfl, rfl⟩
  all_goals exact .inl ⟨root, rootMade, inTree.slot shown⟩

theorem parent {handle above : NodeHandle} (placed : HandleSlot.Placed made (.node handle))
    (found : handle.parent? = some above) : HandleSlot.Placed made (.node above) := by
  obtain ⟨root, rootMade, inTree⟩ := node_iff.mp placed
  obtain ⟨parent, isParent, rfl⟩ := Option.map_eq_some_iff.mp found
  exact node_iff.mpr ⟨root, rootMade, (inTree.parent isParent).1⟩

theorem tokenParent {handle : TokenHandle} {above : NodeHandle}
    (placed : HandleSlot.Placed made (.token handle)) (found : handle.parent? = some above) :
    HandleSlot.Placed made (.node above) := by
  obtain ⟨parent, held, rfl⟩ := Option.map_eq_some_iff.mp found
  obtain ⟨root, rootMade, inTree, _⟩ := placed.of_held held
  obtain ⟨holder, index, holderInTree, shown⟩ := inTree
  obtain ⟨_, _, same⟩ := Node.slot?_eq_token_iff.mp shown
  rw [same] at held
  cases held
  exact node_iff.mpr ⟨root, rootMade, holderInTree⟩

theorem treeRoot {handle : NodeHandle} (placed : HandleSlot.Placed made (.node handle)) :
    HandleSlot.Placed made (.node handle.treeRoot) := by
  obtain ⟨root, rootMade, inTree⟩ := node_iff.mp placed
  have above := handle.node.treeRoot_mem_ancestors
  exact node_iff.mpr ⟨root, rootMade, (inTree.of_mem_ancestors above).1⟩

end HandleSlot.Placed

namespace Materialized

variable {handles : List HandleSlot}

/-- New stamps name a new handle, and the handles at hand keep their names. -/
theorem exists_meaning_cons {meaning : Stamp → Node} {added : HandleSlot}
    (named : ∀ handle ∈ handles, handle.Named meaning workspace)
    (given : freshStamps added.ancestors workspace = .ok added.stamps later) :
    ∃ other : Stamp → Node, ∀ handle ∈ added :: handles, handle.Named other later := by
  obtain ⟨increased, below, other, map_eq, kept⟩ := freshStamps_eq_ok meaning given
  refine ⟨other, List.forall_mem_cons.mpr ⟨⟨map_eq, below⟩, fun handle present => ?_⟩⟩
  exact ((named handle present).congr kept).pass increased

theorem exists_meaning (materialized : Materialized made workspace handles) :
    ∃ meaning : Stamp → Node, ∀ handle ∈ handles, handle.Named meaning workspace := by
  induction materialized with
  | start => exact ⟨fun _ => .root (.assemble ⟨0⟩ .list [] []), List.forall_mem_nil _⟩
  | pass _ increased inductionHypothesis =>
      obtain ⟨meaning, named⟩ := inductionHypothesis
      exact ⟨meaning, fun handle present => (named handle present).pass increased⟩
  | node _ _ _ run inductionHypothesis =>
      obtain ⟨meaning, named⟩ := inductionHypothesis
      obtain ⟨rfl, given⟩ := NodeHandle.fresh_eq_ok run
      exact exists_meaning_cons named given
  | token _ _ _ run inductionHypothesis =>
      obtain ⟨meaning, named⟩ := inductionHypothesis
      obtain ⟨rfl, given⟩ := TokenHandle.fresh_eq_ok run
      exact exists_meaning_cons named given
  | detached _ _ run inductionHypothesis =>
      obtain ⟨meaning, named⟩ := inductionHypothesis
      obtain ⟨token_eq, given⟩ := TokenHandle.fresh_eq_ok run
      rw [← token_eq] at given
      exact exists_meaning_cons named given
  | slot _ present run inductionHypothesis =>
      obtain ⟨meaning, named⟩ := inductionHypothesis
      obtain ⟨increased, other, foundNamed, kept⟩ := (named _ present).slot run
      refine ⟨other, List.forall_mem_cons.mpr ⟨foundNamed, fun handle present => ?_⟩⟩
      exact ((named handle present).congr kept).pass increased
  | parent _ present found inductionHypothesis =>
      obtain ⟨meaning, named⟩ := inductionHypothesis
      exact ⟨meaning, List.forall_mem_cons.mpr ⟨(named _ present).parent found, named⟩⟩
  | tokenParent _ present found inductionHypothesis =>
      obtain ⟨meaning, named⟩ := inductionHypothesis
      exact ⟨meaning, List.forall_mem_cons.mpr ⟨(named _ present).tokenParent found, named⟩⟩
  | treeRoot _ present inductionHypothesis =>
      obtain ⟨meaning, named⟩ := inductionHypothesis
      exact ⟨meaning, List.forall_mem_cons.mpr ⟨(named _ present).treeRoot, named⟩⟩

/-- Whatever way a handle was come by, it has its place. -/
theorem placed (materialized : Materialized made workspace handles) :
    ∀ handle ∈ handles, handle.Placed made := by
  induction materialized with
  | start => exact List.forall_mem_nil _
  | pass _ _ inductionHypothesis => exact inductionHypothesis
  | node _ rootMade inTree run inductionHypothesis =>
      obtain ⟨rfl, _⟩ := NodeHandle.fresh_eq_ok run
      exact List.forall_mem_cons.mpr ⟨.inl ⟨_, rootMade, inTree⟩, inductionHypothesis⟩
  | token _ rootMade inTree run inductionHypothesis =>
      obtain ⟨rfl, _⟩ := TokenHandle.fresh_eq_ok run
      exact List.forall_mem_cons.mpr ⟨.inl ⟨_, rootMade, inTree⟩, inductionHypothesis⟩
  | detached _ greenMade run inductionHypothesis =>
      cases run
      exact List.forall_mem_cons.mpr ⟨.inr ⟨_, _, rfl, greenMade⟩, inductionHypothesis⟩
  | slot _ present run inductionHypothesis =>
      exact List.forall_mem_cons.mpr
        ⟨(inductionHypothesis _ present).slot run, inductionHypothesis⟩
  | parent _ present found inductionHypothesis =>
      exact List.forall_mem_cons.mpr
        ⟨(inductionHypothesis _ present).parent found, inductionHypothesis⟩
  | tokenParent _ present found inductionHypothesis =>
      exact List.forall_mem_cons.mpr
        ⟨(inductionHypothesis _ present).tokenParent found, inductionHypothesis⟩
  | treeRoot _ present inductionHypothesis =>
      exact List.forall_mem_cons.mpr
        ⟨(inductionHypothesis _ present).treeRoot, inductionHypothesis⟩

end Materialized

end SyntaxTree.Red

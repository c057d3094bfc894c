import SyntaxTree.Proofs.Place

/-!
Paths: the slot indexes on the way down from a node, outermost first. What stands at the end of a
path is told by green values alone, since the offset of a handle is the sum of the offsets of the
slots on its way. Main statements: what handles show at the end of a path is what the green values
have there, and the nodes that paths from a root lead to are the handles in its tree.
-/

namespace SyntaxTree

namespace Green

/-- A slot with the offset at which it starts. An absent slot starts where those before it end. -/
structure Spot where
  content : Slot
  start : Nat

namespace Slot

/-- The slot at the end of a path below a slot that starts at a given offset. -/
def spot? : Slot → Nat → List Nat → Option Spot
  | slot, start, [] => some ⟨slot, start⟩
  | .node node, start, index :: rest =>
    (node.slot? index).bind fun slot => spot? slot (start + node.slotOffset index) rest
  | .token _, _, _ :: _ | .absent, _, _ :: _ => none

@[simp]
theorem spot?_nil (slot : Slot) (start : Nat) : slot.spot? start [] = some ⟨slot, start⟩ := by
  cases slot <;> rfl

theorem spot?_node_cons (node : Node) (start index : Nat) (rest : List Nat) :
    Slot.spot? (.node node) start (index :: rest) =
      (node.slot? index).bind fun slot => spot? slot (start + node.slotOffset index) rest := rfl

theorem spot?_cons_eq_some_iff {slot : Slot} {start index : Nat} {rest : List Nat} {spot : Spot} :
    slot.spot? start (index :: rest) = some spot ↔
      ∃ (node : Node) (next : Slot), slot = .node node ∧ node.slots[index]? = some next ∧
        next.spot? (start + node.slotOffset index) rest = some spot := by
  constructor
  · intro found
    cases slot with
    | node node =>
        obtain ⟨next, present, below⟩ := Option.bind_eq_some_iff.mp found
        exact ⟨node, next, rfl, present, below⟩
    | token token => cases found
    | absent => cases found
  · rintro ⟨node, next, rfl, present, below⟩
    rw [spot?_node_cons, Node.slot?, present, Option.bind_some, below]

theorem spot?_append (slot : Slot) (start : Nat) (front back : List Nat) :
    slot.spot? start (front ++ back) =
      (slot.spot? start front).bind fun spot => spot.content.spot? spot.start back := by
  induction front generalizing slot start with
  | nil => simp
  | cons index rest inductionHypothesis =>
      cases slot with
      | node node =>
          simp only [List.cons_append, spot?_node_cons, Option.bind_assoc]
          exact congrArg _ (funext fun next => inductionHypothesis next _)
      | token token => rfl
      | absent => rfl

/-- What has something below it is a node. -/
theorem spot?_append_node {slot : Slot} {start : Nat} {front back : List Nat} {spot : Spot}
    (found : slot.spot? start (front ++ back) = some spot) (further : back ≠ []) :
    ∃ node middle, slot.spot? start front = some ⟨.node node, middle⟩ ∧
      Slot.spot? (.node node) middle back = some spot := by
  rw [spot?_append, Option.bind_eq_some_iff] at found
  obtain ⟨⟨content, middle⟩, frontFound, below⟩ := found
  obtain ⟨index, rest, rfl⟩ := List.exists_cons_of_ne_nil further
  obtain ⟨node, _, rfl, _, _⟩ := spot?_cons_eq_some_iff.mp below
  exact ⟨node, middle, frontFound, below⟩

/-- Where a slot starts says only where everything below it starts. -/
theorem spot?_of_start {slot : Slot} {start : Nat} {path : List Nat} {spot : Spot}
    (found : slot.spot? start path = some spot) (later : Nat) :
    ∃ moved, slot.spot? later path = some moved ∧ moved.content = spot.content ∧
      moved.start + start = spot.start + later := by
  induction path generalizing slot start later with
  | nil =>
      rw [spot?_nil, Option.some.injEq] at found
      subst found
      exact ⟨_, spot?_nil _ _, rfl, Nat.add_comm _ _⟩
  | cons index rest inductionHypothesis =>
      obtain ⟨node, next, rfl, present, below⟩ := spot?_cons_eq_some_iff.mp found
      obtain ⟨moved, movedFound, content_eq, start_eq⟩ :=
        inductionHypothesis below (later + node.slotOffset index)
      refine ⟨moved, ?_, content_eq, by omega⟩
      exact spot?_cons_eq_some_iff.mpr ⟨node, next, rfl, present, movedFound⟩

end Slot

theorem History.spot_available {workspace : Workspace} {made : List Slot}
    (history : History workspace made) {slot : Slot} {start : Nat} {path : List Nat} {spot : Spot}
    (available : Available made slot) (found : slot.spot? start path = some spot) :
    Available made spot.content := by
  induction path generalizing slot start with
  | nil =>
      rw [Slot.spot?_nil, Option.some.injEq] at found
      subst found
      exact available
  | cons index rest inductionHypothesis =>
      obtain ⟨node, next, rfl, present, below⟩ := Slot.spot?_cons_eq_some_iff.mp found
      have nodeMade : .node node ∈ made := available.resolve_left (by simp)
      exact inductionHypothesis (history.slots_available nodeMade next (List.mem_of_getElem? present))
        below

end Green

namespace Red.Node

/-- What the handles below a node show at the end of a path. -/
def spot? : Node → List Nat → Option Green.Spot
  | node, [] => some ⟨.node node.green, node.offset⟩
  | node, index :: rest =>
    match node.slot? index with
    | some (.node below) => below.spot? rest
    | some (.token token) => if rest = [] then some ⟨.token token.green, token.offset⟩ else none
    | some .absent =>
      if rest = [] then some ⟨.absent, node.offset + node.green.slotOffset index⟩ else none
    | none => none

/-- Handles show what the green values have. -/
theorem spot?_eq (node : Node) (path : List Nat) :
    node.spot? path = Green.Slot.spot? (.node node.green) node.offset path := by
  induction path generalizing node with
  | nil => rfl
  | cons index rest inductionHypothesis =>
      cases found : node.green.slots[index]? with
      | none => simp [spot?, slot?, Green.Node.slot?, Green.Slot.spot?_node_cons, found]
      | some slot =>
          cases slot with
          | node green =>
              have shown := slot?_eq_node_iff.mpr ⟨green, found, rfl⟩
              simp only [spot?, shown, inductionHypothesis, Green.Slot.spot?_node_cons,
                Green.Node.slot?, found]
              rfl
          | token green =>
              have shown := slot?_eq_token_iff.mpr ⟨green, found, rfl⟩
              simp only [spot?, shown, Green.Slot.spot?_node_cons, Green.Node.slot?, found]
              cases rest <;> rfl
          | absent =>
              have shown : node.slot? index = some .absent := by
                simp [slot?, Green.Node.slot?, found, view]
              simp only [spot?, shown, Green.Slot.spot?_node_cons, Green.Node.slot?, found]
              cases rest <;> rfl

theorem descend_cons_eq_ok_iff {node last : Node} {index : Nat} {rest : List Nat} :
    node.descend (index :: rest) = .ok last ↔
      ∃ child, node.slot? index = some (.node child) ∧ child.descend rest = .ok last := by
  rw [descend]
  constructor
  · intro reached
    cases required : node.requireNode index "spine slot holds a node" with
    | error cause => simp [required, bind, Except.bind] at reached
    | ok next =>
        simp only [required, bind, Except.bind] at reached
        exact ⟨next, requireNode_eq_ok_iff.mp required, reached⟩
  · rintro ⟨next, shown, reached⟩
    rw [requireNode_eq_ok_iff.mpr shown]
    exact reached

/-- Going down a path ends at a node exactly when the path ends at its green value. -/
theorem spot?_eq_node_iff {node : Node} {path : List Nat} {green : Green.Node} {start : Nat} :
    node.spot? path = some ⟨.node green, start⟩ ↔
      ∃ last, node.descend path = .ok last ∧ last.green = green ∧ last.offset = start := by
  induction path generalizing node with
  | nil => simp [spot?, descend]
  | cons index rest inductionHypothesis =>
      simp only [descend_cons_eq_ok_iff]
      constructor
      · intro found
        cases shown : node.slot? index with
        | none => simp [spot?, shown] at found
        | some slot =>
            cases slot with
            | node child =>
                simp only [spot?, shown] at found
                obtain ⟨last, reached, same⟩ := inductionHypothesis.mp found
                exact ⟨last, ⟨child, rfl, reached⟩, same⟩
            | token token => simp [spot?, shown] at found
            | absent => simp [spot?, shown] at found
      · rintro ⟨last, ⟨child, shown, reached⟩, same⟩
        simp only [spot?, shown]
        exact inductionHypothesis.mpr ⟨last, reached, same⟩

theorem descend_path_eq {node last : Node} {path : List Nat} (reached : node.descend path = .ok last) :
    last.path.reverse = node.path.reverse ++ path := by
  induction path generalizing node with
  | nil =>
      cases reached
      simp
  | cons index rest inductionHypothesis =>
      obtain ⟨child, shown, below⟩ := descend_cons_eq_ok_iff.mp reached
      obtain ⟨green, _, rfl⟩ := slot?_eq_node_iff.mp shown
      rw [inductionHypothesis below, path, List.reverse_cons, List.append_assoc]
      rfl

theorem InTree.descend {root : Green.Node} {node last : Node} {path : List Nat}
    (inTree : InTree root node) (reached : node.descend path = .ok last) : InTree root last := by
  induction path generalizing node with
  | nil =>
      cases reached
      exact inTree
  | cons index rest inductionHypothesis =>
      obtain ⟨child, shown, below⟩ := descend_cons_eq_ok_iff.mp reached
      exact inductionHypothesis (inTree.child shown) below

theorem InTree.spot?_path {root : Green.Node} {node : Node} (inTree : InTree root node) :
    Green.Slot.spot? (.node root) 0 node.path.reverse = some ⟨.node node.green, node.offset⟩ := by
  have shown := spot?_eq_node_iff.mpr ⟨node, inTree.descend_path, rfl, rfl⟩
  rwa [spot?_eq] at shown

/-- A path from the root to a green node is the path of a handle. -/
theorem exists_inTree {root green : Green.Node} {path : List Nat} {start : Nat}
    (found : Green.Slot.spot? (.node root) 0 path = some ⟨.node green, start⟩) :
    ∃ node, (Node.root root).descend path = .ok node ∧ InTree root node ∧
      node.path.reverse = path ∧ node.green = green ∧ node.offset = start := by
  have shown : (Node.root root).spot? path = some ⟨.node green, start⟩ := by
    rw [spot?_eq]
    exact found
  obtain ⟨node, reached, green_eq, start_eq⟩ := spot?_eq_node_iff.mp shown
  exact ⟨node, reached, InTree.root.descend reached, descend_path_eq reached, green_eq, start_eq⟩

end Red.Node

end SyntaxTree

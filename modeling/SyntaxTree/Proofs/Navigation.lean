import SyntaxTree.Proofs.Path
import SyntaxTree.Proofs.Touching

/-!
Ways from one handle to others. Main statements: whatever a handle in a tree is asked, all handles
it answers are in that tree; and a handle in a tree is anchored, which is to say that the slot
indexes above it lead from the root to what it sees, at its offset, and back to the handle itself.
-/

namespace SyntaxTree.Red

/-- What a handle can be asked for. -/
inductive Query
  | slot (index : Nat)
  /-- Takes slots from either end. -/
  | children (directions : List Direction)
  | parent
  | treeRoot
  | ancestors
  /-- Walks to the end, skipping after the events at chosen positions. -/
  | walk (showsTokens : Bool) (skipAfter : Nat → Bool)
  | firstToken
  | lastToken
  | tokenAt (offset : Nat)

def WalkEvent.handle : WalkEvent → Slot
  | .enter node | .leave node => .node node
  | .token value => .token value

/-- The handles that a node answers. There are none where it has nothing to answer. -/
def Node.answers (node : Node) : Query → List Slot
  | .slot index => (node.slot index).toOption.toList
  | .children directions => ((Cursor.ofNode node).answers directions).filterMap (·.1)
  | .parent => node.parent?.toList.map .node
  | .treeRoot => [.node node.treeRoot]
  | .ancestors => node.ancestors.map .node
  | .walk showsTokens skipAfter =>
    ((Walk.start showsTokens node).run skipAfter).1.map WalkEvent.handle
  | .firstToken => node.firstToken?.toList.map .token
  | .lastToken => node.lastToken?.toList.map .token
  | .tokenAt offset => (node.tokenAt offset).tokens.map .token

/-- The handles that a token answers, which can only be asked what is above it. -/
def Token.answers (token : Token) : Query → List Slot
  | .parent => token.parent?.toList.map .node
  | .ancestors => token.ancestors.map .node
  | .slot _ | .children _ | .treeRoot | .walk _ _ | .firstToken | .lastToken | .tokenAt _ => []

def Slot.answers : Slot → Query → List Slot
  | .node node => node.answers
  | .token token => token.answers
  | .absent => fun _ => []

def Slot.InTree (root : Green.Node) : Slot → Prop
  | .node node => Node.InTree root node
  | .token token => Token.InTree root token
  | .absent => True

variable {root : Green.Node}

theorem Node.InTree.slot {node : Node} {index : Nat} {slot : Slot} (inTree : InTree root node)
    (shown : node.slot? index = some slot) : slot.InTree root := by
  cases slot with
  | node child => exact inTree.child shown
  | token token => exact ⟨node, index, inTree, shown⟩
  | absent => trivial

namespace Cursor

variable {cursor later : Cursor} {slot : Slot}

theorem take?_eq_some (direction : Direction)
    (taken : cursor.take? direction = some (slot, later)) :
    later.node = cursor.node ∧ ∃ index, cursor.node.slot? index = some slot := by
  cases direction with
  | forward =>
      rw [take?, next?] at taken
      split at taken
      · cases taken
      · obtain ⟨_, shown, same⟩ := Option.map_eq_some_iff.mp taken
        cases same
        exact ⟨rfl, _, shown⟩
  | backward =>
      rw [take?, nextBack?] at taken
      split at taken
      · cases taken
      · obtain ⟨_, shown, same⟩ := Option.map_eq_some_iff.mp taken
        cases same
        exact ⟨rfl, _, shown⟩

theorem mem_answers {directions : List Direction} {count : Nat}
    (present : (some slot, count) ∈ cursor.answers directions) :
    ∃ index, cursor.node.slot? index = some slot := by
  induction directions generalizing cursor with
  | nil => cases present
  | cons direction rest inductionHypothesis =>
      rw [answers] at present
      split at present
      · rcases List.mem_cons.mp present with same | further
        · cases same
        · exact inductionHypothesis further
      · next taken =>
          obtain ⟨sameNode, index, shown⟩ := take?_eq_some direction taken
          rcases List.mem_cons.mp present with same | further
          · cases same
            exact ⟨index, shown⟩
          · rw [← sameNode]
            exact inductionHypothesis further

theorem seekWithin_eq_some {wanted : Slot → Bool} {steps : Nat}
    (found : seekWithin wanted steps cursor = some (slot, later)) :
    later.node = cursor.node ∧ ∃ index, cursor.node.slot? index = some slot := by
  induction steps generalizing cursor with
  | zero => cases found
  | succ steps inductionHypothesis =>
      rw [seekWithin] at found
      split at found
      · cases found
      · next taken =>
          obtain ⟨sameNode, shown⟩ := take?_eq_some .forward taken
          split at found
          · cases found
            exact ⟨sameNode, shown⟩
          · rw [← sameNode]
            exact inductionHypothesis found

end Cursor

namespace Walk

/-- Whether a walk in progress has to do with nodes of a tree only. -/
structure Within (root : Green.Node) (walk : Walk) : Prop where
  pending : ∀ node, walk.pending = some node → Node.InTree root node
  opened : ∀ cursor ∈ walk.opened, Node.InTree root cursor.node

variable {walk later : Walk} {event : WalkEvent}

theorem Within.next? (within : walk.Within root) (shown : walk.next? = some (event, later)) :
    event.handle.InTree root ∧ later.Within root := by
  obtain ⟨showsTokens, pending, opened⟩ := walk
  obtain ⟨pendingIn, openedIn⟩ := within
  have none : ∀ node, (Option.none : Option Node) = some node → Node.InTree root node :=
    fun _ same => by cases same
  cases pending with
  | some node =>
      cases shown
      have nodeIn := pendingIn node rfl
      exact ⟨nodeIn, none, List.forall_mem_cons.mpr ⟨nodeIn, openedIn⟩⟩
  | none =>
      cases opened with
      | nil => cases shown
      | cons cursor outer =>
          obtain ⟨cursorIn, outerIn⟩ := List.forall_mem_cons.mp openedIn
          simp only [Walk.next?] at shown
          split at shown
          · next found =>
              cases shown
              obtain ⟨sameNode, index, slotShown⟩ := Cursor.seekWithin_eq_some found
              have childIn := cursorIn.child slotShown
              rw [← sameNode] at cursorIn
              exact ⟨childIn, none, List.forall_mem_cons.mpr
                ⟨childIn, List.forall_mem_cons.mpr ⟨cursorIn, outerIn⟩⟩⟩
          · next found =>
              cases shown
              obtain ⟨sameNode, index, slotShown⟩ := Cursor.seekWithin_eq_some found
              have tokenIn : Token.InTree root _ := ⟨_, index, cursorIn, slotShown⟩
              rw [← sameNode] at cursorIn
              exact ⟨tokenIn, none, List.forall_mem_cons.mpr ⟨cursorIn, outerIn⟩⟩
          · cases shown
            exact ⟨cursorIn, none, outerIn⟩
          · cases shown
            exact ⟨cursorIn, none, outerIn⟩

theorem Within.skip (within : walk.Within root) (skipped : walk.skip = .ok later) :
    later.Within root := by
  obtain ⟨showsTokens, pending, opened⟩ := walk
  cases opened with
  | nil => cases skipped
  | cons cursor outer =>
      cases skipped
      exact ⟨within.pending, (List.forall_mem_cons.mp within.opened).2⟩

theorem Within.runWithin (within : walk.Within root) (skipAfter : Nat → Bool)
    (steps position : Nat) :
    ∀ event ∈ (Walk.runWithin skipAfter steps position walk).1, event.handle.InTree root := by
  induction steps generalizing walk position with
  | zero => exact List.forall_mem_nil _
  | succ steps inductionHypothesis =>
      rw [Walk.runWithin]
      split
      · exact List.forall_mem_nil _
      · next shown =>
          obtain ⟨eventIn, restIn⟩ := within.next? shown
          split
          · exact List.forall_mem_cons.mpr ⟨eventIn, List.forall_mem_nil _⟩
          · next gone =>
              split at gone
              · exact List.forall_mem_cons.mpr ⟨eventIn, inductionHypothesis (restIn.skip gone) _⟩
              · cases gone
                exact List.forall_mem_cons.mpr ⟨eventIn, inductionHypothesis restIn _⟩

theorem run_inTree {node : Node} (inTree : Node.InTree root node) (showsTokens : Bool)
    (skipAfter : Nat → Bool) :
    ∀ event ∈ ((start showsTokens node).run skipAfter).1, event.handle.InTree root := by
  have within : (start showsTokens node).Within root := by
    refine ⟨?_, List.forall_mem_nil _⟩
    rintro _ ⟨rfl⟩
    exact inTree
  exact within.runWithin skipAfter _ _

end Walk

/-- The outermost token of a slot, with that of a node looked for in a given way. -/
def Slot.outermost? (find : Node → Option Token) : Slot → Option Token
  | .node node => find node
  | .token token => some token
  | .absent => none

theorem Node.firstToken?_eq (node : Node) :
    node.firstToken? = node.slots.findSome? (Slot.outermost? Node.firstToken?) := by
  rw [firstToken?, fold_eq, firstFound, List.findSome?_map]
  refine congrArg (node.slots.findSome? ·) (funext fun slot => ?_)
  cases slot <;> rfl

theorem Node.lastToken?_eq (node : Node) :
    node.lastToken? = node.slots.reverse.findSome? (Slot.outermost? Node.lastToken?) := by
  rw [lastToken?, fold_eq, firstFound, ← List.map_reverse, List.findSome?_map]
  refine congrArg (node.slots.reverse.findSome? ·) (funext fun slot => ?_)
  cases slot <;> rfl

theorem TokenAtOffset.mem_tokens_join {answers : List TokenAtOffset} {token : Token}
    (present : token ∈ (join answers).tokens) : ∃ answer ∈ answers, token ∈ answer.tokens := by
  unfold join at present
  split at present
  · cases present
  · exact ⟨_, List.mem_cons_self, present⟩
  · next left right _ =>
      rcases List.mem_cons.mp present with rfl | rightPresent
      · exact ⟨_, List.mem_cons_self, List.mem_singleton_self _⟩
      · exact ⟨_, List.mem_cons_of_mem _ List.mem_cons_self, rightPresent⟩
  · exact ⟨_, List.mem_cons_self, present⟩

namespace Node.InTree

variable {node : Node} {token : Token}

/-- In whatever order the slots are searched for a token, the one found is in the tree. -/
theorem outermost {find : Node → Option Token} (arrange : List Slot → List Slot)
    (arranged : ∀ {slots slot}, slot ∈ arrange slots → slot ∈ slots)
    (find_eq : ∀ node, find node = (arrange node.slots).findSome? (Slot.outermost? find))
    (inTree : InTree root node) (found : find node = some token) : Token.InTree root token := by
  induction node using below_induction with
  | step node inductionHypothesis =>
      rw [find_eq] at found
      obtain ⟨slot, searched, slotFound⟩ := List.exists_of_findSome?_eq_some found
      have present := arranged searched
      obtain ⟨index, shown⟩ := mem_slots_iff.mp present
      cases slot with
      | node child => exact inductionHypothesis present (inTree.child shown) slotFound
      | token token =>
          cases slotFound
          exact ⟨node, index, inTree, shown⟩
      | absent => cases slotFound

theorem firstToken (inTree : InTree root node) (found : node.firstToken? = some token) :
    Token.InTree root token :=
  inTree.outermost id id firstToken?_eq found

theorem lastToken (inTree : InTree root node) (found : node.lastToken? = some token) :
    Token.InTree root token :=
  inTree.outermost List.reverse List.mem_reverse.mp lastToken?_eq found

theorem tokenAt {offset : Nat} (inTree : InTree root node)
    (present : token ∈ (node.tokenAt offset).tokens) : Token.InTree root token := by
  induction node using below_induction with
  | step node inductionHypothesis =>
      rw [tokenAt_eq] at present
      split at present
      · obtain ⟨answer, answered, tokenAnswered⟩ := TokenAtOffset.mem_tokens_join present
        obtain ⟨slot, touching, rfl⟩ := List.mem_map.mp answered
        obtain ⟨slotPresent, _⟩ := List.mem_filter.mp touching
        obtain ⟨index, shown⟩ := mem_slots_iff.mp slotPresent
        cases slot with
        | node child => exact inductionHypothesis slotPresent (inTree.child shown) tokenAnswered
        | token other =>
            obtain rfl := List.mem_singleton.mp tokenAnswered
            exact ⟨node, index, inTree, shown⟩
        | absent => cases tokenAnswered
      · cases present

/-- All that a node in a tree answers is in the tree. -/
theorem answers (inTree : InTree root node) (query : Query) :
    ∀ slot ∈ node.answers query, slot.InTree root := by
  cases query with
  | slot index =>
      rw [Node.answers]
      cases found : node.slot index with
      | ok slot => exact List.forall_mem_singleton.mpr (inTree.slot (slot_eq_ok_iff.mp found))
      | error cause => exact List.forall_mem_nil _
  | children directions =>
      intro slot present
      obtain ⟨answer, answered, shown⟩ := List.mem_filterMap.mp present
      obtain ⟨taken, count⟩ := answer
      cases shown
      obtain ⟨index, slotShown⟩ := Cursor.mem_answers answered
      exact inTree.slot slotShown
  | parent =>
      rw [Node.answers, List.forall_mem_map]
      exact fun above present => (inTree.parent (Option.mem_toList.mp present)).1
  | treeRoot =>
      rw [Node.answers, inTree.treeRoot_eq]
      exact List.forall_mem_singleton.mpr InTree.root
  | ancestors =>
      rw [Node.answers, List.forall_mem_map]
      exact fun above present => (inTree.of_mem_ancestors present).1
  | walk showsTokens skipAfter =>
      rw [Node.answers, List.forall_mem_map]
      exact Walk.run_inTree inTree showsTokens skipAfter
  | firstToken =>
      rw [Node.answers, List.forall_mem_map]
      exact fun token present => inTree.firstToken (Option.mem_toList.mp present)
  | lastToken =>
      rw [Node.answers, List.forall_mem_map]
      exact fun token present => inTree.lastToken (Option.mem_toList.mp present)
  | tokenAt offset =>
      rw [Node.answers, List.forall_mem_map]
      exact fun token present => inTree.tokenAt present

end Node.InTree

namespace Token.InTree

variable {token : Token}

theorem parent {above : Node} (inTree : InTree root token) (found : token.parent? = some above) :
    Node.InTree root above := by
  cases token with
  | detached green => cases found
  | held green offset slot holder =>
      cases found
      exact (held_iff.mp inTree).1

theorem ancestors {above : Node} (inTree : InTree root token) (present : above ∈ token.ancestors) :
    Node.InTree root above := by
  cases token with
  | detached green => cases present
  | held green offset slot holder => exact ((held_iff.mp inTree).1.of_mem_ancestors present).1

theorem answers (inTree : InTree root token) (query : Query) :
    ∀ slot ∈ token.answers query, slot.InTree root := by
  cases query with
  | parent =>
      rw [Token.answers, List.forall_mem_map]
      exact fun above present => inTree.parent (Option.mem_toList.mp present)
  | ancestors =>
      rw [Token.answers, List.forall_mem_map]
      exact fun above present => inTree.ancestors present
  | slot _ | children _ | treeRoot | walk _ _ | firstToken | lastToken | tokenAt _ =>
      exact List.forall_mem_nil _

end Token.InTree

/-- Asking leads from a handle in a tree to handles in the same tree only. -/
theorem Slot.InTree.answers {handle : Slot} (inTree : handle.InTree root) (query : Query) :
    ∀ slot ∈ handle.answers query, slot.InTree root := by
  cases handle with
  | node node => exact Node.InTree.answers inTree query
  | token token => exact Token.InTree.answers inTree query
  | absent => exact List.forall_mem_nil _

theorem Node.samePlace_self (node : Node) : node.samePlace node = true := by
  induction node with
  | root green => simp [samePlace, Green.Node.identical]
  | child green offset slot parent inductionHypothesis =>
      simp [samePlace, Green.Node.identical, inductionHypothesis]

theorem Token.samePlace_self (token : Token) : token.samePlace token = true := by
  cases token with
  | detached green => simp [samePlace, Green.Token.identical]
  | held green offset slot parent =>
      simp [samePlace, Green.Token.identical, parent.samePlace_self]

/-- Whether the slot indexes above a node lead from its root to what it sees, at its offset, and back
to the node itself, past its ancestors and no other nodes. -/
structure Node.Anchored (node : Node) : Prop where
  spot_eq : Green.Slot.spot? (.node node.treeRoot.green) 0 node.path.reverse =
    some ⟨.node node.green, node.offset⟩
  ancestors_eq : node.ancestors.map Except.ok =
    node.path.tails.map fun chain => node.treeRoot.descend chain.reverse
  outermost : node.ancestors.getLast? = some node.treeRoot ∧ node.treeRoot.isRoot = true ∧
    node.treeRoot.offset = 0
  again : ∃ again, node.treeRoot.descend node.path.reverse = .ok again ∧
    again.samePlace node = true
  below : ∀ parent, node.parent? = some parent → ∃ index again, node.slotIndex? = some index ∧
    parent.slot index = .ok (.node again) ∧ again.samePlace node = true

/-- Whether a token is where its parent, which is anchored, has it in a slot. -/
structure Token.AnchoredBelow (parent : Node) (index : Nat) (token : Token) : Prop where
  parent_eq : token.parent? = some parent
  slotIndex_eq : token.slotIndex? = some index
  parentAnchored : parent.Anchored
  spot_eq : Green.Slot.spot? (.node parent.treeRoot.green) 0 (parent.path.reverse ++ [index]) =
    some ⟨.token token.green, token.offset⟩
  ancestors_eq : token.ancestors = parent.ancestors
  again : ∃ holder again, parent.treeRoot.descend parent.path.reverse = .ok holder ∧
    holder.slot index = .ok (.token again) ∧ again.samePlace token = true
  below : ∃ again, parent.slot index = .ok (.token again) ∧ again.samePlace token = true

def Token.Anchored (token : Token) : Prop := ∃ parent index, token.AnchoredBelow parent index

def Slot.Anchored : Slot → Prop
  | .node node => node.Anchored
  | .token token => token.Anchored
  | .absent => True

namespace Node

theorem ancestors_getLast? (node : Node) : node.ancestors.getLast? = some node.treeRoot := by
  induction node with
  | root green => rfl
  | child green offset slot parent inductionHypothesis =>
      rw [ancestors, List.getLast?_cons, inductionHypothesis]
      rfl

namespace InTree

variable {node : Node}

/-- The ancestors of a node are what the beginnings of the way to it lead to. -/
theorem map_ancestors (inTree : InTree root node) :
    node.ancestors.map Except.ok =
      node.path.tails.map fun chain => (Node.root root).descend chain.reverse := by
  induction node with
  | root green =>
      rw [root_iff.mp inTree]
      rfl
  | child green offset slot parent inductionHypothesis =>
      rw [ancestors, path, List.tails, List.map_cons, List.map_cons,
        inductionHypothesis (child_iff.mp inTree).1, ← inTree.descend_path]
      rfl

theorem slot_slotIndex {parent : Node} (inTree : InTree root node)
    (above : node.parent? = some parent) :
    ∃ index, node.slotIndex? = some index ∧ parent.slot index = .ok (.node node) := by
  cases node with
  | root green => cases above
  | child green offset slot holder =>
      cases above
      obtain ⟨_, present, rfl⟩ := child_iff.mp inTree
      exact ⟨slot, rfl, slot_eq_ok_iff.mpr (slot?_eq_node_iff.mpr ⟨green, present, rfl⟩)⟩

theorem anchored (inTree : InTree root node) : node.Anchored := by
  have top := inTree.treeRoot_eq
  refine ⟨?_, ?_, ⟨node.ancestors_getLast?, ?_, ?_⟩, ?_, ?_⟩
  · rw [top]
    exact inTree.spot?_path
  · rw [top]
    exact inTree.map_ancestors
  · rw [top]
    rfl
  · rw [top]
    rfl
  · rw [top]
    exact ⟨node, inTree.descend_path, node.samePlace_self⟩
  · intro parent above
    obtain ⟨index, indexed, shown⟩ := inTree.slot_slotIndex above
    exact ⟨index, node, indexed, shown, node.samePlace_self⟩

end InTree

end Node

theorem Token.InTree.anchored {token : Token} (inTree : InTree root token) : token.Anchored := by
  cases token with
  | detached green => exact absurd inTree detached_iff
  | held green offset slot parent =>
      obtain ⟨parentInTree, present, rfl⟩ := held_iff.mp inTree
      have top := parentInTree.treeRoot_eq
      have shown : parent.slot slot = .ok (.token (.held green _ slot parent)) :=
        Node.slot_eq_ok_iff.mpr (Node.slot?_eq_token_iff.mpr ⟨green, present, rfl⟩)
      refine ⟨parent, slot, rfl, rfl, parentInTree.anchored, ?_, rfl, ?_, ?_⟩
      · rw [top, Green.Slot.spot?_append]
        exact (congrArg (Option.bind · _) parentInTree.spot?_path).trans
          (Green.Slot.spot?_cons_eq_some_iff.mpr ⟨_, _, rfl, present, Green.Slot.spot?_nil _ _⟩)
      · rw [top]
        exact ⟨parent, _, parentInTree.descend_path, shown, Token.samePlace_self _⟩
      · exact ⟨_, shown, Token.samePlace_self _⟩

/-- Every handle in a tree is anchored there. -/
theorem Slot.InTree.anchored {handle : Slot} (inTree : handle.InTree root) : handle.Anchored := by
  cases handle with
  | node node => exact Node.InTree.anchored inTree
  | token token => exact Token.InTree.anchored inTree
  | absent => trivial

end SyntaxTree.Red

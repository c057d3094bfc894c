import SyntaxTree.Proofs.Rechecking
import SyntaxTree.Proofs.Replacement
import SyntaxTree.Proofs.SamePlace
import SyntaxTree.Proofs.Transforming

/-!
Transforms that change what stands at one place. Off the way to that place every green value comes
back as the very same one, so that what is left of such a transform is an ascent from the place: one
ancestor after the other is built anew with the slot that changed. Main statements: the ascent
succeeds just when staging the change does, with the tree that the edit makes; and it is refused for
the reason that staging gives, but for the owner where a list slot holds a list of wrong elements.
-/

namespace SyntaxTree

/-- An action for every item of which all but one do nothing. -/
theorem mapM_eq_of_others {Item Value : Type} {action : Item → Build Value}
    {result : Item → Value} {items : List Item} {index : Nat} {item : Item}
    (present : items[index]? = some item)
    (others : ∀ (position : Nat) (other : Item), items[position]? = some other →
      position ≠ index → action other = pure (result other)) :
    items.mapM action = do return (items.map result).set index (← action item) := by
  induction items generalizing index with
  | nil => simp at present
  | cons first rest inductionHypothesis =>
      cases index with
      | zero =>
          obtain rfl : first = item := by simpa using present
          have restKept : rest.mapM action = pure (rest.map result) := by
            apply mapM_eq_pure
            intro other otherPresent
            obtain ⟨position, found⟩ := List.mem_iff_getElem?.mp otherPresent
            exact others (position + 1) other (by simpa using found) (Nat.succ_ne_zero position)
          simp [restKept]
      | succ index =>
          have firstKept := others 0 first rfl (Nat.succ_ne_zero index).symm
          have restDone := @inductionHypothesis index (by simpa using present)
            fun position other found apart =>
              others (position + 1) other (by simpa using found) (by simpa using apart)
          simp [firstKept, restDone]

namespace Red.Node

variable {node : Node} {index : Nat}

theorem path_of_child {child : Node} (shown : node.slot? index = some (.node child)) :
    child.path = index :: node.path := by
  obtain ⟨green, _, rfl⟩ := slot?_eq_node_iff.mp shown
  rfl

theorem path_of_token {token : Token} (shown : node.slot? index = some (.token token)) :
    token.path = index :: node.path := by
  obtain ⟨green, _, rfl⟩ := slot?_eq_token_iff.mp shown
  rfl

end Red.Node

namespace Transform

/-- Gives a green token for the token at one place. -/
def swapToken (token : Red.Token) (green : Green.Token) : Transform Build where
  onNode _ rebuilt := rebuilt
  onToken other := return if other.samePlace token then green else other.green

/-- Gives a green node for the node at one place, and goes through the slots of all others. -/
def swapNode (node : Red.Node) (green : Green.Node) : Transform Build where
  onNode other rebuilt := if other.samePlace node then return green else rebuilt
  onToken other := return other.green

/-- Whether a transform leaves alone all that is not at the end of a path. -/
structure OnlyAt (transform : Transform Build) (path : List Nat) : Prop where
  onNode : ∀ {node : Red.Node}, node.path ≠ path → ∀ rebuilt,
    transform.onNode node rebuilt = rebuilt
  onToken : ∀ {token : Red.Token}, token.path ≠ path → transform.onToken token = pure token.green

theorem onlyAt_swapToken (token : Red.Token) (green : Green.Token) :
    (swapToken token green).OnlyAt token.path where
  onNode _ _ := rfl
  onToken {other} apart := by
    have elsewhere : other.samePlace token = false := by
      rw [← Bool.not_eq_true]
      exact fun same => apart (Red.Token.path_eq_of_samePlace same)
    simp [swapToken, elsewhere]

theorem onlyAt_swapNode (node : Red.Node) (green : Green.Node) :
    (swapNode node green).OnlyAt node.path where
  onNode {other} apart rebuilt := by
    have elsewhere : other.samePlace node = false := by
      rw [← Bool.not_eq_true]
      exact fun same => apart (Red.Node.of_samePlace same).2.1
    simp [swapNode, elsewhere]
  onToken _ := rfl

theorem greenOf_swapNode (node : Red.Node) (green : Green.Node) :
    (swapNode node green).greenOf node = pure green := by
  rw [greenOf_eq]
  simp [swapNode, Red.Node.samePlace_self]

theorem ofSlot_swapToken (token : Red.Token) (green : Green.Token) :
    (swapToken token green).ofSlot (.token token) = pure (.token green) := by
  simp [ofSlot, SyntaxTree.Slot.map, runSlot, swapToken, Red.Token.samePlace_self]

variable {transform : Transform Build} {path : List Nat}

theorem ofSlot_eq_pure (only : transform.OnlyAt path) {node : Red.Node} {index : Nat}
    {slot : Red.Slot} (shown : node.slot? index = some slot) (off : ¬ (index :: node.path) <:+ path)
    (below : ∀ {child : Red.Node}, slot = .node child → ¬ child.path <:+ path →
      transform.greenOf child = pure child.green) :
    transform.ofSlot slot = pure slot.green := by
  cases slot with
  | absent => rfl
  | token token =>
      have apart : token.path ≠ path :=
        fun same => off (Red.Node.path_of_token shown ▸ same ▸ List.suffix_refl _)
      simp [ofSlot, SyntaxTree.Slot.map, runSlot, only.onToken apart, Red.Slot.green]
  | node child =>
      rw [← Red.Node.path_of_child shown] at off
      simp [ofSlot, SyntaxTree.Slot.map, runSlot, below rfl off, Red.Slot.green]

/-- Off the way to the end of the path nothing changes. -/
theorem greenOf_of_off (only : transform.OnlyAt path) {node : Red.Node}
    (off : ¬ node.path <:+ path) : transform.greenOf node = pure node.green := by
  induction node using Red.Node.below_induction with
  | step node inductionHypothesis =>
      have apart : node.path ≠ path := fun same => off (same ▸ List.suffix_refl _)
      have slots_eq : node.slots.mapM transform.ofSlot = pure node.green.slots := by
        rw [← node.map_green_slots]
        apply mapM_eq_pure
        intro slot present
        obtain ⟨index, shown⟩ := Red.Node.mem_slots_iff.mp present
        apply ofSlot_eq_pure only shown fun on => off ((List.suffix_cons _ _).trans on)
        rintro child rfl
        exact inductionHypothesis present
      rw [greenOf_eq, only.onNode apart, slots_eq]
      simp

end Transform

/-- The green node with another value in one slot, or the very same one for the very same value. -/
def Red.Node.refilled (node : Red.Node) (index : Nat) (old value : Green.Slot) :
    Build Green.Node :=
  if old.identical value then
    return node.green
  else
    Green.Node.tryCreate node.kind (node.green.slots.set index value)

theorem Red.Node.remade_set {node : Red.Node} {index : Nat} {old : Green.Slot}
    (present : node.green.slots[index]? = some old) (value : Green.Slot) :
    node.remade (node.green.slots.set index value) = node.refilled index old value := by
  rw [remade, refilled, Green.Slot.allIdentical_set present]

/-- What becomes of the root when a green node comes in place of a node and one ancestor after the
other is given the slot that changed. -/
def Red.Node.ascend : Red.Node → Green.Node → Build Green.Node
  | .root _, green => return green
  | .child old _ slot parent, green => do
    parent.ascend (← parent.refilled slot (.node old) (.node green))

namespace Transform

variable {transform : Transform Build} {path : List Nat}

/-- On the way to the end of the path only the slot on it counts. -/
theorem greenOf_of_on (only : transform.OnlyAt path) {node : Red.Node} {index : Nat}
    {slot : Red.Slot} (shown : node.slot? index = some slot) (on : (index :: node.path) <:+ path) :
    transform.greenOf node = transform.ofSlot slot >>= node.refilled index slot.green := by
  have apart : node.path ≠ path := by
    rintro rfl
    exact absurd on.length_le (Nat.not_succ_le_self _)
  have kept : ∀ {other otherSlot}, node.slot? other = some otherSlot → other ≠ index →
      transform.ofSlot otherSlot = pure otherSlot.green := by
    intro other otherSlot otherShown elsewhere
    apply ofSlot_eq_pure only otherShown
    · intro otherOn
      have suffix := List.suffix_of_suffix_length_le otherOn on (Nat.le_refl _)
      exact elsewhere (List.cons.inj (suffix.eq_of_length rfl)).1
    · exact fun _ off => greenOf_of_off only off
  have present : node.green.slots[index]? = some slot.green :=
    Red.Node.slots_getElem?_of_slot? shown
  have slots_eq := mapM_eq_of_others (by rw [node.slots_getElem?, shown])
    fun position other found => kept (by rw [← node.slots_getElem?, found])
  rw [greenOf_eq, only.onNode apart, slots_eq, node.map_green_slots]
  simp only [bind_assoc, pure_bind, Red.Node.remade_set present]

/-- A transform that changes what is below a node is the ascent from what that node becomes. -/
theorem greenOf_root (only : transform.OnlyAt path) {root : Green.Node} {node : Red.Node}
    (inTree : Red.Node.InTree root node) (on : node.path <:+ path) :
    transform.greenOf (.root root) = transform.greenOf node >>= node.ascend := by
  induction node with
  | root green =>
      rw [Red.Node.InTree.root_iff.mp inTree]
      simp [Red.Node.ascend]
  | child green offset slot parent inductionHypothesis =>
      obtain ⟨parentInTree, present, rfl⟩ := Red.Node.InTree.child_iff.mp inTree
      have shown := Red.Node.slot?_eq_node_iff.mpr ⟨green, present, rfl⟩
      have above := inductionHypothesis parentInTree ((List.suffix_cons _ _).trans on)
      rw [above, greenOf_of_on only shown on]
      simp [ofSlot, SyntaxTree.Slot.map, runSlot, Red.Node.ascend, Red.Slot.green, Red.Node.green]

end Transform

namespace Red.Node

variable {root : Green.Node} {base workspace : Workspace} {made : List Green.Slot} {node : Node}
  {index : Nat} {old value : Green.Slot}

/-- Where nothing changed, the root stays the very same one. -/
theorem ascend_self (node : Node) : node.ascend node.green = pure node.treeRoot.green := by
  induction node with
  | root green => rfl
  | child green offset slot parent inductionHypothesis =>
      change (child green offset slot parent).ascend green = pure parent.treeRoot.green
      simp [ascend, refilled, inductionHypothesis]

theorem refilled_of_accepted (other : old.identical value = false)
    (fits : node.kind.checkSlots (node.green.slots.set index value) = .ok ())
    (workspace : Workspace) :
    node.refilled index old value workspace =
      .ok (.assemble ⟨workspace.nextSerial⟩ node.kind (node.green.slots.set index value) [])
        { workspace with nextSerial := workspace.nextSerial + 1 } := by
  rw [refilled, if_neg (by simp [other])]
  exact Green.Node.createOr_of_fits workspace fits

theorem refilled_of_refused {reason : SlotError} (other : old.identical value = false)
    (misfit : node.kind.checkSlots (node.green.slots.set index value) = .error reason)
    (workspace : Workspace) :
    node.refilled index old value workspace = .error (.rejected reason) workspace := by
  rw [refilled, if_neg (by simp [other])]
  exact Green.Node.createOr_of_misfit workspace misfit

/-- An ascent from a new node that every ancestor accepts builds all ancestors anew. -/
theorem InTree.ascend_of_fits {green : Green.Node} (inTree : InTree root node)
    (history : Green.History base made) (rootMade : .node root ∈ made)
    (notYet : base.nextSerial ≤ workspace.nextSerial) (other : node.green.identical green = false)
    (fits : node.FitsAbove green) :
    root.identical (node.regrown workspace.nextSerial green).treeRoot.green = false ∧
      ∃ later, node.ascend green workspace =
        .ok (node.regrown workspace.nextSerial green).treeRoot.green later := by
  induction node generalizing green workspace with
  | root old =>
      obtain rfl := InTree.root_iff.mp inTree
      exact ⟨other, workspace, rfl⟩
  | child old offset slot parent inductionHypothesis =>
      obtain ⟨parentFits, aboveFits⟩ := fits
      obtain ⟨parentInTree, present, _⟩ := InTree.child_iff.mp inTree
      -- The parent built anew has a stamp that no node of the tree has.
      have fresh : parent.green.identical (.assemble ⟨workspace.nextSerial⟩ parent.kind
          (parent.green.slots.set slot (.node green)) []) = false :=
        history.not_identical_of_le (parentInTree.green_mem history rootMade) rfl notYet
      have differs : Green.Slot.identical (.node old) (.node green) = false := other
      obtain ⟨apart, later, run⟩ :=
        @inductionHypothesis { workspace with nextSerial := workspace.nextSerial + 1 } _
          parentInTree (Nat.le_succ_of_le notYet) fresh (aboveFits ⟨workspace.nextSerial⟩)
      refine ⟨apart, later, ?_⟩
      rw [ascend, Build.bind_run_of_ok (refilled_of_accepted differs parentFits workspace)]
      exact run

/-- Where a value is admitted in place, the ascent from it builds the edited tree. -/
theorem InTree.ascend_of_admitted (inTree : InTree root node) (history : Green.History base made)
    (rootMade : .node root ∈ made) (notYet : base.nextSerial ≤ workspace.nextSerial)
    (other : old.identical value = false)
    (admitted : node.AdmitsInPlace (node.green.slots.set index value)) :
    root.identical (node.withSlots workspace.nextSerial
        (node.green.slots.set index value)).treeRoot.green = false ∧
      ∃ later, (node.refilled index old value >>= node.ascend) workspace =
        .ok (node.withSlots workspace.nextSerial
          (node.green.slots.set index value)).treeRoot.green later := by
  obtain ⟨fits, above⟩ := (inTree.admitsInPlace_iff history rootMade _).mp admitted
  have fresh : node.green.identical (.assemble ⟨workspace.nextSerial⟩ node.kind
      (node.green.slots.set index value) []) = false :=
    history.not_identical_of_le (inTree.green_mem history rootMade) rfl notYet
  obtain ⟨apart, later, run⟩ :=
    @InTree.ascend_of_fits _ _ { workspace with nextSerial := workspace.nextSerial + 1 } _ _ _
      inTree history rootMade (Nat.le_succ_of_le notYet) fresh (above ⟨workspace.nextSerial⟩)
  refine ⟨apart, later, ?_⟩
  rw [Build.bind_run_of_ok (refilled_of_accepted other fits workspace)]
  exact run

/-- How the reasons go together for which an ascent and staging refuse a value in a slot of a node.
A list slot speaks for the holder of the list when the holder is built, and for the list itself when
the element is staged. -/
inductive Refusals (node : Node) : SlotError → SlotError → Prop
  | same {reason : SlotError} : node.heldElementSpec? = none → Refusals node reason reason
  | element {holder : Node} {slot : String} {elements : KindSet} {found : Kind} :
      node.parent? = some holder → node.heldElementSpec? = some (.node slot elements) →
      Refusals node (.unexpectedKind holder.kind slot elements found)
        (.unexpectedKind NodeKind.list slot elements found)

theorem stage_set_of_refused_in_list {reason : SlotError} {green : Green.Node}
    (isList : node.kind = .list) (inRange : index < node.green.slots.length)
    (refused : node.stage.set index (.node green) = .error reason) :
    ∃ spec elements, node.heldElementSpec? = some (.node spec elements) ∧
      elements.contains green.kind = false ∧
      reason = .unexpectedKind NodeKind.list spec elements green.kind := by
  rw [@Staged.set_of_list node.stage _ isList inRange] at refused
  change (node.elementSpecInPlace.check NodeKind.list (.node green)).map _ = _ at refused
  rw [elementSpecInPlace] at refused
  cases held : node.heldElementSpec? with
  | none =>
      simp [held, SlotSpec.anyElement, SlotSpec.node, SlotSpec.check, requireKind,
        Except.map] at refused
  | some spec =>
      obtain ⟨_, _, _, _, holderSpec, elements, _, _, _, rfl⟩ := heldElementSpec?_eq_some held
      refine ⟨holderSpec.name, elements, rfl, ?_⟩
      cases admits : elements.contains green.kind with
      | true =>
          simp [held, SlotSpec.node, SlotSpec.check, requireKind, admits, Except.map] at refused
      | false =>
          simp [held, SlotSpec.node, SlotSpec.check, requireKind, admits, Except.map] at refused
          exact ⟨rfl, refused.symm⟩

/-- Any node may come as an element when a list is built. -/
theorem checkSlots_set_of_list (isList : node.kind = .list)
    (fits : node.kind.checkSlots node.green.slots = .ok ()) (index : Nat) (element : Green.Node) :
    node.kind.checkSlots (node.green.slots.set index (.node element)) = .ok () := by
  rw [NodeKind.checkSlots_eq_ok_iff, NodeKind.Admits, if_pos isList, List.forall_mem_map] at fits ⊢
  intro slot present
  rcases List.mem_or_eq_of_mem_set present with kept | rfl
  · exact fits slot kept
  · exact ⟨_, rfl⟩

/-- A list that a list slot holds is still built with the new element, and its holder refuses it. -/
theorem InTree.ascend_of_refused_in_list {reason : SlotError} {element : Green.Node}
    (isList : node.kind = .list) (inTree : InTree root node) (history : Green.History base made)
    (rootMade : .node root ∈ made) (notYet : base.nextSerial ≤ workspace.nextSerial)
    (present : node.green.slots[index]? = some old) (other : old.identical (.node element) = false)
    (refused : node.stage.set index (.node element) = .error reason) :
    ∃ sooner later, (node.refilled index old (.node element) >>= node.ascend) workspace =
      .error (.rejected sooner) later ∧ node.Refusals sooner reason := by
  obtain ⟨inRange, _⟩ := List.getElem?_eq_some_iff.mp present
  obtain ⟨name, kinds, held, unfit, rfl⟩ := stage_set_of_refused_in_list isList inRange refused
  obtain ⟨oldList, offset, slot, parent, spec, _, rfl, found, shape, same⟩ :=
    heldElementSpec?_eq_some held
  cases same
  obtain ⟨parentInTree, listPresent, _⟩ := InTree.child_iff.mp inTree
  have fresh : Green.Slot.identical (.node oldList) (.node (.assemble ⟨workspace.nextSerial⟩
      oldList.kind (oldList.slots.set index (.node element)) [])) = false :=
    history.not_identical_of_le (inTree.green_mem history rootMade) rfl notYet
  have fits := history.checkSlots_eq_ok (inTree.green_mem history rootMade)
  have listFits := checkSlots_set_of_list isList fits index element
  have parentFits := history.checkSlots_eq_ok (parentInTree.green_mem history rootMade)
  have misfit := checkSlots_of_held parentFits listPresent found shape present element
    ⟨workspace.nextSerial⟩ []
  have oldIsList : oldList.kind = .list := isList
  rw [requireKind, if_neg (by simp [unfit]), ← oldIsList] at misfit
  refine ⟨_, { workspace with nextSerial := workspace.nextSerial + 1 }, ?_, .element rfl held⟩
  rw [Build.bind_run_of_ok (refilled_of_accepted other listFits workspace), ascend]
  exact Build.bind_run_of_error (refilled_of_refused fresh misfit _)

/-- An ascent is refused where staging is. -/
theorem InTree.ascend_of_refused {reason : SlotError} (inTree : InTree root node)
    (history : Green.History base made) (rootMade : .node root ∈ made)
    (notYet : base.nextSerial ≤ workspace.nextSerial)
    (present : node.green.slots[index]? = some old) (other : old.identical value = false)
    (elements : node.kind = .list → ∃ element, value = .node element)
    (refused : node.stage.set index value = .error reason) :
    ∃ sooner later, (node.refilled index old value >>= node.ascend) workspace =
      .error (.rejected sooner) later ∧ node.Refusals sooner reason := by
  by_cases isList : node.kind = .list
  · obtain ⟨element, rfl⟩ := elements isList
    exact inTree.ascend_of_refused_in_list isList history rootMade notYet present other refused
  · have fits := history.checkSlots_eq_ok (inTree.green_mem history rootMade)
    rw [stage_set_of_ne_list isList fits present] at refused
    cases misfit : node.kind.checkSlots (node.green.slots.set index value) with
    | ok accepted => simp [misfit, Except.map] at refused
    | error sooner =>
        obtain rfl : sooner = reason := by simpa [misfit, Except.map] using refused
        refine ⟨sooner, workspace, ?_, .same ?_⟩
        · exact Build.bind_run_of_error (refilled_of_refused other misfit workspace)
        · cases held : node.heldElementSpec? with
          | none => rfl
          | some spec => exact absurd (inTree.kind_eq_list_of_held history rootMade held) isList

end Red.Node

end SyntaxTree

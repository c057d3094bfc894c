import SyntaxTree.Proofs.Staging

/-!
Checking slots of which only one is new. Slots that were accepted stay accepted, so the outcome,
with the reason for a refusal, is that of the new slot alone. Main statements: staging a value on a
node other than a list gives the reason that building the node anew gives; and staging an element of
a list that a list slot holds gives the reason that building the holder anew gives, but for its owner.
-/

namespace SyntaxTree

namespace SlotSpec

variable {spec : SlotSpec} {owner : Kind} {slots : List Green.Slot} {index : Nat}
  {old value : Green.Slot}

theorem checkElements_set {elements : KindSet}
    (accepted : spec.checkElements owner elements slots = .ok ())
    (present : slots[index]? = some old) :
    spec.checkElements owner elements (slots.set index value) =
      spec.checkElement owner elements value := by
  induction slots generalizing index with
  | nil => simp at present
  | cons first rest inductionHypothesis =>
      cases checked : spec.checkElement owner elements first with
      | error reason => simp [checkElements, checked, bind, Except.bind] at accepted
      | ok _ =>
          simp only [checkElements, checked, bind, Except.bind] at accepted
          cases index with
          | zero =>
              cases outcome : spec.checkElement owner elements value <;>
                simp [checkElements, outcome, accepted, bind, Except.bind]
          | succ index =>
              have below := @inductionHypothesis index accepted (by simpa using present)
              simp [checkElements, checked, below, bind, Except.bind]

theorem checkAll_set {specs : List SlotSpec} (accepted : checkAll owner specs slots = .ok ())
    (found : specs[index]? = some spec) (present : slots[index]? = some old) :
    checkAll owner specs (slots.set index value) = spec.check owner value := by
  induction specs generalizing slots index with
  | nil => simp at found
  | cons firstSpec specs inductionHypothesis =>
      cases slots with
      | nil => simp at present
      | cons first rest =>
          cases checked : firstSpec.check owner first with
          | error reason => simp [checkAll, checked, bind, Except.bind] at accepted
          | ok _ =>
              simp only [checkAll, checked, bind, Except.bind] at accepted
              cases index with
              | zero =>
                  obtain rfl : firstSpec = spec := by simpa using found
                  cases outcome : firstSpec.check owner value <;>
                    simp [checkAll, outcome, accepted, bind, Except.bind]
              | succ index =>
                  have below := @inductionHypothesis rest index accepted (by simpa using found)
                    (by simpa using present)
                  simp [checkAll, checked, below, bind, Except.bind]

end SlotSpec

theorem NodeKind.checkSlots_set {kind : NodeKind} {slots : List Green.Slot} {index : Nat}
    {spec : SlotSpec} {old value : Green.Slot} (fits : kind.checkSlots slots = .ok ())
    (found : (kind.specs slots.length)[index]? = some spec) (present : slots[index]? = some old) :
    kind.checkSlots (slots.set index value) = spec.check kind value := by
  by_cases sameLength : (kind.specs slots.length).length = slots.length
  · simp only [checkSlots, sameLength, if_true] at fits
    simp only [checkSlots, List.length_set, sameLength, if_true]
    exact SlotSpec.checkAll_set fits found present
  · simp [checkSlots, sameLength] at fits

namespace Red.Node

variable {root : Green.Node} {workspace : Workspace} {made : List Green.Slot} {node : Node}
  {index : Nat} {old value : Green.Slot}

/-- On a node other than a list a value is staged just when the node can be built anew with it. -/
theorem stage_set_of_ne_list (notList : node.kind ≠ .list)
    (fits : node.kind.checkSlots node.green.slots = .ok ())
    (present : node.green.slots[index]? = some old) (value : Green.Slot) :
    node.stage.set index value =
      (node.kind.checkSlots (node.green.slots.set index value)).map fun _ =>
        { node.stage with slots := node.green.slots.set index value } := by
  have specs_eq : node.specsInPlace node.green.slots.length =
      node.kind.specs node.green.slots.length := by
    rw [specsInPlace, if_neg notList, NodeKind.specs_of_ne_list notList]
  have admitted := (NodeKind.checkSlots_eq_ok_iff_admitAll _ _).mp fits
  obtain ⟨inRange, _⟩ := List.getElem?_eq_some_iff.mp present
  have inSpecs : index < (node.kind.specs node.green.slots.length).length := by
    rwa [List.Forall₂.length_eq admitted]
  have found := List.getElem?_eq_getElem inSpecs
  rw [NodeKind.checkSlots_set fits found present]
  have slotSpec : node.stage.slotSpec index = .ok _ :=
    Staged.slotSpec_eq_ok_iff.mpr ((congrArg (·[index]?) specs_eq).trans found)
  exact Staged.set_of_slotSpec_ok slotSpec value

/-- A list slot accepts a list with one new element just when that element is of the right kind. -/
theorem checkSlots_of_held {oldList : Green.Node} {slot : Nat} {parent : Node}
    {spec : SlotSpec} {elements : KindSet}
    (parentFits : parent.kind.checkSlots parent.green.slots = .ok ())
    (listPresent : parent.green.slots[slot]? = some (.node oldList))
    (found : parent.kind.layout[slot]? = some spec) (shape : spec.shape = .list elements)
    (present : oldList.slots[index]? = some old) (element : Green.Node) (stamp : Stamp)
    (remarks : List Remark) :
    parent.kind.checkSlots (parent.green.slots.set slot
        (.node (.assemble stamp .list (oldList.slots.set index (.node element)) remarks))) =
      requireKind parent.kind spec.name elements element.kind := by
  have notList := NodeKind.ne_list_of_layout found
  rw [← NodeKind.specs_of_ne_list notList parent.green.slots.length] at found
  have accepted : spec.check parent.kind (.node oldList) = .ok () := by
    obtain ⟨inRange, isOld⟩ := List.getElem?_eq_some_iff.mp listPresent
    rw [← NodeKind.checkSlots_set parentFits found listPresent, ← isOld, List.set_getElem_self]
    exact parentFits
  simp only [SlotSpec.check, shape] at accepted
  obtain ⟨_, elementsAccepted⟩ := requireKind_bind_eq_ok_iff.mp accepted
  rw [NodeKind.checkSlots_set parentFits found listPresent]
  simp only [SlotSpec.check, shape, Green.Node.assemble]
  rw [SlotSpec.checkElements_set elementsAccepted present]
  rfl

theorem heldElementSpec?_eq_some {spec : SlotSpec} (held : node.heldElementSpec? = some spec) :
    ∃ green offset slot parent holderSpec elements, node = child green offset slot parent ∧
      parent.kind.layout[slot]? = some holderSpec ∧ holderSpec.shape = .list elements ∧
      spec = .node holderSpec.name elements := by
  cases node with
  | root green => cases held
  | child green offset slot parent =>
      obtain ⟨holderSpec, found, isElement⟩ := Option.bind_eq_some_iff.mp held
      rw [SlotSpec.element?] at isElement
      cases shape : holderSpec.shape with
      | list elements =>
          simp only [shape, Option.some.injEq] at isElement
          exact ⟨green, offset, slot, parent, holderSpec, elements, rfl, found, shape,
            isElement.symm⟩
      | token kinds => simp [shape] at isElement
      | node kinds => simp [shape] at isElement

/-- Only lists stand in list slots. -/
theorem InTree.kind_eq_list_of_held {spec : SlotSpec} (inTree : InTree root node)
    (history : Green.History workspace made) (rootMade : .node root ∈ made)
    (held : node.heldElementSpec? = some spec) : node.kind = .list := by
  obtain ⟨green, offset, slot, parent, holderSpec, elements, rfl, found, shape, _⟩ :=
    heldElementSpec?_eq_some held
  obtain ⟨parentInTree, present, _⟩ := InTree.child_iff.mp inTree
  have fits := history.checkSlots_eq_ok (parentInTree.green_mem history rootMade)
  have admitted := NodeKind.admits_of_checkSlots fits found present
  exact ((SlotSpec.admits_list_iff shape).mp admitted).1

/-- Lists hold no tokens. -/
theorem InTree.kind_ne_list_of_token {token : Green.Token} (inTree : InTree root node)
    (history : Green.History workspace made) (rootMade : .node root ∈ made)
    (present : node.green.slots[index]? = some (.token token)) : node.kind ≠ .list := by
  intro isList
  have admitted := inTree.admitsInPlace history rootMade
  rw [admitsInPlace_of_list isList] at admitted
  have tokenAdmitted := admitted _ (List.mem_of_getElem? present)
  obtain ⟨element, same⟩ := exists_node_of_elementSpecInPlace tokenAdmitted
  cases same

end Red.Node

end SyntaxTree

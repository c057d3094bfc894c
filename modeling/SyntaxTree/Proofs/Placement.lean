import SyntaxTree.Proofs.Spine

/-!
What a slot sequence has to meet in its place. A list that a list slot holds takes fewer elements
than a list by itself. Main statement: meeting the specs in place is the same as being accepted by
the node itself and by every ancestor that is built anew.
-/

namespace SyntaxTree

namespace SlotSpec

theorem AdmitAll.get {specs : List SlotSpec} {slots : List Green.Slot} {index : Nat}
    {spec : SlotSpec} {slot : Green.Slot} (admitted : AdmitAll specs slots)
    (specFound : specs[index]? = some spec) (slotFound : slots[index]? = some slot) :
    spec.Admits (Green.Slot.description slot) := by
  induction admitted generalizing index with
  | nil => cases specFound
  | cons first rest inductionHypothesis =>
      cases index with
      | zero =>
          cases specFound
          cases slotFound
          exact first
      | succ index => exact inductionHypothesis specFound slotFound

theorem AdmitAll.set {specs : List SlotSpec} {slots : List Green.Slot} {index : Nat}
    {spec : SlotSpec} {value : Green.Slot} (admitted : AdmitAll specs slots)
    (specFound : specs[index]? = some spec) (fits : spec.Admits (Green.Slot.description value)) :
    AdmitAll specs (slots.set index value) := by
  induction admitted generalizing index with
  | nil => exact .nil
  | cons first rest inductionHypothesis =>
      cases index with
      | zero =>
          cases specFound
          exact .cons fits rest
      | succ index => exact .cons first (inductionHypothesis specFound)

end SlotSpec

theorem NodeKind.ne_list_of_layout {kind : NodeKind} {index : Nat} {spec : SlotSpec}
    (found : kind.layout[index]? = some spec) : kind ≠ .list := by
  rintro rfl
  simp [NodeKind.layout] at found

theorem SlotSpec.admits_node_iff {spec : SlotSpec} {kinds : KindSet} {description : Description}
    (shape : spec.shape = .node kinds) :
    spec.Admits (.node description) ↔ kinds.contains description.kind = true := by
  constructor
  · intro admitted
    cases admitted with
    | node sameShape member =>
        cases shape.symm.trans sameShape
        exact member
    | list otherShape => simp [shape] at otherShape
  · exact .node shape

theorem SlotSpec.not_admits_node {spec : SlotSpec} {kinds : KindSet} {description : Description}
    (shape : spec.shape = .token kinds) : ¬ spec.Admits (.node description) := by
  intro admitted
  cases admitted with
  | node otherShape => simp [shape] at otherShape
  | list otherShape => simp [shape] at otherShape

theorem SlotSpec.admits_list_iff {spec : SlotSpec} {elements : KindSet} {green : Green.Node}
    (shape : spec.shape = .list elements) :
    spec.Admits (.node green.description) ↔
      green.kind = .list ∧ ∀ slot ∈ green.slots,
        (SlotSpec.node spec.name elements).Admits (Green.Slot.description slot) := by
  simp only [SlotSpec.node_admits_iff]
  constructor
  · intro admitted
    cases admitted with
    | node otherShape => simp [shape] at otherShape
    | list sameShape isList admittedElements =>
        cases shape.symm.trans sameShape
        refine ⟨by simpa using isList, ?_⟩
        simpa only [Green.Node.description_slots, List.forall_mem_map] using admittedElements
  · rintro ⟨isList, admittedElements⟩
    refine .list shape (by simpa using isList) ?_
    simpa only [Green.Node.description_slots, List.forall_mem_map] using admittedElements

/-- Of a node only its kind and the kinds of its elements count. -/
theorem SlotSpec.admits_node_of_alike {spec : SlotSpec} {before after : Green.Node}
    (kind_eq : after.kind = before.kind)
    (elements : ∀ value ∈ after.slots, ∃ old ∈ before.slots, ∀ element : Green.Node,
      old = .node element → ∃ other : Green.Node, value = .node other ∧ other.kind = element.kind)
    (admitted : spec.Admits (.node before.description)) :
    spec.Admits (.node after.description) := by
  cases shape : spec.shape with
  | token kinds => exact absurd admitted (not_admits_node shape)
  | node kinds =>
      have member := (admits_node_iff shape).mp admitted
      refine (admits_node_iff shape).mpr ?_
      rw [Green.Node.description_kind] at member ⊢
      rwa [kind_eq]
  | list kinds =>
      obtain ⟨isList, each⟩ := (admits_list_iff shape).mp admitted
      refine (admits_list_iff shape).mpr ⟨kind_eq.trans isList, fun value present => ?_⟩
      obtain ⟨old, oldPresent, alike⟩ := elements value present
      obtain ⟨_, isNode, member⟩ := node_admits_iff.mp (each old oldPresent)
      obtain ⟨element, rfl, rfl⟩ := Green.Slot.description_eq_node_iff.mp isNode
      obtain ⟨other, rfl, sameKind⟩ := alike element rfl
      refine node_admits_iff.mpr ⟨other.description, rfl, ?_⟩
      rw [Green.Node.description_kind] at member ⊢
      rwa [sameKind]

namespace NodeKind

theorem admits_of_checkSlots {kind : NodeKind} {slots : List Green.Slot} {index : Nat}
    {spec : SlotSpec} {slot : Green.Slot} (fits : kind.checkSlots slots = .ok ())
    (specFound : kind.layout[index]? = some spec) (slotFound : slots[index]? = some slot) :
    spec.Admits (Green.Slot.description slot) := by
  rw [checkSlots_eq_ok_iff_admitAll, specs_of_ne_list (ne_list_of_layout specFound)] at fits
  exact fits.get specFound slotFound

end NodeKind

namespace Red.Node

/-- The spec of the elements of this node, if it is a list. A list slot that holds it decides. -/
def elementSpecInPlace (node : Red.Node) : SlotSpec := node.heldElementSpec?.getD .anyElement

def specsInPlace (node : Red.Node) (count : Nat) : List SlotSpec :=
  if node.kind = .list then List.replicate count node.elementSpecInPlace else node.kind.layout

/-- Whether slots may be put in place of those of this node. -/
def AdmitsInPlace (node : Red.Node) (slots : List Green.Slot) : Prop :=
  SlotSpec.AdmitAll (node.specsInPlace slots.length) slots

theorem admitsInPlace_of_list {node : Red.Node} (isList : node.kind = .list)
    (slots : List Green.Slot) :
    node.AdmitsInPlace slots ↔
      ∀ slot ∈ slots, node.elementSpecInPlace.Admits (Green.Slot.description slot) := by
  rw [AdmitsInPlace, specsInPlace, if_pos isList]
  exact SlotSpec.admitAll_replicate_iff _ _

theorem admitsInPlace_of_ne_list {node : Red.Node} (notList : node.kind ≠ .list)
    (slots : List Green.Slot) :
    node.AdmitsInPlace slots ↔ SlotSpec.AdmitAll node.kind.layout slots := by
  rw [AdmitsInPlace, specsInPlace, if_neg notList]

/-- A node other than a list takes in its place what its kind takes anywhere. -/
theorem admitsInPlace_iff_checkSlots {node : Red.Node} (notList : node.kind ≠ .list)
    (slots : List Green.Slot) :
    node.AdmitsInPlace slots ↔ node.kind.checkSlots slots = .ok () := by
  rw [admitsInPlace_of_ne_list notList, NodeKind.checkSlots_eq_ok_iff_admitAll,
    NodeKind.specs_of_ne_list notList]

theorem elementSpecInPlace_cases (node : Red.Node) :
    node.elementSpecInPlace = .anyElement ∨
      ∃ green offset slot parent spec elements, node = child green offset slot parent ∧
        parent.kind.layout[slot]? = some spec ∧ spec.shape = .list elements ∧
        node.elementSpecInPlace = .node spec.name elements := by
  cases node with
  | root green => exact .inl rfl
  | child green offset slot parent =>
      simp only [elementSpecInPlace, heldElementSpec?]
      cases found : parent.kind.layout[slot]? with
      | none => exact .inl rfl
      | some spec =>
          cases shape : spec.shape with
          | list elements =>
              refine .inr ⟨green, offset, slot, parent, spec, elements, rfl, found, shape, ?_⟩
              simp [SlotSpec.element?, shape]
          | token kinds => exact .inl (by simp [SlotSpec.element?, shape])
          | node kinds => exact .inl (by simp [SlotSpec.element?, shape])

theorem elementSpecInPlace_of_held {green : Green.Node} {offset slot : Nat} {parent : Red.Node}
    {spec : SlotSpec} {elements : KindSet} (found : parent.kind.layout[slot]? = some spec)
    (shape : spec.shape = .list elements) :
    (child green offset slot parent).elementSpecInPlace = .node spec.name elements := by
  simp [elementSpecInPlace, heldElementSpec?, found, SlotSpec.element?, shape]

theorem exists_node_of_elementSpecInPlace {node : Red.Node}
    {slot : SyntaxTree.Slot Description Green.Token}
    (admitted : node.elementSpecInPlace.Admits slot) :
    ∃ element : Description, slot = .node element := by
  rcases node.elementSpecInPlace_cases with any | ⟨_, _, _, _, spec, elements, _, _, _, held⟩
  · rw [any] at admitted
    exact SlotSpec.anyElement_admits_iff.mp admitted
  · rw [held] at admitted
    obtain ⟨element, same, _⟩ := SlotSpec.node_admits_iff.mp admitted
    exact ⟨element, same⟩

theorem admits_of_sameKind {node : Red.Node} {old new : Green.Node} (sameKind : new.kind = old.kind)
    (admitted : node.elementSpecInPlace.Admits (.node old.description)) :
    node.elementSpecInPlace.Admits (.node new.description) := by
  rcases node.elementSpecInPlace_cases with any | ⟨_, _, _, _, spec, elements, _, _, _, held⟩
  · rw [any]
    exact SlotSpec.anyElement_admits_iff.mpr ⟨_, rfl⟩
  · rw [held] at admitted ⊢
    simpa [SlotSpec.admits_node_iff, SlotSpec.node, sameKind] using admitted

theorem AdmitsInPlace.checkSlots {node : Red.Node} {slots : List Green.Slot}
    (admitted : node.AdmitsInPlace slots) : node.kind.checkSlots slots = .ok () := by
  by_cases isList : node.kind = .list
  · rw [admitsInPlace_of_list isList] at admitted
    rw [NodeKind.checkSlots_eq_ok_iff, NodeKind.Admits, if_pos isList, List.forall_mem_map]
    intro slot present
    exact exists_node_of_elementSpecInPlace (admitted slot present)
  · exact (admitsInPlace_iff_checkSlots isList slots).mp admitted

theorem admitsInPlace_of_held {node : Red.Node} {slots : List Green.Slot}
    (fits : node.kind.checkSlots slots = .ok ())
    (holder : ∀ {green offset index parent spec elements},
      node = child green offset index parent → parent.kind.layout[index]? = some spec →
      spec.shape = .list elements → ∀ slot ∈ slots,
        (SlotSpec.node spec.name elements).Admits (Green.Slot.description slot)) :
    node.AdmitsInPlace slots := by
  by_cases isList : node.kind = .list
  · rw [admitsInPlace_of_list isList]
    rcases node.elementSpecInPlace_cases with any | held
    · rw [any]
      rw [NodeKind.checkSlots_eq_ok_iff, NodeKind.Admits, if_pos isList,
        List.forall_mem_map] at fits
      intro slot present
      exact SlotSpec.anyElement_admits_iff.mpr (fits slot present)
    · obtain ⟨_, _, _, _, _, _, same, found, shape, spec_eq⟩ := held
      rw [spec_eq]
      exact holder same found shape
  · exact (admitsInPlace_iff_checkSlots isList slots).mpr fits

theorem InTree.admitsInPlace {root : Green.Node} {node : Red.Node} {workspace : Workspace}
    {made : List Green.Slot} (inTree : InTree root node) (history : Green.History workspace made)
    (rootMade : .node root ∈ made) : node.AdmitsInPlace node.green.slots := by
  refine admitsInPlace_of_held (history.checkSlots_eq_ok (inTree.green_mem history rootMade)) ?_
  rintro green offset index parent spec elements rfl found shape
  obtain ⟨parentInTree, present, _⟩ := InTree.child_iff.mp inTree
  have parentFits := history.checkSlots_eq_ok (parentInTree.green_mem history rootMade)
  exact ((SlotSpec.admits_list_iff shape).mp
    (NodeKind.admits_of_checkSlots parentFits found present)).2

/-- A child may be rebuilt over slots that are admitted in its place. -/
theorem AdmitsInPlace.set_child {parent : Red.Node} {old rebuilt : Green.Node} {offset index : Nat}
    (admitted : parent.AdmitsInPlace parent.green.slots)
    (present : parent.green.slots[index]? = some (.node old)) (sameKind : rebuilt.kind = old.kind)
    (fits : (child old offset index parent).AdmitsInPlace rebuilt.slots) :
    parent.AdmitsInPlace (parent.green.slots.set index (.node rebuilt)) := by
  by_cases isList : parent.kind = .list
  · rw [admitsInPlace_of_list isList] at admitted ⊢
    intro slot slotPresent
    rcases List.mem_or_eq_of_mem_set slotPresent with kept | rfl
    · exact admitted slot kept
    · exact admits_of_sameKind sameKind (admitted _ (List.mem_of_getElem? present))
  · rw [admitsInPlace_of_ne_list isList] at admitted ⊢
    have inLayout : index < parent.kind.layout.length := by
      rw [List.Forall₂.length_eq admitted]
      exact (List.getElem?_eq_some_iff.mp present).1
    have found := List.getElem?_eq_getElem inLayout
    refine admitted.set found ?_
    have oldAdmitted := admitted.get found present
    cases shape : (parent.kind.layout[index]).shape with
    | token kinds => exact absurd oldAdmitted (SlotSpec.not_admits_node shape)
    | node kinds =>
        refine (SlotSpec.admits_node_iff shape).mpr ?_
        simpa [sameKind] using (SlotSpec.admits_node_iff shape).mp oldAdmitted
    | list elements =>
        -- Only here do the slots of the child count, and in its place they were held to this spec.
        obtain ⟨oldIsList, _⟩ := (SlotSpec.admits_list_iff shape).mp oldAdmitted
        refine (SlotSpec.admits_list_iff shape).mpr ⟨sameKind.trans oldIsList, ?_⟩
        have heldIsList : (child old offset index parent).kind = .list := oldIsList
        rw [admitsInPlace_of_list heldIsList, elementSpecInPlace_of_held found shape] at fits
        exact fits

theorem AdmitsInPlace.fitsAbove {root : Green.Node} {workspace : Workspace}
    {made : List Green.Slot} (history : Green.History workspace made) (rootMade : .node root ∈ made)
    {node : Red.Node} (inTree : InTree root node) {slots : List Green.Slot}
    (admitted : node.AdmitsInPlace slots) (stamp : Stamp) (remarks : List Remark) :
    node.FitsAbove (.assemble stamp node.kind slots remarks) := by
  induction node generalizing slots stamp remarks with
  | root green => trivial
  | child old offset index parent inductionHypothesis =>
      obtain ⟨parentInTree, present, _⟩ := InTree.child_iff.mp inTree
      let rebuilt := Green.Node.assemble stamp old.kind slots remarks
      have stillAdmitted : parent.AdmitsInPlace (parent.green.slots.set index (.node rebuilt)) :=
        (parentInTree.admitsInPlace history rootMade).set_child present rfl admitted
      exact ⟨stillAdmitted.checkSlots,
        fun next => inductionHypothesis parentInTree stillAdmitted next []⟩

theorem InTree.admitsInPlace_of_fitsAbove {root : Green.Node} {node : Red.Node}
    (inTree : InTree root node) {slots : List Green.Slot} {stamp : Stamp}
    (fits : node.kind.checkSlots slots = .ok ())
    (above : node.FitsAbove (.assemble stamp node.kind slots [])) : node.AdmitsInPlace slots := by
  refine admitsInPlace_of_held fits ?_
  rintro green offset index parent spec elements rfl found shape
  obtain ⟨_, present, _⟩ := InTree.child_iff.mp inTree
  obtain ⟨inRange, _⟩ := List.getElem?_eq_some_iff.mp present
  exact ((SlotSpec.admits_list_iff shape).mp (NodeKind.admits_of_checkSlots above.1 found
    (List.getElem?_set_self inRange))).2

/-- Being admitted in place is being accepted by the node and by every ancestor rebuilt. -/
theorem InTree.admitsInPlace_iff {root : Green.Node} {workspace : Workspace}
    {made : List Green.Slot} {node : Red.Node} (inTree : InTree root node)
    (history : Green.History workspace made) (rootMade : .node root ∈ made)
    (slots : List Green.Slot) :
    node.AdmitsInPlace slots ↔
      node.kind.checkSlots slots = .ok () ∧
        ∀ stamp, node.FitsAbove (.assemble stamp node.kind slots []) :=
  ⟨fun admitted => ⟨admitted.checkSlots,
      fun stamp => admitted.fitsAbove history rootMade inTree stamp []⟩,
    fun accepted => inTree.admitsInPlace_of_fitsAbove accepted.1 (accepted.2 ⟨0⟩)⟩

end Red.Node

end SyntaxTree

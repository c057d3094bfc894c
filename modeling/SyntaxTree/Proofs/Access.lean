import SyntaxTree.Proofs.Views

/-!
Typed access in trees that were made. Main statements: every field of a typed node is read, as the
very handle in its slot; and a typed list that a list slot holds has an element for each slot.
-/

namespace SyntaxTree.Typed

variable {root : Green.Node} {workspace : Workspace} {made : List Green.Slot}

/-- Whether a value is what a field of a node reads, and stands for all that is in its slot. -/
structure NodeOf.Reads {owner : NodeKind} (view : NodeOf owner) (field : AnyField owner)
    (value : field.type.Value) : Prop where
  get?_eq : view.get? field.field = some value
  slot?_eq : view.node.slot? field.field.index = some (field.type.toRed value)
  /-- A value that wraps a node is the variant for the kind of that node. -/
  toAny?_eq : field.type.toAny? value =
    (view.node.childNode? field.field.index).map .ofNode
  missing_iff : field.type.missing value = true ↔
    view.node.slot? field.field.index = some .absent

namespace NodeOf

variable {owner : NodeKind} {view : NodeOf owner}

theorem exists_slot?_of_fits {index : Nat} {spec : SlotSpec}
    (fits : view.node.kind.checkSlots view.node.green.slots = .ok ())
    (found : owner.layout[index]? = some spec) :
    ∃ slot : Red.Slot, view.node.slot? index = some slot ∧
      spec.Admits (Green.Slot.description slot.green) := by
  rw [← view.kind_eq] at found
  have admitted := (NodeKind.checkSlots_eq_ok_iff_admitAll _ _).mp fits
  rw [NodeKind.specs_of_ne_list (NodeKind.ne_list_of_layout found)] at admitted
  obtain ⟨inLayout, _⟩ := List.getElem?_eq_some_iff.mp found
  have inRange : index < view.node.green.slots.length := by
    rwa [← List.Forall₂.length_eq admitted]
  have present := List.getElem?_eq_getElem inRange
  have shown : view.node.slot? index = some (Red.view view.node index
      (view.node.offset + view.node.green.slotOffset index) view.node.green.slots[index]) := by
    simp [Red.Node.slot?, Green.Node.slot?, present]
  refine ⟨_, shown, ?_⟩
  rw [Red.Slot.green_view]
  exact NodeKind.admits_of_checkSlots fits found present

theorem exists_slot? {index : Nat} {spec : SlotSpec} (inTree : Red.Node.InTree root view.node)
    (history : Green.History workspace made) (rootMade : .node root ∈ made)
    (found : owner.layout[index]? = some spec) :
    ∃ slot : Red.Slot, view.node.slot? index = some slot ∧
      spec.Admits (Green.Slot.description slot.green) :=
  exists_slot?_of_fits (history.checkSlots_eq_ok (inTree.green_mem history rootMade)) found

/-- Every field is read if the slots follow the layout. -/
theorem exists_reads_of_fits (fits : view.node.kind.checkSlots view.node.green.slots = .ok ())
    {field : AnyField owner} (listed : field ∈ fieldsOf owner) :
    ∃ value, view.Reads field value := by
  obtain ⟨spec, found, optional_eq, taken⟩ := exists_spec_of_field listed
  obtain ⟨slot, shown, admitted⟩ := exists_slot?_of_fits fits found
  obtain ⟨value, read, rfl⟩ := FieldType.exists_of_admits optional_eq taken admitted
  refine ⟨value, ?_, shown, ?_, ?_⟩
  · rw [get?, shown]
    exact read
  · rw [FieldType.toAny?_eq, Red.Node.childNode?, shown]
    rfl
  · rw [FieldType.missing_iff, shown, Option.some.injEq]

theorem exists_reads (inTree : Red.Node.InTree root view.node)
    (history : Green.History workspace made) (rootMade : .node root ∈ made)
    {field : AnyField owner} (listed : field ∈ fieldsOf owner) :
    ∃ value, view.Reads field value :=
  exists_reads_of_fits (history.checkSlots_eq_ok (inTree.green_mem history rootMade)) listed

end NodeOf

theorem getElem?_filterMap_of_isSome {Item Value : Type} {read : Item → Option Value}
    {items : List Item} (isSome : ∀ item ∈ items, (read item).isSome = true) (index : Nat) :
    (items.filterMap read)[index]? = items[index]?.bind read := by
  induction items generalizing index with
  | nil => simp
  | cons first rest inductionHypothesis =>
      rw [List.forall_mem_cons, Option.isSome_iff_exists] at isSome
      obtain ⟨⟨value, found⟩, restSome⟩ := isSome
      cases index <;> simp [found, inductionHypothesis restSome]

namespace NodeList

variable {Element : Type} [View Element]

/-- Whether a typed list has an element for each of its slots, in order, however it is read. -/
structure Faithful (list : NodeList Element) : Prop where
  length_toList : list.toList.length = list.len
  toList_getElem? : ∀ index, list.toList[index]? = list.get? index
  get?_eq_none_iff : ∀ index, list.get? index = none ↔ list.len ≤ index
  slot?_eq : ∀ {index element}, list.get? index = some element →
    list.node.slot? index = some (handleSlot element)

/-- Whether a green slot holds a node of a kind that the view of the elements accepts. -/
def IsElement (Element : Type) [View Element] (slot : Green.Slot) : Prop :=
  ∃ element : Green.Node, slot = .node element ∧ View.accepts Element element.kind = true

variable {list : NodeList Element}

theorem toList_eq (list : NodeList Element) :
    list.toList = list.node.slots.filterMap nodeOfSlot? := by
  rw [toList, Red.Node.childNodes, List.filterMap_filterMap]
  rfl

theorem get?_eq (list : NodeList Element) (index : Nat) :
    list.get? index = (list.node.slots[index]?).bind nodeOfSlot? := by
  rw [get?, Red.Node.childNode?, Red.Node.slots_getElem?, Option.bind_assoc]
  rfl

variable [KindView Element]

theorem exists_of_isElement {slot : Red.Slot} (isElement : IsElement Element slot.green) :
    ∃ element : Element, nodeOfSlot? slot = some element ∧ slot = handleSlot element := by
  obtain ⟨green, same, accepted⟩ := isElement
  cases slot with
  | node node =>
      cases same
      obtain ⟨element, found⟩ := exists_ofNode?_iff.mpr accepted
      exact ⟨element, found, congrArg SyntaxTree.Slot.node (LawfulView.node_eq found).symm⟩
  | token token => cases same
  | absent => cases same

/-- A list is faithful when all its slots hold elements. -/
theorem faithful_of_isElement
    (elements : ∀ slot ∈ list.node.green.slots, IsElement Element slot) : list.Faithful := by
  have each : ∀ slot ∈ list.node.slots, ∃ element : Element,
      nodeOfSlot? slot = some element ∧ slot = handleSlot element := by
    intro slot present
    apply exists_of_isElement
    apply elements
    rw [← list.node.map_green_slots]
    exact List.mem_map_of_mem present
  have isSome : ∀ slot ∈ list.node.slots, (nodeOfSlot? slot : Option Element).isSome = true := by
    intro slot present
    obtain ⟨element, read, _⟩ := each slot present
    simp [read]
  refine ⟨?_, ?_, ?_, ?_⟩
  · rw [toList_eq, List.filterMap_length_eq_length.mpr isSome, Red.Node.length_slots]
    rfl
  · intro index
    rw [toList_eq, get?_eq, getElem?_filterMap_of_isSome isSome]
  · intro index
    rw [get?_eq, len, ← Red.Node.length_slots]
    cases shown : list.node.slots[index]? with
    | none => simpa using shown
    | some slot =>
        obtain ⟨inRange, _⟩ := List.getElem?_eq_some_iff.mp shown
        obtain ⟨element, read, _⟩ := each slot (List.mem_of_getElem? shown)
        simp [read, inRange]
  · intro index element found
    rw [get?_eq, Option.bind_eq_some_iff] at found
    obtain ⟨slot, shown, read⟩ := found
    obtain ⟨same, sameRead, rfl⟩ := each slot (List.mem_of_getElem? shown)
    obtain rfl : same = element := Option.some.inj (sameRead.symm.trans read)
    rw [← Red.Node.slots_getElem?, shown]

/-- A list that a list slot of its element kinds holds is faithful. -/
theorem faithful_of_held {owner : NodeKind} {view : NodeOf owner} {index : Nat} {spec : SlotSpec}
    {elements : KindSet} (inTree : Red.Node.InTree root view.node)
    (history : Green.History workspace made) (rootMade : .node root ∈ made)
    (found : owner.layout[index]? = some spec) (shape : spec.shape = .list elements)
    (agreed : agrees Element elements = true)
    (shown : view.node.slot? index = some (handleSlot list)) : list.Faithful := by
  obtain ⟨slot, present, admitted⟩ := NodeOf.exists_slot? inTree history rootMade found
  obtain rfl := Option.some.inj (shown.symm.trans present)
  obtain ⟨_, admittedElements⟩ := (SlotSpec.admits_list_iff shape).mp admitted
  apply faithful_of_isElement
  intro element elementPresent
  obtain ⟨description, described, member⟩ :=
    SlotSpec.node_admits_iff.mp (admittedElements element elementPresent)
  obtain ⟨green, rfl, rfl⟩ := Green.Slot.description_eq_node_iff.mp described
  rw [Green.Node.description_kind, contains_eq_of_agrees agreed] at member
  exact ⟨green, rfl, member⟩

end NodeList

/-- Whether typed access to the trees of some values never fails: every node is viewed by its kind,
every field is read, and the lists in fields are faithful. -/
structure Accessible (made : List Green.Slot) : Prop where
  reads : ∀ {root : Green.Node} {node : Red.Node}, .node root ∈ made → Red.Node.InTree root node →
    ∃ view : NodeOf node.kind, View.ofNode? node = some view ∧
      ∀ field ∈ fieldsOf node.kind, ∃ value, view.Reads field value
  statements : ∀ {root : Green.Node} {part : ModulePart}, .node root ∈ made →
    Red.Node.InTree root part.node →
    ∃ list, part.get? ModulePart.statements = some list ∧ list.Faithful
  arguments : ∀ {root : Green.Node} {call : FunctionCallExpression}, .node root ∈ made →
    Red.Node.InTree root call.node →
    ∃ list, call.get? FunctionCallExpression.arguments = some list ∧ list.Faithful

theorem accessible (history : Green.History workspace made) : Accessible made where
  reads {root node} rootMade inTree := by
    refine ⟨⟨node, rfl⟩, dif_pos rfl, fun field listed => ?_⟩
    exact NodeOf.exists_reads inTree history rootMade listed
  statements rootMade inTree := by
    have listed : ⟨_, ModulePart.statements⟩ ∈ fieldsOf .modulePart := by simp [fieldsOf]
    obtain ⟨list, reads⟩ := NodeOf.exists_reads inTree history rootMade listed
    exact ⟨list, reads.get?_eq,
      NodeList.faithful_of_held inTree history rootMade rfl rfl rfl reads.slot?_eq⟩
  arguments rootMade inTree := by
    have listed : ⟨_, FunctionCallExpression.arguments⟩ ∈ fieldsOf .functionCallExpression := by
      simp [fieldsOf]
    obtain ⟨list, reads⟩ := NodeOf.exists_reads inTree history rootMade listed
    exact ⟨list, reads.get?_eq,
      NodeList.faithful_of_held inTree history rootMade rfl rfl rfl reads.slot?_eq⟩

end SyntaxTree.Typed

import Mathlib.Data.List.Forall2
import SyntaxTree.Green.Create

/-!
The grammar as a property of trees, told by the layouts alone. Main statement: building checks
exactly that a slot sequence follows the layout of its kind.
-/

namespace SyntaxTree

/-- A tree of nodes over given tokens, without identities of the nodes. -/
structure Description where
  kind : NodeKind
  remarks : List Remark
  slots : List (Slot Description Green.Token)

namespace SlotSpec

/-- What may stand in a slot. Of the elements of a list only their kinds are looked at. -/
inductive Admits (spec : SlotSpec) : Slot Description Green.Token → Prop
  | absent : spec.optional = true → Admits spec .absent
  | token {kinds : KindSet} {token : Green.Token} :
      spec.shape = .token kinds → kinds.contains token.kind = true → Admits spec (.token token)
  | node {kinds : KindSet} {node : Description} :
      spec.shape = .node kinds → kinds.contains node.kind = true → Admits spec (.node node)
  | list {elements : KindSet} {node : Description} :
      spec.shape = .list elements → node.kind = .list →
      (∀ slot ∈ node.slots, ∃ element : Description,
        slot = .node element ∧ elements.contains element.kind = true) →
      Admits spec (.node node)

end SlotSpec

/-- The slots that a node of a kind may have: nodes only in a list, and what the layout says for any
other kind. -/
def NodeKind.Admits (kind : NodeKind) (slots : List (Slot Description Green.Token)) : Prop :=
  if kind = .list then ∀ slot ∈ slots, ∃ element : Description, slot = .node element
  else List.Forall₂ SlotSpec.Admits kind.layout slots

/-- Every node, at every depth, has slots that its kind admits. -/
inductive Description.WellFormed : Description → Prop
  | intro {description : Description} :
      description.kind.Admits description.slots →
      (∀ child : Description, .node child ∈ description.slots → WellFormed child) →
      WellFormed description

namespace Green

mutual

/-- What a green node is, apart from identity and from what is worked out from its slots. -/
def Node.description : Node → Description
  | ⟨_, kind, _, _, remarks, slots⟩ => ⟨kind, remarks, Slot.descriptions slots⟩

def Slot.descriptions : List (SyntaxTree.Slot Node Token) → List (SyntaxTree.Slot Description Token)
  | [] => []
  | slot :: rest => Slot.description slot :: Slot.descriptions rest

def Slot.description : SyntaxTree.Slot Node Token → SyntaxTree.Slot Description Token
  | .node node => .node node.description
  | .token token => .token token
  | .absent => .absent

end

theorem Slot.descriptions_eq_map (slots : List Slot) :
    Slot.descriptions slots = slots.map Slot.description := by
  induction slots with
  | nil => rfl
  | cons slot rest inductionHypothesis => rw [Slot.descriptions, inductionHypothesis, List.map_cons]

@[simp]
theorem Node.description_kind (node : Node) : node.description.kind = node.kind := by
  cases node
  rfl

@[simp]
theorem Node.description_slots (node : Node) :
    node.description.slots = node.slots.map Slot.description := by
  cases node
  exact Slot.descriptions_eq_map _

theorem Slot.description_eq_node_iff {slot : Slot} {element : Description} :
    Slot.description slot = .node element ↔
      ∃ node : Node, slot = .node node ∧ node.description = element := by
  cases slot <;> simp [Slot.description]

/-- Every node of the tree follows the grammar. -/
def Node.WellFormed (node : Node) : Prop := node.description.WellFormed

end Green

def SlotSpec.AdmitAll (specs : List SlotSpec) (slots : List Green.Slot) : Prop :=
  List.Forall₂ (fun spec slot => spec.Admits (Green.Slot.description slot)) specs slots

@[simp]
theorem requireKind_eq_ok_iff {owner : Kind} {slot : String} {expected : KindSet} {found : Kind} :
    requireKind owner slot expected found = .ok () ↔ expected.contains found = true := by
  unfold requireKind
  split <;> simp_all

theorem requireKind_bind_eq_ok_iff {owner : Kind} {slot : String} {expected : KindSet}
    {found : Kind} {next : Except SlotError Unit} :
    (do requireKind owner slot expected found; next) = .ok () ↔
      expected.contains found = true ∧ next = .ok () := by
  unfold requireKind
  split <;> simp_all [bind, Except.bind]

namespace SlotSpec

theorem checkElements_eq_ok_iff (spec : SlotSpec) (owner : Kind) (elements : KindSet)
    (slots : List Green.Slot) :
    spec.checkElements owner elements slots = .ok () ↔
      ∀ slot ∈ slots, ∃ element : Green.Node,
        slot = .node element ∧ elements.contains element.kind = true := by
  induction slots with
  | nil => simp [checkElements]
  | cons slot rest inductionHypothesis =>
      cases slot with
      | node element =>
          simp only [checkElements, checkElement, List.forall_mem_cons, ← inductionHypothesis]
          cases fits : elements.contains element.kind <;>
            simp [requireKind, fits, bind, Except.bind]
      | token token => simp [checkElements, checkElement, bind, Except.bind]
      | absent => simp [checkElements, checkElement, bind, Except.bind]

theorem check_eq_ok_iff (spec : SlotSpec) (owner : Kind) (slot : Green.Slot) :
    spec.check owner slot = .ok () ↔ spec.Admits (Green.Slot.description slot) := by
  constructor
  · intro checked
    unfold check at checked
    split at checked
    · split at checked
      · next optional => exact .absent optional
      · cases checked
    · next shape => exact .token shape (requireKind_eq_ok_iff.mp checked)
    · next shape =>
        exact .node shape (by simpa using requireKind_eq_ok_iff.mp checked)
    · next node elements shape =>
        obtain ⟨isList, checkedElements⟩ := requireKind_bind_eq_ok_iff.mp checked
        refine .list shape (by simpa using isList) ?_
        simp only [Green.Node.description_slots, List.forall_mem_map]
        intro slot present
        obtain ⟨element, rfl, member⟩ :=
          (spec.checkElements_eq_ok_iff owner elements node.slots).mp checkedElements slot present
        exact ⟨element.description, rfl, by simpa using member⟩
    · cases checked
    · cases checked
    · cases checked
  · intro admitted
    cases slot with
    | absent =>
        cases admitted with
        | absent optional => simp [check, optional]
    | token token =>
        cases admitted with
        | token shape member => simp [check, shape, member]
    | node node =>
        cases admitted with
        | node shape member => simp [check, shape]; simpa using member
        | @list elements _ shape isList admittedElements =>
            simp only [check, shape]
            refine requireKind_bind_eq_ok_iff.mpr ⟨by simpa using isList, ?_⟩
            refine (spec.checkElements_eq_ok_iff owner elements node.slots).mpr ?_
            intro slot present
            obtain ⟨element, found, member⟩ := admittedElements (Green.Slot.description slot)
              (by simpa using ⟨slot, present, rfl⟩)
            obtain ⟨child, rfl, rfl⟩ := Green.Slot.description_eq_node_iff.mp found
            exact ⟨child, rfl, by simpa using member⟩

theorem checkAll_eq_ok_iff (owner : Kind) {specs : List SlotSpec} {slots : List Green.Slot}
    (sameLength : specs.length = slots.length) :
    checkAll owner specs slots = .ok () ↔ AdmitAll specs slots := by
  induction specs generalizing slots with
  | nil =>
      cases slots with
      | nil => simp [checkAll, AdmitAll]
      | cons slot slots => simp at sameLength
  | cons spec specs inductionHypothesis =>
      cases slots with
      | nil => simp at sameLength
      | cons slot slots =>
          have restLength : specs.length = slots.length := by simpa using sameLength
          rw [AdmitAll, List.forall₂_cons, ← check_eq_ok_iff spec owner slot, ← AdmitAll,
            ← inductionHypothesis restLength]
          cases first : spec.check owner slot <;> simp [checkAll, first, bind, Except.bind]

theorem admitAll_replicate_iff (spec : SlotSpec) (slots : List Green.Slot) :
    AdmitAll (List.replicate slots.length spec) slots ↔
      ∀ slot ∈ slots, spec.Admits (Green.Slot.description slot) := by
  induction slots with
  | nil => simp [AdmitAll]
  | cons slot slots inductionHypothesis =>
      rw [List.forall_mem_cons, ← inductionHypothesis]
      exact List.forall₂_cons

theorem node_admits_iff {name : String} {kinds : KindSet} {slot : Slot Description Green.Token} :
    (node name kinds).Admits slot ↔
      ∃ element : Description, slot = .node element ∧ kinds.contains element.kind = true := by
  constructor
  · intro admitted
    cases admitted with
    | absent optional => cases optional
    | token shape => cases shape
    | node shape member =>
        cases shape
        exact ⟨_, rfl, member⟩
    | list shape => cases shape
  · rintro ⟨element, rfl, member⟩
    exact .node rfl member

theorem anyElement_admits_iff {slot : Slot Description Green.Token} :
    anyElement.Admits slot ↔ ∃ element : Description, slot = .node element := by
  simp [anyElement, node_admits_iff]

end SlotSpec

namespace NodeKind

theorem specs_of_ne_list {kind : NodeKind} (notList : kind ≠ .list) (count : Nat) :
    kind.specs count = kind.layout := by
  cases kind <;> first | rfl | contradiction

theorem checkSlots_eq_ok_iff_admitAll (kind : NodeKind) (slots : List Green.Slot) :
    kind.checkSlots slots = .ok () ↔ SlotSpec.AdmitAll (kind.specs slots.length) slots := by
  simp only [checkSlots]
  split
  · next sameLength => exact SlotSpec.checkAll_eq_ok_iff kind sameLength
  · next otherLength =>
      refine ⟨fun checked => (by cases checked), fun admitted => ?_⟩
      exact absurd (List.Forall₂.length_eq admitted) otherLength

/-- Checking a slot sequence decides what the kind admits. -/
theorem checkSlots_eq_ok_iff (kind : NodeKind) (slots : List Green.Slot) :
    kind.checkSlots slots = .ok () ↔ kind.Admits (slots.map Green.Slot.description) := by
  rw [checkSlots_eq_ok_iff_admitAll, Admits]
  split
  · next isList =>
      subst isList
      rw [List.forall_mem_map]
      refine (SlotSpec.admitAll_replicate_iff .anyElement slots).trans ?_
      simp only [SlotSpec.anyElement_admits_iff]
  · next notList =>
      rw [specs_of_ne_list notList, SlotSpec.AdmitAll, List.forall₂_map_right_iff]

end NodeKind

end SyntaxTree

import SyntaxTree.Typed.Edit
import SyntaxTree.Proofs.Access
import SyntaxTree.Proofs.Runs

/-!
Typed lists that no slot holds. Such a list takes nodes of any kind, and what keeps its elements to
one type is that they are given as typed values. Main statement: typed access never fails, be it of
fields, of lists in slots, or of lists made and changed by themselves.
-/

namespace SyntaxTree.Typed

inductive ListChange (Element : Type)
  | push (element : Element)
  | insert (index : Nat) (element : Element)
  | remove (index : Nat)

namespace ListChange

variable {Element : Type}

/-- Whether a change names a position of a list with `count` elements. -/
def InRange (count : Nat) : ListChange Element → Prop
  | push _ => True
  | insert index _ => index ≤ count
  | remove index => index < count

variable [View Element]

/-- The edit of the list node. -/
def toEdit : ListChange Element → Edit
  | push element => .push (View.node element).green
  | insert index element => .insert index (View.node element).green
  | remove index => .remove index

theorem toEdit_inRange_iff {change : ListChange Element} {count : Nat} :
    change.toEdit.InRange .list count ↔ change.InRange count := by
  cases change <;> simp [toEdit, Edit.InRange, InRange]

end ListChange

variable {Element : Type} [View Element]

def ListEdit.change (edit : ListEdit Element) : ListChange Element → Build (ListEdit Element)
  | .push element => edit.push element
  | .insert index element => edit.insert index element
  | .remove index => edit.remove index

/-- The staged edits that changes of a list lead to, whatever else is done in between. -/
inductive ListEdit.Begun (list : NodeList Element) : ListEdit Element → Prop
  | modify : Begun list list.modify
  | change {edit later : ListEdit Element} {change : ListChange Element}
      {before after : Workspace} : Begun list edit →
      edit.change change before = .ok later after → Begun list later

/-- The lists that are made of typed elements, and those that applying changes to them leads to,
whatever else is done in between. -/
inductive NodeList.Made : NodeList Element → Prop
  | create {elements : List Element} {list : NodeList Element} {before after : Workspace} :
      NodeList.create elements before = .ok list after → Made list
  | apply {list changed : NodeList Element} {edit : ListEdit Element} {before after : Workspace} :
      Made list → ListEdit.Begun list edit → edit.apply before = .ok changed after → Made changed

theorem ListEdit.change_eq_ok_iff {edit later : ListEdit Element} {change : ListChange Element}
    {before after : Workspace} :
    edit.change change before = .ok later after ↔
      edit.staged.edit change.toEdit = .ok later.staged ∧ after = before := by
  have run : edit.change change before = (do
      return (⟨← Build.ofFitOr .misfit (edit.staged.edit change.toEdit)⟩ : ListEdit Element) :
        Build (ListEdit Element)) before := by
    cases change <;> rfl
  rw [run]
  cases edit.staged.edit change.toEdit with
  | ok staged =>
      cases later
      simp [Build.ofFitOr, eq_comm]
  | error reason =>
      have misused : Build.ofFitOr .misfit (.error reason) before =
          (.error (.misuse (.misfit reason)) before : EStateM.Result _ _ Staged) := rfl
      rw [Build.bind_run_of_error misused]
      simp

/-- Whether the node of a list is a root all slots of which hold elements. -/
structure NodeList.Alone (list : NodeList Element) : Prop where
  isRoot : ∃ green, list.node = .root green
  elements : ∀ slot ∈ list.node.green.slots, IsElement Element slot

namespace NodeList

variable {list : NodeList Element} {slots : List Green.Slot}

/-- A list by itself admits all elements. -/
theorem Alone.admitsInPlace (alone : list.Alone)
    (elements : ∀ slot ∈ slots, IsElement Element slot) : list.node.AdmitsInPlace slots := by
  obtain ⟨⟨green, isRoot⟩, _⟩ := alone
  rw [Red.Node.admitsInPlace_of_list list.kind_eq]
  intro slot present
  obtain ⟨element, rfl, _⟩ := elements slot present
  rw [isRoot]
  exact SlotSpec.anyElement_admits_iff.mpr ⟨element.description, rfl⟩

omit [View Element] in
theorem require_run {node : Red.Node} (isList : node.kind = .list) (workspace : Workspace) :
    (NodeList.require node : Build (NodeList Element)) workspace =
      .ok ⟨node, isList⟩ workspace := by
  simp [NodeList.require, NodeList.ofNode?, isList]

end NodeList

section KindView

variable [KindView Element]

theorem ListChange.isElement_perform {change : ListChange Element} {slots : List Green.Slot}
    (elements : ∀ slot ∈ slots, NodeList.IsElement Element slot) :
    ∀ slot ∈ change.toEdit.perform slots, NodeList.IsElement Element slot := by
  have typed (element : Element) :
      NodeList.IsElement Element (.node (View.node element).green) :=
    ⟨_, rfl, KindView.accepts_node element⟩
  intro slot present
  cases change with
  | push element =>
      rcases Edit.mem_perform present with kept | rfl
      · exact elements slot kept
      · exact typed element
  | insert index element =>
      rcases Edit.mem_perform present with kept | rfl
      · exact elements slot kept
      · exact typed element
  | remove index => exact elements slot (List.mem_of_mem_eraseIdx present)

/-- Typed changes keep to elements. -/
theorem ListEdit.Begun.isElement {list : NodeList Element} {edit : ListEdit Element}
    (begun : ListEdit.Begun list edit) (alone : list.Alone) :
    edit.staged.node = list.node ∧ ∀ slot ∈ edit.staged.slots, NodeList.IsElement Element slot := by
  induction begun with
  | modify => exact ⟨rfl, alone.elements⟩
  | change _ run inductionHypothesis =>
      obtain ⟨sameNode, elements⟩ := inductionHypothesis
      obtain ⟨accepted, _⟩ := ListEdit.change_eq_ok_iff.mp run
      rw [Staged.eq_of_edit_eq_ok accepted]
      exact ⟨sameNode, ListChange.isElement_perform elements⟩

/-- A change of a list by itself is refused only where its index is out of range. -/
theorem ListEdit.Begun.change_accepted_iff {list : NodeList Element} {edit : ListEdit Element}
    (begun : ListEdit.Begun list edit) (alone : list.Alone) (change : ListChange Element)
    (workspace : Workspace) :
    (∃ later after, edit.change change workspace = .ok later after) ↔
      change.InRange edit.staged.slots.length := by
  obtain ⟨sameNode, elements⟩ := begun.isElement alone
  have admitted : edit.staged.node.AdmitsInPlace edit.staged.slots := by
    rw [sameNode]
    exact alone.admitsInPlace elements
  have result : edit.staged.node.AdmitsInPlace (change.toEdit.perform edit.staged.slots) := by
    rw [sameNode]
    exact alone.admitsInPlace (ListChange.isElement_perform elements)
  have decided := Staged.edit_accepted_iff admitted change.toEdit
  rw [sameNode, list.kind_eq, ListChange.toEdit_inRange_iff, ← sameNode] at decided
  constructor
  · rintro ⟨later, after, run⟩
    exact (decided.mp ⟨_, (ListEdit.change_eq_ok_iff.mp run).1⟩).1
  · intro inRange
    obtain ⟨staged, accepted⟩ := decided.mpr ⟨inRange, result⟩
    exact ⟨⟨staged⟩, workspace, ListEdit.change_eq_ok_iff.mpr ⟨accepted, rfl⟩⟩

/-- Applying changes to a list by itself succeeds, with a list by itself. -/
theorem ListEdit.Begun.exists_apply {list : NodeList Element} {edit : ListEdit Element}
    (begun : ListEdit.Begun list edit) (alone : list.Alone) (workspace : Workspace) :
    ∃ changed after, edit.apply workspace = .ok changed after ∧ changed.Alone := by
  obtain ⟨sameNode, elements⟩ := begun.isElement alone
  cases verdict : edit.staged.unchanged with
  | true =>
      have applied : ∃ after, edit.staged.apply workspace = .ok list.node after := by
        rw [Staged.apply, if_pos verdict, Build.bind_run_of_ok (Build.record_run _ _), sameNode]
        exact ⟨_, rfl⟩
      obtain ⟨after, applied⟩ := applied
      refine ⟨list, after, ?_, alone⟩
      rw [ListEdit.apply, Build.bind_run_of_ok applied, NodeList.require_run list.kind_eq]
  | false =>
      have applied : ∃ after, edit.staged.apply workspace =
          .ok (.root (.assemble ⟨workspace.nextSerial⟩ .list edit.staged.slots [])) after := by
        have fits := (alone.admitsInPlace elements).checkSlots
        obtain ⟨green, isRoot⟩ := alone.isRoot
        rw [list.kind_eq] at fits
        rw [Staged.apply, if_neg (by simp [verdict]), sameNode, list.kind_eq,
          Build.bind_run_of_ok (Green.Node.create_run fits [] workspace), isRoot,
          Red.Node.replaceGreen_run .root _ _ trivial]
        exact ⟨_, rfl⟩
      obtain ⟨after, applied⟩ := applied
      refine ⟨⟨.root (.assemble ⟨workspace.nextSerial⟩ .list edit.staged.slots []), rfl⟩, after,
        ?_, ⟨_, rfl⟩, elements⟩
      rw [ListEdit.apply, Build.bind_run_of_ok applied, NodeList.require_run rfl]

/-- A list of typed elements can be made in any workspace. -/
theorem NodeList.exists_create (elements : List Element) (workspace : Workspace) :
    ∃ list after, NodeList.create elements workspace = .ok list after ∧ list.Alone := by
  let slots : List Green.Slot := (elements.map fun element => (View.node element).green).map .node
  have fits : NodeKind.checkSlots .list slots = .ok () := by
    rw [NodeKind.checkSlots_eq_ok_iff, NodeKind.Admits, if_pos rfl]
    simp [slots, Green.Slot.description]
  have created := Green.Node.create_run fits [] workspace
  refine ⟨⟨.root (.assemble ⟨workspace.nextSerial⟩ .list slots []), rfl⟩,
    { workspace with nextSerial := workspace.nextSerial + 1 }, ?_, ⟨_, rfl⟩, ?_⟩
  · rw [NodeList.create, Green.Node.createList]
    exact (Build.bind_run_of_ok created).trans (NodeList.require_run rfl _)
  · intro slot present
    obtain ⟨green, given, rfl⟩ := List.mem_map.mp present
    obtain ⟨element, _, rfl⟩ := List.mem_map.mp given
    exact ⟨_, rfl, KindView.accepts_node element⟩

theorem NodeList.Made.alone {list : NodeList Element} (made : list.Made) : list.Alone := by
  induction made with
  | @create elements list before after run =>
      obtain ⟨_, _, sameRun, alone⟩ := NodeList.exists_create elements before
      rw [run] at sameRun
      cases sameRun
      exact alone
  | @apply list changed edit before after _ begun run alone =>
      obtain ⟨_, _, sameRun, later⟩ := begun.exists_apply alone before
      rw [run] at sameRun
      cases sameRun
      exact later

end KindView

/-- The fields of a kind are the slots of its layout in order, and whatever a client did, every
field of every node is read as the very handle in its slot, with nothing only for an absent one. The
lists that are read have an element for each slot, however they are gone through; and so have all
lists that are made of typed elements and then changed, which fails only where an index is out of
range. -/
theorem typed_access_is_total :
    (∀ owner : NodeKind,
      (fieldsOf owner).map (·.field.index) = List.range owner.layout.length) ∧
    (∀ {Memory : Type} (script : Script Memory) (memory : Memory), ∃ made,
      (script.finalSession memory).Holds made ∧ Accessible made) ∧
    ∀ {Element : Type} [View Element] [KindView Element],
      (∀ (elements : List Element) (workspace : Workspace),
        ∃ list after, NodeList.create elements workspace = .ok list after) ∧
      ∀ {list : NodeList Element}, list.Made → list.Faithful ∧
        ∀ {edit : ListEdit Element}, ListEdit.Begun list edit → ∀ workspace,
          (∀ change, (∃ later after, edit.change change workspace = .ok later after) ↔
            change.InRange edit.staged.slots.length) ∧
          ∃ changed after, edit.apply workspace = .ok changed after := by
  refine ⟨fieldsOf_index, ?_, ?_⟩
  · intro Memory script memory
    obtain ⟨made, holds⟩ := script.finalSession_holds memory
    exact ⟨made, holds, accessible holds.complete.history⟩
  · intro Element _ _
    refine ⟨fun elements workspace => ?_, fun {list} made => ⟨?_, fun {edit} begun workspace => ?_⟩⟩
    · obtain ⟨list, after, run, _⟩ := NodeList.exists_create elements workspace
      exact ⟨list, after, run⟩
    · exact NodeList.faithful_of_isElement made.alone.elements
    · obtain ⟨changed, after, run, _⟩ := begun.exists_apply made.alone workspace
      exact ⟨fun change => begun.change_accepted_iff made.alone change workspace,
        changed, after, run⟩

/-! A client that makes the name `f`, and the list of the names `f` and `a`. -/

namespace Sample

def naming : Script Unit :=
  .call (.token (.plain TokenKind.identifier "f" [])) fun _ _ =>
  .call (.node NodeKind.simpleNameReference [some 0] []) fun _ _ =>
  .answer 1

def named : Green.Node :=
  .assemble ⟨1⟩ .simpleNameReference [.token Green.Sample.functionToken] []

def twoNames : List Expression :=
  [.simpleName ⟨.root Green.Sample.functionName, rfl⟩,
    .simpleName ⟨.root Green.Sample.variableName, rfl⟩]

def nameList : NodeList Expression :=
  ⟨.root (.assemble ⟨9⟩ .list
    [.node Green.Sample.functionName, .node Green.Sample.variableName] []), rfl⟩

end Sample

open Sample in
theorem typed_access_is_total_of_names :
    (∃ token, NodeOf.get? ⟨.root named, rfl⟩ SimpleNameReference.name = some token ∧
      token.text = "f") ∧
    nameList.toList.length = 2 ∧ nameList.toList[1]? = nameList.get? 1 ∧
      nameList.get? 2 = none := by
  obtain ⟨_, trees, lists⟩ := typed_access_is_total
  refine ⟨?_, ?_⟩
  · obtain ⟨made, holds, access⟩ := trees naming ()
    have held_eq : (naming.finalSession ()).held =
        [.token Green.Sample.functionToken, .node named] := rfl
    have held : .node named ∈ (naming.finalSession ()).held := by simp [held_eq]
    have namedMade := (holds.held _ held).resolve_left (by simp)
    obtain ⟨view, viewed, reads⟩ := access.reads namedMade .root
    obtain rfl : (⟨.root named, rfl⟩ : NodeOf .simpleNameReference) = view :=
      Option.some.inj viewed
    obtain ⟨token, read⟩ := reads ⟨_, SimpleNameReference.name⟩ (List.mem_singleton.mpr rfl)
    have shown := read.slot?_eq
    have token_eq : .held Green.Sample.functionToken 0 0 (.root named) = token :=
      SyntaxTree.Slot.token.inj (Option.some.inj shown)
    exact ⟨token, read.get?_eq, by rw [← token_eq]; rfl⟩
  · have created : NodeList.create twoNames Green.Sample.workspace = .ok nameList ⟨10, #[]⟩ := rfl
    obtain ⟨faithful, _⟩ := lists.2 (.create created)
    exact ⟨faithful.length_toList, faithful.toList_getElem? 1,
      (faithful.get?_eq_none_iff 2).mpr (by decide)⟩

end SyntaxTree.Typed

import SyntaxTree.Proofs.Placement

/-!
Staged edits. Every edit is a function on slot sequences that is accepted when its index is in range
and its result is admitted in place. Main statements: whatever is staged is admitted in place, and
applying it always succeeds.
-/

namespace SyntaxTree

namespace Edit

def value : Edit → Green.Slot
  | set _ value => value
  | insert _ element | push element => .node element
  | remove _ => .absent

def perform : Edit → List Green.Slot → List Green.Slot
  | set index value, slots => slots.set index value
  | insert index element, slots => slots.insertIdx index (.node element)
  | push element, slots => slots ++ [.node element]
  | remove index, slots => slots.eraseIdx index

/-- Whether an edit names a position of a node of some kind with `count` slots. Only lists grow and
shrink. -/
def InRange (kind : NodeKind) (count : Nat) : Edit → Prop
  | set index _ => index < count
  | insert index _ => kind = .list ∧ index ≤ count
  | push _ => kind = .list
  | remove index => kind = .list ∧ index < count

theorem mem_perform {edit : Edit} {slots : List Green.Slot} {slot : Green.Slot}
    (present : slot ∈ edit.perform slots) : slot ∈ slots ∨ slot = edit.value := by
  cases edit with
  | set index value => exact List.mem_or_eq_of_mem_set present
  | insert index element =>
      by_cases inRange : index ≤ slots.length
      · exact ((List.mem_insertIdx inRange).mp present).symm
      · rw [perform, List.insertIdx_of_length_lt (Nat.lt_of_not_le inRange)] at present
        exact .inl present
  | push element => simpa [perform, value] using present
  | remove index => exact .inl (List.mem_of_mem_eraseIdx present)

end Edit

namespace Staged

/-- The staged edits that accepted edits with values at hand lead to. -/
inductive Reachable (made : List Green.Slot) (node : Red.Node) : Staged → Prop
  | start : Reachable made node node.stage
  | edit {staged later : Staged} :
      Reachable made node staged → (edit : Edit) → Green.Available made edit.value →
      staged.edit edit = .ok later → Reachable made node later

theorem elementSpec_eq_ok_iff {staged : Staged} {spec : SlotSpec} :
    staged.elementSpec = .ok spec ↔
      staged.node.kind = .list ∧ staged.node.elementSpecInPlace = spec := by
  unfold elementSpec
  split
  · next isList => simp [isList, Red.Node.elementSpecInPlace]
  · next notList => simp [notList]

theorem slotSpec_eq_ok_iff {staged : Staged} {index : Nat} {spec : SlotSpec} :
    staged.slotSpec index = .ok spec ↔
      (staged.node.specsInPlace staged.slots.length)[index]? = some spec := by
  unfold slotSpec Red.Node.specsInPlace
  split
  · next isList =>
      split
      · next inRange => simp [elementSpec_eq_ok_iff, isList, inRange]
      · next outside => simp [outside]
  · next notList =>
      cases found : staged.node.kind.layout[index]? <;> simp

theorem set_of_slotSpec_error {staged : Staged} {index : Nat} {reason : SlotError}
    (refused : staged.slotSpec index = .error reason) (value : Green.Slot) :
    staged.set index value = .error reason := by
  rw [set, refused]
  rfl

/-- What a staged value is checked against decides whether it is staged. -/
theorem set_of_slotSpec_ok {staged : Staged} {index : Nat} {spec : SlotSpec}
    (found : staged.slotSpec index = .ok spec) (value : Green.Slot) :
    staged.set index value = (spec.check staged.node.kind value).map fun _ =>
      { staged with slots := staged.slots.set index value } := by
  simp only [set, found, bind, Except.bind]
  cases spec.check staged.node.kind value <;> rfl

/-- An element is staged on a list just when the spec of its elements accepts it. -/
theorem set_of_list {staged : Staged} {index : Nat} (isList : staged.node.kind = .list)
    (inRange : index < staged.slots.length) (value : Green.Slot) :
    staged.set index value = (staged.node.elementSpecInPlace.check NodeKind.list value).map fun _ =>
      { staged with slots := staged.slots.set index value } := by
  rw [← isList]
  refine set_of_slotSpec_ok ?_ value
  rw [slotSpec, if_pos isList, if_pos inRange]
  exact elementSpec_eq_ok_iff.mpr ⟨isList, rfl⟩

theorem set_eq_ok_iff {staged later : Staged} {index : Nat} {value : Green.Slot} :
    staged.set index value = .ok later ↔
      (∃ spec, (staged.node.specsInPlace staged.slots.length)[index]? = some spec ∧
        spec.Admits (Green.Slot.description value)) ∧
      later = { staged with slots := staged.slots.set index value } := by
  simp only [← slotSpec_eq_ok_iff]
  cases found : staged.slotSpec index with
  | error reason => simp [set_of_slotSpec_error found]
  | ok spec =>
      simp only [Except.ok.injEq, exists_eq_left', ← SlotSpec.check_eq_ok_iff spec staged.node.kind,
        set_of_slotSpec_ok found]
      cases spec.check staged.node.kind value <;> simp [Except.map, eq_comm]

theorem insert_eq_ok_iff {staged later : Staged} {index : Nat} {element : Green.Node} :
    staged.insert index element = .ok later ↔
      staged.node.kind = .list ∧ index ≤ staged.slots.length ∧
      staged.node.elementSpecInPlace.Admits (.node element.description) ∧
      later = { staged with slots := staged.slots.insertIdx index (.node element) } := by
  by_cases isList : staged.node.kind = .list
  · have found := elementSpec_eq_ok_iff.mpr ⟨isList, rfl⟩
    have decided := staged.node.elementSpecInPlace.check_eq_ok_iff NodeKind.list (.node element)
    by_cases inRange : index ≤ staged.slots.length
    · simp only [Green.Slot.description] at decided
      rw [← decided]
      cases checked : staged.node.elementSpecInPlace.check NodeKind.list (.node element) <;>
        simp [insert, found, checked, isList, inRange, bind, Except.bind, pure, Except.pure,
          eq_comm]
    · simp [insert, found, isList, inRange, bind, Except.bind]
  · simp [insert, elementSpec, isList, bind, Except.bind]

theorem remove_eq_ok_iff {staged later : Staged} {index : Nat} :
    staged.remove index = .ok later ↔
      staged.node.kind = .list ∧ index < staged.slots.length ∧
      later = { staged with slots := staged.slots.eraseIdx index } := by
  by_cases isList : staged.node.kind = .list
  · have found := elementSpec_eq_ok_iff.mpr ⟨isList, rfl⟩
    by_cases inRange : index < staged.slots.length <;>
      simp [remove, found, isList, inRange, bind, Except.bind, pure, Except.pure, eq_comm]
  · simp [remove, elementSpec, isList, bind, Except.bind]

theorem eq_of_edit_eq_ok {staged later : Staged} {edit : Edit}
    (accepted : staged.edit edit = .ok later) :
    later = { staged with slots := edit.perform staged.slots } := by
  cases edit with
  | set index value => exact (set_eq_ok_iff.mp accepted).2
  | insert index element => exact (insert_eq_ok_iff.mp accepted).2.2.2
  | push element =>
      rw [(insert_eq_ok_iff.mp accepted).2.2.2, List.insertIdx_length_self]
      rfl
  | remove index => exact (remove_eq_ok_iff.mp accepted).2.2

theorem insert_accepted_iff {staged : Staged} {index : Nat}
    (admitted : staged.node.AdmitsInPlace staged.slots) (isList : staged.node.kind = .list)
    (inRange : index ≤ staged.slots.length) (element : Green.Node) :
    (∃ later, staged.insert index element = .ok later) ↔
      staged.node.AdmitsInPlace (staged.slots.insertIdx index (.node element)) := by
  rw [Red.Node.admitsInPlace_of_list isList] at admitted ⊢
  constructor
  · rintro ⟨later, accepted⟩ slot present
    rcases (List.mem_insertIdx inRange).mp present with rfl | kept
    · exact (insert_eq_ok_iff.mp accepted).2.2.1
    · exact admitted slot kept
  · intro result
    have fits := result _ ((List.mem_insertIdx inRange).mpr (.inl rfl))
    exact ⟨_, insert_eq_ok_iff.mpr ⟨isList, inRange, fits, rfl⟩⟩

theorem edit_accepted_iff_of_inRange {staged : Staged}
    (admitted : staged.node.AdmitsInPlace staged.slots) (edit : Edit)
    (inRange : edit.InRange staged.node.kind staged.slots.length) :
    (∃ later, staged.edit edit = .ok later) ↔
      staged.node.AdmitsInPlace (edit.perform staged.slots) := by
  cases edit with
  | set index value =>
      simp only [edit, set_eq_ok_iff, Edit.perform, Red.Node.AdmitsInPlace, List.length_set]
      constructor
      · rintro ⟨_, ⟨spec, found, fits⟩, rfl⟩
        exact admitted.set found fits
      · intro result
        obtain ⟨spec, found⟩ : ∃ spec,
            (staged.node.specsInPlace staged.slots.length)[index]? = some spec :=
          ⟨_, List.getElem?_eq_getElem (by rw [List.Forall₂.length_eq admitted]; exact inRange)⟩
        exact ⟨_, ⟨spec, found, result.get found (List.getElem?_set_self inRange)⟩, rfl⟩
  | insert index element => exact insert_accepted_iff admitted inRange.1 inRange.2 element
  | push element =>
      have appended := insert_accepted_iff admitted inRange (Nat.le_refl _) element
      rwa [List.insertIdx_length_self] at appended
  | remove index =>
      obtain ⟨isList, inRange⟩ := inRange
      constructor
      · intro
        rw [Red.Node.admitsInPlace_of_list isList] at admitted ⊢
        exact fun slot present => admitted slot (List.mem_of_mem_eraseIdx present)
      · exact fun _ => ⟨_, remove_eq_ok_iff.mpr ⟨isList, inRange, rfl⟩⟩

theorem inRange_of_edit_eq_ok {staged later : Staged} {edit : Edit}
    (admitted : staged.node.AdmitsInPlace staged.slots) (accepted : staged.edit edit = .ok later) :
    edit.InRange staged.node.kind staged.slots.length := by
  cases edit with
  | set index value =>
      obtain ⟨⟨spec, found, _⟩, _⟩ := set_eq_ok_iff.mp accepted
      obtain ⟨inRange, _⟩ := List.getElem?_eq_some_iff.mp found
      rwa [List.Forall₂.length_eq admitted] at inRange
  | insert index element =>
      obtain ⟨isList, inRange, _⟩ := insert_eq_ok_iff.mp accepted
      exact ⟨isList, inRange⟩
  | push element => exact (insert_eq_ok_iff.mp accepted).1
  | remove index =>
      obtain ⟨isList, inRange, _⟩ := remove_eq_ok_iff.mp accepted
      exact ⟨isList, inRange⟩

/-- An edit is accepted exactly when it is in range and its result is admitted in place. -/
theorem edit_accepted_iff {staged : Staged} (admitted : staged.node.AdmitsInPlace staged.slots)
    (edit : Edit) :
    (∃ later, staged.edit edit = .ok later) ↔
      edit.InRange staged.node.kind staged.slots.length ∧
        staged.node.AdmitsInPlace (edit.perform staged.slots) := by
  constructor
  · rintro ⟨later, accepted⟩
    have inRange := inRange_of_edit_eq_ok admitted accepted
    exact ⟨inRange, (edit_accepted_iff_of_inRange admitted edit inRange).mp ⟨later, accepted⟩⟩
  · rintro ⟨inRange, result⟩
    exact (edit_accepted_iff_of_inRange admitted edit inRange).mpr result

namespace Reachable

variable {workspace : Workspace} {made : List Green.Slot} {root : Green.Node} {node : Red.Node}
  {staged : Staged}

theorem node_eq (reachable : Reachable made node staged) : staged.node = node := by
  induction reachable with
  | start => rfl
  | edit _ _ _ accepted inductionHypothesis => rw [eq_of_edit_eq_ok accepted, inductionHypothesis]

theorem mono {more : List Green.Slot} (reachable : Reachable made node staged)
    (included : made ⊆ more) : Reachable more node staged := by
  induction reachable with
  | start => exact .start
  | edit _ edit available accepted inductionHypothesis =>
      exact inductionHypothesis.edit edit (available.mono included) accepted

theorem of_setAll {later : Staged} {values : List (Nat × Green.Slot)}
    (reachable : Reachable made node staged)
    (available : ∀ entry ∈ values, Green.Available made entry.2)
    (accepted : staged.setAll values = .ok later) : Reachable made node later := by
  induction values generalizing staged with
  | nil =>
      cases accepted
      exact reachable
  | cons entry rest inductionHypothesis =>
      obtain ⟨index, value⟩ := entry
      rw [List.forall_mem_cons] at available
      cases first : staged.set index value with
      | error reason => simp [setAll, first, bind, Except.bind] at accepted
      | ok next =>
          simp only [setAll, first, bind, Except.bind] at accepted
          exact inductionHypothesis (reachable.edit (.set index value) available.1 first)
            available.2 accepted

theorem of_tryEdits {edits : List Edit} (reachable : Reachable made node staged)
    (available : ∀ edit ∈ edits, Green.Available made edit.value) :
    Reachable made node (staged.tryEdits edits).1 := by
  induction edits generalizing staged with
  | nil => exact reachable
  | cons edit rest inductionHypothesis =>
      rw [List.forall_mem_cons] at available
      rw [tryEdits]
      split
      · next later accepted =>
          exact inductionHypothesis (reachable.edit edit available.1 accepted) available.2
      · exact inductionHypothesis reachable available.2

theorem slots_available (reachable : Reachable made node staged)
    (history : Green.History workspace made) (inTree : Red.Node.InTree root node)
    (rootMade : .node root ∈ made) : ∀ slot ∈ staged.slots, Green.Available made slot := by
  induction reachable with
  | start => exact history.slots_available (inTree.green_mem history rootMade)
  | edit _ _ available accepted inductionHypothesis =>
      rw [eq_of_edit_eq_ok accepted]
      intro slot present
      rcases Edit.mem_perform present with kept | rfl
      · exact inductionHypothesis slot kept
      · exact available

/-- Whatever is staged is admitted in place of the node. -/
theorem admitsInPlace (reachable : Reachable made node staged)
    (history : Green.History workspace made) (inTree : Red.Node.InTree root node)
    (rootMade : .node root ∈ made) : staged.node.AdmitsInPlace staged.slots := by
  induction reachable with
  | start => exact inTree.admitsInPlace history rootMade
  | edit _ _ _ accepted inductionHypothesis =>
      have result := ((edit_accepted_iff inductionHypothesis _).mp ⟨_, accepted⟩).2
      rwa [eq_of_edit_eq_ok accepted]

theorem apply_of_unchanged (reachable : Reachable made node staged)
    (history : Green.History workspace made) (inTree : Red.Node.InTree root node)
    (rootMade : .node root ∈ made) (unchanged : staged.unchanged = true) :
    staged.slots = node.green.slots ∧
      staged.apply workspace = .ok node (workspace.after 0 [.unchanged node.kind]) := by
  have sameNode := reachable.node_eq
  subst sameNode
  constructor
  · have before := history.slots_available (inTree.green_mem history rootMade)
    have after := reachable.slots_available history inTree rootMade
    exact (history.eq_of_allIdentical before after unchanged).symm
  · rw [apply, if_pos unchanged, Build.bind_run_of_ok (Build.record_run _ _)]
    simp [Workspace.after]

theorem apply_of_changed (reachable : Reachable made node staged)
    (history : Green.History workspace made) (inTree : Red.Node.InTree root node)
    (rootMade : .node root ∈ made) (changed : staged.unchanged = false) :
    staged.apply workspace =
      .ok (node.withSlots workspace.nextSerial staged.slots)
        (workspace.after (node.path.length + 1)
          (node.spineEvents ++ [Event.replaced node.kind node.path.length])) := by
  have admitted := reachable.admitsInPlace history inTree rootMade
  have sameNode := reachable.node_eq
  subst sameNode
  rw [apply, if_neg (by simp [changed]),
    Build.bind_run_of_ok (Green.Node.create_run admitted.checkSlots [] workspace),
    Red.Node.replaceGreen_run inTree _ _ (admitted.fitsAbove history rootMade inTree _ [])]
  simp [Red.Node.withSlots, Workspace.after, Nat.add_assoc, Nat.add_comm 1]

theorem history_of_changed (reachable : Reachable made node staged)
    (history : Green.History workspace made) (inTree : Red.Node.InTree root node)
    (rootMade : .node root ∈ made) (events : List Event) :
    Green.History (workspace.after (node.path.length + 1) events)
      ((node.withSlots workspace.nextSerial staged.slots).ancestors.reverse.map
          (Slot.node ·.green) ++ made) := by
  have admitted := reachable.admitsInPlace history inTree rootMade
  have available := reachable.slots_available history inTree rootMade
  have sameNode := reachable.node_eq
  subst sameNode
  have grown := history.node available (Green.Node.create_run admitted.checkSlots [] workspace)
  have above := inTree.regrown_history rootMade grown
    (admitted.fitsAbove history rootMade inTree _ []) events
  exact above.pass (by simp; omega)

/-- Applying always succeeds. -/
theorem apply_succeeds (reachable : Reachable made node staged)
    (history : Green.History workspace made) (inTree : Red.Node.InTree root node)
    (rootMade : .node root ∈ made) :
    ∃ edited later, staged.apply workspace = .ok edited later := by
  cases same : staged.unchanged with
  | true => exact ⟨_, _, (reachable.apply_of_unchanged history inTree rootMade same).2⟩
  | false => exact ⟨_, _, reachable.apply_of_changed history inTree rootMade same⟩

end Reachable

end Staged

namespace Staged.Sample

open Green.Sample (argument) in
/-- The argument of the call `f(a)` a second time. -/
def doubled : Staged := ⟨Red.Sample.arguments, [.node argument, .node argument]⟩

theorem doubled_reachable : Reachable Green.Sample.made Red.Sample.arguments doubled :=
  Reachable.start.edit (.push Green.Sample.argument)
    (.inr (by simp [Edit.value, Green.Sample.made])) rfl

end Staged.Sample

end SyntaxTree

import SyntaxTree.Proofs.Staging

/-!
Going on after an edit. Main statements: an edit leaves a tree that was made, so that it can be
edited again; and what edits of a node are told depends only on the kind of the node, on what holds
it and on its slots.
-/

namespace SyntaxTree

namespace Staged

section TryEdits

variable {staged later : Staged} {edit : Edit} {reason : SlotError}

theorem tryEdits_of_accepted (accepted : staged.edit edit = .ok later) (rest : List Edit) :
    staged.tryEdits (edit :: rest) =
      ((later.tryEdits rest).1, none :: (later.tryEdits rest).2) := by
  rw [tryEdits, accepted]

theorem tryEdits_of_refused (refused : staged.edit edit = .error reason) (rest : List Edit) :
    staged.tryEdits (edit :: rest) =
      ((staged.tryEdits rest).1, some reason :: (staged.tryEdits rest).2) := by
  rw [tryEdits, refused]

end TryEdits

variable {first second : Staged}

/-- Whether two nodes with staged slots are of the same kind and held in the same way, with the same
slots staged. -/
structure Alike (first second : Staged) : Prop where
  kind_eq : first.node.kind = second.node.kind
  held_eq : first.node.heldElementSpec? = second.node.heldElementSpec?
  slots_eq : first.slots = second.slots

theorem Alike.edit_slots (alike : first.Alike second) (edit : Edit) :
    (first.edit edit).map (·.slots) = (second.edit edit).map (·.slots) := by
  obtain ⟨kind_eq, held_eq, slots_eq⟩ := alike
  have outOfRange_eq (index : Nat) : first.outOfRange index = second.outOfRange index := by
    rw [outOfRange, outOfRange, kind_eq, slots_eq]
  have elementSpec_eq : first.elementSpec = second.elementSpec := by
    rw [elementSpec, elementSpec, kind_eq, held_eq]
  have slotSpec_eq (index : Nat) : first.slotSpec index = second.slotSpec index := by
    rw [slotSpec, slotSpec, elementSpec_eq, outOfRange_eq, kind_eq, slots_eq]
  have insert_eq (index : Nat) (element : Green.Node) :
      (first.insert index element).map (·.slots) = (second.insert index element).map (·.slots) := by
    rw [insert, insert, elementSpec_eq, outOfRange_eq, slots_eq]
    cases second.elementSpec with
    | error reason => rfl
    | ok spec =>
        by_cases inRange : index ≤ second.slots.length
        · simp only [inRange, if_true, bind, Except.bind]
          cases spec.check NodeKind.list (.node element) <;> rfl
        · simp only [inRange, if_false, bind, Except.bind]
  cases edit with
  | set index value =>
      rw [Staged.edit, Staged.edit, set, set, slotSpec_eq, kind_eq, slots_eq]
      cases second.slotSpec index with
      | error reason => rfl
      | ok spec =>
          simp only [bind, Except.bind]
          cases spec.check second.node.kind value <;> rfl
  | insert index element => exact insert_eq index element
  | push element =>
      rw [Staged.edit, Staged.edit, push, push, slots_eq]
      exact insert_eq _ element
  | remove index =>
      rw [Staged.edit, Staged.edit, remove, remove, elementSpec_eq, outOfRange_eq, slots_eq]
      cases second.elementSpec with
      | error reason => rfl
      | ok spec =>
          by_cases inRange : index < second.slots.length
          · simp only [inRange, if_true, bind, Except.bind]
            rfl
          · simp only [inRange, if_false, bind, Except.bind]

/-- The same edit is refused for the same reason, or leads to the same slots. -/
theorem Alike.edit (alike : first.Alike second) (edit : Edit) :
    (∃ reason, first.edit edit = .error reason ∧ second.edit edit = .error reason) ∨
      ∃ firstLater secondLater, first.edit edit = .ok firstLater ∧
        second.edit edit = .ok secondLater ∧ firstLater.Alike secondLater := by
  have slots_eq := alike.edit_slots edit
  cases firstEdited : first.edit edit with
  | error reason =>
      cases secondEdited : second.edit edit with
      | error other =>
          rw [firstEdited, secondEdited] at slots_eq
          cases slots_eq
          exact .inl ⟨reason, rfl, rfl⟩
      | ok later =>
          rw [firstEdited, secondEdited] at slots_eq
          cases slots_eq
  | ok firstLater =>
      cases secondEdited : second.edit edit with
      | error reason =>
          rw [firstEdited, secondEdited] at slots_eq
          cases slots_eq
      | ok secondLater =>
          rw [firstEdited, secondEdited] at slots_eq
          refine .inr ⟨firstLater, secondLater, rfl, rfl, ?_, ?_, Except.ok.inj slots_eq⟩
          · rw [eq_of_edit_eq_ok firstEdited, eq_of_edit_eq_ok secondEdited, alike.kind_eq]
          · rw [eq_of_edit_eq_ok firstEdited, eq_of_edit_eq_ok secondEdited, alike.held_eq]

/-- The same edits have the same verdicts and lead to the same slots. -/
theorem Alike.tryEdits (alike : first.Alike second) (edits : List Edit) :
    (first.tryEdits edits).2 = (second.tryEdits edits).2 ∧
      (first.tryEdits edits).1.Alike (second.tryEdits edits).1 := by
  induction edits generalizing first second with
  | nil => exact ⟨rfl, alike⟩
  | cons edit rest inductionHypothesis =>
      rcases alike.edit edit with
        ⟨reason, firstRefused, secondRefused⟩ | ⟨_, _, firstEdited, secondEdited, alikeLater⟩
      · rw [tryEdits_of_refused firstRefused, tryEdits_of_refused secondRefused]
        obtain ⟨verdicts_eq, alikeFinal⟩ := inductionHypothesis alike
        exact ⟨congrArg (some reason :: ·) verdicts_eq, alikeFinal⟩
      · rw [tryEdits_of_accepted firstEdited, tryEdits_of_accepted secondEdited]
        obtain ⟨verdicts_eq, alikeFinal⟩ := inductionHypothesis alikeLater
        exact ⟨congrArg (none :: ·) verdicts_eq, alikeFinal⟩

namespace Reachable

variable {workspace : Workspace} {made : List Green.Slot} {root : Green.Node} {node : Red.Node}
  {staged : Staged}

/-- Applying gives the node itself or builds it anew, in a tree that was made. -/
theorem apply_goesOn (reachable : Reachable made node staged)
    (history : Green.History workspace made) (inTree : Red.Node.InTree root node)
    (rootMade : .node root ∈ made) :
    ∃ edited later more, staged.apply workspace = .ok edited later ∧
      Green.History later more ∧ made ⊆ more ∧ .node edited.treeRoot.green ∈ more ∧
      Red.Node.InTree edited.treeRoot.green edited ∧
      (staged.unchanged = true ∧ staged.slots = node.green.slots ∧ edited = node ∨
        staged.unchanged = false ∧
          edited = node.withSlots workspace.nextSerial staged.slots) := by
  cases verdict : staged.unchanged with
  | true =>
      obtain ⟨slots_eq, run⟩ := reachable.apply_of_unchanged history inTree rootMade verdict
      have goneOn : Green.History (workspace.after 0 [.unchanged node.kind]) made :=
        history.pass (Nat.le_refl _)
      have treeRoot_eq : node.treeRoot.green = root := by
        rw [inTree.treeRoot_eq]
        rfl
      refine ⟨_, _, made, run, goneOn, List.Subset.refl _, ?_, ?_, .inl ⟨rfl, slots_eq, rfl⟩⟩
      · rwa [treeRoot_eq]
      · rwa [treeRoot_eq]
  | false =>
      have run := reachable.apply_of_changed history inTree rootMade verdict
      refine ⟨_, _, _, run, reachable.history_of_changed history inTree rootMade _,
        List.subset_append_right _ _, ?_, inTree.regrown _ _, .inr ⟨rfl, rfl⟩⟩
      refine List.mem_append_left _ (List.mem_map.mpr ⟨_, List.mem_reverse.mpr ?_, rfl⟩)
      exact Red.Node.treeRoot_mem_ancestors _

end Reachable

end Staged

end SyntaxTree

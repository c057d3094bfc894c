import SyntaxTree.Proofs.Continuation
import SyntaxTree.Proofs.SameValue

/-!
Edits one by one. A node that is edited again and again is always the node it was at first, or that
node built anew over other slots, so that it takes the same edits as the slots staged on it. Main
statement: staging edits and applying them once does what applying each by itself does.
-/

namespace SyntaxTree

namespace Green

/-- Whether a tree is another one in which no more than the remarks of the nodes on a path are
missing. -/
structure Bared (root : Node) (path : List Nat) (later : Node) : Prop where
  value : sameSlotValue (.node later) (.node root) = true ∨
    sameSlotValue (.node later) (Slot.clear (.node root) path) = true
  text_eq : later.text = root.text
  elsewhere {other : List Nat} {spot : Spot} : Slot.spot? (.node root) 0 other = some spot →
    ¬ other <+: path → Slot.spot? (.node later) 0 other = some spot
  along {front : List Nat} : front <+: path → ∃ before after start,
    Slot.spot? (.node root) 0 front = some ⟨.node before, start⟩ ∧
      Slot.spot? (.node later) 0 front = some ⟨.node after, start⟩ ∧
      after.kind = before.kind ∧ after.slots.length = before.slots.length

/-- Nothing at all is missing. -/
theorem Bared.self {root node : Node} {path : List Nat} {place : Nat}
    (found : Slot.spot? (.node root) 0 path = some ⟨.node node, place⟩) : Bared root path root := by
  refine ⟨.inl (sameSlotValue_self _), rfl, fun there _ => there, ?_⟩
  rintro front ⟨back, rfl⟩
  by_cases further : back = []
  · subst further
    rw [List.append_nil] at found
    exact ⟨node, node, place, found, found, rfl, rfl⟩
  · obtain ⟨before, start, beforeFound, _⟩ := Slot.spot?_append_node found further
    exact ⟨before, before, start, beforeFound, beforeFound, rfl, rfl⟩

end Green

namespace Red.Node

/-- Stages each edit by itself, on what came of the one before, and applies it. A refused edit
changes nothing, and its reason is kept. -/
def editEach : Red.Node → List Edit → Build (Red.Node × List (Option SlotError))
  | node, [] => return (node, [])
  | node, edit :: rest =>
    match node.stage.edit edit with
    | .ok staged => do
      let edited ← staged.apply
      let (final, reasons) ← edited.editEach rest
      return (final, none :: reasons)
    | .error reason => do
      let (final, reasons) ← node.editEach rest
      return (final, some reason :: reasons)

theorem editEach_of_accepted {node edited final : Red.Node} {edit : Edit} {staged : Staged}
    {rest : List Edit} {reasons : List (Option SlotError)} {workspace between later : Workspace}
    (accepted : node.stage.edit edit = .ok staged)
    (applied : staged.apply workspace = .ok edited between)
    (run : edited.editEach rest between = .ok (final, reasons) later) :
    node.editEach (edit :: rest) workspace = .ok (final, none :: reasons) later := by
  rw [editEach, accepted]
  simp only
  rw [Build.bind_run_of_ok applied, Build.bind_run_of_ok run, Build.pure_run]

theorem editEach_of_refused {node final : Red.Node} {edit : Edit} {reason : SlotError}
    {rest : List Edit} {reasons : List (Option SlotError)} {workspace later : Workspace}
    (refused : node.stage.edit edit = .error reason)
    (run : node.editEach rest workspace = .ok (final, reasons) later) :
    node.editEach (edit :: rest) workspace = .ok (final, some reason :: reasons) later := by
  rw [editEach, refused]
  simp only
  rw [Build.bind_run_of_ok run, Build.pure_run]

/-- What comes of a node that is edited: the node itself, or the node built anew in its place. -/
inductive Version (node : Red.Node) : Red.Node → List Green.Slot → Prop
  | same : Version node node node.green.slots
  | renewed (serial : Nat) (slots : List Green.Slot) :
      Version node (node.withSlots serial slots) slots

namespace Version

variable {node current : Red.Node} {slots : List Green.Slot}

theorem slots_eq (version : Version node current slots) : current.green.slots = slots := by
  cases version with
  | same => rfl
  | renewed serial => simp [Green.Node.assemble]

theorem eq_or_withSlots (version : Version node current slots) :
    current = node ∧ slots = node.green.slots ∨
      ∃ serial, current = node.withSlots serial slots := by
  cases version with
  | same => exact .inl ⟨rfl, rfl⟩
  | renewed serial => exact .inr ⟨serial, rfl⟩

theorem path_eq (version : Version node current slots) : current.path = node.path := by
  cases version with
  | same => rfl
  | renewed serial => exact withSlots_path _ _ _

theorem withSlots_eq (version : Version node current slots) (serial : Nat)
    (more : List Green.Slot) : current.withSlots serial more = node.withSlots serial more := by
  cases version with
  | same => rfl
  | renewed earlier => exact withSlots_withSlots _ _ _ _ _

/-- A version takes the same edits as its slots staged on the first node. -/
theorem alike (version : Version node current slots) : current.stage.Alike ⟨node, slots⟩ := by
  refine ⟨?_, ?_, version.slots_eq⟩
  · cases version with
    | same => rfl
    | renewed serial => simp [stage, Node.kind, Green.Node.assemble]
  · cases version with
    | same => rfl
    | renewed serial => exact regrown_heldElementSpec? _ _ _

variable {workspace : Workspace} {made : List Green.Slot} {root : Green.Node}

/-- An accepted edit of a version, applied, gives the version with the slots of that edit. -/
theorem apply_edit (version : Version node current slots)
    (history : Green.History workspace made) (rootMade : .node root ∈ made)
    (inTree : InTree root current) {edit : Edit} (available : Green.Available made edit.value)
    {staged later : Staged} (accepted : current.stage.edit edit = .ok staged)
    (alikeLater : staged.Alike later) :
    ∃ edited after more, staged.apply workspace = .ok edited after ∧ Green.History after more ∧
      made ⊆ more ∧ .node edited.treeRoot.green ∈ more ∧
      InTree edited.treeRoot.green edited ∧ Version node edited later.slots := by
  have reachable := Staged.Reachable.start.edit edit available accepted
  obtain ⟨edited, after, more, run, goneOn, grown, newRootMade, editedInTree, outcome⟩ :=
    reachable.apply_goesOn history inTree rootMade
  refine ⟨edited, after, more, run, goneOn, grown, newRootMade, editedInTree, ?_⟩
  rw [← alikeLater.slots_eq]
  rcases outcome with ⟨_, unchanged_eq, rfl⟩ | ⟨_, rfl⟩
  · rwa [unchanged_eq, version.slots_eq]
  · rw [version.withSlots_eq]
    exact .renewed _ _

/-- Edits of a version one by one have the verdicts of the same edits staged, and end at the version
with the slots staged. -/
theorem editEach_run (version : Version node current slots)
    (history : Green.History workspace made) (rootMade : .node root ∈ made)
    (inTree : InTree root current) {edits : List Edit}
    (available : ∀ edit ∈ edits, Green.Available made edit.value) :
    ∃ final after, current.editEach edits workspace =
        .ok (final, (Staged.tryEdits ⟨node, slots⟩ edits).2) after ∧
      Version node final (Staged.tryEdits ⟨node, slots⟩ edits).1.slots := by
  -- Each step ends in a tree of its own, with more values made; what stays is the first node.
  induction edits generalizing current slots workspace made root with
  | nil => exact ⟨current, workspace, rfl, version⟩
  | cons edit rest inductionHypothesis =>
      rw [List.forall_mem_cons] at available
      rcases version.alike.edit edit with
        ⟨reason, refused, stagedRefused⟩ | ⟨staged, later, accepted, stagedAccepted, alikeLater⟩
      · obtain ⟨final, after, run, finalVersion⟩ :=
          inductionHypothesis version history rootMade inTree available.2
        rw [Staged.tryEdits_of_refused stagedRefused]
        exact ⟨final, after, editEach_of_refused refused run, finalVersion⟩
      · obtain ⟨edited, between, more, applied, goneOn, grown, newRootMade, editedInTree, renewed⟩ :=
          version.apply_edit history rootMade inTree available.1 accepted alikeLater
        obtain ⟨final, after, run, finalVersion⟩ := inductionHypothesis renewed goneOn newRootMade
          editedInTree fun edit present => (available.2 edit present).mono grown
        have later_eq : (⟨node, later.slots⟩ : Staged) = later := by
          rw [Staged.eq_of_edit_eq_ok stagedAccepted]
        rw [later_eq] at run finalVersion
        rw [Staged.tryEdits_of_accepted stagedAccepted]
        exact ⟨final, after, editEach_of_accepted accepted applied run, finalVersion⟩

end Version

end Red.Node

/-- Applying staged edits gives the version of the node with the staged slots, in a tree that was
made. -/
theorem Staged.Reachable.apply_version {workspace : Workspace} {made : List Green.Slot}
    {root : Green.Node} {node : Red.Node} {staged : Staged}
    (reachable : Staged.Reachable made node staged) (history : Green.History workspace made)
    (inTree : Red.Node.InTree root node) (rootMade : .node root ∈ made) :
    ∃ edited later more, staged.apply workspace = .ok edited later ∧ Green.History later more ∧
      made ⊆ more ∧ .node edited.treeRoot.green ∈ more ∧
      Red.Node.InTree edited.treeRoot.green edited ∧
      Red.Node.Version node edited staged.slots := by
  obtain ⟨edited, later, more, run, goneOn, grown, newRootMade, editedInTree, outcome⟩ :=
    reachable.apply_goesOn history inTree rootMade
  refine ⟨edited, later, more, run, goneOn, grown, newRootMade, editedInTree, ?_⟩
  rcases outcome with ⟨_, slots_eq, rfl⟩ | ⟨_, rfl⟩
  · rw [slots_eq]
    exact .same
  · exact .renewed _ _

namespace Red.Node

namespace InTree

variable {workspace : Workspace} {made : List Green.Slot} {root : Green.Node} {node : Red.Node}

/-- Trees in which a node was built anew over the same slots look alike. -/
theorem sameValue_withSlots (inTree : InTree root node) (serial later : Nat)
    (slots : List Green.Slot) :
    (node.withSlots serial slots).treeRoot.green.sameValue
      (node.withSlots later slots).treeRoot.green = true := by
  have alike := Green.Slot.graft_sameValue (Green.sameSlotValue_self (.node root))
    (Green.sameSlotValue_assemble (Green.sameSlotValues_self slots) ⟨serial⟩ ⟨later⟩ node.kind [])
    (serial + 1) (later + 1) node.path.reverse
  rwa [← inTree.withSlots_eq_graft, ← inTree.withSlots_eq_graft] at alike

theorem text_withSlots_self (inTree : InTree root node) (serial : Nat) :
    (node.withSlots serial node.green.slots).treeRoot.green.text = root.text := by
  have renewed := inTree.regrown (serial + 1) (.assemble ⟨serial⟩ node.kind node.green.slots [])
  have text_eq : (node.withSlots serial node.green.slots).text = node.text := by
    rw [text, withSlots_green, text, Green.Node.text_eq, Green.Node.text_eq]
    rfl
  rw [inTree.text_eq, withSlots, renewed.text_eq, regrown_textBefore, regrown_textAfter]
  rw [withSlots] at text_eq
  rw [text_eq]

/-- Building a node anew over its own slots takes no more than remarks away. -/
theorem bared_withSlots (inTree : InTree root node) (history : Green.History workspace made)
    (rootMade : .node root ∈ made) (serial : Nat) :
    Green.Bared root node.path.reverse
      (node.withSlots serial node.green.slots).treeRoot.green := by
  have grafted := inTree.withSlots_eq_graft serial node.green.slots
  have found := inTree.spot?_path
  have foundLater := Green.Slot.spot?_graft_self found (serial + 1)
    (.node (.assemble ⟨serial⟩ node.kind node.green.slots []))
  rw [← grafted] at foundLater
  refine ⟨.inr ?_, inTree.text_withSlots_self serial, ?_, ?_⟩
  · rw [grafted]
    exact Green.Slot.graft_clear found _ _
  · intro other spot there notAbove
    by_cases below : node.path.reverse <+: other
    · obtain ⟨rest, rfl⟩ := below
      have further : rest ≠ [] := by
        rintro rfl
        exact notAbove (by simp)
      obtain ⟨index, behind, rfl⟩ := List.exists_cons_of_ne_nil further
      rw [Green.Slot.spot?_append, found] at there
      rw [Green.Slot.spot?_append, foundLater]
      exact there
    · have width_eq : node.green.width = Green.Slot.totalWidth node.green.slots :=
        history.width_eq_totalWidth (inTree.green_mem history rootMade)
      obtain ⟨moved, movedFound, content_eq, place⟩ := history.spot?_graft (.inr rootMade) found
        (serial + 1) (.node (.assemble ⟨serial⟩ node.kind node.green.slots [])) there notAbove below
      have start_eq : moved.start = spot.start := by
        rcases place with ⟨_, same⟩ | ⟨_, shifted⟩
        · exact same
        · change moved.start + node.green.width =
            spot.start + Green.Slot.totalWidth node.green.slots at shifted
          omega
      rw [grafted, movedFound]
      cases moved
      cases spot
      simp_all
  · rintro front ⟨back, split⟩
    by_cases further : back = []
    · subst further
      rw [List.append_nil] at split
      subst split
      exact ⟨_, _, _, found, foundLater, rfl, rfl⟩
    · rw [← split] at found grafted
      obtain ⟨before, start, beforeFound, _⟩ := Green.Slot.spot?_append_node found further
      obtain ⟨after, after_eq, kind_eq, count_eq⟩ := Green.Slot.exists_graft_node before (serial + 1)
        (.node (.assemble ⟨serial⟩ node.kind node.green.slots [])) further
      have afterFound := Green.Slot.spot?_graft_append beforeFound (serial + 1) back
        (.node (.assemble ⟨serial⟩ node.kind node.green.slots []))
      rw [← grafted, after_eq] at afterFound
      exact ⟨before, after, start, beforeFound, afterFound, kind_eq, count_eq⟩

end InTree

end Red.Node

namespace Staged

theorem tryEdits_append (staged : Staged) (front back : List Edit) :
    (staged.tryEdits (front ++ back)).1 = ((staged.tryEdits front).1.tryEdits back).1 := by
  induction front generalizing staged with
  | nil => rfl
  | cons edit rest inductionHypothesis =>
      rw [List.cons_append]
      cases outcome : staged.edit edit with
      | ok later =>
          rw [tryEdits_of_accepted outcome, tryEdits_of_accepted outcome]
          exact inductionHypothesis later
      | error reason =>
          rw [tryEdits_of_refused outcome, tryEdits_of_refused outcome]
          exact inductionHypothesis staged

/-- Setting other slots leaves a slot alone. -/
theorem tryEdits_set_elsewhere {staged : Staged} {index : Nat} {edits : List Edit}
    (elsewhere : ∀ edit ∈ edits, ∃ other value, edit = .set other value ∧ other ≠ index) :
    (staged.tryEdits edits).1.slots[index]? = staged.slots[index]? := by
  induction edits generalizing staged with
  | nil => rfl
  | cons edit rest inductionHypothesis =>
      rw [List.forall_mem_cons] at elsewhere
      obtain ⟨⟨other, value, rfl, different⟩, restElsewhere⟩ := elsewhere
      cases outcome : staged.edit (.set other value) with
      | ok later =>
          have slots_eq : later.slots = staged.slots.set other value := by
            rw [eq_of_edit_eq_ok outcome]
            rfl
          rw [tryEdits_of_accepted outcome, inductionHypothesis restElsewhere, slots_eq,
            List.getElem?_set_ne different]
      | error reason =>
          rw [tryEdits_of_refused outcome]
          exact inductionHypothesis restElsewhere

/-- The last of several edits of a slot counts. -/
theorem tryEdits_last {staged later : Staged} {index : Nat} {value : Green.Slot}
    {front back : List Edit}
    (admitted : (staged.tryEdits front).1.node.AdmitsInPlace (staged.tryEdits front).1.slots)
    (accepted : (staged.tryEdits front).1.set index value = .ok later)
    (elsewhere : ∀ edit ∈ back, ∃ other value, edit = .set other value ∧ other ≠ index) :
    (staged.tryEdits (front ++ .set index value :: back)).1.slots[index]? = some value := by
  have edited : (staged.tryEdits front).1.edit (.set index value) = .ok later := accepted
  have inRange : index < (staged.tryEdits front).1.slots.length :=
    inRange_of_edit_eq_ok admitted edited
  rw [tryEdits_append, tryEdits_of_accepted edited, tryEdits_set_elsewhere elsewhere,
    (set_eq_ok_iff.mp accepted).2]
  exact List.getElem?_set_self inRange

variable {workspace : Workspace} {made : List Green.Slot} {root : Green.Node} {node : Red.Node}

/-- Whatever was set in a slot, setting what the node has there is accepted and undoes it. -/
theorem tryEdits_undone (history : Green.History workspace made) (rootMade : .node root ∈ made)
    (inTree : Red.Node.InTree root node) {index : Nat} {value original : Green.Slot}
    (available : Green.Available made value) (present : node.green.slots[index]? = some original) :
    (node.stage.tryEdits [.set index value, .set index original]).1.slots = node.green.slots := by
  obtain ⟨inRange, found⟩ := List.getElem?_eq_some_iff.mp present
  have restored : node.green.slots.set index original = node.green.slots := by
    rw [← found, List.set_getElem_self]
  have undo {staged : Staged} (reachable : Reachable made node staged)
      (slots_eq : staged.slots.set index original = node.green.slots) :
      (staged.tryEdits [.set index original]).1.slots = node.green.slots := by
    have admitted := reachable.admitsInPlace history inTree rootMade
    have stillInRange : index < staged.slots.length := by
      rwa [← slots_eq, List.length_set] at inRange
    have result : staged.node.AdmitsInPlace (staged.slots.set index original) := by
      rw [slots_eq, reachable.node_eq]
      exact inTree.admitsInPlace history rootMade
    obtain ⟨later, accepted⟩ :=
      (edit_accepted_iff_of_inRange admitted (.set index original) stillInRange).mpr result
    rw [tryEdits_of_accepted accepted, eq_of_edit_eq_ok accepted]
    exact slots_eq
  cases outcome : node.stage.edit (.set index value) with
  | error reason =>
      rw [tryEdits_of_refused outcome]
      exact undo .start restored
  | ok later =>
      rw [tryEdits_of_accepted outcome]
      refine undo (Reachable.start.edit (.set index value) available outcome) ?_
      rw [eq_of_edit_eq_ok outcome]
      change (node.green.slots.set index value).set index original = node.green.slots
      rw [List.set_set, restored]

end Staged

namespace Red

variable {root : Green.Node} {node : Node} {workspace : Workspace} {made : List Green.Slot}

/-- Staging edits and applying them once gives the verdicts and the slots of applying each by
itself. The trees look alike, but for one case: staged edits that end where they began leave the
very node, while edits one by one may have taken remarks off the nodes on its path. The last of
several edits of a slot counts, and setting a slot back leaves the very node. -/
theorem staging_is_stepwise (history : Green.History workspace made)
    (rootMade : .node root ∈ made) (inTree : Node.InTree root node) {edits : List Edit}
    (available : ∀ edit ∈ edits, Green.Available made edit.value) :
    ∃ together singly togetherLater singlyLater,
      (node.stage.tryEdits edits).1.apply workspace = .ok together togetherLater ∧
      node.editEach edits workspace = .ok (singly, (node.stage.tryEdits edits).2) singlyLater ∧
      together.path = node.path ∧ singly.path = node.path ∧
      Green.Slot.allIdentical together.green.slots singly.green.slots = true ∧
      ((node.stage.tryEdits edits).1.unchanged = false →
        together.treeRoot.green.sameValue singly.treeRoot.green = true) ∧
      ((node.stage.tryEdits edits).1.unchanged = true →
        together = node ∧ Green.Bared root node.path.reverse singly.treeRoot.green) ∧
      (∀ {front back index value}, edits = front ++ .set index value :: back →
        (∃ later, (node.stage.tryEdits front).1.set index value = .ok later) →
        (∀ edit ∈ back, ∃ other value, edit = .set other value ∧ other ≠ index) →
        together.green.slots[index]? = some value ∧ singly.green.slots[index]? = some value) ∧
      ∀ {index value original}, node.green.slots[index]? = some original →
        edits = [.set index value, .set index original] → together = node := by
  have reachable : Staged.Reachable made node (node.stage.tryEdits edits).1 :=
    Staged.Reachable.start.of_tryEdits available
  obtain ⟨together, togetherLater, _, togetherRun, _, _, _, _, outcome⟩ :=
    reachable.apply_goesOn history inTree rootMade
  obtain ⟨singly, singlyLater, singlyRun, version⟩ : ∃ singly singlyLater,
      node.editEach edits workspace = .ok (singly, (node.stage.tryEdits edits).2) singlyLater ∧
      Node.Version node singly (node.stage.tryEdits edits).1.slots :=
    Node.Version.same.editEach_run history rootMade inTree available
  have togetherVersion : Node.Version node together (node.stage.tryEdits edits).1.slots := by
    rcases outcome with ⟨_, slots_eq, rfl⟩ | ⟨_, rfl⟩
    · rw [slots_eq]
      exact .same
    · exact .renewed _ _
  refine ⟨together, singly, togetherLater, singlyLater, togetherRun, singlyRun,
    togetherVersion.path_eq, version.path_eq, ?_, ?_, ?_, ?_, ?_⟩
  · rw [togetherVersion.slots_eq]
    rw [version.slots_eq, Green.Slot.allIdentical_self]
  · intro changed
    rcases outcome with ⟨unchanged, _, _⟩ | ⟨_, rfl⟩
    · rw [unchanged] at changed
      cases changed
    · rcases version.eq_or_withSlots with ⟨_, slots_eq⟩ | ⟨serial, rfl⟩
      · -- With the old slots staged nothing would have changed.
        have unchanged : (node.stage.tryEdits edits).1.unchanged = true := by
          rw [Staged.unchanged, reachable.node_eq, slots_eq, Green.Slot.allIdentical_self]
        rw [unchanged] at changed
        cases changed
      · exact inTree.sameValue_withSlots _ _ _
  · intro unchanged
    rcases outcome with ⟨_, slots_eq, rfl⟩ | ⟨changed, _⟩
    · refine ⟨rfl, ?_⟩
      rcases version.eq_or_withSlots with ⟨rfl, _⟩ | ⟨serial, rfl⟩
      · rw [inTree.treeRoot_eq]
        exact .self inTree.spot?_path
      · rw [slots_eq]
        exact inTree.bared_withSlots history rootMade serial
    · rw [unchanged] at changed
      cases changed
  · rintro front back index value rfl ⟨later, accepted⟩ elsewhere
    have frontReachable : Staged.Reachable made node (node.stage.tryEdits front).1 :=
      Staged.Reachable.start.of_tryEdits fun edit present =>
        available edit (List.mem_append_left _ present)
    have last := Staged.tryEdits_last (frontReachable.admitsInPlace history inTree rootMade)
      accepted elsewhere
    rw [togetherVersion.slots_eq]
    rw [version.slots_eq]
    exact ⟨last, last⟩
  · rintro index value original present rfl
    have valueAvailable : Green.Available made value := available _ List.mem_cons_self
    have undone := Staged.tryEdits_undone history rootMade inTree valueAvailable present
    rcases outcome with ⟨_, _, same⟩ | ⟨changed, _⟩
    · exact same
    · rw [Staged.unchanged, reachable.node_eq, undone, Green.Slot.allIdentical_self] at changed
      cases changed

open Green.Sample (call argument functionToken argumentToken history call_mem) in
theorem staging_is_stepwise_of_call :
    (∃ together singly togetherLater singlyLater,
      (Sample.arguments.stage.tryEdits [.push argument, .remove 7]).1.apply
        Green.Sample.workspace = .ok together togetherLater ∧
      Sample.arguments.editEach [.push argument, .remove 7] Green.Sample.workspace =
        .ok (singly, [none, some (.slotOutOfRange NodeKind.list 7 2)]) singlyLater ∧
      together.treeRoot.green.sameValue singly.treeRoot.green = true) ∧
    ∃ together singly togetherLater singlyLater,
      (Sample.variableName.stage.tryEdits [.set 0 (.token functionToken),
        .set 0 (.token argumentToken)]).1.apply Green.Sample.workspace =
          .ok together togetherLater ∧
      Sample.variableName.editEach [.set 0 (.token functionToken),
        .set 0 (.token argumentToken)] Green.Sample.workspace =
          .ok (singly, [none, none]) singlyLater ∧
      together = Sample.variableName ∧ Green.Bared call [2, 0, 1] singly.treeRoot.green ∧
      singly.green.slots[0]? = some (.token argumentToken) := by
  constructor
  · have available : ∀ edit ∈ [Edit.push argument, .remove 7],
        Green.Available Green.Sample.made edit.value := by
      simp [Edit.value, Green.Available, Green.Sample.made]
    obtain ⟨together, singly, togetherLater, singlyLater, togetherRun, singlyRun, _, _, _, alike,
      _⟩ := staging_is_stepwise history call_mem Sample.arguments_inTree available
    exact ⟨together, singly, togetherLater, singlyLater, togetherRun, singlyRun, alike (by decide)⟩
  · have available : ∀ edit ∈ [Edit.set 0 (.token functionToken), .set 0 (.token argumentToken)],
        Green.Available Green.Sample.made edit.value := by
      simp [Edit.value, Green.Available, Green.Sample.made]
    obtain ⟨together, singly, togetherLater, singlyLater, togetherRun, singlyRun, _, _, _, _,
      bared, last, undone⟩ := staging_is_stepwise history call_mem Sample.variableName_inTree
        available
    refine ⟨together, singly, togetherLater, singlyLater, togetherRun, singlyRun,
      undone rfl rfl, (bared (by decide)).2, ?_⟩
    exact (@last [.set 0 (.token functionToken)] [] 0 _ rfl ⟨_, rfl⟩ (List.forall_mem_nil _)).2

end Red

end SyntaxTree

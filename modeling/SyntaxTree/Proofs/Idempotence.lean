import Mathlib.Data.List.InsertIdx
import SyntaxTree.Proofs.Materialized
import SyntaxTree.Proofs.Refusals
import SyntaxTree.Proofs.Replacement
import SyntaxTree.Proofs.Sharing

/-!
Edits that change nothing, and edits made again. Main statement: applying staged edits gives the
node itself exactly when all staged values are the very ones in place; putting back what was read is
such an edit, and so is any accepted edit the second time.
-/

namespace SyntaxTree

theorem Green.Slot.allIdentical_iff_forall₂ {firsts seconds : List Green.Slot} :
    allIdentical firsts seconds = true ↔
      List.Forall₂ (fun first second => first.identical second = true) firsts seconds := by
  induction firsts generalizing seconds with
  | nil => cases seconds <;> simp [allIdentical]
  | cons first firsts inductionHypothesis =>
      cases seconds with
      | nil => simp [allIdentical]
      | cons second seconds => simp [allIdentical, inductionHypothesis]

/-- The slots after values were put into them, one after the other. -/
def Green.Slot.setEach (slots : List Green.Slot) (values : List (Nat × Green.Slot)) :
    List Green.Slot :=
  values.foldl (fun slots entry => slots.set entry.1 entry.2) slots

/-- The last of the values for a slot. -/
def Green.Slot.lastGiven? (values : List (Nat × Green.Slot)) (index : Nat) : Option Green.Slot :=
  match values with
  | [] => none
  | (place, value) :: rest =>
    (lastGiven? rest index).or (if place = index then some value else none)

namespace Green.Slot

variable {slots : List Green.Slot} {values : List (Nat × Green.Slot)}

@[simp]
theorem length_setEach (slots : List Green.Slot) (values : List (Nat × Green.Slot)) :
    (setEach slots values).length = slots.length := by
  induction values generalizing slots with
  | nil => rfl
  | cons entry rest inductionHypothesis =>
      rw [setEach, List.foldl_cons, ← setEach, inductionHypothesis, List.length_set]

/-- Every slot holds the last value for it, or else what it held. -/
theorem setEach_getElem? (slots : List Green.Slot) (values : List (Nat × Green.Slot))
    (index : Nat) :
    (setEach slots values)[index]? =
      slots[index]?.map fun old => (lastGiven? values index).getD old := by
  induction values generalizing slots with
  | nil => simp [setEach, lastGiven?]
  | cons entry rest inductionHypothesis =>
      obtain ⟨place, value⟩ := entry
      rw [setEach, List.foldl_cons, ← setEach, inductionHypothesis, List.getElem?_set, lastGiven?]
      by_cases here : place = index
      · subst here
        by_cases inRange : place < slots.length
        · cases lastGiven? rest place <;> simp [inRange]
        · simp [inRange]
      · simp [here]

/-- Putting back what is there changes nothing. -/
theorem setEach_own (own : ∀ entry ∈ values, slots[entry.1]? = some entry.2) :
    setEach slots values = slots := by
  induction values with
  | nil => rfl
  | cons entry rest inductionHypothesis =>
      rw [List.forall_mem_cons] at own
      obtain ⟨_, found⟩ := List.getElem?_eq_some_iff.mp own.1
      rw [setEach, List.foldl_cons, ← setEach, ← found, List.set_getElem_self,
        inductionHypothesis own.2]

theorem setEach_setEach (slots : List Green.Slot) (values : List (Nat × Green.Slot)) :
    setEach (setEach slots values) values = setEach slots values := by
  refine List.ext_getElem? fun index => ?_
  rw [setEach_getElem?, setEach_getElem?, Option.map_map]
  cases lastGiven? values index <;> rfl

end Green.Slot

namespace Staged

variable {staged later : Staged} {values : List (Nat × Green.Slot)}

/-- Values are all set when each by itself can be. -/
theorem setAll_eq_ok_iff :
    staged.setAll values = .ok later ↔
      (∀ entry ∈ values, ∃ spec,
        (staged.node.specsInPlace staged.slots.length)[entry.1]? = some spec ∧
          spec.Admits (Green.Slot.description entry.2)) ∧
      later = { staged with slots := Green.Slot.setEach staged.slots values } := by
  induction values generalizing staged with
  | nil => simp [setAll, Green.Slot.setEach, eq_comm]
  | cons entry rest inductionHypothesis =>
      obtain ⟨index, value⟩ := entry
      rw [List.forall_mem_cons]
      cases outcome : staged.set index value with
      | error reason =>
          rw [setAll_of_refused outcome]
          constructor
          · intro accepted
            cases accepted
          · rintro ⟨⟨admitted, _⟩, _⟩
            rw [set_eq_ok_iff.mpr ⟨admitted, rfl⟩] at outcome
            cases outcome
      | ok next =>
          obtain ⟨admitted, rfl⟩ := set_eq_ok_iff.mp outcome
          rw [setAll_of_accepted outcome, inductionHypothesis, List.length_set]
          simp only [admitted, true_and]
          rfl

theorem remove_of_insert {index : Nat} {element : Green.Node}
    (accepted : staged.insert index element = .ok later) : later.remove index = .ok staged := by
  obtain ⟨isList, inRange, _, rfl⟩ := insert_eq_ok_iff.mp accepted
  refine remove_eq_ok_iff.mpr ⟨isList, ?_, ?_⟩
  · rw [List.length_insertIdx_of_le_length inRange]
    exact Nat.lt_succ_of_le inRange
  · rw [List.eraseIdx_insertIdx_self]

theorem insert_of_remove {index : Nat} {element : Green.Node}
    (admitted : staged.node.AdmitsInPlace staged.slots)
    (present : staged.slots[index]? = some (.node element))
    (accepted : staged.remove index = .ok later) : later.insert index element = .ok staged := by
  obtain ⟨isList, inRange, rfl⟩ := remove_eq_ok_iff.mp accepted
  obtain ⟨_, found⟩ := List.getElem?_eq_some_iff.mp present
  rw [Red.Node.admitsInPlace_of_list isList] at admitted
  refine insert_eq_ok_iff.mpr ⟨isList, ?_, admitted _ (List.mem_of_getElem? present), ?_⟩
  · rw [List.length_eraseIdx_of_lt inRange]
    exact Nat.le_sub_one_of_lt inRange
  · rw [← found, List.insertIdx_eraseIdx_getElem inRange]

/-- Whether the staged slots are as many as the node has, and each is the very value in place. -/
def AsItWas (staged : Staged) : Prop :=
  List.Forall₂ (fun old new => Green.Slot.identical old new = true)
    staged.node.green.slots staged.slots

theorem unchanged_iff : staged.unchanged = true ↔ staged.AsItWas :=
  Green.Slot.allIdentical_iff_forall₂

end Staged

namespace Red

variable {root : Green.Node} {workspace : Workspace} {made : List Green.Slot} {node : Node}

/-- An edit leaves a handle the one it was just when it leaves the place. -/
theorem NodeHandle.afterEdit_eq_self_iff {handle : NodeHandle} {edited : Node} {now : Workspace}
    (place : edited = handle.node ∨ edited.samePlace handle.node = false) :
    handle.afterEdit edited now = .ok handle now ↔ edited = handle.node := by
  rw [afterEdit]
  constructor
  · intro run
    rcases place with same | other
    · exact same
    · rw [if_neg (by simp [other])] at run
      exact (fresh_eq_ok run).1.symm
  · rintro rfl
    rw [if_pos handle.node.samePlace_self]
    rfl

/-- Building a node anew gives a root that was not there before. -/
theorem Node.InTree.treeRoot_withSlots_fresh (inTree : Node.InTree root node)
    (history : Green.History workspace made) (slots : List Green.Slot) :
    ∀ value ∈ made, Green.Slot.identical value
      (.node (node.withSlots workspace.nextSerial slots).treeRoot.green) = false := by
  obtain ⟨old, new, _, found, renewed, _⟩ :=
    inTree.descend_withSlots history (Nat.le_refl _) slots (List.nil_append _).symm
  cases found
  exact renewed.fresh

theorem Node.InTree.samePlace_withSlots (inTree : Node.InTree root node)
    (history : Green.History workspace made) (rootMade : .node root ∈ made)
    (slots : List Green.Slot) :
    (node.withSlots workspace.nextSerial slots).samePlace node = false := by
  rw [Bool.eq_false_iff]
  intro same
  obtain ⟨rootsIdentical, _⟩ := Node.of_samePlace same
  rw [inTree.treeRoot_eq] at rootsIdentical
  have sameStamp := beq_iff_eq.mp rootsIdentical
  have apart := inTree.treeRoot_withSlots_fresh history slots _ rootMade
  rw [Green.Slot.identical, sameStamp] at apart
  simp [Node.green] at apart

end Red

/-- Nothing is built exactly when everything is as it was. -/
theorem Staged.Reachable.apply_gate {root : Green.Node} {workspace : Workspace}
    {made : List Green.Slot} {node : Red.Node} {staged : Staged}
    (reachable : Staged.Reachable made node staged) (history : Green.History workspace made)
    (rootMade : .node root ∈ made) (inTree : Red.Node.InTree root node) :
    ∃ edited later, staged.apply workspace = .ok edited later ∧
      (edited = node ↔ staged.AsItWas) ∧
      (staged.AsItWas → later = workspace.after 0 [.unchanged node.kind]) ∧
      (¬ staged.AsItWas → ∀ value ∈ made,
        Green.Slot.identical value (.node edited.treeRoot.green) = false) ∧
      ∀ {handle : Red.NodeHandle} {now : Workspace}, handle.node = node →
        (handle.afterEdit edited now = .ok handle now ↔ staged.AsItWas) := by
  cases verdict : staged.unchanged with
  | true =>
      have asItWas := Staged.unchanged_iff.mp verdict
      obtain ⟨_, run⟩ := reachable.apply_of_unchanged history inTree rootMade verdict
      refine ⟨node, _, run, iff_of_true rfl asItWas, fun _ => rfl,
        fun changed => absurd asItWas changed, ?_⟩
      rintro handle now rfl
      exact iff_of_true (Red.NodeHandle.afterEdit_eq_self_iff (.inl rfl) |>.mpr rfl) asItWas
  | false =>
      have changed : ¬ staged.AsItWas := by simp [← Staged.unchanged_iff, verdict]
      have run := reachable.apply_of_changed history inTree rootMade verdict
      have elsewhere := inTree.samePlace_withSlots history rootMade staged.slots
      have different : node.withSlots workspace.nextSerial staged.slots ≠ node := by
        intro same
        rw [same, node.samePlace_self] at elsewhere
        cases elsewhere
      refine ⟨_, _, run, iff_of_false different changed, fun asItWas => absurd asItWas changed,
        fun _ => inTree.treeRoot_withSlots_fresh history staged.slots, ?_⟩
      rintro handle now rfl
      rw [Red.NodeHandle.afterEdit_eq_self_iff (.inr elsewhere)]
      exact iff_of_false different changed

namespace Red

variable {root : Green.Node} {workspace : Workspace} {made : List Green.Slot} {node : Node}

theorem Node.specsInPlace_eq {first second : Node} (kind_eq : first.kind = second.kind)
    (held_eq : first.heldElementSpec? = second.heldElementSpec?) (count : Nat) :
    first.specsInPlace count = second.specsInPlace count := by
  rw [specsInPlace, specsInPlace, elementSpecInPlace, elementSpecInPlace, kind_eq, held_eq]

theorem Node.apply_stage (node : Node) (workspace : Workspace) :
    node.stage.apply workspace = .ok node (workspace.after 0 [.unchanged node.kind]) := by
  have unchanged : node.stage.unchanged = true := Green.Slot.allIdentical_self node.green.slots
  rw [Staged.apply, if_pos unchanged, Build.bind_run_of_ok (Build.record_run _ _)]
  simp [Workspace.after, stage]

/-- Values that are in place are accepted and change nothing. -/
theorem Node.setAll_own {values : List (Nat × Green.Slot)}
    (admitted : node.AdmitsInPlace node.green.slots)
    (own : ∀ entry ∈ values, node.green.slots[entry.1]? = some entry.2) :
    node.stage.setAll values = .ok node.stage := by
  refine Staged.setAll_eq_ok_iff.mpr ⟨fun entry present => ?_, ?_⟩
  · obtain ⟨inRange, _⟩ := List.getElem?_eq_some_iff.mp (own entry present)
    have inSpecs : entry.1 < (node.specsInPlace node.green.slots.length).length := by
      rwa [List.Forall₂.length_eq admitted]
    have found := List.getElem?_eq_getElem inSpecs
    exact ⟨_, found, admitted.get found (own entry present)⟩
  · rw [show node.stage.slots = node.green.slots from rfl, Green.Slot.setEach_own own]
    rfl

/-- What a node accepts, the version that comes of it accepts again, and stays. -/
theorem Node.Version.setAll_again {first : Node} {slots : List Green.Slot}
    {values : List (Nat × Green.Slot)} (version : Node.Version node first slots)
    (accepted : node.stage.setAll values = .ok ⟨node, slots⟩) :
    first.stage.setAll values = .ok first.stage := by
  obtain ⟨kind_eq, held_eq, slots_eq⟩ := version.alike
  change first.stage.slots = slots at slots_eq
  obtain ⟨admitted, after⟩ := Staged.setAll_eq_ok_iff.mp accepted
  have slots_after : slots = Green.Slot.setEach node.green.slots values :=
    congrArg Staged.slots after
  refine Staged.setAll_eq_ok_iff.mpr ⟨fun entry present => ?_, ?_⟩
  · obtain ⟨spec, found, fits⟩ := admitted entry present
    refine ⟨spec, ?_, fits⟩
    rw [Node.specsInPlace_eq kind_eq held_eq, slots_eq, slots_after, Green.Slot.length_setEach]
    exact found
  · rw [slots_eq, slots_after, Green.Slot.setEach_setEach, ← slots_after, ← slots_eq]

theorem Node.InTree.replaceSlots_again (inTree : Node.InTree root node)
    (history : Green.History workspace made) (rootMade : .node root ∈ made)
    {values : List (Nat × Green.Slot)} {first : Node} {later : Workspace}
    (available : ∀ entry ∈ values, Green.Available made entry.2)
    (run : node.replaceSlots values workspace = .ok first later) (now : Workspace) :
    first.replaceSlots values now = .ok first (now.after 0 [.unchanged first.kind]) := by
  cases outcome : node.stage.setAll values with
  | error reason =>
      rw [replaceSlots_of_refused outcome] at run
      cases run
  | ok staged =>
      have reachable := Staged.Reachable.start.of_setAll available outcome
      have sameNode := reachable.node_eq
      obtain ⟨_, _, _, applied, _, _, _, _, version⟩ :=
        reachable.apply_version history inTree rootMade
      rw [replaceSlots_of_accepted outcome, applied] at run
      cases run
      have staged_eq : staged = ⟨node, staged.slots⟩ := by rw [← sameNode]
      rw [staged_eq] at outcome
      rw [replaceSlots_of_accepted (version.setAll_again outcome), apply_stage]

theorem Node.InTree.replaceWith_again (inTree : Node.InTree root node)
    (history : Green.History workspace made) (rootMade : .node root ∈ made) {green : Green.Node}
    (greenMade : .node green ∈ made) {first : Node} {later : Workspace}
    (run : node.replaceWith green workspace = .ok first later) (now : Workspace) :
    first.replaceWith green now = .ok first (now.after 0 [.unchanged first.kind]) := by
  refine replaceWith_of_same ?_ now
  rcases inTree.replaceWith_run history rootMade greenMade with
    ⟨_, _, _, replaced, ⟨rfl, rfl⟩ | rfl⟩ | ⟨_, _, refused⟩
  · rw [replaced] at run
    cases run
    exact beq_self_eq_true _
  · rw [replaced] at run
    cases run
    rw [regrown_green]
    exact beq_self_eq_true _
  · rw [refused] at run
    cases run

theorem Token.replaceWith_again {token : Token}
    (inTree : Token.InTree root token ∨ ∃ old, token = .detached old)
    (history : Green.History workspace made) (rootMade : .node root ∈ made) {green : Green.Token}
    (greenMade : .token green ∈ made) {first : Token} {later : Workspace}
    (run : token.replaceWith green workspace = .ok first later) (now : Workspace) :
    first.replaceWith green now = .ok first (now.after 0 [.unchanged first.kind]) := by
  refine replaceWith_of_same ?_ now
  rcases inTree with inTree | ⟨old, rfl⟩
  · rcases inTree.replaceWith_run history rootMade greenMade with
      ⟨_, _, _, replaced, ⟨rfl, rfl⟩ | rfl⟩ | ⟨_, _, refused⟩
    · rw [replaced] at run
      cases run
      exact beq_self_eq_true _
    · rw [replaced] at run
      cases run
      rw [regrown_green]
      exact beq_self_eq_true _
    · rw [refused] at run
      cases run
  · cases same : green.identical (detached old).green with
    | true =>
        rw [replaceWith_of_same same] at run
        cases run
        exact same
    | false =>
        rw [replaceWith.eq_def, if_neg (by simp [same])] at run
        cases run
        exact beq_self_eq_true _

/-- Applying staged edits gives the node itself, with the handle that it was asked of, exactly when
the staged slots are as many as before and one by one the very same values; otherwise the root is a
new one, however alike the values look. So putting back slots that were read changes nothing, taking
out again what was inserted into a list or putting back what was removed restores the staged edit,
and an accepted replacement made a second time changes nothing. -/
theorem edits_are_idempotent (history : Green.History workspace made)
    (rootMade : .node root ∈ made) (inTree : Node.InTree root node) :
    (∀ {staged}, Staged.Reachable made node staged → ∃ edited later,
      staged.apply workspace = .ok edited later ∧
      (edited = node ↔ staged.AsItWas) ∧
      (staged.AsItWas → later = workspace.after 0 [.unchanged node.kind]) ∧
      (¬ staged.AsItWas → ∀ value ∈ made,
        Green.Slot.identical value (.node edited.treeRoot.green) = false) ∧
      ∀ {handle : NodeHandle} {now : Workspace}, handle.node = node →
        (handle.afterEdit edited now = .ok handle now ↔ staged.AsItWas)) ∧
    (∀ {values : List (Nat × Green.Slot)},
      (∀ entry ∈ values, ∃ slot, node.slot? entry.1 = some slot ∧ entry.2 = slot.green) →
      node.replaceSlots values workspace =
        .ok node (workspace.after 0 [.unchanged node.kind])) ∧
    (∀ {staged}, Staged.Reachable made node staged → ∀ {index element later},
      (staged.insert index element = .ok later → later.remove index = .ok staged) ∧
      (staged.slots[index]? = some (.node element) → staged.remove index = .ok later →
        later.insert index element = .ok staged)) ∧
    (∀ {values : List (Nat × Green.Slot)}, (∀ entry ∈ values, Green.Available made entry.2) →
      ∀ {first later}, node.replaceSlots values workspace = .ok first later → ∀ now,
        first.replaceSlots values now = .ok first (now.after 0 [.unchanged first.kind])) ∧
    (∀ {green : Green.Node}, .node green ∈ made →
      ∀ {first later}, node.replaceWith green workspace = .ok first later → ∀ now,
        first.replaceWith green now = .ok first (now.after 0 [.unchanged first.kind])) ∧
    ∀ {token : Token}, (Token.InTree root token ∨ ∃ old, token = .detached old) →
      ∀ {green : Green.Token}, .token green ∈ made →
      ∀ {first later}, token.replaceWith green workspace = .ok first later → ∀ now,
        first.replaceWith green now = .ok first (now.after 0 [.unchanged first.kind]) := by
  refine ⟨fun reachable => reachable.apply_gate history rootMade inTree, ?_, ?_,
    fun available _ _ => inTree.replaceSlots_again history rootMade available,
    fun greenMade _ _ => inTree.replaceWith_again history rootMade greenMade,
    fun place _ greenMade _ _ => Token.replaceWith_again place history rootMade greenMade⟩
  · intro values own
    have accepted : node.stage.setAll values = .ok node.stage := by
      refine Node.setAll_own (inTree.admitsInPlace history rootMade) fun entry present => ?_
      obtain ⟨slot, shown, value_eq⟩ := own entry present
      rw [value_eq]
      exact Node.slots_getElem?_of_slot? shown
    rw [Node.replaceSlots_of_accepted accepted, node.apply_stage]
  · intro staged reachable index element later
    exact ⟨Staged.remove_of_insert,
      Staged.insert_of_remove (reachable.admitsInPlace history inTree rootMade)⟩

open Green.Sample (argument functionToken history call_mem) in
theorem edits_are_idempotent_of_call :
    Sample.arguments.replaceSlots [(0, .node argument), (0, .node argument)]
        Green.Sample.workspace =
      .ok Sample.arguments (Green.Sample.workspace.after 0 [.unchanged NodeKind.list]) ∧
    (∃ edited later, Staged.Sample.doubled.apply Green.Sample.workspace = .ok edited later ∧
      edited ≠ Sample.arguments) ∧
    Staged.Sample.doubled.remove 1 = .ok Sample.arguments.stage ∧
    ∃ first later,
      Sample.variableName.replaceSlots [(0, .token functionToken)] Green.Sample.workspace =
        .ok first later ∧
      first.replaceSlots [(0, .token functionToken)] later =
        .ok first (later.after 0 [.unchanged first.kind]) := by
  obtain ⟨gate, own, restored, _⟩ :=
    edits_are_idempotent history call_mem Sample.arguments_inTree
  refine ⟨own (by simp; exact ⟨_, rfl, rfl⟩), ?_, ?_, ?_⟩
  · obtain ⟨edited, later, run, same_iff, _⟩ := gate Staged.Sample.doubled_reachable
    refine ⟨edited, later, run, fun same => ?_⟩
    have unchanged := Staged.unchanged_iff.mpr (same_iff.mp same)
    exact absurd unchanged (by decide)
  · exact (@restored _ .start 1 argument _).1 rfl
  · obtain ⟨_, _, _, again, _⟩ :=
      edits_are_idempotent history call_mem Sample.variableName_inTree
    have available : ∀ entry ∈ [(0, Slot.token functionToken)],
        Green.Available Green.Sample.made entry.2 := by
      simp [Green.Available, Green.Sample.made]
    obtain ⟨first, later, run⟩ : ∃ first later, Sample.variableName.replaceSlots
        [(0, .token functionToken)] Green.Sample.workspace = .ok first later := ⟨_, _, rfl⟩
    exact ⟨first, later, run, again available run later⟩

end Red

end SyntaxTree

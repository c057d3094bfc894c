import SyntaxTree.Proofs.Stepwise

/-!
Staged edits some of which are refused. When an edit is refused, and for which reason, is told by
the kind of the node, what holds it and the number of slots staged so far. Main statement: what is
staged at the end is what the accepted edits make of the slots, one after the other, as if the
refused ones had not been tried.
-/

namespace SyntaxTree

/-- Why a node refuses an edit while `count` slots are staged on it. Only lists grow and shrink, and
they may grow at their end. -/
inductive Red.Node.Refuses (node : Red.Node) (count : Nat) : Edit → SlotError → Prop
  | insertNotAList {index : Nat} {element : Green.Node} : node.kind ≠ .list →
      Refuses node count (.insert index element) (.notAList node.kind)
  | insertBeyond {index : Nat} {element : Green.Node} : node.kind = .list → count < index →
      Refuses node count (.insert index element) (.slotOutOfRange node.kind index count)
  | insertMisfit {index : Nat} {element : Green.Node} {reason : SlotError} :
      node.kind = .list → index ≤ count →
      node.elementSpecInPlace.check NodeKind.list (.node element) = .error reason →
      Refuses node count (.insert index element) reason
  | push {element : Green.Node} {reason : SlotError} :
      Refuses node count (.insert count element) reason → Refuses node count (.push element) reason
  | removeNotAList {index : Nat} : node.kind ≠ .list →
      Refuses node count (.remove index) (.notAList node.kind)
  | removeBeyond {index : Nat} : node.kind = .list → count ≤ index →
      Refuses node count (.remove index) (.slotOutOfRange node.kind index count)
  | setBeyondList {index : Nat} {value : Green.Slot} : node.kind = .list → count ≤ index →
      Refuses node count (.set index value) (.slotOutOfRange node.kind index count)
  | setBeyondArity {index arity : Nat} {value : Green.Slot} : node.kind.arity? = some arity →
      arity ≤ index → Refuses node count (.set index value) (.slotOutOfRange node.kind index count)
  | setMisfitElement {index : Nat} {value : Green.Slot} {reason : SlotError} :
      node.kind = .list → index < count →
      node.elementSpecInPlace.check NodeKind.list value = .error reason →
      Refuses node count (.set index value) reason
  | setMisfit {index : Nat} {value : Green.Slot} {spec : SlotSpec} {reason : SlotError} :
      node.kind.layout[index]? = some spec → spec.check node.kind value = .error reason →
      Refuses node count (.set index value) reason

theorem NodeKind.arity?_of_ne_list {kind : NodeKind} (notList : kind ≠ .list) :
    kind.arity? = some kind.layout.length := by
  cases kind <;> first | rfl | contradiction

theorem NodeKind.ne_list_of_arity? {kind : NodeKind} {arity : Nat}
    (fixed : kind.arity? = some arity) : kind ≠ .list := by
  rintro rfl
  cases fixed

namespace Staged

variable {staged later : Staged} {index : Nat} {reason : SlotError}

section Reasons

theorem set_of_layout {spec : SlotSpec} (found : staged.node.kind.layout[index]? = some spec)
    (value : Green.Slot) :
    staged.set index value = (spec.check staged.node.kind value).map fun _ =>
      { staged with slots := staged.slots.set index value } := by
  refine set_of_slotSpec_ok ?_ value
  rw [slotSpec, if_neg (NodeKind.ne_list_of_layout found), found]

theorem set_beyond_list (isList : staged.node.kind = .list) (beyond : staged.slots.length ≤ index)
    (value : Green.Slot) : staged.set index value = .error (staged.outOfRange index) := by
  refine set_of_slotSpec_error ?_ value
  rw [slotSpec, if_pos isList, if_neg (Nat.not_lt.mpr beyond)]

theorem set_beyond_layout (notList : staged.node.kind ≠ .list)
    (beyond : staged.node.kind.layout.length ≤ index) (value : Green.Slot) :
    staged.set index value = .error (staged.outOfRange index) := by
  refine set_of_slotSpec_error ?_ value
  rw [slotSpec, if_neg notList, List.getElem?_eq_none_iff.mpr beyond]

theorem map_check_eq_error_iff {spec : SlotSpec} {owner : Kind} {value : Green.Slot}
    {update : Unit → Staged} :
    (spec.check owner value).map update = .error reason ↔
      spec.check owner value = .error reason := by
  cases spec.check owner value <;> simp [Except.map]

theorem set_refused_iff {value : Green.Slot} :
    staged.set index value = .error reason ↔
      staged.node.Refuses staged.slots.length (.set index value) reason := by
  constructor
  · intro refused
    by_cases isList : staged.node.kind = .list
    · by_cases inRange : index < staged.slots.length
      · rw [set_of_list isList inRange, map_check_eq_error_iff] at refused
        exact .setMisfitElement isList inRange refused
      · have beyond := Nat.le_of_not_lt inRange
        rw [set_beyond_list isList beyond] at refused
        cases refused
        exact .setBeyondList isList beyond
    · cases found : staged.node.kind.layout[index]? with
      | some spec =>
          rw [set_of_layout found, map_check_eq_error_iff] at refused
          exact .setMisfit found refused
      | none =>
          have beyond := List.getElem?_eq_none_iff.mp found
          rw [set_beyond_layout isList beyond] at refused
          cases refused
          exact .setBeyondArity (NodeKind.arity?_of_ne_list isList) beyond
  · intro refuses
    cases refuses with
    | setBeyondList isList beyond => exact set_beyond_list isList beyond value
    | setBeyondArity fixed beyond =>
        have notList := NodeKind.ne_list_of_arity? fixed
        rw [NodeKind.arity?_of_ne_list notList, Option.some.injEq] at fixed
        subst fixed
        exact set_beyond_layout notList beyond value
    | setMisfitElement isList inRange checked =>
        rw [set_of_list isList inRange, checked]
        rfl
    | setMisfit found checked =>
        rw [set_of_layout found, checked]
        rfl

theorem insert_refused_iff {element : Green.Node} :
    staged.insert index element = .error reason ↔
      staged.node.Refuses staged.slots.length (.insert index element) reason := by
  by_cases isList : staged.node.kind = .list
  · have found := elementSpec_eq_ok_iff.mpr ⟨isList, rfl⟩
    by_cases inRange : index ≤ staged.slots.length
    · have checked_iff : staged.insert index element = .error reason ↔
          staged.node.elementSpecInPlace.check NodeKind.list (.node element) = .error reason := by
        cases checked : staged.node.elementSpecInPlace.check NodeKind.list (.node element) <;>
          simp [insert, found, inRange, checked, bind, Except.bind, pure, Except.pure]
      rw [checked_iff]
      refine ⟨.insertMisfit isList inRange, fun refuses => ?_⟩
      cases refuses with
      | insertNotAList notList => exact absurd isList notList
      | insertBeyond _ beyond => exact absurd inRange (Nat.not_le.mpr beyond)
      | insertMisfit _ _ checked => exact checked
    · have outside : staged.insert index element = .error (staged.outOfRange index) := by
        simp only [insert, found, inRange, if_false, bind, Except.bind]
        rfl
      rw [outside, Except.error.injEq]
      constructor
      · rintro rfl
        exact .insertBeyond isList (Nat.lt_of_not_le inRange)
      · intro refuses
        cases refuses with
        | insertNotAList notList => exact absurd isList notList
        | insertBeyond => rfl
        | insertMisfit _ stillInRange => exact absurd stillInRange inRange
  · have notAList : staged.insert index element = .error (.notAList staged.node.kind) := by
      simp [insert, elementSpec, isList, bind, Except.bind]
    rw [notAList, Except.error.injEq]
    constructor
    · rintro rfl
      exact .insertNotAList isList
    · intro refuses
      cases refuses with
      | insertNotAList => rfl
      | insertBeyond list => exact absurd list isList
      | insertMisfit list => exact absurd list isList

theorem remove_refused_iff :
    staged.remove index = .error reason ↔
      staged.node.Refuses staged.slots.length (.remove index) reason := by
  by_cases isList : staged.node.kind = .list
  · have found := elementSpec_eq_ok_iff.mpr ⟨isList, rfl⟩
    by_cases inRange : index < staged.slots.length
    · have accepted := remove_eq_ok_iff.mpr ⟨isList, inRange, rfl⟩
      rw [accepted]
      refine ⟨fun refused => (by cases refused), fun refuses => ?_⟩
      cases refuses with
      | removeNotAList notList => exact absurd isList notList
      | removeBeyond _ beyond => exact absurd inRange (Nat.not_lt.mpr beyond)
    · have outside : staged.remove index = .error (staged.outOfRange index) := by
        simp only [remove, found, inRange, if_false, bind, Except.bind]
        rfl
      rw [outside, Except.error.injEq]
      constructor
      · rintro rfl
        exact .removeBeyond isList (Nat.le_of_not_lt inRange)
      · intro refuses
        cases refuses with
        | removeNotAList notList => exact absurd isList notList
        | removeBeyond => rfl
  · have notAList : staged.remove index = .error (.notAList staged.node.kind) := by
      simp [remove, elementSpec, isList, bind, Except.bind]
    rw [notAList, Except.error.injEq]
    constructor
    · rintro rfl
      exact .removeNotAList isList
    · intro refuses
      cases refuses with
      | removeNotAList => rfl
      | removeBeyond list => exact absurd list isList

/-- What an edit is refused for. -/
theorem edit_refused_iff {edit : Edit} :
    staged.edit edit = .error reason ↔
      staged.node.Refuses staged.slots.length edit reason := by
  cases edit with
  | set index value => exact set_refused_iff
  | insert index element => exact insert_refused_iff
  | push element =>
      refine insert_refused_iff.trans ⟨.push, fun refuses => ?_⟩
      cases refuses with
      | push refuses => exact refuses
  | remove index => exact remove_refused_iff

end Reasons

section Runs

/-- The edits that are accepted, in order. -/
def acceptedEdits (staged : Staged) (edits : List Edit) : List Edit :=
  ((edits.zip (staged.tryEdits edits).2).filter (·.2.isNone)).map (·.1)

theorem acceptedEdits_of_accepted {edit : Edit} (accepted : staged.edit edit = .ok later)
    (rest : List Edit) :
    staged.acceptedEdits (edit :: rest) = edit :: later.acceptedEdits rest := by
  simp [acceptedEdits, tryEdits_of_accepted accepted]

theorem acceptedEdits_of_refused {edit : Edit} (refused : staged.edit edit = .error reason)
    (rest : List Edit) : staged.acceptedEdits (edit :: rest) = staged.acceptedEdits rest := by
  simp [acceptedEdits, tryEdits_of_refused refused]

/-- The accepted edits alone are all accepted and lead to the same. -/
theorem tryEdits_acceptedEdits (staged : Staged) (edits : List Edit) :
    staged.tryEdits (staged.acceptedEdits edits) =
      ((staged.tryEdits edits).1, (staged.acceptedEdits edits).map fun _ => none) := by
  induction edits generalizing staged with
  | nil => rfl
  | cons edit rest inductionHypothesis =>
      cases outcome : staged.edit edit with
      | ok later =>
          rw [acceptedEdits_of_accepted outcome, tryEdits_of_accepted outcome,
            tryEdits_of_accepted outcome, inductionHypothesis]
          rfl
      | error reason =>
          rw [acceptedEdits_of_refused outcome, tryEdits_of_refused outcome, inductionHypothesis]

theorem slots_tryEdits (staged : Staged) (edits : List Edit) :
    (staged.tryEdits edits).1.slots =
      (staged.acceptedEdits edits).foldl (fun slots edit => edit.perform slots) staged.slots := by
  induction edits generalizing staged with
  | nil => rfl
  | cons edit rest inductionHypothesis =>
      cases outcome : staged.edit edit with
      | ok later =>
          rw [acceptedEdits_of_accepted outcome, tryEdits_of_accepted outcome, List.foldl_cons,
            inductionHypothesis, eq_of_edit_eq_ok outcome]
      | error reason =>
          rw [acceptedEdits_of_refused outcome, tryEdits_of_refused outcome, inductionHypothesis]

theorem node_tryEdits (staged : Staged) (edits : List Edit) :
    (staged.tryEdits edits).1.node = staged.node := by
  induction edits generalizing staged with
  | nil => rfl
  | cons edit rest inductionHypothesis =>
      cases outcome : staged.edit edit with
      | ok later =>
          rw [tryEdits_of_accepted outcome, inductionHypothesis, eq_of_edit_eq_ok outcome]
      | error reason => rw [tryEdits_of_refused outcome, inductionHypothesis]

theorem length_verdicts (staged : Staged) (edits : List Edit) :
    (staged.tryEdits edits).2.length = edits.length := by
  induction edits generalizing staged with
  | nil => rfl
  | cons edit rest inductionHypothesis =>
      cases outcome : staged.edit edit with
      | ok later => rw [tryEdits_of_accepted outcome, List.length_cons, inductionHypothesis,
          List.length_cons]
      | error reason => rw [tryEdits_of_refused outcome, List.length_cons, inductionHypothesis,
          List.length_cons]

theorem verdicts_append (staged : Staged) (front back : List Edit) :
    (staged.tryEdits (front ++ back)).2 =
      (staged.tryEdits front).2 ++ ((staged.tryEdits front).1.tryEdits back).2 := by
  induction front generalizing staged with
  | nil => rfl
  | cons edit rest inductionHypothesis =>
      rw [List.cons_append]
      cases outcome : staged.edit edit with
      | ok later =>
          rw [tryEdits_of_accepted outcome, tryEdits_of_accepted outcome, inductionHypothesis]
          rfl
      | error reason =>
          rw [tryEdits_of_refused outcome, tryEdits_of_refused outcome, inductionHypothesis]
          rfl

/-- The verdict on an edit is that of the slots which the edits before it have left. -/
theorem verdict_eq_some_iff (staged : Staged) (front back : List Edit) (edit : Edit) :
    (staged.tryEdits (front ++ edit :: back)).2[front.length]? = some (some reason) ↔
      (staged.tryEdits front).1.edit edit = .error reason := by
  rw [verdicts_append, List.getElem?_append_right (Nat.le_of_eq (staged.length_verdicts front)),
    length_verdicts, Nat.sub_self]
  cases outcome : (staged.tryEdits front).1.edit edit with
  | ok later => simp [tryEdits_of_accepted outcome]
  | error other => simp [tryEdits_of_refused outcome]

theorem tryEdits_snoc_of_refused {front : List Edit} {edit : Edit}
    (refused : (staged.tryEdits front).1.edit edit = .error reason) :
    (staged.tryEdits (front ++ [edit])).1 = (staged.tryEdits front).1 := by
  rw [tryEdits_append, tryEdits_of_refused refused]
  rfl

end Runs

end Staged

namespace Red.Node

/-- Whether `reason` is why a node refuses the first of some values that it refuses at all. -/
def RefusesFirst (node : Red.Node) (values : List (Nat × Green.Slot)) (reason : SlotError) :
    Prop :=
  ∃ front index value back, values = front ++ (index, value) :: back ∧
    (∀ entry ∈ front, ∀ other,
      ¬ node.Refuses node.green.slots.length (.set entry.1 entry.2) other) ∧
    node.Refuses node.green.slots.length (.set index value) reason

theorem refusesFirst_cons_iff {node : Red.Node} {index : Nat} {value : Green.Slot}
    {rest : List (Nat × Green.Slot)} {reason : SlotError} :
    node.RefusesFirst ((index, value) :: rest) reason ↔
      node.Refuses node.green.slots.length (.set index value) reason ∨
      (∀ other, ¬ node.Refuses node.green.slots.length (.set index value) other) ∧
        node.RefusesFirst rest reason := by
  constructor
  · rintro ⟨front, _, _, back, split, before, refuses⟩
    cases front with
    | nil =>
        cases split
        exact .inl refuses
    | cons first front =>
        cases split
        rw [List.forall_mem_cons] at before
        exact .inr ⟨before.1, front, _, _, back, rfl, before.2, refuses⟩
  · rintro (refuses | ⟨accepts, front, second, given, back, rfl, before, refuses⟩)
    · exact ⟨[], index, value, rest, rfl, by simp, refuses⟩
    · exact ⟨(index, value) :: front, second, given, back, rfl,
        List.forall_mem_cons.mpr ⟨accepts, before⟩, refuses⟩

end Red.Node

namespace Staged

theorem setAll_of_accepted {staged later : Staged} {index : Nat} {value : Green.Slot}
    (accepted : staged.set index value = .ok later) (rest : List (Nat × Green.Slot)) :
    staged.setAll ((index, value) :: rest) = later.setAll rest := by
  rw [setAll, accepted]
  rfl

theorem setAll_of_refused {staged : Staged} {index : Nat} {value : Green.Slot} {reason : SlotError}
    (refused : staged.set index value = .error reason) (rest : List (Nat × Green.Slot)) :
    staged.setAll ((index, value) :: rest) = .error reason := by
  rw [setAll, refused]
  rfl

/-- Setting values stops at the first one that is refused. The number of slots stays, so that each
value is judged as if it were the only one. -/
theorem setAll_refused_iff {staged : Staged} {values : List (Nat × Green.Slot)}
    {reason : SlotError} (sameCount : staged.slots.length = staged.node.green.slots.length) :
    staged.setAll values = .error reason ↔ staged.node.RefusesFirst values reason := by
  induction values generalizing staged with
  | nil =>
      refine ⟨fun refused => (by cases refused), ?_⟩
      rintro ⟨front, index, value, back, split, _⟩
      simp at split
  | cons entry rest inductionHypothesis =>
      obtain ⟨index, value⟩ := entry
      have judged {other : SlotError} : staged.set index value = .error other ↔ _ :=
        set_refused_iff
      rw [sameCount] at judged
      simp only [Red.Node.refusesFirst_cons_iff, ← judged]
      cases outcome : staged.set index value with
      | error other => simp [setAll_of_refused outcome]
      | ok later =>
          have later_eq := (set_eq_ok_iff.mp outcome).2
          have laterCount : later.slots.length = later.node.green.slots.length := by
            rw [later_eq, List.length_set]
            exact sameCount
          rw [setAll_of_accepted outcome, inductionHypothesis laterCount, later_eq]
          simp

end Staged

namespace Red

variable {root : Green.Node} {node : Node} {workspace : Workspace} {made : List Green.Slot}

namespace Node

theorem replaceSlots_of_refused {values : List (Nat × Green.Slot)} {reason : SlotError}
    (refused : node.stage.setAll values = .error reason) (workspace : Workspace) :
    node.replaceSlots values workspace = .error (.rejected reason) workspace := by
  rw [replaceSlots, refused, Build.ofFit_error, Build.bind_run_of_error (Build.reject_run _ _)]

theorem replaceSlots_of_accepted {values : List (Nat × Green.Slot)} {staged : Staged}
    (accepted : node.stage.setAll values = .ok staged) (workspace : Workspace) :
    node.replaceSlots values workspace = staged.apply workspace := by
  rw [replaceSlots, accepted, Build.ofFit_ok, Build.bind_run_of_ok (Build.pure_run _ _)]

end Node

/-- An edit is refused for what is wrong with it when it is tried, and then changes nothing. What
is staged at the end is what the accepted edits, one after the other, make of the slots of the node;
trying these alone, none is refused and the same comes of them. Values set all at once are refused
for the first one that is wrong, whatever comes after it. -/
theorem staging_folds_accepted_edits (history : Green.History workspace made)
    (rootMade : .node root ∈ made) (inTree : Node.InTree root node) {edits : List Edit}
    (available : ∀ edit ∈ edits, Green.Available made edit.value) :
    (node.stage.tryEdits edits).2.length = edits.length ∧
    (∀ {front edit back reason}, edits = front ++ edit :: back →
      ((node.stage.tryEdits edits).2[front.length]? = some (some reason) ↔
        node.Refuses (node.stage.tryEdits front).1.slots.length edit reason) ∧
      ((node.stage.tryEdits edits).2[front.length]? = some (some reason) →
        (node.stage.tryEdits (front ++ [edit])).1.slots =
          (node.stage.tryEdits front).1.slots)) ∧
    (node.stage.tryEdits edits).1.slots =
      (node.stage.acceptedEdits edits).foldl (fun slots edit => edit.perform slots)
        node.green.slots ∧
    node.stage.tryEdits (node.stage.acceptedEdits edits) =
      ((node.stage.tryEdits edits).1, (node.stage.acceptedEdits edits).map fun _ => none) ∧
    (∃ edited later, (node.stage.tryEdits edits).1.apply workspace = .ok edited later ∧
      (node.stage.tryEdits (node.stage.acceptedEdits edits)).1.apply workspace =
        .ok edited later ∧
      edited.path = node.path ∧ edited.green.slots = (node.stage.tryEdits edits).1.slots) ∧
    ∀ {values : List (Nat × Green.Slot)}, (∀ entry ∈ values, Green.Available made entry.2) →
      (∀ {reason}, node.RefusesFirst values reason →
        node.replaceSlots values workspace = .error (.rejected reason) workspace) ∧
      ((∀ reason, ¬ node.RefusesFirst values reason) →
        ∃ edited later, node.replaceSlots values workspace = .ok edited later) := by
  refine ⟨node.stage.length_verdicts edits, ?_, node.stage.slots_tryEdits edits,
    node.stage.tryEdits_acceptedEdits edits, ?_, ?_⟩
  · rintro front edit back reason rfl
    rw [Staged.verdict_eq_some_iff]
    refine ⟨?_, fun refused => by rw [Staged.tryEdits_snoc_of_refused refused]⟩
    have decided : (node.stage.tryEdits front).1.edit edit = .error reason ↔ _ :=
      Staged.edit_refused_iff
    rwa [Staged.node_tryEdits] at decided
  · have reachable : Staged.Reachable made node (node.stage.tryEdits edits).1 :=
      Staged.Reachable.start.of_tryEdits available
    obtain ⟨edited, later, _, run, _, _, _, _, version⟩ :=
      reachable.apply_version history inTree rootMade
    rw [Staged.tryEdits_acceptedEdits]
    exact ⟨edited, later, run, run, version.path_eq, version.slots_eq⟩
  · intro values valuesAvailable
    have decided {reason : SlotError} :
        node.stage.setAll values = .error reason ↔ node.RefusesFirst values reason :=
      Staged.setAll_refused_iff rfl
    refine ⟨fun refuses => Node.replaceSlots_of_refused (decided.mpr refuses) workspace, ?_⟩
    intro accepts
    cases outcome : node.stage.setAll values with
    | error reason => exact absurd (decided.mp outcome) (accepts reason)
    | ok staged =>
        rw [Node.replaceSlots_of_accepted outcome]
        exact (Staged.Reachable.start.of_setAll valuesAvailable outcome).apply_succeeds history
          inTree rootMade

open Green.Sample (argument functionName openParen closeParen history call_mem) in
theorem staging_folds_accepted_edits_of_call :
    (∃ edited later,
      (Sample.arguments.stage.tryEdits [.insert 2 argument, .push argument, .remove 2,
        .set 0 (.node functionName), .remove 0]).1.apply Green.Sample.workspace =
          .ok edited later ∧
      edited.green.slots = [.node argument]) ∧
    (Sample.arguments.stage.tryEdits [.insert 2 argument, .push argument, .remove 2,
      .set 0 (.node functionName), .remove 0]).2 =
        [some (.slotOutOfRange NodeKind.list 2 1), none, some (.slotOutOfRange NodeKind.list 2 2),
          some (.unexpectedKind NodeKind.list "arguments" .functionArguments
            NodeKind.simpleNameReference), none] ∧
    (Node.root Green.Sample.call).replaceSlots
      [(1, .token openParen), (3, .token openParen), (3, .token closeParen)]
        Green.Sample.workspace =
      .error (.rejected (.unexpectedKind NodeKind.functionCallExpression "closeParenToken"
        (.single TokenKind.closeParen) TokenKind.openParen)) Green.Sample.workspace := by
  refine ⟨?_, rfl, ?_⟩
  · have available : ∀ edit ∈ [Edit.insert 2 argument, .push argument, .remove 2,
        .set 0 (.node functionName), .remove 0],
        Green.Available Green.Sample.made edit.value := by
      simp [Edit.value, Green.Available, Green.Sample.made]
    obtain ⟨_, _, _, _, ⟨edited, later, run, _, _, slots_eq⟩, _⟩ :=
      staging_folds_accepted_edits history call_mem Sample.arguments_inTree available
    exact ⟨edited, later, run, slots_eq⟩
  · obtain ⟨_, _, _, _, _, values⟩ := staging_folds_accepted_edits history call_mem
      Node.InTree.root (List.forall_mem_nil _)
    have available : ∀ entry ∈ [(1, Slot.token openParen), (3, .token openParen),
        (3, .token closeParen)], Green.Available Green.Sample.made entry.2 := by
      simp [Green.Available, Green.Sample.made]
    refine (values available).1 ⟨[(1, .token openParen)], 3, _, _, rfl, ?_, ?_⟩
    · intro entry present other refuses
      obtain rfl := List.mem_singleton.mp present
      have refused : (Node.root Green.Sample.call).stage.set 1 (.token openParen) = .error other :=
        Staged.set_refused_iff.mpr refuses
      cases refused
    · exact .setMisfit rfl rfl

end Red

end SyntaxTree

import SyntaxTree.Typed.Edit
import SyntaxTree.Proofs.Construction
import SyntaxTree.Proofs.Idempotence

/-!
Typed edits. Setting fields one after the other is setting slots of the node behind the view. Main
statement: typed nodes read what they were made of, and after an edit every field reads the last
value that was set for it, or what it read before.
-/

namespace SyntaxTree.Typed

variable {owner : NodeKind}

/-- The slot of an argument and what is stored there. -/
def Argument.entry (argument : Argument owner) : Nat × Green.Slot :=
  (argument.index, argument.green)

namespace EditOf

variable {edit : EditOf owner} {type : FieldType} {field : Field owner type} {value : type.Value}

/-- Sets fields one after the other. -/
def putAll (edit : EditOf owner) : List (Argument owner) → Build (EditOf owner)
  | [] => pure edit
  | setting :: rest => do (← edit.put setting.field.field setting.value).putAll rest

theorem put_of_accepted {staged : Staged}
    (accepted : edit.staged.set field.index (type.toGreen value) = .ok staged)
    (workspace : Workspace) : edit.put field value workspace = .ok ⟨staged⟩ workspace := by
  rw [put, accepted]
  rfl

theorem put_of_refused {reason : SlotError}
    (refused : edit.staged.set field.index (type.toGreen value) = .error reason)
    (workspace : Workspace) :
    edit.put field value workspace = .error (.misuse (.misfit reason)) workspace := by
  rw [put, refused]
  rfl

/-- A field is not set just when its slot is not, for the same reason and in the same words. -/
theorem put_eq_error_iff {failure : Failure} {before after : Workspace} :
    edit.put field value before = .error failure after ↔
      ∃ reason, edit.staged.set field.index (type.toGreen value) = .error reason ∧
        failure = .misuse (.misfit reason) ∧ (Misuse.misfit reason).message = reason.message ∧
        after = before := by
  cases outcome : edit.staged.set field.index (type.toGreen value) with
  | ok staged => simp [put_of_accepted outcome]
  | error reason =>
      rw [put_of_refused outcome]
      constructor
      · intro same
        cases same
        exact ⟨reason, rfl, rfl, rfl, rfl⟩
      · rintro ⟨_, ⟨⟩, rfl, _, rfl⟩
        rfl

theorem setAll_of_putAll {later : EditOf owner} {settings : List (Argument owner)}
    {before after : Workspace} (run : edit.putAll settings before = .ok later after) :
    edit.staged.setAll (settings.map (·.entry)) = .ok later.staged ∧ after = before := by
  induction settings generalizing edit with
  | nil =>
      cases run
      exact ⟨rfl, rfl⟩
  | cons setting rest inductionHypothesis =>
      rw [putAll] at run
      rw [List.map_cons]
      cases outcome : edit.staged.set setting.index setting.green with
      | ok staged =>
          rw [Build.bind_run_of_ok (put_of_accepted outcome before)] at run
          rw [Argument.entry, Staged.setAll_of_accepted outcome]
          exact inductionHypothesis run
      | error reason =>
          rw [Build.bind_run_of_error (put_of_refused outcome before)] at run
          cases run

end EditOf

/-- Whether a node came of another one by setting fields: it is at the same place, and each field
reads the last value that was set for its slot, or the very value that it read before. -/
structure NodeOf.Follows (before after : NodeOf owner) (settings : List (Argument owner)) :
    Prop where
  path_eq : after.node.path = before.node.path
  reads : ∀ field ∈ fieldsOf owner, ∃ old value, before.get? field.field = some old ∧
    after.get? field.field = some value ∧
    field.type.toGreen value =
      (Green.Slot.lastGiven? (settings.map (·.entry)) field.field.index).getD
        (field.type.toGreen old)

/-- The arguments of replacing all three slots of a rest argument. -/
def RestArgument.settings (comma ellipsis : Red.Token) (expression : Expression) :
    List (Argument .restArgument) :=
  (Construction.restArgument comma ellipsis expression).arguments

section Made

variable {root : Green.Node} {workspace : Workspace} {made : List Green.Slot}
  {view : NodeOf owner} {settings : List (Argument owner)} {staged : Staged}

theorem NodeOf.exists_follows (history : Green.History workspace made)
    (rootMade : .node root ∈ made) (inTree : Red.Node.InTree root view.node)
    (available : ∀ setting ∈ settings, Green.Available made setting.green)
    (accepted : view.node.stage.setAll (settings.map (·.entry)) = .ok staged) :
    ∃ edited later, staged.apply workspace = .ok edited.node later ∧
      view.Follows edited settings := by
  have entriesAvailable : ∀ entry ∈ settings.map (·.entry), Green.Available made entry.2 := by
    rw [List.forall_mem_map]
    exact available
  have reachable := Staged.Reachable.start.of_setAll entriesAvailable accepted
  obtain ⟨edited, later, more, run, goneOn, _, editedMade, editedInTree, version⟩ :=
    reachable.apply_version history inTree rootMade
  have isKind : edited.kind = owner := version.alike.kind_eq.trans view.kind_eq
  refine ⟨⟨edited, isKind⟩, later, run, version.path_eq, fun field listed => ?_⟩
  obtain ⟨old, oldReads⟩ := NodeOf.exists_reads inTree history rootMade listed
  obtain ⟨value, reads⟩ : ∃ value, NodeOf.Reads ⟨edited, isKind⟩ field value :=
    NodeOf.exists_reads editedInTree goneOn editedMade listed
  refine ⟨old, value, oldReads.get?_eq, reads.get?_eq, ?_⟩
  have slots_eq : edited.green.slots =
      Green.Slot.setEach view.node.green.slots (settings.map (·.entry)) := by
    rw [version.slots_eq, (Staged.setAll_eq_ok_iff.mp accepted).2]
    rfl
  have stored := reads.green_eq
  rw [slots_eq, Green.Slot.setEach_getElem?, oldReads.green_eq] at stored
  exact (Option.some.inj stored).symm

/-- Applying settings that were accepted succeeds. -/
theorem EditOf.exists_apply (history : Green.History workspace made)
    (rootMade : .node root ∈ made) (inTree : Red.Node.InTree root view.node)
    (available : ∀ setting ∈ settings, Green.Available made setting.green) {edit : EditOf owner}
    {later : Workspace} (run : view.modify.putAll settings workspace = .ok edit later) :
    ∃ edited final, edit.apply later = .ok edited final ∧ view.Follows edited settings := by
  obtain ⟨accepted, rfl⟩ := EditOf.setAll_of_putAll run
  obtain ⟨edited, final, applied, follows⟩ :=
    NodeOf.exists_follows history rootMade inTree available accepted
  refine ⟨edited, final, ?_, follows⟩
  rw [EditOf.apply, Build.bind_run_of_ok applied, NodeOf.require_run edited.kind_eq]

theorem RestArgument.replaceAll_outcome (history : Green.History workspace made)
    (rootMade : .node root ∈ made) {argument : RestArgument}
    (inTree : Red.Node.InTree root argument.node) {comma ellipsis : Red.Token}
    {expression : Expression}
    (available : ∀ setting ∈ RestArgument.settings comma ellipsis expression,
      Green.Available made setting.green) :
    (∃ reason, argument.node.stage.setAll
        ((RestArgument.settings comma ellipsis expression).map (·.entry)) = .error reason ∧
      argument.replaceAll comma ellipsis expression workspace =
        .error (.rejected reason) workspace) ∨
    ∃ edited later, argument.replaceAll comma ellipsis expression workspace = .ok edited later ∧
      NodeOf.Follows argument edited (RestArgument.settings comma ellipsis expression) := by
  have run_eq : argument.replaceAll comma ellipsis expression =
      argument.node.replaceSlots
        ((RestArgument.settings comma ellipsis expression).map (·.entry)) >>=
          NodeOf.require .restArgument := rfl
  rw [run_eq]
  cases outcome : argument.node.stage.setAll
      ((RestArgument.settings comma ellipsis expression).map (·.entry)) with
  | error reason =>
      exact .inl ⟨reason, rfl,
        Build.bind_run_of_error (Red.Node.replaceSlots_of_refused outcome workspace)⟩
  | ok staged =>
      obtain ⟨edited, later, applied, follows⟩ :=
        NodeOf.exists_follows history rootMade inTree available outcome
      rw [← Red.Node.replaceSlots_of_accepted outcome] at applied
      refine .inr ⟨edited, later, ?_, follows⟩
      rw [Build.bind_run_of_ok applied, NodeOf.require_run edited.kind_eq]

end Made

namespace Sample

open Green.Sample (call functionToken variableName)

def wholeCall : FunctionCallExpression := ⟨.root call, rfl⟩

theorem variableName_kind : (Red.Node.root variableName).kind = .simpleNameReference := rfl

def otherName : Argument .functionCallExpression :=
  ⟨⟨_, FunctionCallExpression.functionName⟩, .simple ⟨.root variableName, variableName_kind⟩⟩

def bareName : Construction .simpleNameReference := .simpleNameReference (.detached functionToken)

end Sample

end SyntaxTree.Typed

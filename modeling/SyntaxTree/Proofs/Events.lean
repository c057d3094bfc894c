import SyntaxTree.Proofs.Idempotence
import SyntaxTree.Proofs.Stateful

/-!
The events of edits. Main statement: an edit that changes something tells of every ancestor that is
built anew, from the innermost out, and then of the edited node; one that changes nothing tells so;
and what is refused tells nothing.
-/

namespace SyntaxTree

/-- Whether an action never refuses anything. It may still fail for a mistake of its caller. -/
def NeverRejects {Result : Type} (action : Build Result) : Prop :=
  ∀ workspace reason later, action workspace ≠ .error (.rejected reason) later

/-- Whether an action that refuses something leaves everything as it was. -/
def RejectsCleanly {Result : Type} (action : Build Result) : Prop :=
  ∀ workspace reason later, action workspace = .error (.rejected reason) later →
    later = workspace

section Rejections

variable {Result Next : Type} {action : Build Result} {next : Result → Build Next}

theorem NeverRejects.bind (first : NeverRejects action)
    (second : ∀ result, NeverRejects (next result)) : NeverRejects (action >>= next) := by
  intro workspace reason later refused
  rcases Build.bind_run_eq_error_iff.mp refused with stopped | ⟨result, between, _, stopped⟩
  · exact first _ _ _ stopped
  · exact second result _ _ _ stopped

theorem RejectsCleanly.bind (first : RejectsCleanly action)
    (second : ∀ result, NeverRejects (next result)) : RejectsCleanly (action >>= next) := by
  intro workspace reason later refused
  rcases Build.bind_run_eq_error_iff.mp refused with stopped | ⟨result, between, _, stopped⟩
  · exact first _ _ _ stopped
  · exact absurd stopped (second result _ _ _)

theorem NeverRejects.clean (never : NeverRejects action) : RejectsCleanly action :=
  fun _ _ _ refused => absurd refused (never _ _ _)

theorem NeverRejects.ofMisuse (outcome : Except Misuse Result) :
    NeverRejects (Build.ofMisuse outcome) := by
  intro workspace reason later refused
  cases outcome <;> cases refused

theorem NeverRejects.create (kind : Kind) (slots : List Green.Slot) (remarks : List Remark) :
    NeverRejects (Green.Node.create kind slots remarks) := by
  intro workspace reason later refused
  cases fits : kind.checkSlots slots with
  | ok nodeKind =>
      rw [Green.Node.create, Green.Node.createOr_of_ok workspace fits] at refused
      cases refused
  | error misfit =>
      rw [Green.Node.create, Green.Node.createOr_of_error workspace fits] at refused
      cases refused

theorem NeverRejects.pure (result : Result) : NeverRejects (Pure.pure result : Build Result) := by
  intro workspace reason later refused
  cases refused

theorem NeverRejects.record (event : Event) : NeverRejects (Build.record event) := by
  intro workspace reason later refused
  cases refused

theorem RejectsCleanly.ofFit (outcome : Except SlotError Result) :
    RejectsCleanly (Build.ofFit outcome) := by
  intro workspace reason later refused
  cases outcome <;> cases refused
  rfl

end Rejections

theorem Staged.neverRejects_apply (staged : Staged) : NeverRejects staged.apply := by
  have rebuild (node : Red.Node) (green : Green.Node) : NeverRejects (node.rebuild green) := by
    induction node generalizing green with
    | root old => exact .pure _
    | child old offset slot parent inductionHypothesis =>
        refine (NeverRejects.create _ _ _).bind fun parentGreen => ?_
        refine (NeverRejects.record _).bind fun _ => inductionHypothesis parentGreen
  rw [apply]
  split
  · exact (NeverRejects.record _).bind fun _ => .pure _
  · refine (NeverRejects.create _ _ _).bind fun green => ?_
    refine (rebuild _ _).bind fun rootGreen => ?_
    exact (NeverRejects.record _).bind fun _ => NeverRejects.ofMisuse _

namespace Red

theorem Node.rejectsCleanly_replaceSlot (node : Node) (index : Nat) (value : Green.Slot) :
    RejectsCleanly (node.replaceSlot index value) :=
  (RejectsCleanly.ofFit _).bind fun staged => staged.neverRejects_apply

theorem Node.rejectsCleanly_replaceSlots (node : Node) (values : List (Nat × Green.Slot)) :
    RejectsCleanly (node.replaceSlots values) :=
  (RejectsCleanly.ofFit _).bind fun staged => staged.neverRejects_apply

theorem Node.rejectsCleanly_replaceWith (node : Node) (green : Green.Node) :
    RejectsCleanly (node.replaceWith green) := by
  rw [replaceWith.eq_def]
  split
  · exact NeverRejects.clean ((NeverRejects.record _).bind fun _ => .pure _)
  · split
    · exact NeverRejects.clean (.pure _)
    · exact (rejectsCleanly_replaceSlot _ _ _).bind fun holder => .ofMisuse _

theorem Token.rejectsCleanly_replaceWith (token : Token) (green : Green.Token) :
    RejectsCleanly (token.replaceWith green) := by
  rw [replaceWith.eq_def]
  split
  · exact NeverRejects.clean ((NeverRejects.record _).bind fun _ => .pure _)
  · split
    · exact NeverRejects.clean (.pure _)
    · exact (Node.rejectsCleanly_replaceSlot _ _ _).bind fun holder => .ofMisuse _

namespace Node

/-- What an edit of this node that changes something writes into the log. -/
def editEvents (node : Node) : List Event :=
  node.ancestors.tail.zipWith (fun above slot => .rebuilt above.kind slot) node.path ++
    [.replaced node.kind node.path.length]

theorem ancestors_eq_cons (node : Node) : node.ancestors = node :: node.ancestors.tail := by
  cases node <;> rfl

/-- Every ancestor is told of once. -/
theorem length_tail_ancestors (node : Node) : node.ancestors.tail.length = node.path.length := by
  induction node with
  | root green => rfl
  | child green offset slot parent inductionHypothesis =>
      rw [ancestors, List.tail_cons, ancestors_eq_cons, List.length_cons, inductionHypothesis, path,
        List.length_cons]

/-- Every ancestor has the node below it in the slot that its event names. -/
theorem InTree.slot?_of_mem_spine {root : Green.Node} {node below above : Node} {slot : Nat}
    (inTree : InTree root node)
    (present : (below, above, slot) ∈ node.ancestors.zip (node.ancestors.tail.zip node.path)) :
    above.slot? slot = some (.node below) := by
  induction node with
  | root green => cases present
  | child green offset index parent inductionHypothesis =>
      obtain ⟨parentInTree, found, rfl⟩ := child_iff.mp inTree
      rw [ancestors, List.tail_cons, path, parent.ancestors_eq_cons, List.zip_cons_cons,
        List.zip_cons_cons, ← parent.ancestors_eq_cons, List.mem_cons] at present
      rcases present with same | above
      · cases same
        exact slot?_eq_node_iff.mpr ⟨green, found, rfl⟩
      · exact inductionHypothesis parentInTree above

theorem editEvents_eq (node : Node) :
    node.editEvents = node.spineEvents ++ [.replaced node.kind node.path.length] := by
  have spine (node : Node) : node.spineEvents =
      node.ancestors.tail.zipWith (fun above slot => .rebuilt above.kind slot) node.path := by
    induction node with
    | root green => rfl
    | child green offset slot parent inductionHypothesis =>
        rw [spineEvents, inductionHypothesis, ancestors, List.tail_cons, path,
          parent.ancestors_eq_cons, List.zipWith_cons_cons, List.tail_cons]
  rw [editEvents, spine]

/-- Whether an action that puts a value into a slot of this node has the outcome of the edit that
does so: it is told like any edit of this node, or both refuse it. -/
def TellsAs {Result : Type} (node : Node) (slot : Nat) (value : Green.Slot)
    (workspace : Workspace) (action : Build Result) : Prop :=
  (∃ result holder later, action workspace = .ok result later ∧
    node.replaceSlot slot value workspace = .ok holder later ∧
    later.events = workspace.events ++ node.editEvents.toArray) ∨
  ∃ reason, action workspace = .error (.rejected reason) workspace ∧
    node.replaceSlot slot value workspace = .error (.rejected reason) workspace

end Node

variable {root : Green.Node} {workspace : Workspace} {made : List Green.Slot}

theorem Node.replaceWith_of_root {node : Node} {green : Green.Node}
    (other : green.identical node.green = false) (alone : node.parent? = none) :
    node.replaceWith green workspace = .ok (.root green) workspace := by
  cases node with
  | root old =>
      rw [replaceWith, if_neg (by simp [other])]
      rfl
  | child old offset slot parent => cases alone

theorem Token.replaceWith_of_detached {token : Token} {green : Green.Token}
    (other : green.identical token.green = false) (alone : token.parent? = none) :
    token.replaceWith green workspace = .ok (.detached green) workspace := by
  cases token with
  | detached old =>
      rw [replaceWith, if_neg (by simp [other])]
      rfl
  | held old offset slot parent => cases alone

/-- A value put in place of another is found there afterwards. -/
theorem Node.InTree.tellsAs {Result : Type} {node : Node} {slot : Nat} {old value : Green.Slot}
    (inTree : InTree root node) (history : Green.History workspace made)
    (rootMade : .node root ∈ made) (available : Green.Available made value)
    (present : node.green.slots[slot]? = some old) (other : old.identical value = false)
    {require : Node → Except Misuse Result}
    (finds : ∀ {holder offset}, holder.slot? slot = some (view holder slot offset value) →
      ∃ result, require holder = .ok result) :
    node.TellsAs slot value workspace
      (node.replaceSlot slot value >>= fun holder => Build.ofMisuse (require holder)) := by
  by_cases admitted : node.AdmitsInPlace (node.green.slots.set slot value)
  · have run := inTree.replaceSlot_of_admitted history rootMade available present other admitted
    obtain ⟨result, found⟩ := finds (slot?_withSlots_set workspace.nextSerial value present)
    refine .inl ⟨result, _, _, ?_, run, ?_⟩
    · rw [Build.bind_run_of_ok run, found, Build.ofMisuse_ok, Build.pure_run]
    · rw [node.editEvents_eq]
      rfl
  · obtain ⟨inRange, -⟩ := List.getElem?_eq_some_iff.mp present
    obtain ⟨reason, run⟩ := inTree.replaceSlot_of_not_admitted history rootMade inRange admitted
    exact .inr ⟨reason, Build.bind_run_of_error run, run⟩

theorem Node.InTree.replaceWith_tellsAs {node parent : Node} {slot : Nat} {green : Green.Node}
    (inTree : InTree root node) (history : Green.History workspace made)
    (rootMade : .node root ∈ made) (greenMade : .node green ∈ made)
    (other : green.identical node.green = false) (held : node.parent? = some parent)
    (place : node.slotIndex? = some slot) :
    parent.TellsAs slot (.node green) workspace (node.replaceWith green) := by
  cases node with
  | root old => cases held
  | child old offset index above =>
      cases held
      cases place
      obtain ⟨parentInTree, present, _⟩ := InTree.child_iff.mp inTree
      have differs : Green.Slot.identical (.node old) (.node green) = false := by
        rw [← other]
        exact Bool.beq_comm
      rw [replaceWith, if_neg (by simp [other])]
      exact parentInTree.tellsAs history rootMade (.inr greenMade) present differs
        fun found => ⟨_, requireNode_eq_ok_iff.mpr found⟩

theorem Token.InTree.replaceWith_tellsAs {token : Token} {parent : Node} {slot : Nat}
    {green : Green.Token} (inTree : InTree root token) (history : Green.History workspace made)
    (rootMade : .node root ∈ made) (greenMade : .token green ∈ made)
    (other : green.identical token.green = false) (held : token.parent? = some parent)
    (place : token.slotIndex? = some slot) :
    parent.TellsAs slot (.token green) workspace (token.replaceWith green) := by
  cases token with
  | detached old => cases held
  | held old offset index above =>
      cases held
      cases place
      obtain ⟨parentInTree, present, _⟩ := held_iff.mp inTree
      have differs : Green.Slot.identical (.token old) (.token green) = false := by
        rw [← other]
        exact Bool.beq_comm
      rw [replaceWith, if_neg (by simp [other])]
      exact parentInTree.tellsAs history rootMade (.inr greenMade) present differs
        fun found => ⟨_, Node.requireToken_eq_ok_iff.mpr found⟩

end Red

theorem Staged.Reachable.apply_events {root : Green.Node} {workspace : Workspace}
    {made : List Green.Slot} {node : Red.Node} {staged : Staged}
    (reachable : Staged.Reachable made node staged) (history : Green.History workspace made)
    (rootMade : .node root ∈ made) (inTree : Red.Node.InTree root node) :
    ∃ edited later, staged.apply workspace = .ok edited later ∧
      (edited = node ∧ later.events = workspace.events ++ #[.unchanged node.kind] ∨
        edited ≠ node ∧ later.events = workspace.events ++ node.editEvents.toArray) := by
  cases same : staged.unchanged with
  | true =>
      have run := (reachable.apply_of_unchanged history inTree rootMade same).2
      exact ⟨_, _, run, .inl ⟨rfl, rfl⟩⟩
  | false =>
      have run := reachable.apply_of_changed history inTree rootMade same
      refine ⟨_, _, run, .inr ⟨?_, ?_⟩⟩
      · -- The edited node hangs below a root with a new stamp, so it is at another place.
        intro itself
        have elsewhere := inTree.samePlace_withSlots history rootMade staged.slots
        rw [itself, node.samePlace_self] at elsewhere
        cases elsewhere
      · rw [node.editEvents_eq]
        rfl

section Silence

variable {State Result : Type}

/-- Whether an action adds nothing to the log. -/
def Silent (action : BuildWith State Result) : Prop :=
  Maintains (fun before after => after.1.events = before.1.events) action

/-- Whether a transform adds nothing to the log by itself. -/
structure Transform.Silent (transform : Transform (BuildWith State)) : Prop where
  onNode : ∀ node rebuilt, SyntaxTree.Silent rebuilt →
    SyntaxTree.Silent (transform.onNode node rebuilt)
  onToken : ∀ token, SyntaxTree.Silent (transform.onToken token)

theorem silent_tryCreate (kind : Kind) (slots : List Green.Slot) :
    Silent (liftM (Green.Node.tryCreate kind slots) : BuildWith State Green.Node) := by
  rintro ⟨workspace, state⟩
  rw [BuildWith.liftM_eq, BuildWith.ending_ofBuild, Green.Node.tryCreate]
  cases fits : kind.checkSlots slots with
  | ok nodeKind => rw [ending_of_ok (Green.Node.createOr_of_ok workspace fits)]
  | error reason => rw [ending_of_error (Green.Node.createOr_of_error workspace fits)]

theorem Transform.Silent.greenOf {transform : Transform (BuildWith State)}
    (silent : transform.Silent) (node : Red.Node) : SyntaxTree.Silent (transform.greenOf node) := by
  have : Std.Refl fun before after : Workspace × State => after.1.events = before.1.events :=
    ⟨fun _ => rfl⟩
  have : IsTrans (Workspace × State) fun before after => after.1.events = before.1.events :=
    ⟨fun _ _ _ first second => second.trans first⟩
  exact maintains_greenOf silent.onNode silent.onToken (fun kind slots => silent_tryCreate _ _) node

/-- Whether transforming a node tells what putting the result in place tells, and nothing if there
is no result or it is refused. -/
structure Red.Node.TransformTells (node : Red.Node) (transform : Transform (BuildWith State))
    (workspace : Workspace) (state : State) : Prop where
  outcome :
    (∃ green between own, transform.greenOf node (workspace, state) = .ok green (between, own) ∧
      between.events = workspace.events ∧
      node.transform transform (workspace, state) =
        BuildWith.ofBuild (node.replaceWith green) (between, own)) ∨
    ∃ failure later own,
      transform.greenOf node (workspace, state) = .error failure (later, own) ∧
      later.events = workspace.events ∧
      node.transform transform (workspace, state) = .error failure (later, own)
  rejected : ∀ {reason later own},
    node.transform transform (workspace, state) = .error (.rejected reason) (later, own) →
      later.events = workspace.events

theorem Transform.Silent.transformTells {transform : Transform (BuildWith State)}
    (silent : transform.Silent) (node : Red.Node) (workspace : Workspace) (state : State) :
    node.TransformTells transform workspace state := by
  have quiet := silent.greenOf node (workspace, state)
  cases run : transform.greenOf node (workspace, state) with
  | error failure ended =>
      rw [ending_of_error run] at quiet
      have whole : node.transform transform (workspace, state) = .error failure ended := by
        simp [Red.Node.transform, bind, EStateM.bind, run]
      refine ⟨.inr ⟨failure, _, _, run, quiet, whole⟩, fun rejected => ?_⟩
      cases whole.symm.trans rejected
      exact quiet
  | ok green between =>
      rw [ending_of_ok run] at quiet
      have whole : node.transform transform (workspace, state) =
          BuildWith.ofBuild (node.replaceWith green) between := by
        simp [Red.Node.transform, bind, EStateM.bind, run, BuildWith.liftM_eq]
      refine ⟨.inl ⟨green, _, _, run, quiet, whole⟩, fun rejected => ?_⟩
      rw [whole, BuildWith.ofBuild] at rejected
      cases replaced : node.replaceWith green between.1 with
      | ok result after =>
          rw [replaced] at rejected
          cases rejected
      | error failure after =>
          rw [replaced] at rejected
          cases rejected
          rw [node.rejectsCleanly_replaceWith green _ _ _ replaced]
          exact quiet

end Silence

/-- Staged edits that are applied, replaced nodes and tokens, and silent transforms tell exactly
what they did, and whatever refuses something tells nothing. -/
theorem events_are_exact {root : Green.Node} {workspace : Workspace} {made : List Green.Slot}
    (history : Green.History workspace made) (rootMade : .node root ∈ made) :
    (∀ {node : Red.Node}, node.InTree root →
      node.ancestors.tail.length = node.path.length ∧
      (∀ {below above slot},
        (below, above, slot) ∈ node.ancestors.zip (node.ancestors.tail.zip node.path) →
          above.slot? slot = some (.node below)) ∧
      ∀ {staged}, Staged.Reachable made node staged →
        ∃ edited later, staged.apply workspace = .ok edited later ∧
          (edited = node ∧ later.events = workspace.events ++ #[.unchanged node.kind] ∨
            edited ≠ node ∧ later.events = workspace.events ++ node.editEvents.toArray)) ∧
    (∀ {node : Red.Node} {green}, .node green ∈ made →
      (green.identical node.green = true → node.replaceWith green workspace =
        .ok node (workspace.after 0 [.unchanged node.kind])) ∧
      (green.identical node.green = false → node.parent? = none →
        node.replaceWith green workspace = .ok (.root green) workspace) ∧
      ∀ {parent slot}, node.InTree root → green.identical node.green = false →
        node.parent? = some parent → node.slotIndex? = some slot →
        parent.TellsAs slot (.node green) workspace (node.replaceWith green)) ∧
    (∀ {token : Red.Token} {green}, .token green ∈ made →
      (green.identical token.green = true → token.replaceWith green workspace =
        .ok token (workspace.after 0 [.unchanged token.kind])) ∧
      (green.identical token.green = false → token.parent? = none →
        token.replaceWith green workspace = .ok (.detached green) workspace) ∧
      ∀ {parent slot}, token.InTree root → green.identical token.green = false →
        token.parent? = some parent → token.slotIndex? = some slot →
        parent.TellsAs slot (.token green) workspace (token.replaceWith green)) ∧
    (∀ {State : Type} {transform : Transform (BuildWith State)}, transform.Silent →
      ∀ (node : Red.Node) (state : State), node.TransformTells transform workspace state) ∧
    (∀ staged : Staged, NeverRejects staged.apply) ∧
    (∀ (node : Red.Node) index value, RejectsCleanly (node.replaceSlot index value)) ∧
    (∀ (node : Red.Node) values, RejectsCleanly (node.replaceSlots values)) ∧
    (∀ (node : Red.Node) green, RejectsCleanly (node.replaceWith green)) ∧
    ∀ (token : Red.Token) green, RejectsCleanly (token.replaceWith green) := by
  refine ⟨?_, ?_, ?_, ?_, Staged.neverRejects_apply, Red.Node.rejectsCleanly_replaceSlot,
    Red.Node.rejectsCleanly_replaceSlots, Red.Node.rejectsCleanly_replaceWith,
    Red.Token.rejectsCleanly_replaceWith⟩
  · intro node inTree
    exact ⟨node.length_tail_ancestors, inTree.slot?_of_mem_spine,
      fun reachable => reachable.apply_events history rootMade inTree⟩
  · intro node green greenMade
    refine ⟨fun same => Red.Node.replaceWith_of_same same _, Red.Node.replaceWith_of_root, ?_⟩
    intro parent slot inTree other held place
    exact inTree.replaceWith_tellsAs history rootMade greenMade other held place
  · intro token green greenMade
    refine ⟨fun same => Red.Token.replaceWith_of_same same _, Red.Token.replaceWith_of_detached, ?_⟩
    intro parent slot inTree other held place
    exact inTree.replaceWith_tellsAs history rootMade greenMade other held place
  · intro State transform silent node state
    exact silent.transformTells node workspace state

/-! In the call `f(a)` the argument is doubled, and every name is written anew. -/

namespace Staged.Sample

def writingAnew : Transform (BuildWith Nat) :=
  .ofTokens fun token => do
    modify fun (workspace, count) => (workspace, count + 1)
    liftM (Green.Token.create token.kind token.text [])

theorem writingAnew_silent : writingAnew.Silent where
  onNode _ _ quiet := quiet
  onToken _ _ := rfl

end Staged.Sample

open Green.Sample (call history call_mem) in
theorem events_are_exact_of_call :
    Red.Sample.arguments.editEvents =
        [.rebuilt .functionCallExpression 2, .replaced .list 1] ∧
      (∃ edited later, Staged.Sample.doubled.apply Green.Sample.workspace = .ok edited later ∧
        (edited = Red.Sample.arguments ∧ later.events = #[.unchanged NodeKind.list] ∨
          edited ≠ Red.Sample.arguments ∧
            later.events = #[.rebuilt .functionCallExpression 2, .replaced .list 1])) ∧
      Red.Sample.arguments.TellsAs 0 (.node Green.Sample.variableName) Green.Sample.workspace
        (Red.Sample.argument.replaceWith Green.Sample.variableName) ∧
      Red.Sample.variableName.TellsAs 0 (.token Green.Sample.functionToken) Green.Sample.workspace
        (Red.Sample.argumentToken.replaceWith Green.Sample.functionToken) ∧
      (Red.Node.root call).TransformTells Staged.Sample.writingAnew Green.Sample.workspace 0 := by
  obtain ⟨edits, nodes, tokens, transforms, -⟩ := events_are_exact history call_mem
  obtain ⟨-, -, applied⟩ := edits Red.Sample.arguments_inTree
  have nodeMade : .node Green.Sample.variableName ∈ Green.Sample.made := by
    simp [Green.Sample.made]
  have tokenMade : .token Green.Sample.functionToken ∈ Green.Sample.made := by
    simp [Green.Sample.made]
  obtain ⟨-, -, nodeTold⟩ := @nodes Red.Sample.argument _ nodeMade
  obtain ⟨-, -, tokenTold⟩ := @tokens Red.Sample.argumentToken _ tokenMade
  exact ⟨rfl, applied Staged.Sample.doubled_reachable,
    nodeTold Red.Sample.argument_inTree (by decide) rfl rfl,
    tokenTold Red.Sample.argumentToken_inTree (by decide) rfl rfl,
    transforms Staged.Sample.writingAnew_silent _ 0⟩

end SyntaxTree

import SyntaxTree.Proofs.Ascent
import SyntaxTree.Proofs.SameValue

/-!
Transforms that put a value in one place, against replacing what is there. Main statement: both are
refused or both succeed, for the same reason but where a list slot holds a list of wrong elements,
and with trees that look alike and share all that is not above the place.
-/

namespace SyntaxTree

namespace Green

namespace Slot

theorem totalWidth_take_set_eq {slots : List Slot} {index : Nat} {old first second : Slot}
    (present : slots[index]? = some old) (sameWidth : first.width = second.width) (other : Nat) :
    totalWidth ((slots.set index first).take other) =
      totalWidth ((slots.set index second).take other) := by
  by_cases behind : index < other
  · have wider := totalWidth_take_set present behind first
    have otherwise := totalWidth_take_set present behind second
    omega
  · simp [List.take_set_of_le, Nat.le_of_not_lt behind]

/-- Grafts with other stamps agree on all that is not above the end of the path. -/
theorem spot?_graft_serial (slot new : Slot) (start serial later : Nat) {path other : List Nat}
    (notAbove : other <+: path → other = path) :
    (slot.graft serial path new).spot? start other =
      (slot.graft later path new).spot? start other := by
  induction path generalizing slot start other with
  | nil => rw [graft_nil, graft_nil]
  | cons index rest inductionHypothesis =>
      cases other with
      | nil => cases notAbove List.nil_prefix
      | cons otherIndex otherRest =>
          cases slot with
          | node node =>
              cases present : node.slots[index]? with
              | none => simp [graft, List.modify_eq_set_getElem?, present, spot?_assemble_cons]
              | some next =>
                  have alike := graft_sameValue (sameSlotValue_self next) (sameSlotValue_self new)
                    serial later rest
                  rw [graft_cons present, graft_cons present, spot?_assemble_cons,
                    spot?_assemble_cons,
                    totalWidth_take_set_eq present (width_eq_of_sameValue alike)]
                  by_cases sameIndex : index = otherIndex
                  · subst sameIndex
                    obtain ⟨inRange, _⟩ := List.getElem?_eq_some_iff.mp present
                    rw [List.getElem?_set_self inRange, List.getElem?_set_self inRange]
                    exact inductionHypothesis next _ (by simpa using notAbove)
                  · rw [List.getElem?_set_ne sameIndex, List.getElem?_set_ne sameIndex]
          | token token => rfl
          | absent => rfl

end Slot

/-- Whether two trees look alike and have the very same values, at the same offsets, at every place
but above the end of a path. -/
structure Node.AlikeOff (first second : Node) (path : List Nat) : Prop where
  sameValue : first.sameValue second = true
  spot_eq : ∀ {other : List Nat}, (other <+: path → other = path) →
    Slot.spot? (.node first) 0 other = Slot.spot? (.node second) 0 other

theorem Node.AlikeOff.refl (node : Node) (path : List Nat) : node.AlikeOff node path where
  sameValue := node.sameValue_self
  spot_eq _ := rfl

theorem Node.AlikeOff.of_graft {root first second : Node} {serial later : Nat} {path : List Nat}
    {new : Slot} (firstGrafted : .node first = Slot.graft (.node root) serial path new)
    (secondGrafted : .node second = Slot.graft (.node root) later path new) :
    first.AlikeOff second path where
  sameValue := by
    have alike := Slot.graft_sameValue (sameSlotValue_self (.node root)) (sameSlotValue_self new)
      serial later path
    rwa [← firstGrafted, ← secondGrafted] at alike
  spot_eq notAbove := by
    rw [firstGrafted, secondGrafted]
    exact Slot.spot?_graft_serial _ _ _ _ _ notAbove

end Green

namespace Red

variable {root : Green.Node} {workspace elsewhere : Workspace} {made otherMade : List Green.Slot}

/-- How the result of a transform of a whole tree and that of replacing go together: both are
refused with reasons that belong together, or both succeed with roots that are alike off a path. -/
inductive SameOutcome {Replaced : Type} (rootOf : Replaced → Option Node)
    (reasons : SlotError → SlotError → Prop) (path : List Nat) :
    EStateM.Result Failure Workspace Node → EStateM.Result Failure Workspace Replaced → Prop
  | refused {sooner reason : SlotError} {later final : Workspace} : reasons sooner reason →
      SameOutcome rootOf reasons path (.error (.rejected sooner) later)
        (.error (.rejected reason) final)
  | replaced {top other : Green.Node} {replaced : Replaced} {later final : Workspace} :
      rootOf replaced = some (.root other) → top.AlikeOff other path →
      SameOutcome rootOf reasons path (.ok (.root top) later) (.ok replaced final)

theorem SameOutcome.mono {Replaced : Type} {rootOf : Replaced → Option Node}
    {reasons more : SlotError → SlotError → Prop} {path : List Nat}
    {transformed : EStateM.Result Failure Workspace Node}
    {replaced : EStateM.Result Failure Workspace Replaced}
    (same : SameOutcome rootOf reasons path transformed replaced)
    (weaker : ∀ {sooner reason}, reasons sooner reason → more sooner reason) :
    SameOutcome rootOf more path transformed replaced := by
  cases same with
  | refused together => exact .refused (weaker together)
  | replaced top alike => exact .replaced top alike

namespace Node

variable {node : Node} {index : Nat} {old value : Green.Slot} {transform : Transform Build}

theorem transform_root_of_error {failure : Failure} {later : Workspace}
    (run : transform.greenOf (.root root) workspace = .error failure later) :
    (Node.root root).transform transform workspace = .error failure later :=
  Build.bind_run_of_error run

theorem transform_root_of_other {green : Green.Node} {later : Workspace}
    (run : transform.greenOf (.root root) workspace = .ok green later)
    (other : root.identical green = false) :
    (Node.root root).transform transform workspace = .ok (.root green) later := by
  have differs : green.identical root = false := by
    rw [← other]
    exact Bool.beq_comm
  rw [Node.transform, Build.bind_run_of_ok run]
  change (Node.root root).replaceWith green later = _
  rw [replaceWith, Node.green, if_neg (by simp [differs])]
  rfl

theorem transform_root_of_self (run : transform.greenOf (.root root) = pure root)
    (workspace : Workspace) :
    (Node.root root).transform transform workspace =
      .ok (.root root) (workspace.after 0 [.unchanged root.kind]) := by
  rw [Node.transform, run, pure_bind]
  change (Node.root root).replaceWith root workspace = _
  rw [replaceWith, if_pos (by simp [Node.green, Green.Node.identical]),
    Build.bind_run_of_ok (Build.record_run _ _)]
  simp [Workspace.after, Node.kind, Node.green]

theorem InTree.treeRoot_withSlots (inTree : InTree root node) (serial : Nat)
    (slots : List Green.Slot) :
    (node.withSlots serial slots).treeRoot =
      .root (node.withSlots serial slots).treeRoot.green :=
  (inTree.regrown _ _).treeRoot_eq

theorem InTree.alikeOff_withSlots (inTree : InTree root node)
    (present : node.green.slots[index]? = some old) (serial later : Nat) (value : Green.Slot) :
    (node.withSlots serial (node.green.slots.set index value)).treeRoot.green.AlikeOff
      (node.withSlots later (node.green.slots.set index value)).treeRoot.green
      (index :: node.path).reverse := by
  rw [List.reverse_cons]
  exact .of_graft (inTree.withSlots_set_eq_graft present serial value)
    (inTree.withSlots_set_eq_graft present later value)

/-- A transform that comes to an ascent from a new value in a slot goes together with whatever puts
the value there as staging it does. -/
theorem InTree.sameOutcome_of_ascent {Replaced : Type} {replace : Build Replaced}
    {rootOf : Replaced → Option Node} (inTree : InTree root node)
    (history : Green.History workspace made) (rootMade : .node root ∈ made)
    (present : node.green.slots[index]? = some old)
    (elements : node.kind = .list → ∃ element, value = .node element)
    (ascent : transform.greenOf (.root root) = node.refilled index old value >>= node.ascend)
    (kept : old.identical value = true →
      ∃ replaced final, replace elsewhere = .ok replaced final ∧
        rootOf replaced = some (.root root))
    (put : old.identical value = false → node.AdmitsInPlace (node.green.slots.set index value) →
      ∃ replaced final, replace elsewhere = .ok replaced final ∧ rootOf replaced =
        some (node.withSlots elsewhere.nextSerial (node.green.slots.set index value)).treeRoot)
    (refused : old.identical value = false →
      ∀ {reason}, node.stage.set index value = .error reason →
        ∃ final, replace elsewhere = .error (.rejected reason) final) :
    SameOutcome rootOf node.Refusals (index :: node.path).reverse
      ((Node.root root).transform transform workspace) (replace elsewhere) := by
  -- Both sides decide by the same two questions: is it the very same value, and is it staged?
  cases same : old.identical value with
  | true =>
      obtain ⟨replaced, final, run, top⟩ := kept same
      have nothing : transform.greenOf (.root root) = pure root := by
        rw [ascent, refilled, if_pos same, pure_bind, ascend_self, inTree.treeRoot_eq, Node.green]
      rw [transform_root_of_self nothing, run]
      exact .replaced top (.refl _ _)
  | false =>
      cases outcome : node.stage.set index value with
      | ok staged =>
          obtain ⟨inRange, _⟩ := List.getElem?_eq_some_iff.mp present
          have admitted :=
            (inTree.set_accepted_iff history rootMade inRange).mp ⟨staged, outcome⟩
          obtain ⟨replaced, final, run, top⟩ := put same admitted
          obtain ⟨apart, later, ascended⟩ :=
            inTree.ascend_of_admitted history rootMade (Nat.le_refl _) same admitted
          rw [← ascent] at ascended
          rw [transform_root_of_other ascended apart, run]
          rw [inTree.treeRoot_withSlots] at top
          exact .replaced top (inTree.alikeOff_withSlots present _ _ _)
      | error reason =>
          obtain ⟨final, run⟩ := refused same outcome
          obtain ⟨sooner, later, ascended, together⟩ :=
            inTree.ascend_of_refused history rootMade (Nat.le_refl _) present same elements outcome
          rw [← ascent] at ascended
          rw [transform_root_of_error ascended, run]
          exact .refused together

/-- Giving a green node for the node at one place is replacing that node. -/
theorem InTree.sameOutcome {green : Green.Node} (inTree : InTree root node)
    (below : node.parent? ≠ none) (history : Green.History workspace made)
    (rootMade : .node root ∈ made) (otherHistory : Green.History elsewhere otherMade)
    (rootStillMade : .node root ∈ otherMade) (greenMade : .node green ∈ otherMade) :
    SameOutcome (fun replaced => some replaced.treeRoot)
      (fun sooner reason => ∃ holder, node.parent? = some holder ∧ holder.Refusals sooner reason)
      node.path.reverse ((Node.root root).transform (.swapNode node green) workspace)
      (node.replaceWith green elsewhere) := by
  cases node with
  | root old => exact absurd rfl below
  | child old offset slot parent =>
      obtain ⟨parentInTree, present, _⟩ := child_iff.mp inTree
      have ascent := Transform.greenOf_root (Transform.onlyAt_swapNode _ green) inTree
        (List.suffix_refl _)
      rw [Transform.greenOf_swapNode, pure_bind, ascend] at ascent
      have turned : green.identical old = Green.Slot.identical (.node old) (.node green) :=
        Bool.beq_comm
      refine SameOutcome.mono (parentInTree.sameOutcome_of_ascent history rootMade present
        (fun _ => ⟨green, rfl⟩) ascent ?_ ?_ ?_) fun together => ⟨parent, rfl, together⟩
      · intro same
        obtain ⟨_, run⟩ := inTree.replaceWith_of_identical otherHistory rootStillMade greenMade
          (turned.trans same)
        exact ⟨_, _, run, congrArg some inTree.treeRoot_eq⟩
      · intro other admitted
        obtain ⟨events, run⟩ := inTree.replaceWith_of_fits otherHistory rootStillMade greenMade
          (turned.trans other) ((inTree.fitsAbove_iff otherHistory rootStillMade).mpr admitted)
        exact ⟨_, _, run, rfl⟩
      · intro other reason refused
        refine ⟨elsewhere, ?_⟩
        rw [replaceWith, if_neg (by simp [Node.green, turned, other]),
          Build.bind_run_of_error (replaceSlot_of_refused refused elsewhere)]

end Node

namespace Token

variable {token : Token}

/-- Giving a green token for the token at one place is replacing that token. -/
theorem InTree.sameOutcome {green : Green.Token} (inTree : InTree root token)
    (history : Green.History workspace made) (rootMade : .node root ∈ made)
    (otherHistory : Green.History elsewhere otherMade) (rootStillMade : .node root ∈ otherMade)
    (greenMade : .token green ∈ otherMade) :
    SameOutcome Token.treeRoot? Eq token.path.reverse
      ((Node.root root).transform (.swapToken token green) workspace)
      (token.replaceWith green elsewhere) := by
  cases token with
  | detached old => exact absurd inTree InTree.detached_iff
  | held old offset slot parent =>
      obtain ⟨parentInTree, present, rfl⟩ := InTree.held_iff.mp inTree
      have shown := Node.slot?_eq_token_iff.mpr ⟨old, present, rfl⟩
      have notList := parentInTree.kind_ne_list_of_token history rootMade present
      have only := Transform.onlyAt_swapToken
        (.held old (parent.offset + parent.green.slotOffset slot) slot parent) green
      have ascent := Transform.greenOf_root only parentInTree (List.suffix_cons _ _)
      rw [Transform.greenOf_of_on only shown (List.suffix_refl _), Transform.ofSlot_swapToken,
        pure_bind] at ascent
      have turned : green.identical old = Green.Slot.identical (.token old) (.token green) :=
        Bool.beq_comm
      refine SameOutcome.mono (parentInTree.sameOutcome_of_ascent history rootMade present
        (fun isList => absurd isList notList) ascent ?_ ?_ ?_) ?_
      · intro same
        obtain ⟨_, run⟩ := inTree.replaceWith_of_identical otherHistory rootStillMade greenMade
          (turned.trans same)
        exact ⟨_, _, run, congrArg some parentInTree.treeRoot_eq⟩
      · intro other admitted
        obtain ⟨stamps, events, run⟩ := inTree.replaceWith_of_fits otherHistory rootStillMade
          greenMade (turned.trans other)
          ((inTree.fitsAbove_iff otherHistory rootStillMade).mpr admitted)
        exact ⟨_, _, run, rfl⟩
      · intro other reason refused
        refine ⟨elsewhere, ?_⟩
        rw [replaceWith, if_neg (by simp [Token.green, turned, other]),
          Build.bind_run_of_error (Node.replaceSlot_of_refused refused elsewhere)]
      · intro sooner reason together
        cases together with
        | same => rfl
        | element _ held =>
            exact absurd (parentInTree.kind_eq_list_of_held history rootMade held) notList

end Token

/-- A transform of a whole tree that gives a green value for what is at one place and leaves alone
all else comes out as replacing what is there, in whatever workspaces the two are run. Both are
refused or both succeed, and the trees look alike and share all that is not above the place. Both are
refused for the same reason, but in a list that a list slot holds: there the transform names the
holder. -/
theorem transforming_one_place_is_replacing (history : Green.History workspace made)
    (rootMade : .node root ∈ made) (otherHistory : Green.History elsewhere otherMade)
    (rootStillMade : .node root ∈ otherMade) :
    (∀ {token : Token} {green : Green.Token}, Token.InTree root token → .token green ∈ otherMade →
      SameOutcome Token.treeRoot? Eq token.path.reverse
        ((Node.root root).transform (.swapToken token green) workspace)
        (token.replaceWith green elsewhere)) ∧
    (∀ {node : Node} {green : Green.Node}, Node.InTree root node → node.parent? ≠ none →
      .node green ∈ otherMade →
      SameOutcome (fun replaced => some replaced.treeRoot)
        (fun sooner reason => ∃ holder, node.parent? = some holder ∧ holder.Refusals sooner reason)
        node.path.reverse ((Node.root root).transform (.swapNode node green) workspace)
        (node.replaceWith green elsewhere)) :=
  ⟨fun inTree => inTree.sameOutcome history rootMade otherHistory rootStillMade,
    fun inTree below => inTree.sameOutcome below history rootMade otherHistory rootStillMade⟩

open Green.Sample (call functionName functionToken history call_mem) in
theorem transforming_one_place_is_replacing_of_call :
    (∃ top other later final replaced,
      (Node.root call).transform (.swapToken Sample.argumentToken functionToken)
        Green.Sample.workspace = .ok (.root top) later ∧
      Sample.argumentToken.replaceWith functionToken Green.Sample.workspace = .ok replaced final ∧
      replaced.treeRoot? = some (.root other) ∧ top.AlikeOff other [2, 0, 1, 0]) ∧
    ∃ later,
      (Node.root call).transform (.swapNode Sample.argument functionName) Green.Sample.workspace =
        .error (.rejected (.unexpectedKind NodeKind.functionCallExpression "arguments"
          .functionArguments NodeKind.simpleNameReference)) later ∧
      Sample.argument.replaceWith functionName Green.Sample.workspace =
        .error (.rejected (.unexpectedKind NodeKind.list "arguments" .functionArguments
          NodeKind.simpleNameReference)) Green.Sample.workspace := by
  obtain ⟨tokens, nodes⟩ := transforming_one_place_is_replacing history call_mem history call_mem
  constructor
  · have together := @tokens _ functionToken Sample.argumentToken_inTree
      (by simp [Green.Sample.made])
    obtain ⟨replaced, final, run⟩ : ∃ replaced final,
        Sample.argumentToken.replaceWith functionToken Green.Sample.workspace =
          .ok replaced final := ⟨_, _, rfl⟩
    generalize (Node.root call).transform (.swapToken Sample.argumentToken functionToken)
      Green.Sample.workspace = result at together ⊢
    rw [run] at together
    cases together with
    | replaced found alike => exact ⟨_, _, _, _, _, rfl, run, found, alike⟩
  · have together := @nodes _ functionName Sample.argument_inTree (by rintro ⟨⟩)
      (by simp [Green.Sample.made])
    have run : Sample.argument.replaceWith functionName Green.Sample.workspace =
        .error (.rejected (.unexpectedKind NodeKind.list "arguments" .functionArguments
          NodeKind.simpleNameReference)) Green.Sample.workspace := rfl
    generalize (Node.root call).transform (.swapNode Sample.argument functionName)
      Green.Sample.workspace = result at together ⊢
    rw [run] at together ⊢
    cases together with
    | refused reasons =>
        obtain ⟨holder, isParent, refusals⟩ := reasons
        obtain rfl : Sample.arguments = holder := Option.some.inj isParent
        cases refusals with
        | same notHeld => cases notHeld
        | element isHolder held =>
            obtain rfl : Node.root call = _ := Option.some.inj isHolder
            exact ⟨_, rfl, rfl⟩

end Red

end SyntaxTree

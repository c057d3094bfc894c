import SyntaxTree.Proofs.Path
import SyntaxTree.Proofs.Replacement
import SyntaxTree.Interner
import SyntaxTree.Typed.Create
import SyntaxTree.Proofs.Fields

/-!
Keeping track of the values that actions make. An action is tracked when everything it makes is made
by calls that make tokens or nodes, and all it answers is at hand. Main statements: every operation
of the library that makes or edits values is tracked.
-/

namespace SyntaxTree

/-- A history that leaves out no value: each stamp handed out is the stamp of one. -/
structure Green.Complete (workspace : Workspace) (made : List Green.Slot) : Prop where
  history : Green.History workspace made
  accounted : ∀ serial < workspace.nextSerial, ∃ value ∈ made, value.stamp? = some ⟨serial⟩

/-- An action that can only add to the values made, whatever else was made before it runs, and what
holds of its result then. -/
structure Tracked {Error State Result : Type} (Holds : State → List Green.Slot → Prop)
    (made : List Green.Slot) (good : List Green.Slot → Result → Prop)
    (action : EStateM Error State Result) : Prop where
  run {now : List Green.Slot} {state : State} : made ⊆ now → Holds state now →
    match action state with
    | .ok result after => ∃ later, now ⊆ later ∧ Holds after later ∧ good later result
    | .error _ after => ∃ later, now ⊆ later ∧ Holds after later

namespace Tracked

variable {Error State Result Next : Type} {Holds : State → List Green.Slot → Prop}
  {made more : List Green.Slot} {good : List Green.Slot → Result → Prop}
  {goodNext : List Green.Slot → Next → Prop} {action : EStateM Error State Result}
  {next : Result → EStateM Error State Next}

theorem mono (tracked : Tracked Holds made good action) (included : made ⊆ more) :
    Tracked Holds more good action :=
  ⟨fun known holds => tracked.run (List.Subset.trans included known) holds⟩

theorem pure {result : Result} (goodResult : ∀ {now}, made ⊆ now → good now result) :
    Tracked Holds made good (Pure.pure result : EStateM Error State Result) :=
  ⟨fun known holds => ⟨_, List.Subset.refl _, holds, goodResult known⟩⟩

/-- What holds when the action runs may be used to show that it is tracked. -/
theorem of_holds (tracked : ∀ {now state}, made ⊆ now → Holds state now →
    Tracked Holds now good action) : Tracked Holds made good action :=
  ⟨fun known holds => (tracked known holds).run (List.Subset.refl _) holds⟩

theorem throw (error : Error) :
    Tracked Holds made good (MonadExcept.throw error : EStateM Error State Result) :=
  ⟨fun _ holds => ⟨_, List.Subset.refl _, holds⟩⟩

theorem bind (first : Tracked Holds made good action)
    (second : ∀ {now result}, made ⊆ now → good now result →
      Tracked Holds now goodNext (next result)) :
    Tracked Holds made goodNext (action >>= next) := by
  refine ⟨fun {now state} known holds => ?_⟩
  have afterFirst := first.run known holds
  simp only [Bind.bind, EStateM.bind]
  cases run : action state with
  | error failure after =>
      rw [run] at afterFirst
      exact afterFirst
  | ok result after =>
      rw [run] at afterFirst
      obtain ⟨between, grown, holdsBetween, goodResult⟩ := afterFirst
      have afterSecond := (second (List.Subset.trans known grown) goodResult).run
        (List.Subset.refl _) holdsBetween
      cases rest : next result after with
      | error failure final =>
          simp only [rest] at afterSecond ⊢
          obtain ⟨later, grownMore, holdsLater⟩ := afterSecond
          exact ⟨later, List.Subset.trans grown grownMore, holdsLater⟩
      | ok final after =>
          simp only [rest] at afterSecond ⊢
          obtain ⟨later, grownMore, holdsLater, goodFinal⟩ := afterSecond
          exact ⟨later, List.Subset.trans grown grownMore, holdsLater, goodFinal⟩

end Tracked

namespace Green.Complete

variable {workspace later : Workspace} {made : List Slot}

theorem start : Complete .empty [] := by
  refine ⟨.start, ?_⟩
  intro serial below
  exact absurd below (Nat.not_lt_zero serial)

theorem pass (complete : Complete workspace made)
    (same : later.nextSerial = workspace.nextSerial) : Complete later made := by
  refine ⟨complete.history.pass (Nat.le_of_eq same.symm), ?_⟩
  rw [same]
  exact complete.accounted

theorem accounted_cons (complete : Complete workspace made) {value : Slot}
    (stamped : value.stamp? = some ⟨workspace.nextSerial⟩) :
    ∀ serial < workspace.nextSerial + 1, ∃ other ∈ value :: made, other.stamp? = some ⟨serial⟩ := by
  intro serial below
  rcases Nat.lt_succ_iff_lt_or_eq.mp below with earlier | rfl
  · obtain ⟨other, present, found⟩ := complete.accounted serial earlier
    exact ⟨other, List.mem_cons_of_mem _ present, found⟩
  · exact ⟨value, List.mem_cons_self, stamped⟩

theorem token {call : TokenCall} {token : Token} (complete : Complete workspace made)
    (run : call.run workspace = .ok token later) : Complete later (.token token :: made) := by
  refine ⟨complete.history.token run, ?_⟩
  obtain ⟨stamped, rfl⟩ := TokenCall.run_eq_ok run
  exact complete.accounted_cons (congrArg some stamped)

theorem node {kind : NodeKind} {slots : List Slot} (complete : Complete workspace made)
    (available : ∀ slot ∈ slots, Available made slot) (fits : kind.checkSlots slots = .ok ())
    (remarks : List Remark) :
    Complete { workspace with nextSerial := workspace.nextSerial + 1 }
      (.node (.assemble ⟨workspace.nextSerial⟩ kind slots remarks) :: made) := by
  refine ⟨complete.history.node available (Node.create_run fits remarks workspace), ?_⟩
  exact complete.accounted_cons rfl

end Green.Complete

/-- Whether a handle is in a tree that was made. -/
def Red.Node.Seen (made : List Green.Slot) (node : Red.Node) : Prop :=
  ∃ root, .node root ∈ made ∧ Red.Node.InTree root node

theorem Red.Node.Seen.mono {made more : List Green.Slot} {node : Red.Node} (seen : node.Seen made)
    (included : made ⊆ more) : node.Seen more := by
  obtain ⟨root, rootMade, inTree⟩ := seen
  exact ⟨root, included rootMade, inTree⟩

def Red.Token.Seen (made : List Green.Slot) (token : Red.Token) : Prop :=
  ∃ root, .node root ∈ made ∧ Red.Token.InTree root token

theorem Red.Token.Seen.mono {made more : List Green.Slot} {token : Red.Token}
    (seen : token.Seen made) (included : made ⊆ more) : token.Seen more := by
  obtain ⟨root, rootMade, inTree⟩ := seen
  exact ⟨root, included rootMade, inTree⟩

theorem Red.Token.Seen.parent {made : List Green.Slot} {token : Red.Token} {parent : Red.Node}
    (seen : token.Seen made) (above : token.parent? = some parent) : parent.Seen made := by
  obtain ⟨root, rootMade, inTree⟩ := seen
  cases token with
  | detached green => cases above
  | held green offset slot holder =>
      cases above
      exact ⟨root, rootMade, (InTree.held_iff.mp inTree).1⟩

variable {made : List Green.Slot}

namespace Build

theorem tracked_record (event : Event) :
    Tracked Green.Complete made (fun _ _ => True) (record event) :=
  ⟨fun _ complete => ⟨_, List.Subset.refl _, complete.pass rfl, trivial⟩⟩

variable {Result : Type} {good : List Green.Slot → Result → Prop}

theorem tracked_ofFit {fit : Except SlotError Result}
    (goodResult : ∀ {now result}, made ⊆ now → fit = .ok result → good now result) :
    Tracked Green.Complete made good (ofFit fit) := by
  cases fit with
  | ok result => exact Tracked.pure fun known => goodResult known rfl
  | error reason => exact Tracked.throw _

theorem tracked_ofMisuse {answer : Except Misuse Result}
    (goodResult : ∀ {now result}, made ⊆ now → answer = .ok result → good now result) :
    Tracked Green.Complete made good (ofMisuse answer) := by
  cases answer with
  | ok result => exact Tracked.pure fun known => goodResult known rfl
  | error cause => exact Tracked.throw _

end Build

namespace Green

theorem TokenCall.run_eq_error {call : TokenCall} {workspace later : Workspace} {failure : Failure}
    (failed : call.run workspace = .error failure later) : later = workspace := by
  cases call with
  | fixed kind =>
      simp only [run, Token.createFixed] at failed
      cases written : kind.fixedText? with
      | some text =>
          rw [written] at failed
          cases kind <;> cases failed
          rfl
      | none =>
          rw [written] at failed
          cases failed
          rfl
  | plain kind text remarks => cases kind <;> cases failed; rfl
  | withTrivia kind leading text trailing => cases kind <;> cases failed; rfl
  | missing kind remark => cases kind <;> cases failed; rfl

theorem TokenCall.tracked (call : TokenCall) :
    Tracked Complete made (fun now token => .token token ∈ now) call.run := by
  refine ⟨fun {now workspace} known complete => ?_⟩
  cases run : call.run workspace with
  | ok token later => exact ⟨_, List.subset_cons_self _ _, complete.token run, List.mem_cons_self⟩
  | error failure later =>
      rw [TokenCall.run_eq_error run]
      exact ⟨_, List.Subset.refl _, complete⟩

namespace Node

theorem tracked_createOr {fail : SlotError → Failure} {kind : Kind} {slots : List Slot}
    {remarks : List Remark} (available : ∀ slot ∈ slots, Available made slot) :
    Tracked Complete made (fun now node => .node node ∈ now)
      (createOr fail kind slots remarks) := by
  refine ⟨fun {now workspace} known complete => ?_⟩
  cases fits : kind.checkSlots slots with
  | ok nodeKind =>
      rw [createOr_of_ok workspace fits]
      have checked := (Kind.checkSlots_eq_ok_iff.mp fits).2
      have stillAvailable := fun slot present => (available slot present).mono known
      exact ⟨_, List.subset_cons_self _ _, complete.node stillAvailable checked remarks,
        List.mem_cons_self⟩
  | error reason =>
      rw [createOr_of_error workspace fits]
      exact ⟨_, List.Subset.refl _, complete⟩

end Node

end Green

namespace Red

namespace Node

variable {node : Node}

theorem Seen.green_mem {workspace : Workspace} (seen : node.Seen made)
    (complete : Green.Complete workspace made) : .node node.green ∈ made := by
  obtain ⟨root, rootMade, inTree⟩ := seen
  exact inTree.green_mem complete.history rootMade

theorem Seen.child {found : Node} {index : Nat} (seen : node.Seen made)
    (present : node.slot? index = some (.node found)) : found.Seen made := by
  obtain ⟨root, rootMade, inTree⟩ := seen
  exact ⟨root, rootMade, inTree.child present⟩

theorem Seen.token {found : Token} {index : Nat} (seen : node.Seen made)
    (present : node.slot? index = some (.token found)) : found.Seen made := by
  obtain ⟨root, rootMade, inTree⟩ := seen
  exact ⟨root, rootMade, node, index, inTree, present⟩

theorem Seen.descend {path : List Nat} {found : Node} (seen : node.Seen made)
    (reached : node.descend path = .ok found) : found.Seen made := by
  obtain ⟨root, rootMade, inTree⟩ := seen
  exact ⟨root, rootMade, inTree.descend reached⟩

theorem Seen.above {green : Green.Node} {offset slot : Nat} {parent : Node}
    (seen : (Node.child green offset slot parent).Seen made) : parent.Seen made := by
  obtain ⟨root, rootMade, inTree⟩ := seen
  exact ⟨root, rootMade, (InTree.child_iff.mp inTree).1⟩

theorem Seen.tracked_rebuild (seen : node.Seen made) {green : Green.Node}
    (greenMade : .node green ∈ made) :
    Tracked Green.Complete made (fun now root => .node root ∈ now) (node.rebuild green) := by
  induction node generalizing made green with
  | root old => exact Tracked.pure fun known => known greenMade
  | child old offset slot parent inductionHypothesis =>
      refine Tracked.of_holds fun {now _} known complete => ?_
      have parentSeen := seen.above.mono known
      have before := complete.history.slots_available (parentSeen.green_mem complete)
      have available : ∀ value ∈ parent.green.slots.set slot (.node green),
          Green.Available now value := by
        intro value present
        rcases List.mem_or_eq_of_mem_set present with kept | rfl
        · exact before value kept
        · exact .inr (known greenMade)
      apply (Green.Node.tracked_createOr available).bind
      intro _ _ grown parentMade
      apply (Build.tracked_record _).bind
      intro _ _ grownMore _
      exact inductionHypothesis (parentSeen.mono (List.Subset.trans grown grownMore))
        (grownMore parentMade)

theorem Seen.tracked_replaceGreen (seen : node.Seen made) {green : Green.Node}
    (greenMade : .node green ∈ made) :
    Tracked Green.Complete made (fun now replaced => replaced.Seen now)
      (node.replaceGreen green) := by
  apply (seen.tracked_rebuild greenMade).bind
  intro _ root _ rootMade
  apply (Build.tracked_record _).bind
  intro _ _ grown _
  refine Build.tracked_ofMisuse fun known found => ?_
  exact descend ⟨root, known (grown rootMade), .root⟩ found

theorem Seen.tracked_apply (seen : node.Seen made) {staged : Staged}
    (reachable : Staged.Reachable made node staged) :
    Tracked Green.Complete made (fun now edited => edited.Seen now) staged.apply := by
  refine Tracked.of_holds fun known complete => ?_
  have nodeSeen := seen.mono known
  obtain ⟨root, rootMade, inTree⟩ := seen.mono known
  -- Values at hand when they were staged are at hand when the edit is applied.
  have available := (reachable.mono known).slots_available complete.history inTree rootMade
  rw [Staged.apply, reachable.node_eq]
  split
  · exact (Build.tracked_record _).bind fun grown _ => Tracked.pure fun grownMore =>
      nodeSeen.mono (List.Subset.trans grown grownMore)
  · apply (Green.Node.tracked_createOr available).bind
    intro _ _ grown greenMade
    exact (nodeSeen.mono grown).tracked_replaceGreen greenMade

theorem Seen.tracked_replaceSlot (seen : node.Seen made) {index : Nat} {value : Green.Slot}
    (available : Green.Available made value) :
    Tracked Green.Complete made (fun now edited => edited.Seen now)
      (node.replaceSlot index value) := by
  have staged : Tracked Green.Complete made (fun now staged => Staged.Reachable now node staged)
      (Build.ofFit (node.stage.set index value)) :=
    Build.tracked_ofFit fun known accepted =>
      Staged.Reachable.start.edit (.set index value) (available.mono known) accepted
  exact staged.bind fun known reachable => (seen.mono known).tracked_apply reachable

theorem Seen.tracked_replaceSlots (seen : node.Seen made) {values : List (Nat × Green.Slot)}
    (available : ∀ entry ∈ values, Green.Available made entry.2) :
    Tracked Green.Complete made (fun now edited => edited.Seen now)
      (node.replaceSlots values) := by
  have staged : Tracked Green.Complete made (fun now staged => Staged.Reachable now node staged)
      (Build.ofFit (node.stage.setAll values)) :=
    Build.tracked_ofFit fun known accepted => Staged.Reachable.start.of_setAll
      (fun entry present => (available entry present).mono known) accepted
  exact staged.bind fun known reachable => (seen.mono known).tracked_apply reachable

theorem Seen.tracked_replaceWith (seen : node.Seen made) {green : Green.Node}
    (greenMade : .node green ∈ made) :
    Tracked Green.Complete made (fun now replaced => replaced.Seen now)
      (node.replaceWith green) := by
  rw [replaceWith.eq_def]
  split
  · exact (Build.tracked_record _).bind fun known _ => Tracked.pure fun more =>
      seen.mono (List.Subset.trans known more)
  · cases node with
    | root old => exact Tracked.pure fun known => ⟨green, known greenMade, .root⟩
    | child old offset slot parent =>
        apply (seen.above.tracked_replaceSlot (.inr greenMade)).bind
        intro _ _ _ holderSeen
        refine Build.tracked_ofMisuse fun known found => ?_
        exact (holderSeen.mono known).child (requireNode_eq_ok_iff.mp found)

end Node

theorem Token.Seen.tracked_replaceWith {token : Token} (seen : token.Seen made)
    {green : Green.Token} (greenMade : .token green ∈ made) :
    Tracked Green.Complete made (fun now replaced => replaced.Seen now)
      (token.replaceWith green) := by
  obtain ⟨root, rootMade, inTree⟩ := seen
  rw [replaceWith.eq_def]
  split
  · exact (Build.tracked_record _).bind fun known _ => Tracked.pure fun more =>
      ⟨root, more (known rootMade), inTree⟩
  · cases token with
    | detached old => exact absurd inTree InTree.detached_iff
    | held old offset slot parent =>
        have parentSeen : parent.Seen made := ⟨root, rootMade, (InTree.held_iff.mp inTree).1⟩
        apply (parentSeen.tracked_replaceSlot (.inr greenMade)).bind
        intro _ _ _ holderSeen
        refine Build.tracked_ofMisuse fun known found => ?_
        exact (holderSeen.mono known).token (Node.requireToken_eq_ok_iff.mp found)

end Red

namespace Interner

def Known (made : List Green.Slot) (interner : Interner) : Prop :=
  (∀ node ∈ interner.nodes, .node node ∈ made) ∧ ∀ token ∈ interner.tokens, .token token ∈ made

variable {interner : Interner}

theorem Known.mono {more : List Green.Slot} (known : interner.Known made) (included : made ⊆ more) :
    interner.Known more :=
  ⟨fun node present => included (known.1 node present),
    fun token present => included (known.2 token present)⟩

theorem Known.tracked_token (known : interner.Known made) (kind : Kind) (text : String) :
    Tracked Green.Complete made (fun now answer => .token answer.1 ∈ now ∧ answer.2.Known now)
      (interner.token kind text) := by
  unfold token
  cases found : interner.findToken? kind text with
  | some shared =>
      apply (Build.tracked_record _).bind
      intro _ _ grown _
      apply Tracked.pure
      intro _ grownMore
      have included := List.Subset.trans grown grownMore
      exact ⟨included (known.2 shared (List.mem_of_find?_eq_some found)), known.mono included⟩
  | none =>
      refine (Green.TokenCall.tracked (.plain kind text [])).bind fun grown tokenMade =>
        Tracked.pure fun grownMore => ⟨grownMore tokenMade, ?_⟩
      obtain ⟨nodes, tokens⟩ := known.mono (List.Subset.trans grown grownMore)
      exact ⟨nodes, List.forall_mem_cons.mpr ⟨grownMore tokenMade, tokens⟩⟩

theorem Known.tracked_node (known : interner.Known made) (kind : Kind) {slots : List Green.Slot}
    (available : ∀ slot ∈ slots, Green.Available made slot) :
    Tracked Green.Complete made (fun now answer => .node answer.1 ∈ now ∧ answer.2.Known now)
      (interner.node kind slots) := by
  unfold node
  split
  · exact (Green.Node.tracked_createOr available).bind fun grown nodeMade =>
      Tracked.pure fun grownMore =>
        ⟨grownMore nodeMade, known.mono (List.Subset.trans grown grownMore)⟩
  · cases found : interner.findNode? kind slots with
    | some shared =>
        apply (Build.tracked_record _).bind
        intro _ _ grown _
        apply Tracked.pure
        intro _ grownMore
        have included := List.Subset.trans grown grownMore
        exact ⟨included (known.1 shared (List.mem_of_find?_eq_some found)), known.mono included⟩
    | none =>
        refine (Green.Node.tracked_createOr available).bind fun grown nodeMade =>
          Tracked.pure fun grownMore => ⟨grownMore nodeMade, ?_⟩
        obtain ⟨nodes, tokens⟩ := known.mono (List.Subset.trans grown grownMore)
        exact ⟨List.forall_mem_cons.mpr ⟨grownMore nodeMade, nodes⟩, tokens⟩

theorem tracked_clear (interner : Interner) :
    Tracked Green.Complete made (fun now cleared => cleared.Known now) interner.clear := by
  apply (Build.tracked_record _).bind
  intro _ _ grown _
  apply Tracked.pure
  intro _ grownMore
  exact ⟨fun node present => (by cases present), fun token present => (by cases present)⟩

end Interner

namespace Typed

theorem LawfulView.seen {Value : Type} [View Value] [LawfulView Value] {node : Red.Node}
    (value : Value) (found : View.ofNode? node = some value) (seen : node.Seen made) :
    (View.node value).Seen made := by
  rw [LawfulView.node_eq found]
  exact seen

theorem NodeOf.tracked_create (kind : NodeKind) {slots : List Green.Slot}
    (available : ∀ slot ∈ slots, Green.Available made slot) :
    Tracked Green.Complete made (fun now view => view.node.Seen now)
      (NodeOf.create kind slots) := by
  apply (Green.Node.tracked_createOr available).bind
  intro _ _ _ nodeMade
  unfold NodeOf.require
  split
  · next view found =>
      exact Tracked.pure fun grown => LawfulView.seen view found ⟨_, grown nodeMade, .root⟩
  · exact Tracked.throw _

theorem NodeList.tracked_create {Element : Type} [View Element] {elements : List Element}
    (elementsMade : ∀ element ∈ elements, .node (View.node element).green ∈ made) :
    Tracked Green.Complete made (fun now list => list.node.Seen now)
      (NodeList.create elements) := by
  have available : ∀ slot ∈ (elements.map fun element => (View.node element).green).map Slot.node,
      Green.Available made slot := by
    simp only [List.mem_map]
    rintro _ ⟨_, ⟨element, present, rfl⟩, rfl⟩
    exact .inr (elementsMade element present)
  apply (Green.Node.tracked_createOr available).bind
  intro _ _ _ nodeMade
  unfold NodeList.require
  split
  · next list found =>
      exact Tracked.pure fun grown => LawfulView.seen list found ⟨_, grown nodeMade, .root⟩
  · exact Tracked.throw _

end Typed

end SyntaxTree

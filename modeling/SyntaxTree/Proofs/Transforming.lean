import SyntaxTree.Edit.Transform
import SyntaxTree.Proofs.Place

/-!
The steps of a transform. A node is transformed slot by slot and made anew from what the slots
became, unless all came back as they were. Main statement: a node can be made anew from values that
follow its layout, whatever else was made before.
-/

namespace SyntaxTree

theorem mapM_congr {Item Value : Type} {first second : Item → Build Value} {items : List Item}
    (same : ∀ item ∈ items, first item = second item) : items.mapM first = items.mapM second := by
  induction items with
  | nil => rfl
  | cons item rest inductionHypothesis =>
      rw [List.forall_mem_cons] at same
      rw [List.mapM_cons, List.mapM_cons, same.1, inductionHypothesis same.2]

theorem mapM_eq_pure {Item Value : Type} {action : Item → Build Value} {result : Item → Value}
    {items : List Item} (each : ∀ item ∈ items, action item = pure (result item)) :
    items.mapM action = pure (items.map result) :=
  (mapM_congr each).trans List.mapM_pure

/-- An action that succeeds whatever else was made before it runs, and what holds of its result
then. -/
structure Build.Assured {Result : Type} (made : List Green.Slot)
    (good : List Green.Slot → Result → Prop) (action : Build Result) : Prop where
  run {now : List Green.Slot} {workspace : Workspace} :
    made ⊆ now → Green.History workspace now →
      ∃ result later more, action workspace = .ok result later ∧ now ⊆ more ∧
        Green.History later more ∧ good more result

namespace Build.Assured

variable {Result Next : Type} {made more : List Green.Slot}
  {good : List Green.Slot → Result → Prop} {goodNext : List Green.Slot → Next → Prop}
  {action : Build Result} {next : Result → Build Next}

theorem mono (assured : Assured made good action) (included : made ⊆ more) :
    Assured more good action :=
  ⟨fun known history => assured.run (List.Subset.trans included known) history⟩

theorem pure {result : Result} (goodResult : ∀ {now}, made ⊆ now → good now result) :
    Assured made good (Pure.pure result : Build Result) :=
  ⟨fun known history => ⟨_, _, _, rfl, List.Subset.refl _, history, goodResult known⟩⟩

/-- What was made when the action runs may be used to show that it succeeds. -/
theorem of_history (assured : ∀ {now workspace}, made ⊆ now → Green.History workspace now →
    Assured now good action) : Assured made good action :=
  ⟨fun known history => (assured known history).run (List.Subset.refl _) history⟩

theorem bind (first : Assured made good action)
    (second : ∀ {now result}, made ⊆ now → good now result →
      Assured now goodNext (next result)) :
    Assured made goodNext (action >>= next) := by
  refine ⟨fun {now workspace} known history => ?_⟩
  obtain ⟨result, between, grown, firstRun, included, goneOn, goodResult⟩ := first.run known history
  obtain ⟨final, later, more, secondRun, includedMore, ended, goodFinal⟩ :=
    (second (List.Subset.trans known included) goodResult).run (List.Subset.refl _) goneOn
  exact ⟨final, later, more, (Build.bind_run_of_ok firstRun).trans secondRun,
    List.Subset.trans included includedMore, ended, goodFinal⟩

theorem imp {better : List Green.Slot → Result → Prop} (assured : Assured made good action)
    (improves : ∀ {now result}, good now result → better now result) :
    Assured made better action := by
  refine ⟨fun known history => ?_⟩
  obtain ⟨result, later, more, run, included, goneOn, goodResult⟩ := assured.run known history
  exact ⟨result, later, more, run, included, goneOn, improves goodResult⟩

/-- The result is one that the action gave. -/
theorem answered (assured : Assured made good action) :
    Assured made (fun now result => good now result ∧
      ∃ before after, action before = .ok result after) action := by
  refine ⟨fun {now workspace} known history => ?_⟩
  obtain ⟨result, later, more, run, included, goneOn, goodResult⟩ := assured.run known history
  exact ⟨result, later, more, run, included, goneOn, goodResult, workspace, later, run⟩

/-- A node that fits can be made, and is none of those made before. -/
theorem tryCreate {kind : NodeKind} {slots : List Green.Slot}
    (available : ∀ slot ∈ slots, Green.Available made slot)
    (fits : kind.checkSlots slots = .ok ()) :
    Assured made (fun now green => .node green ∈ now ∧ ∃ stamp,
      green = .assemble stamp kind slots [] ∧ ∀ value ∈ made, value.stamp? ≠ some stamp)
      (Green.Node.tryCreate kind slots) := by
  refine ⟨fun {now workspace} known history => ?_⟩
  have goneOn := history.node (fun slot present => (available slot present).mono known)
    (Green.Node.create_run fits [] workspace)
  have run : Green.Node.tryCreate kind slots workspace = _ :=
    Green.Node.createOr_of_fits workspace fits
  exact ⟨_, _, _, run, List.subset_cons_self _ _, goneOn, List.mem_cons_self, _, rfl,
    fun value present => history.stamp_ne_next (known present)⟩

/-- A token can always be made. -/
theorem createToken (kind : TokenKind) (text : String) :
    Assured made (fun now green => .token green ∈ now ∧ green.kind = kind)
      (Green.Token.create kind text []) := by
  refine ⟨fun {now workspace} known goneOn => ?_⟩
  have run : (Green.TokenCall.plain kind text []).run workspace = .ok _ _ := rfl
  exact ⟨_, _, _, run, List.subset_cons_self _ _, goneOn.token run, List.mem_cons_self, rfl⟩

end Build.Assured

namespace Red.Node

/-- The green node with these values in its slots, or the very same one for the very same values. -/
def remade (node : Node) (values : List Green.Slot) : Build Green.Node :=
  if Green.Slot.allIdentical node.green.slots values then
    return node.green
  else
    Green.Node.tryCreate node.kind values

@[simp]
theorem remade_self (node : Node) : node.remade node.green.slots = pure node.green := by
  simp [remade]

variable {made values : List Green.Slot} {node : Node}

/-- A node is made anew from values that fit, with a stamp of its own, unless these are its own. -/
theorem assured_remade (nodeMade : .node node.green ∈ made)
    (available : ∀ value ∈ values, Green.Available made value)
    (fits : node.kind.checkSlots values = .ok ()) :
    Build.Assured made (fun now green => .node green ∈ now ∧
      (values = node.green.slots ∧ green = node.green ∨
        Green.Slot.allIdentical node.green.slots values = false ∧ ∃ stamp,
          green = .assemble stamp node.kind values [] ∧ ∀ value ∈ made, value.stamp? ≠ some stamp))
      (node.remade values) := by
  rw [remade]
  cases same : Green.Slot.allIdentical node.green.slots values with
  | true =>
      rw [if_pos rfl]
      refine .of_history fun known history => ?_
      have values_eq := history.eq_of_allIdentical (history.slots_available (known nodeMade))
        (fun value present => (available value present).mono known) same
      exact .pure fun included => ⟨included (known nodeMade), .inl ⟨values_eq.symm, rfl⟩⟩
  | false =>
      rw [if_neg Bool.false_ne_true]
      refine (Build.Assured.tryCreate available fits).imp ?_
      rintro now green ⟨greenMade, stamped⟩
      exact ⟨greenMade, .inr ⟨rfl, stamped⟩⟩

end Red.Node

namespace Transform

/-- The step of a transform in terms of what becomes of the slots. -/
theorem greenOf_eq_onNode {Action : Type → Type} [Monad Action] [LawfulMonad Action]
    [MonadLiftT Build Action] (transform : Transform Action) (node : Red.Node) :
    transform.greenOf node = transform.onNode node (do
      let slots ← node.slots.mapM fun slot =>
        runSlot (slot.map transform.greenOf transform.onToken)
      if Green.Slot.allIdentical node.green.slots slots then
        return node.green
      else
        liftM (Green.Node.tryCreate node.kind slots)) := by
  rw [greenOf, Red.Node.fold_eq]
  simp only [rebuildSlots, List.mapM_map]
  rfl

/-- The action that a slot becomes. -/
def ofSlot (transform : Transform Build) (slot : Red.Slot) : Build Green.Slot :=
  runSlot (slot.map transform.greenOf transform.onToken)

theorem greenOf_eq (transform : Transform Build) (node : Red.Node) :
    transform.greenOf node =
      transform.onNode node (node.slots.mapM transform.ofSlot >>= node.remade) :=
  greenOf_eq_onNode transform node

/-- A transform that changes tokens only goes through all nodes. -/
theorem greenOf_ofTokens (onToken : Red.Token → Build Green.Token) (node : Red.Node) :
    (ofTokens onToken).greenOf node = node.slots.mapM (ofTokens onToken).ofSlot >>= node.remade :=
  greenOf_eq _ node

end Transform

end SyntaxTree

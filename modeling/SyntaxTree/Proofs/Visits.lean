import SyntaxTree.Proofs.FirstMisfit
import SyntaxTree.Proofs.Stateful
import SyntaxTree.Typed.Dispatch

/-!
All traversals go the same way. Main statement: visitors, transformers and transforms of tokens come
by the nodes and tokens of a tree in the order in which a walk shows them, and a node is handed to
the method of its kind.
-/

namespace SyntaxTree

namespace Red

def WalkEvent.visit? : WalkEvent → Option Visit
  | .enter node => some (.node node)
  | .token value => some (.token value)
  | .leave _ => none

/-- The nodes that a walk enters and the tokens that it shows. -/
def Node.shown (node : Node) : List Visit :=
  (Walk.start true node).toList.filterMap (·.visit?)

def Slot.shown : Slot → List Visit
  | .node node => node.shown
  | .token token => [.token token]
  | .absent => []

theorem Node.shown_eq (node : Node) : node.shown = .node node :: node.slots.flatMap Slot.shown := by
  have each (slot : Slot) : (slot.events true).filterMap (·.visit?) = slot.shown := by
    cases slot with
    | node below => rw [Slot.shown, Node.shown, Walk.toList_start, Slot.events]
    | token token => rfl
    | absent => rfl
  have entered : (WalkEvent.enter node).visit? = some (.node node) := rfl
  rw [shown, Walk.toList_start, events_eq, List.cons_append, List.filterMap_cons_some entered,
    List.filterMap_append, List.filterMap_flatMap, List.flatMap_congr fun slot _ => each slot,
    List.filterMap_cons_none rfl, List.filterMap_nil, List.append_nil]

section Announcing

variable {Action : Type → Type} [Monad Action]

/-- A visitor that announces every node before it goes below it. -/
def Visitor.announcing (announce : Visit → Action Unit) : Visitor Action where
  onNode node descend := do
    announce (.node node)
    descend
  onToken token := announce (.token token)

variable [LawfulMonad Action]

theorem Visitor.descend_announcing (announce : Visit → Action Unit) {slots : List Slot}
    (below : ∀ {node}, .node node ∈ slots →
      node.accept (announcing announce) = node.shown.forM announce) :
    descend (slots.map (.map (·.accept (announcing announce)) (announcing announce).onToken)) =
      (slots.flatMap Slot.shown).forM announce := by
  simp only [descend, List.forM_eq_forM] at below ⊢
  induction slots with
  | nil => rfl
  | cons slot slots inductionHypothesis =>
      have rest := inductionHypothesis fun present => below (List.mem_cons_of_mem _ present)
      rw [List.flatMap_cons, List.forM_append, ← rest, List.map_cons]
      cases slot with
      | node node =>
          rw [Slot.shown, ← below List.mem_cons_self]
          exact List.forM_cons
      | token token => simp [SyntaxTree.Slot.map, SyntaxTree.Slot.present?, Slot.shown, announcing]
      | absent => simp [SyntaxTree.Slot.map, SyntaxTree.Slot.present?, Slot.shown]

theorem Node.accept_announcing (announce : Visit → Action Unit) (node : Node) :
    node.accept (.announcing announce) = node.shown.forM announce := by
  induction node using below_induction with
  | step node inductionHypothesis =>
      have step : node.accept (.announcing announce) = (do
          announce (.node node)
          Visitor.descend (node.slots.map
            (.map (·.accept (.announcing announce)) (Visitor.announcing announce).onToken))) :=
        fold_eq _ _ node
      rw [step, Visitor.descend_announcing announce inductionHypothesis, shown_eq,
        List.forM_eq_forM, List.forM_cons]

/-- A transformer that announces every node before it transforms the slots, and puts together what
they give. -/
def announcingTransformer {Output : Type} (announce : Visit → Action Unit)
    (combine : Node → List Output → Output) (ofToken : Token → Output) :
    Typed.KindTransformer Action Output :=
  .ofNodes
    (fun node parts => do
      announce (.node node)
      return combine node (← Typed.KindTransformer.applySlots parts))
    (fun token => do
      announce (.token token)
      return ofToken token)

end Announcing

section Transformer

variable {Output : Type} (combine : Node → List Output → Output) (ofToken : Token → Output)

/-- What a fold of the slots that are not absent gives. -/
def Node.gathered (node : Node) : Output :=
  node.fold (fun self parts => combine self ((parts ()).filterMap (·.present?))) ofToken

def Slot.gathered? : Slot → Option Output
  | .node node => some (node.gathered combine ofToken)
  | .token token => some (ofToken token)
  | .absent => none

theorem Node.gathered_eq (node : Node) :
    node.gathered combine ofToken =
      combine node (node.slots.filterMap (Slot.gathered? combine ofToken)) := by
  rw [gathered, fold_eq, List.filterMap_map]
  congr 2
  funext slot
  cases slot <;> rfl

variable {Action : Type → Type} [Monad Action] [LawfulMonad Action] (announce : Visit → Action Unit)

theorem applySlots_announcing {slots : List Slot}
    (below : ∀ {node}, .node node ∈ slots →
      (announcingTransformer announce combine ofToken).apply node = (do
        node.shown.forM announce
        return node.gathered combine ofToken)) :
    (Typed.KindTransformer.applySlots fun _ => slots.map
      (.map (announcingTransformer announce combine ofToken).apply
        (announcingTransformer announce combine ofToken).onToken)) = (do
      (slots.flatMap Slot.shown).forM announce
      return slots.filterMap (Slot.gathered? combine ofToken)) := by
  simp only [List.forM_eq_forM] at below ⊢
  induction slots with
  | nil => simp [Typed.KindTransformer.applySlots]
  | cons slot slots inductionHypothesis =>
      have rest := inductionHypothesis fun present => below (List.mem_cons_of_mem _ present)
      rw [List.flatMap_cons, List.forM_append]
      cases slot with
      | node node =>
          have first := below List.mem_cons_self
          refine (Typed.KindTransformer.applySlots_cons_of_present rfl _).trans ?_
          simp only [rest, first]
          simp [Slot.shown, Slot.gathered?]
      | token token =>
          refine (Typed.KindTransformer.applySlots_cons_of_present rfl _).trans ?_
          simp only [rest]
          simp [Slot.shown, Slot.gathered?, announcingTransformer, Typed.KindTransformer.ofNodes]
      | absent =>
          have skipped : (.absent :: slots).filterMap (Slot.gathered? combine ofToken) =
              slots.filterMap (Slot.gathered? combine ofToken) :=
            List.filterMap_cons_none rfl
          refine (Typed.KindTransformer.applySlots_cons_of_absent rfl _).trans ?_
          simp [rest, skipped, Slot.shown]

theorem Node.apply_announcing (node : Node) :
    (announcingTransformer announce combine ofToken).apply node = (do
      node.shown.forM announce
      return node.gathered combine ofToken) := by
  induction node using below_induction with
  | step node inductionHypothesis =>
      have step : (announcingTransformer announce combine ofToken).apply node = (do
          announce (.node node)
          return combine node (← Typed.KindTransformer.applySlots fun _ => node.slots.map
            (.map (announcingTransformer announce combine ofToken).apply
              (announcingTransformer announce combine ofToken).onToken))) :=
        fold_eq _ _ node
      rw [step, applySlots_announcing combine ofToken announce inductionHypothesis, shown_eq,
        gathered_eq]
      simp

end Transformer

section Recorder

variable {Entry : Type} (entry : Visit → Entry)

/-- Takes down a visit. -/
def record (visit : Visit) : StateM (Array Entry) Unit := modify (·.push (entry visit))

theorem forM_record (visits : List Visit) (before : Array Entry) :
    (visits.forM (record entry)).run before = ((), before ++ (visits.map entry).toArray) := by
  rw [List.forM_eq_forM]
  induction visits generalizing before with
  | nil => simp; rfl
  | cons visit visits inductionHypothesis =>
      refine (congrArg (StateT.run · before) List.forM_cons).trans ?_
      refine (inductionHypothesis (before.push (entry visit))).trans ?_
      simp

end Recorder

/-- The recorder of the library takes down what a walk shows. -/
theorem Node.visits_eq (node : Node) : node.visits (fun _ => false) = node.shown := by
  have recorded : node.accept (.recorder fun _ => false) = node.shown.forM (record id) :=
    node.accept_announcing (record id)
  rw [visits, recorded, forM_record]
  simp

section Notes

variable {State Result Next : Type} {front back : List Token}

/-- Takes down a token when it is acted on. -/
def noting (onToken : Token → BuildWith State Green.Token) (token : Token) :
    BuildWith (List Token × State) Green.Token := fun (workspace, seen, state) =>
  match onToken token (workspace, state) with
  | .ok green (later, own) => .ok green (later, seen ++ [token], own)
  | .error failure (later, own) => .error failure (later, seen ++ [token], own)

/-- Whether an action runs like another one and takes down some tokens in order, all of them unless
it fails. -/
structure Notes (tokens : List Token) (plain : BuildWith State Result)
    (noted : BuildWith (List Token × State) Result) : Prop where
  ok {workspace later : Workspace} {state own : State} {result : Result} :
    plain (workspace, state) = .ok result (later, own) → ∀ seen,
      noted (workspace, seen, state) = .ok result (later, seen ++ tokens, own)
  error {workspace later : Workspace} {state own : State} {failure : Failure} :
    plain (workspace, state) = .error failure (later, own) → ∀ seen, ∃ front, front <+: tokens ∧
      noted (workspace, seen, state) = .error failure (later, seen ++ front, own)

namespace Notes

variable {plain : BuildWith State Result} {noted : BuildWith (List Token × State) Result}
  {next : Result → BuildWith State Next} {nextNoted : Result → BuildWith (List Token × State) Next}

theorem ofBuild (action : Build Result) :
    Notes [] (BuildWith.ofBuild action : BuildWith State Result) (BuildWith.ofBuild action) := by
  constructor
  · intro workspace later state own result run seen
    rw [BuildWith.ofBuild] at run ⊢
    cases done : action workspace with
    | ok given after =>
        rw [done] at run
        cases run
        rw [List.append_nil]
    | error failure after =>
        rw [done] at run
        cases run
  · intro workspace later state own failure run seen
    refine ⟨[], List.nil_prefix, ?_⟩
    rw [BuildWith.ofBuild] at run ⊢
    cases done : action workspace with
    | ok given after =>
        rw [done] at run
        cases run
    | error failure after =>
        rw [done] at run
        cases run
        rw [List.append_nil]

theorem pure (result : Result) :
    Notes [] (Pure.pure result : BuildWith State Result) (Pure.pure result) :=
  ofBuild (Pure.pure result)

theorem noting (onToken : Token → BuildWith State Green.Token) (token : Token) :
    Notes [token] (onToken token) (noting onToken token) where
  ok run seen := by rw [Red.noting, run]
  error run seen := ⟨[token], List.prefix_rfl, by rw [Red.noting, run]⟩

theorem bind (first : Notes front plain noted)
    (second : ∀ result, Notes back (next result) (nextNoted result)) :
    Notes (front ++ back) (plain >>= next) (noted >>= nextNoted) := by
  constructor
  · intro workspace later state own result run seen
    simp only [Bind.bind, EStateM.bind] at run ⊢
    cases firstRun : plain (workspace, state) with
    | ok middle between =>
        rw [firstRun] at run
        rw [first.ok firstRun seen]
        exact ((second middle).ok run _).trans (by rw [List.append_assoc])
    | error failure between =>
        rw [firstRun] at run
        cases run
  · intro workspace later state own failure run seen
    simp only [Bind.bind, EStateM.bind] at run ⊢
    cases firstRun : plain (workspace, state) with
    | ok middle between =>
        rw [firstRun] at run
        obtain ⟨rest, restFront, secondRun⟩ := (second middle).error run (seen ++ front)
        refine ⟨front ++ rest, (List.prefix_append_right_inj front).mpr restFront, ?_⟩
        rw [first.ok firstRun seen, ← List.append_assoc]
        exact secondRun
    | error failure between =>
        rw [firstRun] at run
        cases run
        obtain ⟨rest, restFront, firstNoted⟩ := first.error firstRun seen
        refine ⟨rest, restFront.trans (List.prefix_append front back), ?_⟩
        rw [firstNoted]

theorem mapM {Item : Type} {tokensOf : Item → List Token} {each : Item → BuildWith State Result}
    {eachNoted : Item → BuildWith (List Token × State) Result} {items : List Item}
    (notes : ∀ item ∈ items, Notes (tokensOf item) (each item) (eachNoted item)) :
    Notes (items.flatMap tokensOf) (items.mapM each) (items.mapM eachNoted) := by
  induction items with
  | nil =>
      rw [List.mapM_nil, List.mapM_nil]
      exact pure _
  | cons item items inductionHypothesis =>
      rw [List.forall_mem_cons] at notes
      have rest (result : Result) := (inductionHypothesis notes.2).bind fun results =>
        pure (result :: results)
      simp only [List.append_nil] at rest
      rw [List.mapM_cons, List.mapM_cons, List.flatMap_cons]
      exact notes.1.bind rest

/-- A transform of tokens comes by the tokens of a node in their order. -/
theorem greenOf (onToken : Token → BuildWith State Green.Token) (node : Node) :
    Notes node.tokens ((Transform.ofTokens onToken).greenOf node)
      ((Transform.ofTokens (Red.noting onToken)).greenOf node) := by
  induction node using Node.below_induction with
  | step node inductionHypothesis =>
      rw [Transform.greenOf_eq_onNode, Transform.greenOf_eq_onNode, Node.tokens_eq,
        ← List.append_nil (List.flatMap _ _)]
      refine bind (mapM fun slot present => ?_) fun values => ?_
      · cases slot with
        | node below =>
            have notes := (inductionHypothesis present).bind fun green =>
              pure (.node green : Green.Slot)
            rwa [List.append_nil] at notes
        | token token =>
            exact (noting onToken token).bind fun green =>
              pure (.token green : Green.Slot)
        | absent => exact pure (.absent : Green.Slot)
      · split
        · exact pure _
        · exact ofBuild _

theorem transform (onToken : Token → BuildWith State Green.Token) (node : Node) :
    Notes node.tokens (node.transform (.ofTokens onToken))
      (node.transform (.ofTokens (Red.noting onToken))) := by
  have whole := (greenOf onToken node).bind fun green => ofBuild (node.replaceWith green)
  rwa [List.append_nil] at whole

end Notes

end Notes

section KeepingKinds

variable {State : Type} {root : Green.Node} {workspace : Workspace} {made : List Green.Slot}
  {node : Node} {onToken : Token → BuildWith State Green.Token}

/-- Everything may come in its own place. -/
theorem Revised.self (slot : Slot) : Revised Token.kind slot slot.green := by
  induction slot using Slot.below_induction with
  | absent => exact .absent
  | token token => exact .token rfl
  | node node inductionHypothesis =>
      refine .node rfl ?_
      rw [← node.map_green_slots, List.forall₂_map_right_iff, List.forall₂_same]
      exact inductionHypothesis

/-- No token of a tree is a misfit as it is. -/
theorem Node.misfit?_own (fits : node.kind.checkSlots node.green.slots = .ok ()) :
    node.misfit? Token.kind = none := by
  have revised : List.Forall₂ (Revised Token.kind) node.slots node.green.slots := by
    cases Revised.self (.node node) with
    | node sameKind revised => exact revised
  have outcome := Node.checkSlots_of_revised fits revised
  rw [fits] at outcome
  cases misfit : node.misfit? Token.kind with
  | none => rfl
  | some reason =>
      rw [misfit] at outcome
      cases outcome

/-- A transform that keeps the kinds of all tokens succeeds. -/
theorem delivers_greenOf (history : Green.History workspace made) (rootMade : .node root ∈ made)
    (inTree : Node.InTree root node)
    (keeps : ∀ token ∈ node.tokens,
      Delivers (fun green => green.kind = token.kind) (onToken token)) :
    Delivers (fun green => Revised Token.kind (.node node) (.node green))
      ((Transform.ofTokens onToken).greenOf node) := by
  induction node using Node.below_induction with
  | step node inductionHypothesis =>
      have fits := history.checkSlots_eq_ok (inTree.green_mem history rootMade)
      have each : ∀ slot ∈ node.slots, Delivers (Revised Token.kind slot)
          (Transform.runSlot (slot.map (Transform.ofTokens onToken).greenOf
            (Transform.ofTokens onToken).onToken)) := by
        intro slot present
        have keepsBelow (token : Token) (below : token ∈ slot.tokens) :=
          keeps token (Node.mem_tokens_iff.mpr ⟨slot, present, below⟩)
        cases slot with
        | absent => exact .pure .absent
        | token token =>
            exact (keepsBelow token (List.mem_singleton_self token)).bind fun green sameKind =>
              .pure (.token sameKind)
        | node child =>
            obtain ⟨index, found⟩ := Node.mem_slots_iff.mp present
            exact (inductionHypothesis present (inTree.child found) keepsBelow).bind
              fun green revised => .pure revised
      rw [Transform.greenOf_eq_onNode]
      refine (Delivers.mapM each).bind fun values revised => ?_
      split
      · exact .pure (.self (.node node))
      · -- The node's own slots have no misfit, so slots with tokens of the same kinds fit as well.
        rintro ⟨now, state⟩
        have accepted := Node.checkSlots_of_revised fits revised
        rw [Node.misfit?_own fits] at accepted
        have run : Green.Node.tryCreate node.kind values now = _ :=
          Green.Node.createOr_of_fits now accepted
        refine ⟨.assemble ⟨now.nextSerial⟩ node.kind values [],
          ({ now with nextSerial := now.nextSerial + 1 }, state), ?_, .node rfl revised⟩
        rw [BuildWith.liftM_eq, BuildWith.ofBuild, run]

end KeepingKinds

end Red

namespace Typed

/-- A call of the method for the kind of a node, or of that for tokens. -/
inductive MethodCall
  | node (any : AnyNode)
  | token (token : Red.Token)

def MethodCall.ofVisit : Red.Visit → MethodCall
  | .node place => .node (.ofNode place)
  | .token value => .token value

/-- A visitor that takes down which method is called with which node, and then goes below it. -/
def KindVisitor.recorder : KindVisitor (StateM (Array MethodCall)) where
  onNode kind view descend := do
    modify (·.push (.node ⟨kind, view⟩))
    descend
  onToken token := modify (·.push (.token token))

/-- A transformer that takes down every node before it transforms the slots. -/
def KindTransformer.recorder {Output : Type} (combine : Red.Node → List Output → Output)
    (ofToken : Red.Token → Output) : KindTransformer (StateM (Array Red.Visit)) Output :=
  Red.announcingTransformer (Red.record id) combine ofToken

end Typed

namespace Red

open Typed (KindVisitor KindTransformer MethodCall)

/-- Recording visitors and transformers take down what a walk shows, a visitor in the method for the
kind of each node. A transform of tokens comes by the tokens that the walk shows, in that order: by
all of them if it succeeds, as it does if it keeps their kinds, and else by those in front. -/
theorem traversals_agree {root : Green.Node} {workspace : Workspace} {made : List Green.Slot}
    {node : Node} (history : Green.History workspace made) (rootMade : .node root ∈ made)
    (inTree : Node.InTree root node) :
    node.visits (fun _ => false) = node.shown ∧
    (∀ before, (node.accept KindVisitor.recorder.dispatch).run before =
      ((), before ++ (node.shown.map MethodCall.ofVisit).toArray)) ∧
    (∀ {Output : Type} (combine : Node → List Output → Output) (ofToken : Token → Output) before,
      ((KindTransformer.recorder combine ofToken).apply node).run before =
        (node.gathered combine ofToken, before ++ node.shown.toArray)) ∧
    ∀ {State : Type} (onToken : Token → BuildWith State Green.Token),
      Notes node.tokens ((Transform.ofTokens onToken).greenOf node)
        ((Transform.ofTokens (noting onToken)).greenOf node) ∧
      Notes node.tokens (node.transform (.ofTokens onToken))
        (node.transform (.ofTokens (noting onToken))) ∧
      ((∀ token ∈ node.tokens, Delivers (fun green => green.kind = token.kind) (onToken token)) →
        ∀ world, ∃ green later,
          (Transform.ofTokens onToken).greenOf node world = .ok green later) := by
  refine ⟨node.visits_eq, ?_, ?_, ?_⟩
  · intro before
    have recorded : node.accept KindVisitor.recorder.dispatch =
        node.shown.forM (record MethodCall.ofVisit) :=
      node.accept_announcing (record MethodCall.ofVisit)
    rw [recorded, forM_record]
  · intro Output combine ofToken before
    rw [KindTransformer.recorder, Node.apply_announcing, StateT.run_bind, forM_record, List.map_id]
    rfl
  · intro State onToken
    refine ⟨.greenOf onToken node, .transform onToken node, fun keeps world => ?_⟩
    obtain ⟨green, later, run, -⟩ := delivers_greenOf history rootMade inTree keeps world
    exact ⟨green, later, run⟩

/-- Leaves every token as it is. -/
def Sample.keep (token : Token) : BuildWith Unit Green.Token := pure token.green

open Green.Sample (call history call_mem) in
theorem traversals_agree_of_call :
    ((Node.root call).accept KindVisitor.recorder.dispatch).run #[] =
        ((), #[] ++ ((Node.root call).shown.map MethodCall.ofVisit).toArray) ∧
      ∃ green later seen, (Transform.ofTokens (noting Sample.keep)).greenOf (.root call)
          (Green.Sample.workspace, [], ()) = .ok green (later, seen, ()) ∧
        seen.map (·.text) = ["f", "(", "a", ")"] := by
  obtain ⟨-, recorded, -, transforms⟩ := traversals_agree history call_mem (@Node.InTree.root call)
  obtain ⟨notes, -, succeeds⟩ := transforms Sample.keep
  have keeps : ∀ token ∈ (Node.root call).tokens,
      Delivers (fun green => green.kind = token.kind) (Sample.keep token) :=
    fun _ _ => .pure rfl
  obtain ⟨green, ⟨later, own⟩, run⟩ := succeeds keeps (Green.Sample.workspace, ())
  exact ⟨recorded #[], green, later, _, notes.ok run [], rfl⟩

end Red

end SyntaxTree

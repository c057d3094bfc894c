import SyntaxTree.Proofs.Misfits
import SyntaxTree.Proofs.TokenMap

/-!
Transforms that give tokens of any kinds. The slots of a node are gone through before the node is
built anew, so that nodes are checked in postorder. Main statement: such a transform fails exactly
when some token does not fit; the reason is that of the first node in postorder with such a token,
and no token behind that node is asked for.
-/

namespace SyntaxTree

namespace Red

variable {made : List Green.Slot} {root : Green.Node} {workspace : Workspace} {node : Node}
  {kindOf : Token → TokenKind}

variable {Result Next : Type} {onToken : Token → Build Green.Token} {tokens moreTokens : List Token}
  {places morePlaces : List Node} {good : List Green.Slot → Result → Prop}
  {goodNext : List Green.Slot → Next → Prop} {action : (Token → Build Green.Token) → Build Result}
  {next : (Token → Build Green.Token) → Result → Build Next}

/-- How an action fails that asks for tokens in order, on its way through some nodes: at the first
node with a misfit, for the reason of that node. What would be given for the tokens behind that node
makes no difference. -/
structure FailsAt (kindOf : Token → TokenKind) (onToken : Token → Build Green.Token)
    (tokens : List Token) (places : List Node)
    (action : (Token → Build Green.Token) → Build Result) (workspace : Workspace) (culprit : Node)
    (reason : SlotError) (later : Workspace) : Prop where
  misfit : culprit.misfit? kindOf = some reason
  places_eq : ∃ earlier behind, places = earlier ++ culprit :: behind ∧
    ∀ place ∈ earlier, place.misfit? kindOf = none
  run : ∃ front back, tokens = front ++ culprit.tokens ++ back ∧
    ∀ {other}, (∀ token ∈ front ++ culprit.tokens, other token = onToken token) →
      action other workspace = .error (.rejected reason) later

namespace FailsAt

variable {culprit : Node} {reason : SlotError} {later : Workspace}

theorem append (fails : FailsAt kindOf onToken tokens places action workspace culprit reason later)
    (moreTokens : List Token) (morePlaces : List Node) :
    FailsAt kindOf onToken (tokens ++ moreTokens) (places ++ morePlaces) action workspace culprit
      reason later := by
  obtain ⟨misfit, ⟨earlier, behind, rfl, fit⟩, front, back, rfl, run⟩ := fails
  exact ⟨misfit, ⟨earlier, behind ++ morePlaces, by simp, fit⟩, front, back ++ moreTokens, by simp,
    run⟩

theorem bind (fails : FailsAt kindOf onToken tokens places action workspace culprit reason later) :
    FailsAt kindOf onToken tokens places (fun given => action given >>= next given) workspace
      culprit reason later := by
  obtain ⟨misfit, places_eq, front, back, tokens_eq, run⟩ := fails
  exact ⟨misfit, places_eq, front, back, tokens_eq, fun same => Build.bind_run_of_error (run same)⟩

/-- Where the first part succeeds, a failure of the second one is one of the whole. -/
theorem after {result : Result} {between : Workspace}
    (asked : ∀ {other}, (∀ token ∈ tokens, other token = onToken token) →
      action other = action onToken)
    (fit : ∀ place ∈ places, place.misfit? kindOf = none)
    (first : action onToken workspace = .ok result between)
    (fails : FailsAt kindOf onToken moreTokens morePlaces (fun given => next given result) between
      culprit reason later) :
    FailsAt kindOf onToken (tokens ++ moreTokens) (places ++ morePlaces)
      (fun given => action given >>= next given) workspace culprit reason later := by
  obtain ⟨misfit, ⟨earlier, behind, rfl, earlierFit⟩, front, back, rfl, run⟩ := fails
  refine ⟨misfit, ⟨places ++ earlier, behind, ?_, ?_⟩, tokens ++ front, back, ?_, ?_⟩
  · simp
  · exact List.forall_mem_append.mpr ⟨fit, earlierFit⟩
  · simp
  · intro other same
    rw [List.append_assoc, List.forall_mem_append] at same
    rw [asked same.1, Build.bind_run_of_ok first]
    exact run same.2

end FailsAt

/-- An action that succeeds when no node on its way has a misfit, and fails at the first node that
has one otherwise. -/
structure Proceeds (made : List Green.Slot) (kindOf : Token → TokenKind)
    (onToken : Token → Build Green.Token) (tokens : List Token) (places : List Node)
    (good : List Green.Slot → Result → Prop)
    (action : (Token → Build Green.Token) → Build Result) : Prop where
  succeeds : (∀ place ∈ places, place.misfit? kindOf = none) →
    Build.Assured made good (action onToken)
  fails {now : List Green.Slot} {workspace : Workspace} :
    (¬ ∀ place ∈ places, place.misfit? kindOf = none) → made ⊆ now →
      Green.History workspace now →
      ∃ culprit reason later,
        FailsAt kindOf onToken tokens places action workspace culprit reason later

namespace Proceeds

theorem mono {more : List Green.Slot} (included : made ⊆ more)
    (proceeds : Proceeds made kindOf onToken tokens places good action) :
    Proceeds more kindOf onToken tokens places good action where
  succeeds fit := (proceeds.succeeds fit).mono included
  fails misfit known history := proceeds.fails misfit (List.Subset.trans included known) history

theorem of_assured (assured : Build.Assured made good (action onToken)) :
    Proceeds made kindOf onToken tokens [] good action where
  succeeds _ := assured
  fails misfit := absurd (List.forall_mem_nil _) misfit

theorem bind (first : Proceeds made kindOf onToken tokens places good action)
    (asked : ∀ {other}, (∀ token ∈ tokens, other token = onToken token) →
      action other = action onToken)
    (second : ∀ {now result}, made ⊆ now → good now result →
      Proceeds now kindOf onToken moreTokens morePlaces goodNext fun given => next given result) :
    Proceeds made kindOf onToken (tokens ++ moreTokens) (places ++ morePlaces) goodNext
      (fun given => action given >>= next given) where
  succeeds fit := by
    rw [List.forall_mem_append] at fit
    exact (first.succeeds fit.1).bind fun known result => (second known result).succeeds fit.2
  fails misfit known history := by
    rw [List.forall_mem_append, not_and] at misfit
    by_cases fit : ∀ place ∈ places, place.misfit? kindOf = none
    · obtain ⟨result, between, grown, run, included, goneOn, goodResult⟩ :=
        (first.succeeds fit).run known history
      obtain ⟨culprit, reason, later, fails⟩ :=
        (second (List.Subset.trans known included) goodResult).fails (misfit fit)
          (List.Subset.refl _) goneOn
      exact ⟨culprit, reason, later, fails.after asked fit run⟩
    · obtain ⟨culprit, reason, later, fails⟩ := first.fails fit known history
      exact ⟨culprit, reason, later, (fails.append _ _).bind⟩

/-- A last step that asks for no token. -/
theorem bind_assured {last : Result → Build Next}
    (first : Proceeds made kindOf onToken tokens places good action)
    (second : ∀ {now result}, made ⊆ now → good now result →
      Build.Assured now goodNext (last result)) :
    Proceeds made kindOf onToken tokens places goodNext (fun given => action given >>= last) where
  succeeds fit := (first.succeeds fit).bind second
  fails misfit known history := by
    obtain ⟨culprit, reason, later, fails⟩ := first.fails misfit known history
    exact ⟨culprit, reason, later, fails.bind⟩

end Proceeds

/-- A transform of tokens asks for those below a slot only. -/
theorem Slot.ofTokens_congr {given other : Token → Build Green.Token} (slot : Slot)
    (same : ∀ token ∈ slot.tokens, other token = given token) :
    (Transform.ofTokens other).ofSlot slot = (Transform.ofTokens given).ofSlot slot := by
  induction slot using Slot.below_induction with
  | absent => rfl
  | token token =>
      have token_eq := same token (List.mem_singleton_self token)
      simp [Transform.ofSlot, SyntaxTree.Slot.map, Transform.runSlot, Transform.ofTokens, token_eq]
  | node node inductionHypothesis =>
      have slots_eq : node.slots.mapM (Transform.ofTokens other).ofSlot =
          node.slots.mapM (Transform.ofTokens given).ofSlot := by
        refine mapM_congr fun slot present => inductionHypothesis slot present fun token below => ?_
        exact same token (Node.mem_tokens_iff.mpr ⟨slot, present, below⟩)
      have green_eq : (Transform.ofTokens other).greenOf node =
          (Transform.ofTokens given).greenOf node := by
        rw [Transform.greenOf_ofTokens, Transform.greenOf_ofTokens, slots_eq]
      rw [Transform.ofSlot, SyntaxTree.Slot.map, green_eq]
      rfl

theorem ofTokens_mapM_congr {given other : Token → Build Green.Token} (slots : List Slot)
    (same : ∀ token ∈ slots.flatMap Slot.tokens, other token = given token) :
    slots.mapM (Transform.ofTokens other).ofSlot =
      slots.mapM (Transform.ofTokens given).ofSlot := by
  refine mapM_congr fun slot present => slot.ofTokens_congr fun token below => ?_
  exact same token (List.mem_flatMap.mpr ⟨slot, present, below⟩)

/-- What a slot becomes in a transform that goes on. -/
def Slot.RevisedTo (kindOf : Token → TokenKind) (slot : Slot) (now : List Green.Slot)
    (value : Green.Slot) : Prop :=
  Green.Available now value ∧ Revised kindOf slot value

def SlotsRevisedTo (kindOf : Token → TokenKind) (slots : List Slot)
    (now values : List Green.Slot) : Prop :=
  (∀ value ∈ values, Green.Available now value) ∧ List.Forall₂ (Revised kindOf) slots values

theorem proceeds_slots {slots : List Slot}
    (each : ∀ slot ∈ slots, Proceeds made kindOf onToken slot.tokens slot.postorder
      (slot.RevisedTo kindOf) fun given => (Transform.ofTokens given).ofSlot slot) :
    Proceeds made kindOf onToken (slots.flatMap Slot.tokens) (slots.flatMap Slot.postorder)
      (SlotsRevisedTo kindOf slots) fun given => slots.mapM (Transform.ofTokens given).ofSlot := by
  induction slots with
  | nil =>
      simp only [List.mapM_nil]
      exact .of_assured (.pure fun _ => ⟨List.forall_mem_nil _, .nil⟩)
  | cons slot slots inductionHypothesis =>
      rw [List.forall_mem_cons] at each
      simp only [List.mapM_cons]
      refine each.1.bind slot.ofTokens_congr fun {now value} known first => ?_
      have restProceeds := (inductionHypothesis each.2).mono known
      refine restProceeds.bind_assured fun {later values} grown rest => ?_
      refine .pure fun included => ⟨List.forall_mem_cons.mpr ⟨?_, ?_⟩, .cons first.2 rest.2⟩
      · exact (first.1.mono grown).mono included
      · exact fun value present => (rest.1 value present).mono included

/-- A node without a misfit is made from what its slots became. -/
theorem assured_revised {values : List Green.Slot} (nodeMade : .node node.green ∈ made)
    (fits : node.kind.checkSlots node.green.slots = .ok ())
    (revised : SlotsRevisedTo kindOf node.slots made values) (fit : node.misfit? kindOf = none) :
    Build.Assured made (fun now green => Slot.RevisedTo kindOf (.node node) now (.node green))
      (node.remade values) := by
  have accepted := Node.checkSlots_of_revised fits revised.2
  rw [fit] at accepted
  refine (node.assured_remade nodeMade revised.1 accepted).imp ?_
  rintro later green ⟨greenMade, ⟨rfl, rfl⟩ | ⟨_, stamp, rfl, _⟩⟩
  · exact ⟨.inr greenMade, .node rfl revised.2⟩
  · exact ⟨.inr greenMade, .node rfl revised.2⟩

/-- A node with a misfit is not made, and its slots have not all come back as they were. -/
theorem remade_of_misfit {values : List Green.Slot} {reason : SlotError}
    (history : Green.History workspace made) (nodeMade : .node node.green ∈ made)
    (revised : SlotsRevisedTo kindOf node.slots made values)
    (misfit : node.misfit? kindOf = some reason) :
    node.remade values workspace = .error (.rejected reason) workspace := by
  have fits := history.checkSlots_eq_ok nodeMade
  have refused := Node.checkSlots_of_revised fits revised.2
  rw [misfit] at refused
  cases same : Green.Slot.allIdentical node.green.slots values with
  | true =>
      have values_eq :=
        history.eq_of_allIdentical (history.slots_available nodeMade) revised.1 same
      rw [← values_eq] at refused
      cases fits.symm.trans refused
  | false =>
      rw [Node.remade, if_neg (by simp [same])]
      exact Green.Node.createOr_of_misfit workspace refused

/-- A node is checked behind all that is below it. -/
theorem proceeds_remade (nodeMade : .node node.green ∈ made)
    (fits : node.kind.checkSlots node.green.slots = .ok ())
    (slots : Proceeds made kindOf onToken (node.slots.flatMap Slot.tokens)
      (node.slots.flatMap Slot.postorder) (SlotsRevisedTo kindOf node.slots)
      fun given => node.slots.mapM (Transform.ofTokens given).ofSlot) :
    Proceeds made kindOf onToken node.tokens node.postorder
      (fun now green => Slot.RevisedTo kindOf (.node node) now (.node green))
      fun given => (Transform.ofTokens given).greenOf node := by
  simp only [Transform.greenOf_ofTokens, Node.tokens_eq, Node.postorder_eq]
  constructor
  · intro fit
    rw [List.forall_mem_append, List.forall_mem_singleton] at fit
    exact (slots.succeeds fit.1).bind fun known revised =>
      assured_revised (known nodeMade) fits revised fit.2
  · intro now workspace misfit known history
    rw [List.forall_mem_append, not_and, List.forall_mem_singleton] at misfit
    by_cases fit : ∀ place ∈ node.slots.flatMap Slot.postorder, place.misfit? kindOf = none
    · obtain ⟨reason, found⟩ := Option.ne_none_iff_exists'.mp (misfit fit)
      obtain ⟨values, between, grown, run, included, goneOn, revised⟩ :=
        (slots.succeeds fit).run known history
      refine ⟨node, reason, between, found, ⟨_, [], rfl, fit⟩, [], [], ?_, fun same => ?_⟩
      · simp [Node.tokens_eq]
      · rw [List.nil_append, Node.tokens_eq] at same
        rw [← ofTokens_mapM_congr node.slots same] at run
        exact (Build.bind_run_of_ok run).trans
          (remade_of_misfit goneOn (included (known nodeMade)) revised found)
    · obtain ⟨culprit, reason, later, fails⟩ := slots.fails fit known history
      exact ⟨culprit, reason, later, by simpa using (fails.append [] [node]).bind⟩

/-- A transform of tokens goes through the slots of a node, one after the other. -/
theorem proceeds_greenOf (history : Green.History workspace made) (rootMade : .node root ∈ made)
    (inTree : Node.InTree root node)
    (mapped : ∀ token ∈ node.tokens, Build.Assured made
      (fun now green => .token green ∈ now ∧ green.kind = kindOf token) (onToken token)) :
    Proceeds made kindOf onToken node.tokens node.postorder
      (fun now green => Slot.RevisedTo kindOf (.node node) now (.node green))
      fun given => (Transform.ofTokens given).greenOf node := by
  induction node using Node.below_induction with
  | step node inductionHypothesis =>
      have nodeMade := inTree.green_mem history rootMade
      refine proceeds_remade nodeMade (history.checkSlots_eq_ok nodeMade) (proceeds_slots ?_)
      intro slot present
      obtain ⟨index, shown⟩ := Node.mem_slots_iff.mp present
      have mappedBelow (token : Token) (below : token ∈ slot.tokens) :=
        mapped token (Node.mem_tokens_iff.mpr ⟨slot, present, below⟩)
      cases slot with
      | absent => exact .of_assured (.pure fun _ => ⟨.inl rfl, .absent⟩)
      | token token =>
          refine .of_assured ((mappedBelow token (List.mem_singleton_self token)).bind ?_)
          rintro now green _ ⟨greenMade, kind_eq⟩
          exact .pure fun included => ⟨.inr (included greenMade), .token kind_eq⟩
      | node child =>
          apply (inductionHypothesis present (inTree.child shown) mappedBelow).bind_assured
          intro now green _ became
          exact .pure fun included => ⟨became.1.mono included, became.2⟩

/-- What comes of a node may be put in its place. -/
theorem Revised.fitsAbove {green : Green.Node} {now : List Green.Slot}
    (history : Green.History workspace now) (rootMade : .node root ∈ now)
    (inTree : Node.InTree root node) (revised : Revised kindOf (.node node) (.node green)) :
    node.FitsAbove green := by
  cases node with
  | root old => trivial
  | child old offset slot parent =>
      obtain ⟨parentInTree, present, _⟩ := Node.InTree.child_iff.mp inTree
      have admitted := parentInTree.admitsInPlace history rootMade
      rw [inTree.fitsAbove_iff history rootMade, Node.AdmitsInPlace, List.length_set]
      have inSpecs : slot < (parent.specsInPlace parent.green.slots.length).length := by
        rw [admitted.length_eq]
        exact (List.getElem?_eq_some_iff.mp present).1
      have found := List.getElem?_eq_getElem inSpecs
      exact admitted.set found (revised.admits (by simp) (admitted.get found present))

/-- Gives a token of another kind for every token with a certain text. -/
def rekind (text : String) (kind : TokenKind) (token : Token) : Build Green.Token :=
  if token.text = text then Green.Token.create kind text [] else pure token.green

def rekindTo (text : String) (kind : TokenKind) (token : Token) : TokenKind :=
  if token.text = text then kind else token.kind

theorem assured_rekind {node : Node} (history : Green.History workspace made)
    (rootMade : .node root ∈ made) (inTree : Node.InTree root node) (text : String)
    (kind : TokenKind) :
    ∀ token ∈ node.tokens, Build.Assured made
      (fun now green => .token green ∈ now ∧ green.kind = rekindTo text kind token)
      (rekind text kind token) := by
  intro token present
  rw [rekind, rekindTo]
  split
  · exact .createToken kind text
  · have greenMade := (inTree.of_mem_tokens present).green_mem history rootMade
    exact Build.Assured.pure fun included => ⟨included greenMade, rfl⟩

end Red

end SyntaxTree

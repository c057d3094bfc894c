import SyntaxTree.Proofs.Rewriting
import SyntaxTree.Proofs.Transforming

/-!
Transforms that change tokens only. Going through a subtree asks for every token once, and rebuilds
a node only when it got another token for one below. Main statement: where the kinds of the tokens
stay, such a transform succeeds, and puts the given tokens in place of those below the node.
-/

namespace SyntaxTree

namespace Red

/-- Whether an action gave these green tokens for some tokens, all of the old kinds. -/
structure Gave (onToken : Token → Build Green.Token) (tokens : List Token)
    (given : Token → Green.Token) : Prop where
  answered : ∀ token ∈ tokens, ∃ before after, onToken token before = .ok (given token) after
  kind_eq : ∀ token ∈ tokens, (given token).kind = token.kind

/-- Answers for some tokens and other ones for the rest. -/
theorem exists_patched (tokens : List Token) (inner outer : Token → Green.Token) :
    ∃ given : Token → Green.Token, (∀ token ∈ tokens, inner token = given token) ∧
      ∀ token, token ∉ tokens → outer token = given token := by
  classical
  exact ⟨fun token => if token ∈ tokens then inner token else outer token,
    fun token present => (if_pos present).symm, fun token absent => (if_neg absent).symm⟩

variable {made : List Green.Slot} {onToken : Token → Build Green.Token}

theorem Gave.append {first second : List Token} {firstGiven secondGiven : Token → Green.Token}
    (distinct : first.Disjoint second) (gaveFirst : Gave onToken first firstGiven)
    (gaveSecond : Gave onToken second secondGiven) :
    ∃ given, Gave onToken (first ++ second) given ∧
      (∀ token ∈ first, firstGiven token = given token) ∧
      ∀ token ∈ second, secondGiven token = given token := by
  obtain ⟨given, inner, outer⟩ := exists_patched first firstGiven secondGiven
  have later : ∀ token ∈ second, secondGiven token = given token :=
    fun token present => outer token fun earlier => distinct earlier present
  refine ⟨given, ⟨?_, ?_⟩, inner, later⟩
  · rw [List.forall_mem_append]
    exact ⟨fun token present => inner token present ▸ gaveFirst.answered token present,
      fun token present => later token present ▸ gaveSecond.answered token present⟩
  · rw [List.forall_mem_append]
    exact ⟨fun token present => inner token present ▸ gaveFirst.kind_eq token present,
      fun token present => later token present ▸ gaveSecond.kind_eq token present⟩

/-- What may come in place of a slot. -/
def Slot.Becomes (made : List Green.Slot) (onToken : Token → Build Green.Token) (slot : Slot)
    (now : List Green.Slot) (value : Green.Slot) : Prop :=
  Green.Available now value ∧
    ∃ given, Gave onToken slot.tokens given ∧ Rewritten made given slot value

/-- What may come in place of slots, one by one. -/
def SlotsBecome (made : List Green.Slot) (onToken : Token → Build Green.Token)
    (slots : List Slot) (now values : List Green.Slot) : Prop :=
  (∀ value ∈ values, Green.Available now value) ∧
    ∃ given, Gave onToken (slots.flatMap Slot.tokens) given ∧
      List.Forall₂ (Rewritten made given) slots values

theorem SlotsBecome.cons {slot : Slot} {slots : List Slot} {now later : List Green.Slot}
    {value : Green.Slot} {values : List Green.Slot}
    (distinct : ((slot :: slots).flatMap Slot.tokens).Nodup)
    (first : slot.Becomes made onToken now value) (included : now ⊆ later)
    (rest : SlotsBecome made onToken slots later values) :
    SlotsBecome made onToken (slot :: slots) later (value :: values) := by
  rw [List.flatMap_cons, List.nodup_append'] at distinct
  obtain ⟨available, firstGiven, gaveFirst, firstRewritten⟩ := first
  obtain ⟨restAvailable, restGiven, gaveRest, restRewritten⟩ := rest
  obtain ⟨given, gave, inner, outer⟩ := gaveFirst.append distinct.2.2 gaveRest
  refine ⟨List.forall_mem_cons.mpr ⟨available.mono included, restAvailable⟩, given, gave,
    .cons (firstRewritten.congr inner) ?_⟩
  refine forall₂_imp_of_mem restRewritten fun slot present value rewritten => ?_
  exact rewritten.congr fun token below => outer token (List.mem_flatMap.mpr ⟨slot, present, below⟩)

theorem assured_slots {slots : List Slot} (distinct : (slots.flatMap Slot.tokens).Nodup)
    (each : ∀ slot ∈ slots, Build.Assured made (slot.Becomes made onToken)
      ((Transform.ofTokens onToken).ofSlot slot)) :
    Build.Assured made (SlotsBecome made onToken slots)
      (slots.mapM (Transform.ofTokens onToken).ofSlot) := by
  induction slots with
  | nil =>
      rw [List.mapM_nil]
      refine Build.Assured.pure fun _ => ⟨List.forall_mem_nil _, Token.green, ⟨?_, ?_⟩, .nil⟩ <;>
        exact List.forall_mem_nil _
  | cons slot slots inductionHypothesis =>
      rw [List.forall_mem_cons] at each
      have restDistinct := distinct
      rw [List.flatMap_cons, List.nodup_append'] at restDistinct
      rw [List.mapM_cons]
      apply each.1.bind
      intro now value known first
      apply ((inductionHypothesis restDistinct.2.1 each.2).mono known).bind
      intro later values grown rest
      apply Build.Assured.pure
      intro final included
      obtain ⟨restAvailable, restBecame⟩ := rest
      refine SlotsBecome.cons distinct first (List.Subset.trans grown included) ⟨?_, restBecame⟩
      exact fun value present => (restAvailable value present).mono included

theorem assured_ofToken {token : Token}
    (assured : Build.Assured made (fun now green => .token green ∈ now ∧ green.kind = token.kind)
      (onToken token)) :
    Build.Assured made (Slot.Becomes made onToken (.token token))
      ((Transform.ofTokens onToken).ofSlot (.token token)) := by
  apply assured.answered.bind
  rintro now green known ⟨⟨greenMade, sameKind⟩, answered⟩
  refine Build.Assured.pure fun included => ⟨.inr (included greenMade), fun _ => green, ⟨?_, ?_⟩,
    .token token⟩
  · exact List.forall_mem_singleton.mpr answered
  · exact List.forall_mem_singleton.mpr sameKind

variable {root : Green.Node} {workspace : Workspace} {node : Node}

/-- What a node is made of says which tokens came in place of those below it. -/
theorem assured_retokened (history : Green.History workspace made) (rootMade : .node root ∈ made)
    (inTree : Node.InTree root node) {now values : List Green.Slot} (known : made ⊆ now)
    (became : SlotsBecome made onToken node.slots now values) :
    Build.Assured now (fun later green => Slot.Becomes made onToken (.node node) later (.node green))
      (node.remade values) := by
  obtain ⟨available, given, gave, rewritten⟩ := became
  rw [← Node.tokens_eq] at gave
  have nodeMade := inTree.green_mem history rootMade
  have unchanged_iff := Rewritten.allIdentical_iff rewritten fun slot present =>
    history.slots_available nodeMade slot.green (Node.green_mem_slots present)
  rw [node.map_green_slots, ← Node.tokens_eq] at unchanged_iff
  have admitted := Rewritten.admitsInPlace history rootMade inTree rewritten gave.kind_eq
  refine (node.assured_remade (known nodeMade) available admitted.checkSlots).imp ?_
  rintro later green ⟨greenMade, ⟨rfl, rfl⟩ | ⟨different, stamp, rfl, fresh⟩⟩
  · have unchanged := unchanged_iff.mp (Green.Slot.allIdentical_self _)
    exact ⟨.inr greenMade, given, gave, .kept rewritten unchanged⟩
  · have changed : ∃ token ∈ node.tokens, token.green.identical (given token) = false := by
      rw [different] at unchanged_iff
      simpa using unchanged_iff
    exact ⟨.inr greenMade, given, gave,
      .rebuilt rewritten changed fun value present => fresh value (known present)⟩

/-- A transform that changes tokens only succeeds below every node. -/
theorem assured_greenOf (history : Green.History workspace made) (rootMade : .node root ∈ made)
    (inTree : Node.InTree root node)
    (mapped : ∀ token ∈ node.tokens, Build.Assured made
      (fun now green => .token green ∈ now ∧ green.kind = token.kind) (onToken token)) :
    Build.Assured made (fun now green => Slot.Becomes made onToken (.node node) now (.node green))
      ((Transform.ofTokens onToken).greenOf node) := by
  induction node using Node.below_induction with
  | step node inductionHypothesis =>
      have distinct := node.tokens_nodup
      rw [Node.tokens_eq] at distinct
      rw [Transform.greenOf_ofTokens]
      refine (assured_slots distinct fun slot present => ?_).bind
        fun known became => assured_retokened history rootMade inTree known became
      obtain ⟨index, shown⟩ := Node.mem_slots_iff.mp present
      cases slot with
      | absent =>
          refine Build.Assured.pure fun _ => ⟨.inl rfl, Token.green, ⟨?_, ?_⟩, .absent⟩ <;>
            exact List.forall_mem_nil _
      | token token =>
          exact assured_ofToken (mapped token
            (Node.mem_tokens_iff.mpr ⟨_, present, List.mem_singleton_self token⟩))
      | node child =>
          have assured := inductionHypothesis present (inTree.child shown)
            fun token below => mapped token (Node.mem_tokens_iff.mpr ⟨_, present, below⟩)
          apply assured.bind
          intro now green known became
          exact Build.Assured.pure fun included => ⟨became.1.mono included, became.2⟩

/-- Gives a new token of the same kind for every token with a certain text. -/
def retext (old new : String) (token : Token) : Build Green.Token :=
  if token.text = old then Green.Token.create token.kind new [] else pure token.green

theorem assured_retext {node : Node} (history : Green.History workspace made)
    (rootMade : .node root ∈ made) (inTree : Node.InTree root node) (old new : String) :
    ∀ token ∈ node.tokens, Build.Assured made
      (fun now green => .token green ∈ now ∧ green.kind = token.kind) (retext old new token) := by
  intro token present
  rw [retext]
  split
  · exact .createToken token.kind new
  · have greenMade := (inTree.of_mem_tokens present).green_mem history rootMade
    exact Build.Assured.pure fun included => ⟨included greenMade, rfl⟩

end Red

end SyntaxTree

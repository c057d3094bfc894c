import SyntaxTree.Proofs.Building
import SyntaxTree.Proofs.Calls

/-!
Runs of clients. Whatever a client does, by whatever scripts, is tracked, so that no value comes
about except by the calls that check it. Main statement: after every run all green values there are
follow the grammar, and all that follows the grammar can be built.
-/

namespace SyntaxTree

variable {Memory : Type} {made : List Green.Slot}

namespace Transform

open Client

theorem tracked_runSlot
    {part : SyntaxTree.Slot (Client Memory Green.Node) (Client Memory Green.Token)}
    (onNode : ∀ action, part = .node action →
      Tracked Session.Holds made (fun now node => .node node ∈ now) action)
    (onToken : ∀ action, part = .token action →
      Tracked Session.Holds made (fun now token => .token token ∈ now) action) :
    Tracked Session.Holds made Green.Available (runSlot part) := by
  cases part with
  | node action =>
      exact (onNode action rfl).bind fun _ present =>
        Tracked.pure fun grown => .inr (grown present)
  | token action =>
      exact (onToken action rfl).bind fun _ present =>
        Tracked.pure fun grown => .inr (grown present)
  | absent => exact Tracked.pure fun _ => .inl rfl

theorem tracked_rebuildSlots {node : Red.Node} (seen : node.Seen made)
    {actions : Red.Parts (Client Memory Green.Node) (Client Memory Green.Token)}
    (parts : ∀ part ∈ actions (), Tracked Session.Holds made Green.Available (runSlot part)) :
    Tracked Session.Holds made (fun now green => .node green ∈ now)
      (rebuildSlots node actions) := by
  have slots := Tracked.mapM Green.Available (fun available grown => available.mono grown) parts
  apply slots.bind
  intro _ _ grown available
  split
  · refine Tracked.of_holds fun grownMore holds => Tracked.pure fun grownLast => grownLast ?_
    exact (seen.mono (List.Subset.trans grown grownMore)).green_mem holds.complete
  · exact tracked_perform (Green.Node.tracked_createOr available)

/-- A transform whose parts are tracked is tracked. -/
theorem tracked_greenOf (transform : Transform (Client Memory))
    (onNode : ∀ {now self rebuilt}, made ⊆ now → Red.Node.Seen now self →
      Tracked Session.Holds now (fun now green => .node green ∈ now) rebuilt →
      Tracked Session.Holds now (fun now green => .node green ∈ now)
        (transform.onNode self rebuilt))
    (onToken : ∀ {now token}, made ⊆ now → Red.Token.Seen now token →
      Tracked Session.Holds now (fun now green => .token green ∈ now) (transform.onToken token))
    (node : Red.Node) (seen : node.Seen made) :
    Tracked Session.Holds made (fun now green => .node green ∈ now) (transform.greenOf node) := by
  -- A handle is no part of the handle of its parent, so the recursion is on what they see.
  rw [greenOf, Red.Node.fold_eq]
  refine onNode (List.Subset.refl _) seen (tracked_rebuildSlots seen ?_)
  intro part partPresent
  obtain ⟨slot, slotPresent, rfl⟩ := List.mem_map.mp partPresent
  obtain ⟨index, present⟩ := Red.Node.mem_slots_iff.mp slotPresent
  cases slot with
  | absent => exact Tracked.pure fun _ => .inl rfl
  | token token =>
      refine tracked_runSlot (fun _ same => by cases same) fun _ same => ?_
      cases same
      exact onToken (List.Subset.refl _) (seen.token present)
  | node child =>
      have smaller := Red.Node.sizeOf_child_lt present
      refine tracked_runSlot (fun _ same => ?_) (fun _ same => by cases same)
      cases same
      exact tracked_greenOf transform onNode onToken child (seen.child present)
termination_by sizeOf node.green

end Transform

namespace Client

theorem tracked_transform (place : Place) (splice : Bool)
    {onNode : Red.Node → Session Memory → Client Memory Green.Node → Client Memory Nat}
    {onToken : Red.Token → Session Memory → Client Memory Nat}
    (nodesTracked : ∀ {now self session rebuilt},
      Tracked Session.Holds now (fun now green => .node green ∈ now) rebuilt →
      Tracked Session.Holds now (fun _ _ => True) (onNode self session rebuilt))
    (tokensTracked : ∀ {now token session},
      Tracked Session.Holds now (fun _ _ => True) (onToken token session)) :
    Tracked Session.Holds made (fun _ _ => True)
      (transform place splice (transformBy onNode onToken)) := by
  apply (tracked_locate place).bind
  intro now node _ seen
  have green := (transformBy onNode onToken).tracked_greenOf
    (fun _ _ tracked => tracked_get.bind fun grown _ =>
      (nodesTracked (tracked.mono grown)).bind fun _ _ => tracked_heldNode _)
    (fun _ _ => tracked_get.bind fun _ _ => tokensTracked.bind fun _ _ => tracked_heldToken _)
    node seen
  cases splice with
  | true =>
      have replaced := green.bind fun grown present =>
        tracked_perform ((seen.mono grown).tracked_replaceWith present)
      exact replaced.bind fun _ seen => tracked_holdTree seen
  | false => exact green.bind fun _ present => tracked_hold (.inr present)

end Client

namespace Script

open Client

/-- Whatever a client does is tracked. -/
theorem tracked_run (script : Script Memory) {rebuilt : Client Memory Green.Node}
    (tracked : Tracked Session.Holds made (fun now green => .node green ∈ now) rebuilt) :
    Tracked Session.Holds made (fun _ _ => True) (script.run rebuilt) := by
  -- A script for a visited node gets another `rebuilt`, and starts when more values are there.
  induction script generalizing made rebuilt with
  | answer reference => exact Tracked.pure fun _ => trivial
  | stop reason => exact Tracked.throw reason
  | remember memory next inductionHypothesis =>
      exact (tracked_setMemory memory).bind fun grown _ => inductionHypothesis (tracked.mono grown)
  | call call next inductionHypothesis =>
      apply (tracked_attempt call.tracked_run).bind
      intro _ _ grown _
      apply tracked_get.bind
      intro _ _ grownMore _
      exact inductionHypothesis _ _ (tracked.mono (List.Subset.trans grown grownMore))
  | rebuild next inductionHypothesis =>
      have kept := tracked.bind fun _ present => tracked_hold (.inr present)
      apply (tracked_attempt kept).bind
      intro _ _ grown _
      apply tracked_get.bind
      intro _ _ grownMore _
      exact inductionHypothesis _ _ (tracked.mono (List.Subset.trans grown grownMore))
  | transform place splice onNode onToken next nodeHypothesis tokenHypothesis nextHypothesis =>
      have transformed : Tracked Session.Holds made (fun _ _ => True)
          (Client.transform place splice (transformBy
            (fun self session rebuilt => (onNode self session).run rebuilt)
            fun token session => (onToken token session).run (throw (.dangling 0)))) :=
        tracked_transform place splice (fun tracked => nodeHypothesis _ _ tracked)
          (tokenHypothesis _ _ (Tracked.throw _))
      apply (tracked_attempt transformed).bind
      intro _ _ grown _
      apply tracked_get.bind
      intro _ _ grownMore _
      exact nextHypothesis _ _ (tracked.mono (List.Subset.trans grown grownMore))

theorem finalSession_holds (script : Script Memory) (memory : Memory) :
    ∃ made, (script.finalSession memory).Holds made := by
  have holds : Session.Holds ⟨.empty, [], [], memory⟩ [] :=
    ⟨.start, List.forall_mem_nil _, List.forall_mem_nil _⟩
  have ran := (script.tracked_run (Tracked.throw (.dangling 0))).run (List.Subset.refl []) holds
  unfold finalSession
  split at ran
  · next run =>
      obtain ⟨made, _, holdsLater, _⟩ := ran
      rw [run]
      exact ⟨made, holdsLater⟩
  · next run =>
      obtain ⟨made, _, holdsLater⟩ := ran
      rw [run]
      exact ⟨made, holdsLater⟩

end Script

/-- A client that makes a list of two empty lists and then puts that list in place of both. -/
def Script.nesting : Script Unit :=
  .call (.list []) fun _ _ =>
  .call (.list [0, 0]) fun _ _ =>
  .transform ⟨1, []⟩ true (fun self _ =>
    if self.green.slots = [] then .answer 1
    else .rebuild fun _ session => .answer (session.held.length - 1))
    (fun _ _ => .answer 0) fun _ _ => .answer 3

example : (Script.nesting.finalSession ()).held.map Green.Slot.stamp? =
    [some ⟨0⟩, some ⟨1⟩, some ⟨2⟩, some ⟨2⟩] := by
  rfl

end SyntaxTree

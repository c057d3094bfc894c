import SyntaxTree.Proofs.Client
import SyntaxTree.Proofs.Tracking

/-!
Calls of a client. Main statement: whatever a client asks of the library with the values it was given
is tracked, and so the client comes to hold only values that were made.
-/

namespace SyntaxTree

variable {Memory : Type} {made : List Green.Slot}

/-- Whether the values made are all there are, and include what a client and its interners hold. -/
structure Session.Holds (session : Session Memory) (made : List Green.Slot) : Prop where
  complete : Green.Complete session.workspace made
  held : ∀ slot ∈ session.held, Green.Available made slot
  interned : ∀ interner ∈ session.interners, interner.Known made

namespace Tracked

variable {Error State Item Result : Type} {Holds : State → List Green.Slot → Prop}

theorem mapM (good : List Green.Slot → Result → Prop) {action : Item → EStateM Error State Result}
    (goesOn : ∀ {now later result}, good now result → now ⊆ later → good later result)
    {items : List Item} (tracked : ∀ item ∈ items, Tracked Holds made good (action item)) :
    Tracked Holds made (fun now results => ∀ result ∈ results, good now result)
      (items.mapM action) := by
  induction items generalizing made with
  | nil =>
      rw [List.mapM_nil]
      exact Tracked.pure fun _ => List.forall_mem_nil _
  | cons item items inductionHypothesis =>
      rw [List.forall_mem_cons] at tracked
      rw [List.mapM_cons]
      apply tracked.1.bind
      intro _ _ grown goodFirst
      have restTracked := inductionHypothesis fun item present =>
        (tracked.2 item present).mono grown
      apply restTracked.bind
      intro _ _ grownMore goodRest
      apply Tracked.pure
      intro _ grownLast
      rw [List.forall_mem_cons]
      exact ⟨goesOn goodFirst (List.Subset.trans grownMore grownLast),
        fun result present => goesOn (goodRest result present) grownLast⟩

end Tracked

namespace Client

variable {Result : Type} {good : List Green.Slot → Result → Prop}

theorem tracked_perform {action : Build Result}
    (tracked : Tracked Green.Complete made good action) :
    Tracked Session.Holds made good (perform action : Client Memory Result) := by
  refine ⟨fun {now session} known holds => ?_⟩
  have performed := tracked.run known holds.complete
  unfold perform
  cases run : action session.workspace with
  | ok result after =>
      rw [run] at performed
      obtain ⟨later, grown, complete, goodResult⟩ := performed
      exact ⟨later, grown, ⟨complete, fun slot present => (holds.held slot present).mono grown,
        fun interner present => (holds.interned interner present).mono grown⟩, goodResult⟩
  | error failure after =>
      rw [run] at performed
      obtain ⟨later, grown, complete⟩ := performed
      exact ⟨later, grown, ⟨complete, fun slot present => (holds.held slot present).mono grown,
        fun interner present => (holds.interned interner present).mono grown⟩⟩

theorem tracked_attempt {action : Client Memory Unit}
    (tracked : Tracked Session.Holds made (fun _ _ => True) action) :
    Tracked Session.Holds made (fun _ _ => True) (attempt action) := by
  refine ⟨fun {now session} known holds => ?_⟩
  have tried := tracked.run known holds
  unfold attempt
  cases run : action session with
  | ok result after =>
      rw [run] at tried
      exact tried
  | error halt after =>
      rw [run] at tried
      obtain ⟨later, grown, holdsLater⟩ := tried
      exact ⟨later, grown, holdsLater, trivial⟩

theorem tracked_get :
    Tracked Session.Holds made (fun now session => session.Holds now)
      (get : Client Memory (Session Memory)) :=
  ⟨fun _ holds => ⟨_, List.Subset.refl _, holds, holds⟩⟩

theorem tracked_hold {slot : Green.Slot} (available : Green.Available made slot) :
    Tracked Session.Holds made (fun _ _ => True) (hold slot : Client Memory Unit) := by
  refine ⟨fun {now session} known holds => ⟨now, List.Subset.refl _, ?_, trivial⟩⟩
  refine ⟨holds.complete, ?_, holds.interned⟩
  intro other present
  rcases List.mem_append.mp present with earlier | latest
  · exact holds.held other earlier
  · obtain rfl := List.mem_singleton.mp latest
    exact available.mono known

theorem tracked_heldSlot (reference : Nat) :
    Tracked Session.Holds made Green.Available (heldSlot reference : Client Memory Green.Slot) := by
  refine ⟨fun {now session} known holds => ?_⟩
  unfold heldSlot
  cases found : session.held[reference]? with
  | some slot =>
      exact ⟨now, List.Subset.refl _, holds, holds.held slot (List.mem_of_getElem? found)⟩
  | none => exact ⟨now, List.Subset.refl _, holds⟩

theorem tracked_content (reference : Option Nat) :
    Tracked Session.Holds made Green.Available (content reference : Client Memory Green.Slot) := by
  cases reference with
  | some reference => exact tracked_heldSlot reference
  | none => exact Tracked.pure fun _ => .inl rfl

theorem tracked_heldNode (reference : Nat) :
    Tracked Session.Holds made (fun now node => .node node ∈ now)
      (heldNode reference : Client Memory Green.Node) := by
  apply (tracked_heldSlot reference).bind
  intro now slot grown available
  cases slot with
  | node node =>
      rcases available with absent | present
      · cases absent
      · exact Tracked.pure fun grownMore => grownMore present
  | token token => exact Tracked.throw _
  | absent => exact Tracked.throw _

theorem tracked_heldToken (reference : Nat) :
    Tracked Session.Holds made (fun now token => .token token ∈ now)
      (heldToken reference : Client Memory Green.Token) := by
  apply (tracked_heldSlot reference).bind
  intro now slot grown available
  cases slot with
  | token token =>
      rcases available with absent | present
      · cases absent
      · exact Tracked.pure fun grownMore => grownMore present
  | node node => exact Tracked.throw _
  | absent => exact Tracked.throw _

theorem tracked_locate (place : Place) :
    Tracked Session.Holds made (fun now node => node.Seen now)
      (locate place : Client Memory Red.Node) := by
  refine (tracked_heldNode place.root).bind fun {now root} grown rootMade => tracked_perform ?_
  refine Build.tracked_ofMisuse fun known reached => ?_
  exact Red.Node.Seen.descend ⟨root, known rootMade, .root⟩ reached

theorem tracked_holdTree {node : Red.Node} (seen : node.Seen made) :
    Tracked Session.Holds made (fun _ _ => True) (holdTree node : Client Memory Unit) := by
  obtain ⟨root, rootMade, inTree⟩ := seen
  refine tracked_hold (.inr ?_)
  rw [inTree.treeRoot_eq]
  exact rootMade

theorem tracked_supply_bind {values : List (Option Green.Slot)} {owner : NodeKind}
    {type : Typed.FieldType} {field : Typed.Field owner type}
    {next : type.Value → Client Memory Result}
    (available : ∀ value ∈ values, Green.Available made (value.getD .absent))
    (rest : ∀ value, Green.Available made (type.toGreen value) →
      Tracked Session.Holds made good (next value)) :
    Tracked Session.Holds made good (supply values type field >>= next) := by
  unfold supply
  cases converted : type.ofGreen (values[field.index]?).join with
  | error reason => exact ⟨fun _ holds => ⟨_, List.Subset.refl _, holds⟩⟩
  | ok value =>
      rw [pure_bind]
      refine rest value ?_
      rw [Typed.FieldType.toGreen_of_ofGreen converted]
      cases found : values[field.index]? with
      | none => exact .inl rfl
      | some given => exact available given (List.mem_of_getElem? found)

theorem tracked_createWith {values : List (Option Green.Slot)} (kind : NodeKind)
    (available : ∀ value ∈ values, Green.Available made (value.getD .absent)) :
    Tracked Session.Holds made (fun now node => node.Seen now)
      (Typed.createWith kind (supply values) : Client Memory Red.Node) := by
  have finish {kind : NodeKind} {slots : List Green.Slot}
      (slotsAvailable : slots.Forall (Green.Available made)) :
      Tracked Session.Holds made (fun now node => node.Seen now)
        (do return (← perform (Typed.NodeOf.create kind slots)).node : Client Memory Red.Node) :=
    (tracked_perform (Typed.NodeOf.tracked_create kind
      (List.forall_iff_forall_mem.mp slotsAvailable))).bind fun _ seen =>
      Tracked.pure fun grown => seen.mono grown
  cases kind with
  | modulePart =>
      refine tracked_supply_bind available fun _ statements => ?_
      refine tracked_supply_bind available fun _ eof => ?_
      exact finish ⟨statements, eof⟩
  | returnStatement =>
      refine tracked_supply_bind available fun _ keyword => ?_
      refine tracked_supply_bind available fun _ expression => ?_
      refine tracked_supply_bind available fun _ semicolon => ?_
      exact finish ⟨keyword, expression, semicolon⟩
  | expressionStatement =>
      refine tracked_supply_bind available fun _ expression => ?_
      refine tracked_supply_bind available fun _ semicolon => ?_
      exact finish ⟨expression, semicolon⟩
  | functionCallExpression =>
      refine tracked_supply_bind available fun _ name => ?_
      refine tracked_supply_bind available fun _ openParen => ?_
      refine tracked_supply_bind available fun _ arguments => ?_
      refine tracked_supply_bind available fun _ closeParen => ?_
      exact finish ⟨name, openParen, arguments, closeParen⟩
  | positionalArgument =>
      refine tracked_supply_bind available fun _ comma => ?_
      refine tracked_supply_bind available fun _ expression => ?_
      exact finish ⟨comma, expression⟩
  | namedArgument =>
      refine tracked_supply_bind available fun _ comma => ?_
      refine tracked_supply_bind available fun _ name => ?_
      refine tracked_supply_bind available fun _ equals => ?_
      refine tracked_supply_bind available fun _ expression => ?_
      exact finish ⟨comma, name, equals, expression⟩
  | restArgument =>
      refine tracked_supply_bind available fun _ comma => ?_
      refine tracked_supply_bind available fun _ ellipsis => ?_
      refine tracked_supply_bind available fun _ expression => ?_
      exact finish ⟨comma, ellipsis, expression⟩
  | binaryExpression =>
      refine tracked_supply_bind available fun _ left => ?_
      refine tracked_supply_bind available fun _ operator => ?_
      refine tracked_supply_bind available fun _ right => ?_
      exact finish ⟨left, operator, right⟩
  | bracedExpression =>
      refine tracked_supply_bind available fun _ openParen => ?_
      refine tracked_supply_bind available fun _ expression => ?_
      refine tracked_supply_bind available fun _ closeParen => ?_
      exact finish ⟨openParen, expression, closeParen⟩
  | simpleNameReference =>
      refine tracked_supply_bind available fun _ name => ?_
      exact finish name
  | qualifiedNameReference =>
      refine tracked_supply_bind available fun _ modulePrefix => ?_
      refine tracked_supply_bind available fun _ colon => ?_
      refine tracked_supply_bind available fun _ identifier => ?_
      exact finish ⟨modulePrefix, colon, identifier⟩
  | basicLiteral =>
      refine tracked_supply_bind available fun _ literal => ?_
      exact finish literal
  | list =>
      refine (tracked_perform (Typed.NodeList.tracked_create ?_)).bind fun _ seen =>
        Tracked.pure fun grown => seen.mono grown
      exact List.forall_mem_nil _

theorem tracked_heldInterner (number : Nat) :
    Tracked Session.Holds made (fun now interner => interner.Known now)
      (heldInterner number : Client Memory Interner) := by
  refine ⟨fun {now session} known holds => ?_⟩
  unfold heldInterner
  cases found : session.interners[number]? with
  | some interner =>
      exact ⟨now, List.Subset.refl _, holds,
        holds.interned interner (List.mem_of_getElem? found)⟩
  | none => exact ⟨now, List.Subset.refl _, holds⟩

theorem tracked_putInterner (number : Nat) {interner : Interner} (known : interner.Known made) :
    Tracked Session.Holds made (fun _ _ => True)
      (putInterner number interner : Client Memory Unit) := by
  refine ⟨fun {now session} grown holds => ⟨now, List.Subset.refl _, ?_, trivial⟩⟩
  refine ⟨holds.complete, holds.held, ?_⟩
  intro other present
  rcases List.mem_or_eq_of_mem_set present with kept | rfl
  · exact holds.interned other kept
  · exact known.mono grown

theorem tracked_setMemory (memory : Memory) :
    Tracked Session.Holds made (fun _ _ => True)
      (modify fun session => { session with memory } : Client Memory PUnit) :=
  ⟨fun _ holds => ⟨_, List.Subset.refl _, ⟨holds.complete, holds.held, holds.interned⟩, trivial⟩⟩

theorem tracked_contents (contents : List (Option Nat)) :
    Tracked Session.Holds made (fun now slots => ∀ slot ∈ slots, Green.Available now slot)
      (contents.mapM content : Client Memory (List Green.Slot)) :=
  Tracked.mapM Green.Available (fun available grown => available.mono grown) fun reference _ =>
    tracked_content reference

theorem tracked_heldNodes (references : List Nat) :
    Tracked Session.Holds made (fun now nodes => ∀ node ∈ nodes, .node node ∈ now)
      (references.mapM heldNode : Client Memory (List Green.Node)) :=
  Tracked.mapM (fun now node => .node node ∈ now) (fun present grown => grown present)
    fun reference _ => tracked_heldNode reference

theorem tracked_holdMade {action : Build Green.Node}
    (tracked : Tracked Green.Complete made (fun now node => .node node ∈ now) action) :
    Tracked Session.Holds made (fun _ _ => True)
      (do hold (.node (← perform action)) : Client Memory Unit) :=
  (tracked_perform tracked).bind fun _ nodeMade => tracked_hold (.inr nodeMade)

theorem tracked_holdSeen {action : Build Red.Node}
    (tracked : Tracked Green.Complete made (fun now node => node.Seen now) action) :
    Tracked Session.Holds made (fun _ _ => True)
      (do holdTree (← perform action) : Client Memory Unit) :=
  (tracked_perform tracked).bind fun _ seen => tracked_holdTree seen

end Client

theorem EditCall.tracked_resolve (edit : EditCall) :
    Tracked Session.Holds made (fun now resolved => Green.Available now resolved.value)
      (edit.resolve : Client Memory Edit) := by
  cases edit with
  | set index content =>
      exact (Client.tracked_content content).bind fun _ available =>
        Tracked.pure fun grown => available.mono grown
  | insert index element =>
      exact (Client.tracked_heldNode element).bind fun _ present =>
        Tracked.pure fun grown => .inr (grown present)
  | push element =>
      exact (Client.tracked_heldNode element).bind fun _ present =>
        Tracked.pure fun grown => .inr (grown present)
  | remove index => exact Tracked.pure fun _ => .inl rfl

theorem EditCall.tracked_resolveAll (edits : List EditCall) :
    Tracked Session.Holds made (fun now resolved => ∀ edit ∈ resolved,
      Green.Available now edit.value) (edits.mapM resolve : Client Memory (List Edit)) :=
  Tracked.mapM (fun now (edit : Edit) => Green.Available now edit.value)
    (fun available grown => available.mono grown) fun (edit : EditCall) _ => edit.tracked_resolve

open Client in
theorem Call.tracked_run (call : Call) :
    Tracked Session.Holds made (fun _ _ => True) (call.run : Client Memory Unit) := by
  cases call with
  | token call =>
      exact (tracked_perform call.tracked).bind fun _ present => tracked_hold (.inr present)
  | node kind contents remarks =>
      exact (tracked_contents contents).bind fun _ available =>
        tracked_holdMade (Green.Node.tracked_createOr available)
  | tryNode kind contents =>
      exact (tracked_contents contents).bind fun _ available =>
        tracked_holdMade (Green.Node.tracked_createOr available)
  | list elements =>
      refine (tracked_heldNodes elements).bind fun _ present =>
        tracked_holdMade (Green.Node.tracked_createOr ?_)
      exact List.forall_mem_map.mpr fun node nodePresent => .inr (present node nodePresent)
  | typedNode kind fields =>
      have given : Tracked Session.Holds made
          (fun now values => ∀ value ∈ values, Green.Available now (value.getD .absent))
          (fields.mapM fun field => field.mapM heldSlot : Client Memory _) := by
        refine Tracked.mapM
          (fun now (value : Option Green.Slot) => Green.Available now (value.getD .absent))
          (fun available grown => available.mono grown) fun field _ => ?_
        cases field with
        | none => exact Tracked.pure fun _ => .inl rfl
        | some reference =>
            exact (tracked_heldSlot reference).bind fun _ available =>
              Tracked.pure fun grown => available.mono grown
      exact given.bind fun _ available => (tracked_createWith kind available).bind fun _ seen =>
        tracked_holdTree seen
  | typedList elements =>
      apply (tracked_heldNodes elements).bind
      intro _ _ _ present
      refine (tracked_perform (Typed.NodeList.tracked_create ?_)).bind fun _ seen =>
        tracked_holdTree seen
      exact List.forall_mem_map.mpr present
  | newInterner maxSlots =>
      refine ⟨fun {now session} _ holds => ⟨now, List.Subset.refl _, ?_, trivial⟩⟩
      refine ⟨holds.complete, holds.held, ?_⟩
      intro interner present
      rcases List.mem_append.mp present with earlier | latest
      · exact holds.interned interner earlier
      · obtain rfl := List.mem_singleton.mp latest
        exact ⟨List.forall_mem_nil _, List.forall_mem_nil _⟩
  | internToken number kind text =>
      apply (tracked_heldInterner number).bind
      intro _ _ _ known
      apply (tracked_perform (known.tracked_token kind text)).bind
      intro _ _ _ answer
      exact (tracked_putInterner number answer.2).bind fun grown _ =>
        tracked_hold (.inr (grown answer.1))
  | internNode number kind contents =>
      apply (tracked_heldInterner number).bind
      intro _ _ _ known
      apply (tracked_contents contents).bind
      intro _ _ grown available
      refine (tracked_perform ((known.mono grown).tracked_node kind available)).bind
        fun _ answer => ?_
      exact (tracked_putInterner number answer.2).bind fun grown _ =>
        tracked_hold (.inr (grown answer.1))
  | clearInterner number =>
      apply (tracked_heldInterner number).bind
      intro now interner _ _
      exact (tracked_perform interner.tracked_clear).bind fun _ known =>
        tracked_putInterner number known
  | look place index =>
      apply (tracked_locate place).bind
      intro now node _ seen
      have looked : Tracked Green.Complete now Green.Available
          (Build.ofMisuse (node.green.slot index)) := by
        refine Tracked.of_holds fun grown complete => Build.tracked_ofMisuse fun known found => ?_
        have greenMade := (seen.mono grown).green_mem complete
        have present := List.mem_of_getElem? (Green.Node.slot_eq_ok_iff.mp found)
        exact (complete.history.slots_available greenMade _ present).mono known
      exact (tracked_perform looked).bind fun _ available => tracked_hold available
  | edit place edits =>
      apply (tracked_locate place).bind
      intro _ _ _ seen
      apply (EditCall.tracked_resolveAll edits).bind
      intro _ _ grown available
      exact tracked_holdSeen ((seen.mono grown).tracked_apply
        (Staged.Reachable.start.of_tryEdits available))
  | replaceSlot place index value =>
      apply (tracked_locate place).bind
      intro _ _ _ seen
      exact (tracked_content value).bind fun grown available =>
        tracked_holdSeen ((seen.mono grown).tracked_replaceSlot available)
  | replaceSlots place contents =>
      apply (tracked_locate place).bind
      intro now node _ seen
      have given : Tracked Session.Holds now (fun now values => ∀ entry ∈ values,
          Green.Available now entry.2) (contents.mapM fun entry =>
            return (entry.1, ← content entry.2) : Client Memory (List (Nat × Green.Slot))) :=
        Tracked.mapM (fun now (entry : Nat × Green.Slot) => Green.Available now entry.2)
          (fun available grown => available.mono grown) fun (entry : Nat × Option Nat) _ =>
            (tracked_content entry.2).bind fun _ available =>
              Tracked.pure fun grown => available.mono grown
      exact given.bind fun grown available =>
        tracked_holdSeen ((seen.mono grown).tracked_replaceSlots available)
  | replaceNode place element =>
      apply (tracked_locate place).bind
      intro _ _ _ seen
      exact (tracked_heldNode element).bind fun grown present =>
        tracked_holdSeen ((seen.mono grown).tracked_replaceWith present)
  | replaceToken place index element =>
      apply (tracked_locate place).bind
      intro now parent _ seen
      have found : Tracked Green.Complete now (fun now token => token.Seen now)
          (Build.ofMisuse (parent.requireToken index "slot holds a token")) :=
        Build.tracked_ofMisuse fun grown present =>
          (seen.mono grown).token (Red.Node.requireToken_eq_ok_iff.mp present)
      apply (tracked_perform found).bind
      intro _ _ _ tokenSeen
      apply (tracked_heldToken element).bind
      intro _ _ grown present
      refine (tracked_perform ((tokenSeen.mono grown).tracked_replaceWith present)).bind
        fun {now replaced} _ replacedSeen => ?_
      cases above : replaced.parent? with
      | none => exact Tracked.pure fun _ => trivial
      | some holder => exact tracked_holdTree (replacedSeen.parent above)

end SyntaxTree

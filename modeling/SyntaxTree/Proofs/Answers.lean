import SyntaxTree.Proofs.Settled

/-!
Two answers of one interner, with anything called before and in between. Main statement: they are
the same value exactly when what they were asked for has the same key, neither is beyond the limit,
and the interner was not cleared in between.
-/

namespace SyntaxTree

variable {Memory : Type} {made : List Green.Slot} {session opened closed : Session Memory}
  {number : Nat} {interner : Interner} {value other : Green.Slot}

open Client

theorem Client.ask_eq_ok {request : Interner.Request}
    (asked : ask number request session = .ok value closed) :
    ∃ before now workspace, session.interners[number]? = some before ∧
      before.Answered session.workspace request value now workspace ∧
      closed = { session with
        workspace, interners := session.interners.set number now, held := session.held ++ [value] } := by
  rcases ask_cases number request session with
    ⟨halt, failed, _⟩ | ⟨before, answer, now, workspace, found, answered, run⟩
  · rw [failed] at asked
    cases asked
  · rw [run] at asked
    cases asked
    exact ⟨before, now, workspace, found, answered, rfl⟩

namespace Green.Slot

theorem identical_iff_of_token {firstKind secondKind : Kind} {firstText secondText : String}
    (first : value.key? = some (.token firstKind firstText))
    (second : other.key? = some (.token secondKind secondText)) :
    value.identical other = true ↔ value.stamp? = other.stamp? := by
  cases value <;> cases other <;> simp_all [key?, identical, stamp?, Token.identical]

theorem identical_iff_of_node {firstKind secondKind : Kind}
    {firstAddresses secondAddresses : List (SyntaxTree.Slot Stamp Stamp)}
    (first : value.key? = some (.node firstKind firstAddresses))
    (second : other.key? = some (.node secondKind secondAddresses)) :
    value.identical other = true ↔ value.stamp? = other.stamp? := by
  cases value <;> cases other <;> simp_all [key?, identical, stamp?]

end Green.Slot

namespace Session.Settled

variable {first second : Interner.Request} {between : List Call}

theorem exists_stamp_of_ask (settled : session.Settled made)
    (asked : ask number first session = .ok value opened) :
    ∃ stamp, value.stamp? = some stamp ∧ stamp.serial < opened.next := by
  obtain ⟨before, now, workspace, found, answered, rfl⟩ := ask_eq_ok asked
  exact answered.exists_stamp (settled.sound before (List.mem_of_getElem? found))

/-- An interner that was cleared between two answers gives another value. -/
theorem stamp?_ne_of_cleared (settled : session.Settled made)
    (available : ∀ slot ∈ first.slots, Green.Available made slot)
    (firstAsked : ask number first session = .ok value opened)
    (cleared : .clearInterner number ∈ between)
    (secondAsked : ask number second (opened.run between) = .ok other closed) :
    value.stamp? ≠ other.stamp? := by
  obtain ⟨stamp, stamped, below⟩ := settled.exists_stamp_of_ask firstAsked
  obtain ⟨more, goesOn, leads⟩ := ask_prospers settled number first available
  rw [final_of_ok firstAsked] at goesOn leads
  obtain ⟨before, _, _, found, _, _⟩ := ask_eq_ok firstAsked
  obtain ⟨now, foundNow, _⟩ := leads number before found
  obtain ⟨reopened, _, _, foundThen, answered, _⟩ := ask_eq_ok secondAsked
  have past := goesOn.settled.past_of_run foundNow cleared below foundThen
  rw [stamped]
  exact Ne.symm (answered.stamp?_ne_of_past past)

/-- Of two answers it is known exactly when they are the same. -/
theorem same_iff (settled : session.Settled made)
    (found : session.interners[number]? = some interner)
    (available : ∀ slot ∈ first.slots, Green.Available made slot)
    (firstAsked : ask number first session = .ok value opened)
    (secondAsked : ask number second (opened.run between) = .ok other closed) :
    value.stamp? = other.stamp? ↔ first.WithinLimit interner.maxSlots ∧
      second.WithinLimit interner.maxSlots ∧ first.key = second.key ∧
      .clearInterner number ∉ between := by
  by_cases cleared : .clearInterner number ∈ between
  · have unlike := settled.stamp?_ne_of_cleared available firstAsked cleared secondAsked
    exact ⟨fun same => absurd same unlike, fun all => absurd cleared all.2.2.2⟩
  · obtain ⟨more, goesOn, leads⟩ := ask_prospers settled number first available
    rw [final_of_ok firstAsked] at goesOn leads
    obtain ⟨last, goesOnThen, leadsThen⟩ := goesOn.settled.run between
    obtain ⟨before, now, workspace, foundBefore, firstAnswered, rfl⟩ := ask_eq_ok firstAsked
    obtain rfl := Option.some.inj (foundBefore.symm.trans found)
    obtain ⟨reopened, _, _, foundThen, secondAnswered, _⟩ := ask_eq_ok secondAsked
    obtain ⟨inRange, _⟩ := List.getElem?_eq_some_iff.mp found
    obtain ⟨kept, foundKept, grows⟩ :=
      (leadsThen number).2 cleared now (List.getElem?_set_self inRange)
    obtain rfl := Option.some.inj (foundKept.symm.trans foundThen)
    have sound := settled.sound before (List.mem_of_getElem? found)
    have soundThen := goesOnThen.settled.sound kept (List.mem_of_getElem? foundThen)
    have same := firstAnswered.same_iff sound grows.toFollows grows.kept secondAnswered soundThen
    rw [same]
    exact ⟨fun all => ⟨all.1, all.2.1, all.2.2, cleared⟩, fun all => ⟨all.1, all.2.1, all.2.2.1⟩⟩

end Session.Settled

/-- Makes an interner that shares nodes with one slot, and a token without it. -/
def Call.naming : List Call :=
  [.newInterner 1, .token (.plain TokenKind.identifier "f" [])]

/-- Whatever a client calls before and in between, and whatever it has to pass: two tokens that an
interner answers are the same value exactly when kind and text are the same and the interner was not
cleared in between, and two nodes exactly when, besides that, kinds are the same, the slots are the
very same values, and neither has more slots than the interner shares. -/
theorem answers_are_shared_exactly (memory : Memory) (before between : List Call)
    (found : ((Session.start memory).run before).interners[number]? = some interner) :
    (∀ {firstKind secondKind : Kind} {firstText secondText : String},
      ask number (.token firstKind firstText) ((Session.start memory).run before) =
        .ok value opened →
      ask number (.token secondKind secondText) (opened.run between) = .ok other closed →
      (value.identical other = true ↔
        firstKind = secondKind ∧ firstText = secondText ∧ .clearInterner number ∉ between)) ∧
    ∀ {firstKind secondKind : Kind} {firstSlots secondSlots : List Green.Slot},
      (∀ slot ∈ firstSlots, ((Session.start memory).run before).Offers slot) →
      ask number (.node firstKind firstSlots) ((Session.start memory).run before) =
        .ok value opened →
      ask number (.node secondKind secondSlots) (opened.run between) = .ok other closed →
      (value.identical other = true ↔
        firstSlots.length ≤ interner.maxSlots ∧ secondSlots.length ≤ interner.maxSlots ∧
          firstKind = secondKind ∧ Green.Slot.allIdentical firstSlots secondSlots = true ∧
          .clearInterner number ∉ between) := by
  obtain ⟨made, goesOn, _⟩ := (Session.settled_start memory).run before
  have settled := goesOn.settled
  constructor
  · intro firstKind secondKind firstText secondText firstAsked secondAsked
    obtain ⟨_, _, _, _, firstAnswered, _⟩ := ask_eq_ok firstAsked
    obtain ⟨_, _, _, _, secondAnswered, _⟩ := ask_eq_ok secondAsked
    rw [Green.Slot.identical_iff_of_token firstAnswered.key?_eq secondAnswered.key?_eq,
      settled.same_iff found (List.forall_mem_nil _) firstAsked secondAsked]
    simp [Interner.Request.WithinLimit, Interner.Request.key, and_assoc]
  · intro firstKind secondKind firstSlots secondSlots offered firstAsked secondAsked
    have available : ∀ slot ∈ (Interner.Request.node firstKind firstSlots).slots,
        Green.Available made slot := fun slot present =>
      (offered slot present).elim .inl (settled.holds.held slot)
    obtain ⟨_, _, _, _, firstAnswered, _⟩ := ask_eq_ok firstAsked
    obtain ⟨_, _, _, _, secondAnswered, _⟩ := ask_eq_ok secondAsked
    rw [Green.Slot.identical_iff_of_node firstAnswered.key?_eq secondAnswered.key?_eq,
      settled.same_iff found available firstAsked secondAsked, Green.Slot.allIdentical_iff]
    simp [Interner.Request.WithinLimit, Interner.Request.key, and_assoc]

open Green.Sample (functionToken) in
theorem answers_are_shared_exactly_of_name :
    (∃ (value other : Green.Slot) (opened closed : Session Unit),
      ask 0 (.node NodeKind.simpleNameReference [.token functionToken])
        ((Session.start ()).run Call.naming) = .ok value opened ∧
      ask 0 (.node NodeKind.simpleNameReference [.token functionToken])
        (opened.run [.internToken 0 TokenKind.identifier "f"]) = .ok other closed ∧
      value.identical other = true) ∧
    ∃ (value other : Green.Slot) (opened closed : Session Unit),
      ask 0 (.token TokenKind.identifier "f") ((Session.start ()).run Call.naming) =
        .ok value opened ∧
      ask 0 (.token TokenKind.identifier "f") (opened.run [.clearInterner 0]) =
        .ok other closed ∧
      value.identical other = false := by
  have found : ((Session.start ()).run Call.naming).interners[0]? = some (.withMaxSlots 1) := rfl
  have nodes : ∃ (value other : Green.Slot) (opened closed : Session Unit),
      ask 0 (.node NodeKind.simpleNameReference [.token functionToken])
        ((Session.start ()).run Call.naming) = .ok value opened ∧
      ask 0 (.node NodeKind.simpleNameReference [.token functionToken])
        (opened.run [.internToken 0 TokenKind.identifier "f"]) = .ok other closed :=
    ⟨_, _, _, _, rfl, rfl⟩
  have tokens : ∃ (value other : Green.Slot) (opened closed : Session Unit),
      ask 0 (.token TokenKind.identifier "f") ((Session.start ()).run Call.naming) =
        .ok value opened ∧
      ask 0 (.token TokenKind.identifier "f") (opened.run [.clearInterner 0]) =
        .ok other closed :=
    ⟨_, _, _, _, rfl, rfl⟩
  obtain ⟨node, nodeAgain, openedNode, closedNode, nodeAsked, nodeAskedAgain⟩ := nodes
  obtain ⟨token, tokenAgain, openedToken, closedToken, tokenAsked, tokenAskedAgain⟩ := tokens
  refine ⟨⟨node, nodeAgain, openedNode, closedNode, nodeAsked, nodeAskedAgain, ?_⟩,
    token, tokenAgain, openedToken, closedToken, tokenAsked, tokenAskedAgain, ?_⟩
  · have offered : ∀ slot ∈ ([.token functionToken] : List Green.Slot),
        ((Session.start ()).run Call.naming).Offers slot := by
      rw [List.forall_mem_singleton]
      exact .inr List.mem_cons_self
    apply ((answers_are_shared_exactly () Call.naming _ found).2 offered nodeAsked
      nodeAskedAgain).mpr
    exact ⟨Nat.le_refl 1, Nat.le_refl 1, rfl, Green.Slot.allIdentical_self _, by simp⟩
  · rw [← Bool.not_eq_true, (answers_are_shared_exactly () Call.naming _ found).1 tokenAsked
      tokenAskedAgain]
    simp

end SyntaxTree

import SyntaxTree.Proofs.SameValue
import SyntaxTree.Proofs.Settled

/-!
Interning compared with making values anew. Whatever an interner keeps was made for a request, and
a request that it is found for is that same request, so nothing is lost when the checks are left
out. Main statement: after whatever was called before, a request is answered exactly when making the
value anew succeeds, and with a value that looks the same; otherwise it fails for the same reason,
and everything stays as it was.
-/

namespace SyntaxTree

variable {Memory : Type} {made : List Green.Slot} {session : Session Memory} {number : Nat}
  {interner later : Interner} {request : Interner.Request} {value : Green.Slot}
  {workspace : Workspace}

theorem Build.map_run_eq_error_iff {Result Next : Type} {action : Build Result}
    {wrap : Result → Next} {failure : Failure} {after : Workspace} :
    (do return wrap (← action) : Build Next) workspace = .error failure after ↔
      action workspace = .error failure after := by
  cases run : action workspace with
  | ok result between => simp [bind, EStateM.bind, run, pure, EStateM.pure]
  | error failure between => simp [bind, EStateM.bind, run]

namespace Session

/-- Whether a property holds of every new interner and is left true by answers and by clearing. It
then holds of all interners of a client at any time. -/
structure Kept (Good : Interner → Prop) : Prop where
  new : ∀ maxSlots, Good (.withMaxSlots maxSlots)
  answered : ∀ {interner workspace request value later after},
    Good interner → interner.Answered workspace request value later after → Good later
  cleared : ∀ {interner}, Good interner → Good interner.cleared

variable {Good : Interner → Prop}

theorem Kept.ask (kept : Kept Good) (number : Nat) (request : Interner.Request)
    (good : ∀ interner ∈ session.interners, Good interner) :
    ∀ interner ∈ ((Client.ask number request).final session).interners, Good interner := by
  rcases Client.ask_cases number request session with
    ⟨halt, run, _⟩ | ⟨interner, value, now, workspace, found, answered, run⟩
  · rw [Client.final_of_error run]
    exact good
  · rw [Client.final_of_ok run]
    intro other present
    rcases List.mem_or_eq_of_mem_set present with earlier | rfl
    · exact good other earlier
    · exact kept.answered (good interner (List.mem_of_getElem? found)) answered

theorem Kept.after (kept : Kept Good) (call : Call)
    (good : ∀ interner ∈ session.interners, Good interner) :
    ∀ interner ∈ (session.after call).interners, Good interner := by
  by_cases forInterner : call.IsForInterner
  · cases call with
    | newInterner maxSlots =>
        intro interner present
        rcases List.mem_append.mp present with earlier | added
        · exact good interner earlier
        · obtain rfl := List.mem_singleton.mp added
          exact kept.new maxSlots
    | internToken number kind text =>
        rw [Session.after, Call.final_internToken]
        exact kept.ask number _ good
    | internNode number kind contents =>
        rcases Call.final_internNode number kind contents session with same | ⟨slots, _, asked⟩
        · rw [Session.after, same]
          exact good
        · rw [Session.after, asked]
          exact kept.ask number _ good
    | clearInterner number =>
        rcases Call.final_clearInterner number session with
          ⟨_, same⟩ | ⟨interner, events, found, same⟩
        · rw [Session.after, same]
          exact good
        · rw [Session.after, same]
          intro other present
          rcases List.mem_or_eq_of_mem_set present with earlier | rfl
          · exact good other earlier
          · exact kept.cleared (good interner (List.mem_of_getElem? found))
    | _ => exact absurd forInterner id
  · have undisturbed : session.Undisturbed (session.after call) :=
      call.undisturbed_run forInterner session
    rw [undisturbed.interners_eq]
    exact good

theorem Kept.run (kept : Kept Good) (calls : List Call)
    (good : ∀ interner ∈ session.interners, Good interner) :
    ∀ interner ∈ (session.run calls).interners, Good interner := by
  induction calls generalizing session with
  | nil => exact good
  | cons call rest inductionHypothesis => exact inductionHypothesis (kept.after call good)

end Session

namespace Interner

/-- Whether a value is what some request was given when it was made anew. -/
def Request.Makes (request : Request) (value : Green.Slot) : Prop :=
  ∃ workspace after, request.create workspace = .ok value after

/-- Whether everything an interner keeps was made for a request. -/
def Earned (interner : Interner) : Prop :=
  ∀ value, interner.Keeps value → ∃ request : Request, request.Makes value

theorem kept_earned : Session.Kept Earned where
  new _ _ kept := absurd kept (not_keeps_of_empty rfl rfl)
  answered earned answered := by
    have made := answered.ne_absent
    cases answered with
    | found _ _ _ _ => exact earned
    | added _ _ created =>
        intro other kept
        rcases (keeps_add made).mp kept with rfl | earlier
        · exact ⟨_, _, _, created⟩
        · exact earned other earlier
    | passed _ _ => exact earned
  cleared _ _ kept := absurd kept not_keeps_cleared

namespace Request

theorem makes_token_iff {kind : Kind} {text : String} :
    (token kind text).Makes value ↔
      ∃ (tokenKind : TokenKind) (stamp : Stamp), kind = tokenKind ∧
        value = .token ⟨stamp, tokenKind, text, .empty, .empty, [], false⟩ := by
  constructor
  · rintro ⟨workspace, after, created⟩
    cases kind with
    | token tokenKind =>
        cases created
        exact ⟨tokenKind, _, rfl, rfl⟩
    | node nodeKind => cases created
  · rintro ⟨tokenKind, stamp, rfl, rfl⟩
    exact ⟨⟨stamp.serial, #[]⟩, _, rfl⟩

theorem makes_node_iff {kind : Kind} {slots : List Green.Slot} :
    (node kind slots).Makes value ↔
      ∃ (nodeKind : NodeKind) (stamp : Stamp), kind = nodeKind ∧
        nodeKind.checkSlots slots = .ok () ∧
        value = .node (.assemble stamp nodeKind slots []) := by
  constructor
  · rintro ⟨workspace, after, created⟩
    obtain ⟨node, _, made, same⟩ := Build.bind_run_eq_ok_iff.mp created
    cases same
    obtain ⟨nodeKind, rfl, fits, rfl, _⟩ := Green.Node.create_eq_ok_iff.mp made
    exact ⟨nodeKind, _, rfl, fits, rfl⟩
  · rintro ⟨nodeKind, stamp, rfl, fits, rfl⟩
    exact ⟨⟨stamp.serial, #[]⟩, _,
      (Build.bind_run_of_ok (Green.Node.create_run fits [] ⟨stamp.serial, #[]⟩)).trans rfl⟩

/-- What can be made at one time can be made at any time. -/
theorem Makes.create (makes : request.Makes value) (workspace : Workspace) :
    ∃ fresh after, request.create workspace = .ok fresh after := by
  cases request with
  | token kind text =>
      obtain ⟨tokenKind, _, rfl, _⟩ := makes_token_iff.mp makes
      exact ⟨_, _, rfl⟩
  | node kind slots =>
      obtain ⟨nodeKind, _, rfl, fits, _⟩ := makes_node_iff.mp makes
      exact ⟨_, _, (Build.bind_run_of_ok (Green.Node.create_run fits [] workspace)).trans rfl⟩

/-- Two things made for one request look the same. -/
theorem Makes.sameSlotValue {other : Green.Slot} (makes : request.Makes value)
    (makesOther : request.Makes other) : Green.sameSlotValue value other = true := by
  cases request with
  | token kind text =>
      obtain ⟨tokenKind, stamp, rfl, rfl⟩ := makes_token_iff.mp makes
      obtain ⟨_, otherStamp, same, rfl⟩ := makes_token_iff.mp makesOther
      cases same
      simp [Green.sameSlotValue, Green.Token.sameValue]
  | node kind slots =>
      obtain ⟨nodeKind, stamp, rfl, _, rfl⟩ := makes_node_iff.mp makes
      obtain ⟨_, otherStamp, same, _, rfl⟩ := makes_node_iff.mp makesOther
      cases same
      exact Green.Node.sameValue_iff.mpr
        ⟨rfl, rfl, rfl, rfl, Green.sameSlotValues_self slots⟩

theorem create_fails_as_misuse {failure : Failure} {after : Workspace}
    (failed : request.create workspace = .error failure after) :
    ∃ cause, failure = .misuse cause := by
  cases request with
  | token kind text =>
      have refused := Build.map_run_eq_error_iff.mp failed
      cases kind with
      | token kind => cases refused
      | node kind =>
          cases refused
          exact ⟨_, rfl⟩
  | node kind slots =>
      have refused := Build.map_run_eq_error_iff.mp failed
      cases fits : kind.checkSlots slots with
      | ok nodeKind =>
          rw [Green.Node.create, Green.Node.createOr_of_ok workspace fits] at refused
          cases refused
      | error reason =>
          rw [Green.Node.create, Green.Node.createOr_of_error workspace fits] at refused
          cases refused
          exact ⟨_, rfl⟩

end Request

/-- A value that is found for a request was made for that very request, since what is at hand is
told apart by its stamps. -/
theorem Earned.makes (earned : interner.Earned) (known : interner.Known made)
    (history : Green.History workspace made)
    (available : ∀ slot ∈ request.slots, Green.Available made slot) (kept : interner.Keeps value)
    (keyed : value.key? = some request.key) : request.Makes value := by
  obtain ⟨earlier, makes⟩ := earned value kept
  have sameKey : earlier.key = request.key := by
    obtain ⟨before, between, created⟩ := makes
    exact Option.some.inj ((Request.create_eq_ok created).2.1.symm.trans keyed)
  have same : earlier = request := by
    cases earlier with
    | token kind text =>
        cases request with
        | token otherKind otherText =>
            cases sameKey
            rfl
        | node otherKind slots => cases sameKey
    | node kind slots =>
        cases request with
        | token otherKind otherText => cases sameKey
        | node otherKind otherSlots =>
            obtain ⟨nodeKind, stamp, rfl, _, rfl⟩ := Request.makes_node_iff.mp makes
            have slotsAvailable : ∀ slot ∈ slots, Green.Available made slot :=
              history.slots_available (known.1 _ kept)
            simp only [Request.key, Key.node.injEq] at sameKey
            obtain ⟨rfl, sameAddresses⟩ := sameKey
            obtain rfl := history.eq_of_allIdentical slotsAvailable available
              (Green.Slot.allIdentical_iff.mpr sameAddresses)
            rfl
  rw [← same]
  exact makes

/-- Whether an answer is found or new, it is what making the value anew gives. -/
theorem Answered.makes {after : Workspace}
    (answered : Answered interner workspace request value later after)
    (earned : interner.Earned) (known : interner.Known made)
    (history : Green.History workspace made)
    (available : ∀ slot ∈ request.slots, Green.Available made slot) : request.Makes value := by
  cases answered with
  | found _ kept keyed _ => exact earned.makes known history available kept keyed
  | added _ _ created => exact ⟨_, _, created⟩
  | passed _ created => exact ⟨_, _, created⟩

end Interner

open Client

/-- An interner that was reached by calls answers with what is made for the request, or it fails as
making it does and nothing has happened. -/
theorem Session.Settled.ask_cases (settled : session.Settled made)
    (found : session.interners[number]? = some interner) (earned : interner.Earned)
    (available : ∀ slot ∈ request.slots, Green.Available made slot) :
    (∃ value later fresh after, ask number request session = .ok value later ∧
      request.create session.workspace = .ok fresh after ∧ request.Makes value ∧
      Green.sameSlotValue value fresh = true) ∨
    ∃ cause, ask number request session = .error (.failed (.misuse cause)) session ∧
      request.create session.workspace = .error (.misuse cause) session.workspace := by
  have known := settled.holds.interned interner (List.mem_of_getElem? found)
  rcases request.run_cases interner session.workspace with
    ⟨value, now, workspace, run, answered⟩ | ⟨failure, run, failed⟩
  · have makes := answered.makes earned known settled.holds.complete.history available
    obtain ⟨fresh, after, created⟩ := makes.create session.workspace
    refine .inl ⟨value, { session with
      workspace, interners := session.interners.set number now, held := session.held ++ [value] },
      fresh, after, ?_, created, makes, makes.sameSlotValue ⟨_, _, created⟩⟩
    simp [ask, heldInterner, found, perform, run, putInterner, hold, bind, EStateM.bind, pure,
      EStateM.pure]
  · obtain ⟨cause, rfl⟩ := Interner.Request.create_fails_as_misuse failed
    refine .inr ⟨cause, ?_, failed⟩
    simp [ask, heldInterner, found, perform, run, bind, EStateM.bind]

/-- After whatever calls, asking an interner succeeds exactly when making the value anew does, and
gives a value that looks the same: a plain token, or a node over the very slots that were passed
without remarks of its own. Where making it is a misuse, asking is the same misuse, and interners
and all else stay as they were. -/
theorem interning_is_transparent (memory : Memory) (before : List Call)
    (reached : (Session.start memory).run before = session)
    (found : session.interners[number]? = some interner) :
    (∀ (kind : Kind) (text : String),
      (∃ token fresh later after,
        ask number (.token kind text) session = .ok (.token token) later ∧
        Green.Token.create kind text [] session.workspace = .ok fresh after ∧
        token.sameValue fresh = true ∧ token.leading = .empty ∧ token.trailing = .empty ∧
        token.remarks = [] ∧ token.missing = false) ∨
      ∃ cause, ask number (.token kind text) session = .error (.failed (.misuse cause)) session ∧
        Green.Token.create kind text [] session.workspace =
          .error (.misuse cause) session.workspace) ∧
    ∀ (kind : Kind) {slots : List Green.Slot}, (∀ slot ∈ slots, session.Offers slot) →
      (∃ node fresh later after,
        ask number (.node kind slots) session = .ok (.node node) later ∧
        Green.Node.create kind slots [] session.workspace = .ok fresh after ∧
        node.sameValue fresh = true ∧ Green.Slot.allIdentical slots node.slots = true ∧
        node.text = fresh.text ∧ node.width = fresh.width ∧ node.remarks = []) ∨
      ∃ cause, ask number (.node kind slots) session = .error (.failed (.misuse cause)) session ∧
        Green.Node.create kind slots [] session.workspace =
          .error (.misuse cause) session.workspace := by
  obtain ⟨made, goesOn, _⟩ := (Session.settled_start memory).run before
  rw [reached] at goesOn
  have settled := goesOn.settled
  have allEarned : ∀ interner ∈ ((Session.start memory).run before).interners, interner.Earned :=
    Interner.kept_earned.run before (List.forall_mem_nil _)
  rw [reached] at allEarned
  have earned := allEarned interner (List.mem_of_getElem? found)
  constructor
  · intro kind text
    have available : ∀ slot ∈ (Interner.Request.token kind text).slots,
        Green.Available made slot := List.forall_mem_nil _
    rcases settled.ask_cases found earned available with
      ⟨value, later, other, after, asked, created, makes, same⟩ | ⟨cause, asked, failed⟩
    · obtain ⟨tokenKind, stamp, rfl, rfl⟩ := Interner.Request.makes_token_iff.mp makes
      obtain ⟨fresh, _, freshMade, rest⟩ := Build.bind_run_eq_ok_iff.mp created
      cases rest
      exact .inl ⟨_, fresh, later, _, asked, freshMade, same, rfl, rfl, rfl, rfl⟩
    · exact .inr ⟨cause, asked, Build.map_run_eq_error_iff.mp failed⟩
  · intro kind slots offered
    have available : ∀ slot ∈ (Interner.Request.node kind slots).slots,
        Green.Available made slot := fun slot present =>
      (offered slot present).elim .inl (settled.holds.held slot)
    rcases settled.ask_cases found earned available with
      ⟨value, later, other, after, asked, created, makes, same⟩ | ⟨cause, asked, failed⟩
    · obtain ⟨nodeKind, stamp, rfl, _, rfl⟩ := Interner.Request.makes_node_iff.mp makes
      obtain ⟨fresh, _, freshMade, rest⟩ := Build.bind_run_eq_ok_iff.mp created
      cases rest
      obtain ⟨_, sameKind, _, rfl, _⟩ := Green.Node.create_eq_ok_iff.mp freshMade
      cases sameKind
      exact .inl ⟨_, _, later, _, asked, freshMade, same, Green.Slot.allIdentical_self slots, rfl,
        rfl, rfl⟩
    · exact .inr ⟨cause, asked, Build.map_run_eq_error_iff.mp failed⟩

/-- Makes an interner and a name through it. -/
def Call.interningName : List Call :=
  [.newInterner 1, .internToken 0 TokenKind.identifier "f",
    .internNode 0 NodeKind.simpleNameReference [some 0]]

open Green.Sample (functionToken) in
theorem interning_is_transparent_of_name :
    (∃ (node fresh : Green.Node) (later : Session Unit) (after : Workspace),
      ask 0 (.node NodeKind.simpleNameReference [.token functionToken])
        ((Session.start ()).run Call.interningName) = .ok (.node node) later ∧
      Green.Node.create NodeKind.simpleNameReference [.token functionToken] [] ⟨2, #[]⟩ =
        .ok fresh after ∧
      node.stamp ≠ fresh.stamp ∧ node.sameValue fresh = true ∧ node.text = "f") ∧
    ask 0 (.node NodeKind.basicLiteral [.token functionToken])
      ((Session.start ()).run Call.interningName) =
        .error (.failed (.misuse (.cannotCreate NodeKind.basicLiteral (.unexpectedKind
          NodeKind.basicLiteral "literalToken" .literals TokenKind.identifier))))
          ((Session.start ()).run Call.interningName) := by
  have found : ((Session.start ()).run Call.interningName).interners[0]? =
      some ⟨1, [Green.Node.assemble ⟨1⟩ .simpleNameReference [.token functionToken] []],
        [functionToken], 0, 2⟩ := rfl
  have offered : ∀ slot ∈ ([.token functionToken] : List Green.Slot),
      ((Session.start ()).run Call.interningName).Offers slot := by
    rw [List.forall_mem_singleton]
    exact .inr List.mem_cons_self
  obtain ⟨-, nodes⟩ := interning_is_transparent () Call.interningName rfl found
  constructor
  · rcases nodes NodeKind.simpleNameReference offered with
      ⟨node, fresh, later, after, asked, created, same, _, text_eq, _⟩ | ⟨cause, refused, _⟩
    · cases created
      refine ⟨node, _, later, _, asked, rfl, ?_, same, text_eq⟩
      cases asked
      decide
    · cases refused
  · rcases nodes NodeKind.basicLiteral offered with
      ⟨_, _, _, _, refused, _⟩ | ⟨cause, refused, failed⟩
    · cases refused
    · cases failed
      exact refused

end SyntaxTree

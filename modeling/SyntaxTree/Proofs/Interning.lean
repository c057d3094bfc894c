import SyntaxTree.Interner
import SyntaxTree.Proofs.History

/-!
What an interner does with one request. Identity is told by stamps alone, so nothing here asks where
the slots of a request come from. Main statement: a request is answered with a value kept for its
key, with a new value that is kept from then on, or with a new value beyond the limit; or it fails as
making the value anew does.
-/

namespace SyntaxTree

namespace Green.Slot

/-- The identity of a value, or absence. -/
def address : Green.Slot → SyntaxTree.Slot Stamp Stamp := .map (·.stamp) (·.stamp)

theorem identical_iff {first second : Green.Slot} :
    first.identical second = true ↔ first.address = second.address := by
  cases first <;> cases second <;>
    simp [identical, address, SyntaxTree.Slot.map, Token.identical]

theorem allIdentical_iff {firsts seconds : List Green.Slot} :
    allIdentical firsts seconds = true ↔ firsts.map address = seconds.map address := by
  induction firsts generalizing seconds with
  | nil => cases seconds <;> simp [allIdentical]
  | cons first firsts inductionHypothesis =>
      cases seconds with
      | nil => simp [allIdentical]
      | cons second seconds => simp [allIdentical, identical_iff, inductionHypothesis]

end Green.Slot

namespace Interner

/-- What values are found again by. -/
inductive Key
  | token (kind : Kind) (text : String)
  | node (kind : Kind) (addresses : List (SyntaxTree.Slot Stamp Stamp))

/-- The event that tells of a value found again. -/
def Key.sharedEvent? : Key → Option Event
  | .token (.token kind) text => some (.tokenShared kind text)
  | .node (.node kind) _ => some (.nodeShared kind)
  | .token (.node _) _ | .node (.token _) _ => none

inductive Request
  | token (kind : Kind) (text : String)
  | node (kind : Kind) (slots : List Green.Slot)

namespace Request

def key : Request → Key
  | token kind text => .token kind text
  | node kind slots => .node kind (slots.map Green.Slot.address)

/-- Whether an answer may be shared. -/
def WithinLimit (maxSlots : Nat) : Request → Prop
  | token _ _ => True
  | node _ slots => slots.length ≤ maxSlots

def run (interner : Interner) : Request → Build (Green.Slot × Interner)
  | token kind text => do
    let (value, later) ← interner.token kind text
    return (.token value, later)
  | node kind slots => do
    let (value, later) ← interner.node kind slots
    return (.node value, later)

/-- Makes what is asked for anew. -/
def create : Request → Build Green.Slot
  | token kind text => return .token (← Green.Token.create kind text [])
  | node kind slots => return .node (← Green.Node.create kind slots [])

end Request

end Interner

def Green.Slot.key? : Green.Slot → Option Interner.Key
  | .token token => some (.token token.kind token.text)
  | .node node => some (.node node.kind (node.slots.map address))
  | .absent => none

namespace Interner

variable {interner : Interner} {workspace after : Workspace} {request : Request}
  {value other : Green.Slot}

/-- Whether a value is found again. -/
def Keeps (interner : Interner) : Green.Slot → Prop
  | .token token => token ∈ interner.tokens
  | .node node => node ∈ interner.nodes
  | .absent => False

def add (interner : Interner) : Green.Slot → Interner
  | .token token =>
    { interner with tokens := token :: interner.tokens, misses := interner.misses + 1 }
  | .node node => { interner with nodes := node :: interner.nodes, misses := interner.misses + 1 }
  | .absent => interner

theorem keeps_add (made : value ≠ .absent) :
    (interner.add value).Keeps other ↔ other = value ∨ interner.Keeps other := by
  cases value with
  | absent => exact absurd rfl made
  | token token => cases other <;> simp [add, Keeps]
  | node node => cases other <;> simp [add, Keeps]

/-- All that can come of a request, unless it fails. -/
inductive Answered (interner : Interner) (workspace : Workspace) (request : Request) :
    Green.Slot → Interner → Workspace → Prop
  | found {value : Green.Slot} {after : Workspace} : request.WithinLimit interner.maxSlots →
      interner.Keeps value → value.key? = some request.key →
      after.nextSerial = workspace.nextSerial →
      Answered interner workspace request value { interner with hits := interner.hits + 1 } after
  | added {value : Green.Slot} {after : Workspace} : request.WithinLimit interner.maxSlots →
      (∀ other, interner.Keeps other → other.key? ≠ some request.key) →
      request.create workspace = .ok value after →
      Answered interner workspace request value (interner.add value) after
  | passed {value : Green.Slot} {after : Workspace} : ¬ request.WithinLimit interner.maxSlots →
      request.create workspace = .ok value after →
      Answered interner workspace request value interner after

theorem findToken?_eq_some {kind : Kind} {text : String} {token : Green.Token}
    (found : interner.findToken? kind text = some token) :
    token ∈ interner.tokens ∧ kind = token.kind ∧ token.text = text := by
  have matching := List.find?_some found
  simp only [Bool.and_eq_true, beq_iff_eq] at matching
  exact ⟨List.mem_of_find?_eq_some found, matching⟩

theorem findNode?_eq_some {kind : Kind} {slots : List Green.Slot} {node : Green.Node}
    (found : interner.findNode? kind slots = some node) :
    node ∈ interner.nodes ∧ kind = node.kind ∧
      node.slots.map Green.Slot.address = slots.map Green.Slot.address := by
  have matching := List.find?_some found
  simp only [Bool.and_eq_true, beq_iff_eq, Green.Slot.allIdentical_iff] at matching
  exact ⟨List.mem_of_find?_eq_some found, matching⟩

theorem not_keeps_of_findToken? {kind : Kind} {text : String}
    (missing : interner.findToken? kind text = none) (kept : interner.Keeps value) :
    value.key? ≠ some (.token kind text) := by
  intro same
  cases value with
  | token token =>
      cases same
      have unlike := List.find?_eq_none.mp missing token kept
      simp at unlike
  | node node => cases same
  | absent => cases same

theorem not_keeps_of_findNode? {kind : Kind} {slots : List Green.Slot}
    (missing : interner.findNode? kind slots = none) (kept : interner.Keeps value) :
    value.key? ≠ some (.node kind (slots.map Green.Slot.address)) := by
  intro same
  cases value with
  | node node =>
      simp only [Green.Slot.key?, Option.some.injEq, Key.node.injEq] at same
      have unlike := List.find?_eq_none.mp missing node kept
      simp [same.1, Green.Slot.allIdentical_iff.mpr same.2] at unlike
  | token token => cases same
  | absent => cases same

namespace Request

theorem create_eq_ok (created : request.create workspace = .ok value after) :
    value.stamp? = some ⟨workspace.nextSerial⟩ ∧ value.key? = some request.key ∧
      after.nextSerial = workspace.nextSerial + 1 := by
  cases request with
  | token kind text =>
      obtain ⟨token, _, made, same⟩ := Build.bind_run_eq_ok_iff.mp created
      cases same
      obtain ⟨stamped, rfl⟩ := Green.Token.create_eq_ok made
      cases kind with
      | token kind =>
          cases made
          exact ⟨rfl, rfl, rfl⟩
      | node kind => cases made
  | node kind slots =>
      obtain ⟨node, _, made, same⟩ := Build.bind_run_eq_ok_iff.mp created
      cases same
      obtain ⟨nodeKind, rfl, _, rfl, rfl⟩ := Green.Node.create_eq_ok_iff.mp made
      exact ⟨rfl, rfl, rfl⟩

theorem create_eq_error {failure : Failure}
    (failed : request.create workspace = .error failure after) : after = workspace := by
  cases request with
  | token kind text =>
      cases kind with
      | token kind => cases failed
      | node kind =>
          cases failed
          rfl
  | node kind slots =>
      cases fits : kind.checkSlots slots with
      | ok nodeKind =>
          rw [create, Green.Node.create,
            Build.bind_run_of_ok (Green.Node.createOr_of_ok workspace fits)] at failed
          cases failed
      | error reason =>
          rw [create, Green.Node.create,
            Build.bind_run_of_error (Green.Node.createOr_of_error workspace fits)] at failed
          cases failed
          rfl

end Request

/-- What an interner has for a request. -/
def find? (interner : Interner) : Request → Option Green.Slot
  | .token kind text => (interner.findToken? kind text).map .token
  | .node kind slots =>
    if interner.maxSlots < slots.length then none else (interner.findNode? kind slots).map .node

instance (maxSlots : Nat) : DecidablePred (Request.WithinLimit maxSlots)
  | .token _ _ => inferInstanceAs (Decidable True)
  | .node _ slots => inferInstanceAs (Decidable (slots.length ≤ maxSlots))

/-- The interner once it has made a value for a request. -/
def afterMaking (interner : Interner) (request : Request) (value : Green.Slot) : Interner :=
  if request.WithinLimit interner.maxSlots then interner.add value else interner

theorem find?_eq_some (found : interner.find? request = some value) :
    request.WithinLimit interner.maxSlots ∧ interner.Keeps value ∧
      value.key? = some request.key := by
  cases request with
  | token kind text =>
      obtain ⟨token, matching, rfl⟩ := Option.map_eq_some_iff.mp found
      obtain ⟨kept, rfl, rfl⟩ := findToken?_eq_some matching
      exact ⟨trivial, kept, rfl⟩
  | node kind slots =>
      rw [find?] at found
      split at found
      · cases found
      · next within =>
          obtain ⟨node, matching, rfl⟩ := Option.map_eq_some_iff.mp found
          obtain ⟨kept, rfl, same⟩ := findNode?_eq_some matching
          exact ⟨Nat.le_of_not_lt within, kept, by rw [Green.Slot.key?, same]; rfl⟩

theorem find?_eq_none (missing : interner.find? request = none)
    (within : request.WithinLimit interner.maxSlots) (kept : interner.Keeps value) :
    value.key? ≠ some request.key := by
  cases request with
  | token kind text => exact not_keeps_of_findToken? (Option.map_eq_none_iff.mp missing) kept
  | node kind slots =>
      rw [find?, if_neg (Nat.not_lt_of_le within)] at missing
      exact not_keeps_of_findNode? (Option.map_eq_none_iff.mp missing) kept

theorem Request.run_of_found (found : interner.find? request = some value)
    (workspace : Workspace) :
    ∃ event, request.key.sharedEvent? = some event ∧
      request.run interner workspace =
        .ok (value, { interner with hits := interner.hits + 1 })
          { workspace with events := workspace.events.push event } := by
  cases request with
  | token kind text =>
      obtain ⟨token, matching, rfl⟩ := Option.map_eq_some_iff.mp found
      obtain ⟨-, rfl, -⟩ := findToken?_eq_some matching
      simp only [run, Interner.token, matching]
      exact ⟨_, rfl, rfl⟩
  | node kind slots =>
      rw [find?] at found
      split at found
      · cases found
      · next within =>
          obtain ⟨node, matching, rfl⟩ := Option.map_eq_some_iff.mp found
          obtain ⟨-, rfl, -⟩ := findNode?_eq_some matching
          simp only [run, Interner.node, if_neg within, matching]
          exact ⟨_, rfl, rfl⟩

theorem Request.run_of_missing (missing : interner.find? request = none) :
    request.run interner = do
      let value ← request.create
      return (value, interner.afterMaking request value) := by
  cases request with
  | token kind text =>
      have missing := Option.map_eq_none_iff.mp missing
      simp [run, Interner.token, missing, create, afterMaking, WithinLimit, add]
  | node kind slots =>
      by_cases within : slots.length ≤ interner.maxSlots
      · rw [find?, if_neg (Nat.not_lt_of_le within), Option.map_eq_none_iff] at missing
        simp [run, Interner.node, Nat.not_lt_of_le within, missing, create, afterMaking,
          WithinLimit, within, add]
      · simp [run, Interner.node, Nat.lt_of_not_le within, create, afterMaking, WithinLimit, within]

/-- A request is answered, or it fails as making the value anew does and nothing comes of it. -/
theorem Request.run_cases (request : Request) (interner : Interner) (workspace : Workspace) :
    (∃ value later after, request.run interner workspace = .ok (value, later) after ∧
      Answered interner workspace request value later after) ∨
    ∃ failure, request.run interner workspace = .error failure workspace ∧
      request.create workspace = .error failure workspace := by
  cases found : interner.find? request with
  | some value =>
      obtain ⟨within, kept, keyed⟩ := find?_eq_some found
      obtain ⟨event, -, run⟩ := run_of_found found workspace
      exact .inl ⟨_, _, _, run, .found within kept keyed rfl⟩
  | none =>
      rw [run_of_missing found]
      cases created : request.create workspace with
      | error failure after =>
          obtain rfl := create_eq_error created
          exact .inr ⟨failure, Build.bind_run_of_error created, rfl⟩
      | ok value after =>
          refine .inl ⟨value, interner.afterMaking request value, after,
            Build.bind_run_of_ok created, ?_⟩
          by_cases within : request.WithinLimit interner.maxSlots
          · rw [afterMaking, if_pos within]
            exact .added within (fun _ kept => find?_eq_none found within kept) created
          · rw [afterMaking, if_neg within]
            exact .passed within created

end Interner

end SyntaxTree

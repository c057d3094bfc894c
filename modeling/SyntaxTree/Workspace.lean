import SyntaxTree.SlotError

/-!
The state in which trees are built: a supply of stamps, which tell apart values that look alike, and
the log of what edits and caches did. A failure leaves the log as it is.
-/

namespace SyntaxTree

/-- The identity of an allocated value. -/
structure Stamp where
  serial : Nat
  deriving DecidableEq, Hashable, Repr

inductive Event
  | unchanged (kind : Kind)
  | rebuilt (kind : NodeKind) (slot : Nat)
  | replaced (kind : NodeKind) (depth : Nat)
  | nodeShared (kind : NodeKind)
  | tokenShared (kind : TokenKind) (text : String)
  | cacheCleared (hits misses : Nat)
  deriving DecidableEq

/-- The log line of an event: level, message, fields. -/
def Event.line : Event → String
  | unchanged kind => s!"TRACE edit is a no-op kind={kind}"
  | rebuilt kind slot => s!"TRACE rebuilt spine node kind={kind} slot={slot}"
  | replaced kind depth => s!"DEBUG replaced subtree kind={kind} spine={depth}"
  | nodeShared kind => s!"TRACE node cache hit kind={kind}"
  | tokenShared kind text => s!"TRACE token cache hit kind={kind} text=" ++ Text.quoted text
  | cacheCleared hits misses => s!"TRACE node cache cleared hits={hits} misses={misses}"

/-- Mistakes of a caller, as opposed to misfits that a caller may want to handle. -/
inductive Misuse
  | notATokenKind (kind : Kind)
  | noFixedText (kind : Kind)
  | cannotCreate (kind : Kind) (reason : SlotError)
  | slotOutOfBounds (index : Nat) (kind : NodeKind) (count : Nat)
  /-- A typed edit with a value that does not fit. -/
  | misfit (reason : SlotError)
  /-- A node of one kind was taken for another. -/
  | wrongKind (expected found : NodeKind)
  | nothingToSkip
  | reversedRange
  /-- A slot does not hold what it is known to hold, in these words. -/
  | brokenExpectation (expectation : String)
  deriving DecidableEq

def Misuse.message : Misuse → String
  | notATokenKind kind => s!"{kind} is not a token kind"
  | noFixedText kind => s!"{kind} has no fixed text"
  | cannotCreate kind reason => s!"cannot create {kind}: " ++ reason.message
  | slotOutOfBounds index kind count => s!"slot {index} out of bounds for {kind} with {count} slots"
  | misfit reason => reason.message
  | wrongKind expected found => s!"{found} is not {expected}"
  | nothingToSkip => "must have a subtree to skip"
  | reversedRange => "assertion failed: start.raw <= end.raw"
  | brokenExpectation expectation => expectation

inductive Failure
  | rejected (reason : SlotError)
  | misuse (cause : Misuse)
  deriving DecidableEq

/-- The serial of the next stamp, and the events so far, oldest first. -/
structure Workspace where
  nextSerial : Nat
  events : Array Event
  deriving DecidableEq

def Workspace.empty : Workspace := ⟨0, #[]⟩

abbrev Build := EStateM Failure Workspace

namespace Build

def freshStamp : Build Stamp := fun workspace =>
  .ok ⟨workspace.nextSerial⟩ { workspace with nextSerial := workspace.nextSerial + 1 }

def record (event : Event) : Build Unit := fun workspace =>
  .ok () { workspace with events := workspace.events.push event }

def reject {Result : Type} (reason : SlotError) : Build Result := throw (.rejected reason)

def misuse {Result : Type} (cause : Misuse) : Build Result := throw (.misuse cause)

/-- Hands a misfit back to the caller. -/
def ofFit {Result : Type} : Except SlotError Result → Build Result
  | .ok result => pure result
  | .error reason => reject reason

/-- Treats a misfit as a mistake of the caller. -/
def ofFitOr {Result : Type} (cause : SlotError → Misuse) : Except SlotError Result → Build Result
  | .ok result => pure result
  | .error reason => misuse (cause reason)

def ofMisuse {Result : Type} : Except Misuse Result → Build Result
  | .ok result => pure result
  | .error cause => misuse cause

section Run

variable {Result Next : Type} {action : Build Result} {next : Result → Build Next}
  {workspace later : Workspace} {result : Result} {failure : Failure}

@[simp]
theorem pure_run (result : Result) (workspace : Workspace) :
    (pure result : Build Result) workspace = .ok result workspace := rfl

@[simp]
theorem reject_run (reason : SlotError) (workspace : Workspace) :
    (reject reason : Build Result) workspace = .error (.rejected reason) workspace := rfl

@[simp]
theorem record_run (event : Event) (workspace : Workspace) :
    record event workspace =
      .ok () { workspace with events := workspace.events.push event } := rfl

theorem ofFit_ok (result : Result) : ofFit (.ok result) = pure result := rfl

theorem ofFit_error (reason : SlotError) : (ofFit (.error reason) : Build Result) = reject reason :=
  rfl

theorem ofMisuse_ok (result : Result) : ofMisuse (.ok result) = pure result := rfl

theorem bind_run_of_ok (first : action workspace = .ok result later) :
    (action >>= next) workspace = next result later := by
  simp [bind, EStateM.bind, first]

theorem bind_run_of_error (first : action workspace = .error failure later) :
    (action >>= next) workspace = .error failure later := by
  simp [bind, EStateM.bind, first]

/-- An action in two steps succeeds when both steps do. -/
theorem bind_run_eq_ok_iff {final : Next} :
    (action >>= next) workspace = .ok final later ↔
      ∃ middle between,
        action workspace = .ok middle between ∧ next middle between = .ok final later := by
  constructor
  · intro run
    cases first : action workspace with
    | ok middle between =>
        rw [bind_run_of_ok first] at run
        exact ⟨middle, between, rfl, run⟩
    | error failure between =>
        rw [bind_run_of_error first] at run
        cases run
  · rintro ⟨middle, between, first, second⟩
    rw [bind_run_of_ok first, second]

/-- An action in two steps fails when its first step does, or when its second one does then. -/
theorem bind_run_eq_error_iff {failure : Failure} :
    (action >>= next) workspace = .error failure later ↔
      action workspace = .error failure later ∨ ∃ middle between,
        action workspace = .ok middle between ∧ next middle between = .error failure later := by
  cases first : action workspace with
  | ok middle between =>
      rw [bind_run_of_ok first]
      constructor
      · exact fun run => .inr ⟨middle, between, rfl, run⟩
      · rintro (stopped | ⟨_, _, same, second⟩)
        · cases stopped
        · cases same
          exact second
  | error cause between =>
      rw [bind_run_of_error first]
      constructor
      · intro stopped
        cases stopped
        exact .inl rfl
      · rintro (stopped | ⟨_, _, same, _⟩)
        · cases stopped
          rfl
        · cases same

end Run

end Build

end SyntaxTree

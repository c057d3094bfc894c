import Mathlib.Algebra.GroupWithZero.Nat
import Mathlib.Data.Finset.Card
import Mathlib.Data.List.DropRight
import SyntaxTree.Proofs.Interning

/-!
The books of an interner. Every use is entered with the interner and the workspace that it found,
so that anything may happen in between. Main statement: the counters, the sizes and the events are
those that the entries tell of.
-/

namespace SyntaxTree

deriving instance DecidableEq for Interner.Key

namespace Interner

inductive Use
  | ask (request : Request)
  | clear

def Use.run (interner : Interner) : Use → Build Interner
  | ask request => do
    let (_, later) ← request.run interner
    return later
  | clear => interner.clear

/-- A use with the interner and the workspace that it finds. -/
structure Entry where
  before : Interner
  found : Workspace
  use : Use

namespace Entry

def succeeded (entry : Entry) : Bool :=
  match entry.use.run entry.before entry.found with
  | .ok _ _ => true
  | .error _ _ => false

/-- The interner after the use, which is the one before if the use fails. -/
def after (entry : Entry) : Interner :=
  match entry.use.run entry.before entry.found with
  | .ok later _ => later
  | .error _ _ => entry.before

/-- The workspace that the use leaves behind. -/
def left (entry : Entry) : Workspace :=
  match entry.use.run entry.before entry.found with
  | .ok _ left | .error _ left => left

def isClear (entry : Entry) : Bool :=
  match entry.use with
  | .ask _ => false
  | .clear => true

/-- The key that was asked for, unless the use failed or its answer may not be shared. -/
def key? (maxSlots : Nat) (entry : Entry) : Option Key :=
  match entry.use with
  | .ask request =>
    if entry.succeeded ∧ request.WithinLimit maxSlots then some request.key else none
  | .clear => none

end Entry

/-- An interner with the entries of all its uses, oldest first. -/
structure Books where
  interner : Interner
  entries : List Entry

namespace Books

def opened (maxSlots : Nat) : Books := ⟨.withMaxSlots maxSlots, []⟩

def enter (books : Books) (use : Use) (found : Workspace) : Books :=
  let entry : Entry := ⟨books.interner, found, use⟩
  ⟨entry.after, books.entries ++ [entry]⟩

/-- The books after uses of a new interner, each with the workspace that it finds. -/
def run (maxSlots : Nat) (uses : List (Use × Workspace)) : Books :=
  uses.foldl (fun books (use, found) => books.enter use found) (opened maxSlots)

def clears (books : Books) : List Entry := books.entries.filter (·.isClear)

/-- What was asked for with success, as often as it was. -/
def asked (maxSlots : Nat) (books : Books) : List Key :=
  books.entries.filterMap (·.key? maxSlots)

def askedSinceClear (maxSlots : Nat) (books : Books) : List Key :=
  (books.entries.rtakeWhile (!·.isClear)).filterMap (·.key? maxSlots)

end Books

def Key.isToken : Key → Bool
  | token _ _ => true
  | node _ _ => false

/-- The keys that an interner has values for. -/
def keys (interner : Interner) : List Key :=
  interner.tokens.map (fun token => .token token.kind token.text) ++
    interner.nodes.map (fun node => .node node.kind (node.slots.map Green.Slot.address))

variable {interner : Interner} {workspace after : Workspace} {request : Request}
  {value : Green.Slot} {key : Key}

theorem length_keys (interner : Interner) :
    interner.keys.length = interner.tokens.length + interner.nodes.length := by
  simp [keys]

theorem length_filter_keys (interner : Interner) :
    (interner.keys.filter (·.isToken)).length = interner.tokens.length ∧
      (interner.keys.filter (!·.isToken)).length = interner.nodes.length := by
  simp [keys, List.filter_append, List.filter_map, Function.comp_def, Key.isToken]

theorem mem_keys_iff :
    key ∈ interner.keys ↔ ∃ value, interner.Keeps value ∧ value.key? = some key := by
  constructor
  · intro present
    rcases List.mem_append.mp present with ofToken | ofNode
    · obtain ⟨token, kept, rfl⟩ := List.mem_map.mp ofToken
      exact ⟨.token token, kept, rfl⟩
    · obtain ⟨node, kept, rfl⟩ := List.mem_map.mp ofNode
      exact ⟨.node node, kept, rfl⟩
  · rintro ⟨value, kept, keyed⟩
    cases value with
    | token token =>
        cases keyed
        exact List.mem_append_left _ (List.mem_map_of_mem kept)
    | node node =>
        cases keyed
        exact List.mem_append_right _ (List.mem_map_of_mem kept)
    | absent => cases keyed

/-- A value that is added comes with its key and counts as a miss. -/
theorem keys_add (keyed : value.key? = some key) :
    (interner.add value).keys.Perm (key :: interner.keys) ∧
      (interner.add value).hits = interner.hits ∧
      (interner.add value).misses = interner.misses + 1 ∧
      (interner.add value).maxSlots = interner.maxSlots := by
  cases value with
  | token token =>
      cases keyed
      exact ⟨.refl _, rfl, rfl, rfl⟩
  | node node =>
      cases keyed
      exact ⟨List.perm_middle, rfl, rfl, rfl⟩
  | absent => cases keyed

theorem Request.events_of_create (created : request.create workspace = .ok value after) :
    after.events = workspace.events := by
  cases request with
  | token kind text =>
      obtain ⟨token, _, made, same⟩ := Build.bind_run_eq_ok_iff.mp created
      cases same
      rw [(Green.Token.create_eq_ok made).2]
  | node kind slots =>
      obtain ⟨node, _, made, same⟩ := Build.bind_run_eq_ok_iff.mp created
      cases same
      obtain ⟨_, _, _, _, rfl⟩ := Green.Node.create_eq_ok_iff.mp made
      rfl

/-- All that can come of a use. -/
inductive Entry.Posted (entry : Entry) : Prop
  | hit {request : Request} {event : Event} : entry.use = .ask request →
      request.WithinLimit entry.before.maxSlots → request.key ∈ entry.before.keys →
      request.key.sharedEvent? = some event → entry.succeeded →
      entry.after = { entry.before with hits := entry.before.hits + 1 } →
      entry.left.events = entry.found.events.push event → Posted entry
  | miss {request : Request} {value : Green.Slot} : entry.use = .ask request →
      request.WithinLimit entry.before.maxSlots → request.key ∉ entry.before.keys →
      value.key? = some request.key → entry.succeeded → entry.after = entry.before.add value →
      entry.left.events = entry.found.events → Posted entry
  | passed {request : Request} : entry.use = .ask request →
      ¬ request.WithinLimit entry.before.maxSlots → entry.after = entry.before →
      entry.left.events = entry.found.events → Posted entry
  | failed {request : Request} : entry.use = .ask request → ¬ entry.succeeded →
      entry.after = entry.before → entry.left.events = entry.found.events → Posted entry
  | cleared : entry.use = .clear →
      entry.after = { entry.before with nodes := [], tokens := [] } →
      entry.left.events = entry.found.events.push
        (.cacheCleared entry.before.hits entry.before.misses) → Posted entry

theorem Entry.posted (entry : Entry) : entry.Posted := by
  obtain ⟨before, found, use⟩ := entry
  cases use with
  | clear => exact .cleared rfl rfl rfl
  | ask request =>
      cases kept : before.find? request with
      | some value =>
          obtain ⟨within, keeps, keyed⟩ := find?_eq_some kept
          obtain ⟨event, shared, run⟩ := Request.run_of_found kept found
          have known : request.key ∈ before.keys := mem_keys_iff.mpr ⟨value, keeps, keyed⟩
          have ran : (Use.ask request).run before found =
              .ok { before with hits := before.hits + 1 }
                { found with events := found.events.push event } :=
            Build.bind_run_of_ok run
          exact .hit rfl within known shared (by simp [succeeded, ran]) (by simp [after, ran])
            (by simp [left, ran])
      | none =>
          cases created : request.create found with
          | error failure later =>
              obtain rfl := Request.create_eq_error created
              have ran : (Use.ask request).run before later = .error failure later := by
                rw [Use.run, Request.run_of_missing kept]
                exact Build.bind_run_of_error (Build.bind_run_of_error created)
              exact .failed rfl (by simp [succeeded, ran]) (by simp [after, ran])
                (by simp [left, ran])
          | ok value later =>
              obtain ⟨-, keyed, -⟩ := Request.create_eq_ok created
              have quiet := Request.events_of_create created
              have ran : (Use.ask request).run before found =
                  .ok (before.afterMaking request value) later := by
                have answered : (request.create >>= fun value =>
                    pure (value, before.afterMaking request value) : Build _) found =
                      .ok (value, before.afterMaking request value) later :=
                  Build.bind_run_of_ok created
                rw [Use.run, Request.run_of_missing kept]
                exact Build.bind_run_of_ok answered
              by_cases within : request.WithinLimit before.maxSlots
              · have unknown : request.key ∉ before.keys := by
                  rintro known
                  obtain ⟨other, keeps, otherKeyed⟩ := mem_keys_iff.mp known
                  exact find?_eq_none kept within keeps otherKeyed
                exact .miss rfl within unknown keyed (by simp [succeeded, ran])
                  (by simp [after, ran, afterMaking, within]) (by simp [left, ran, quiet])
              · exact .passed rfl within (by simp [after, ran, afterMaking, within])
                  (by simp [left, ran, quiet])

/-- An interner agrees with what was asked for, in all and since it was last cleared, and with the
numbers of values that it has forgotten. -/
structure Balances (interner : Interner) (asked sinceClear : List Key) (forgotten : List Nat) :
    Prop where
  distinct : interner.keys.Nodup
  kept : ∀ key, key ∈ interner.keys ↔ key ∈ sinceClear
  counted : interner.hits + interner.misses = asked.length
  missed : interner.misses = interner.keys.length + forgotten.sum

namespace Balances

variable {asked sinceClear : List Key} {forgotten : List Nat}

theorem withMaxSlots (maxSlots : Nat) : (withMaxSlots maxSlots).Balances [] [] [] where
  distinct := List.nodup_nil
  kept _ := Iff.rfl
  counted := rfl
  missed := rfl

theorem hit (balances : interner.Balances asked sinceClear forgotten)
    (known : key ∈ interner.keys) :
    { interner with hits := interner.hits + 1 }.Balances (asked ++ [key]) (sinceClear ++ [key])
      forgotten where
  distinct := balances.distinct
  kept other := by
    rw [List.mem_append, ← balances.kept other, List.mem_singleton]
    constructor
    · exact .inl
    · rintro (present | rfl)
      · exact present
      · exact known
  counted := by
    have counted := balances.counted
    simp only [List.length_append, List.length_singleton]
    omega
  missed := balances.missed

theorem miss (balances : interner.Balances asked sinceClear forgotten)
    (unknown : key ∉ interner.keys) (keyed : value.key? = some key) :
    (interner.add value).Balances (asked ++ [key]) (sinceClear ++ [key]) forgotten := by
  obtain ⟨keys_perm, hits_eq, misses_eq, -⟩ := @keys_add interner _ _ keyed
  constructor
  · exact keys_perm.nodup_iff.mpr (List.nodup_cons.mpr ⟨unknown, balances.distinct⟩)
  · intro other
    rw [keys_perm.mem_iff, List.mem_cons, List.mem_append, ← balances.kept other,
      List.mem_singleton, or_comm]
  · have counted := balances.counted
    simp only [hits_eq, misses_eq, List.length_append, List.length_singleton]
    omega
  · have missed := balances.missed
    rw [misses_eq, keys_perm.length_eq, List.length_cons]
    omega

theorem clear (balances : interner.Balances asked sinceClear forgotten) :
    { interner with nodes := [], tokens := [] }.Balances asked []
      (forgotten ++ [interner.keys.length]) where
  distinct := List.nodup_nil
  kept _ := Iff.rfl
  counted := balances.counted
  missed := by
    rw [List.sum_append, List.sum_singleton, Nat.add_comm forgotten.sum]
    exact balances.missed.trans (Nat.zero_add _).symm

/-- The values of one sort that are kept are as many as the keys of the sort that were asked for. -/
theorem length_filter_keys (balances : interner.Balances asked sinceClear forgotten)
    (sort : Key → Bool) :
    (interner.keys.filter sort).length = (sinceClear.filter sort).toFinset.card := by
  rw [← List.toFinset_card_of_nodup (balances.distinct.filter sort)]
  congr 1
  ext key
  simp [balances.kept]

end Balances

namespace Books

variable {maxSlots : Nat} {books : Books} {use : Use} {found : Workspace}

section Enter

variable {entry : Entry} (entered : entry = ⟨books.interner, found, use⟩)

include entered

theorem asked_enter (maxSlots : Nat) :
    (books.enter use found).asked maxSlots =
      books.asked maxSlots ++ (entry.key? maxSlots).toList := by
  subst entered
  rw [asked, enter, List.filterMap_append]
  cases keyed : Entry.key? maxSlots ⟨books.interner, found, use⟩ <;> simp [keyed, asked]

theorem enter_of_ask (maxSlots : Nat) (asks : entry.isClear = false) :
    (books.enter use found).clears = books.clears ∧
      (books.enter use found).askedSinceClear maxSlots =
        books.askedSinceClear maxSlots ++ (entry.key? maxSlots).toList := by
  subst entered
  constructor
  · simp [clears, enter, asks]
  · rw [askedSinceClear, enter, List.rtakeWhile_concat_pos _ _ _ (by simp [asks]),
      List.filterMap_append]
    cases keyed : Entry.key? maxSlots ⟨books.interner, found, use⟩ <;> simp [keyed, askedSinceClear]

theorem enter_of_clear (maxSlots : Nat) (clearing : entry.isClear = true) :
    (books.enter use found).clears = books.clears ++ [entry] ∧
      (books.enter use found).askedSinceClear maxSlots = [] := by
  subst entered
  constructor
  · simp [clears, enter, clearing]
  · rw [askedSinceClear, enter, List.rtakeWhile_concat_neg _ _ _ (by simp [clearing])]
    rfl

end Enter

/-- The entries of a run account for its interner. -/
structure Balanced (maxSlots : Nat) (books : Books) : Prop where
  limit : books.interner.maxSlots = maxSlots
  balances : books.interner.Balances (books.asked maxSlots) (books.askedSinceClear maxSlots)
    (books.clears.map (·.before.keys.length))

theorem Balanced.enter (balanced : books.Balanced maxSlots) (use : Use) (found : Workspace) :
    (books.enter use found).Balanced maxSlots := by
  obtain ⟨limit, balances⟩ := balanced
  obtain ⟨entry, entered⟩ : ∃ entry : Entry, entry = ⟨books.interner, found, use⟩ := ⟨_, rfl⟩
  have before_eq : entry.before = books.interner := by rw [entered]
  have interner_eq : (books.enter use found).interner = entry.after := by
    rw [entered]
    rfl
  have asked_eq := asked_enter entered maxSlots
  -- Unless the use clears, only the key of its entry decides how the lists of keys grow.
  have asking (key : Option Key) (asks : entry.isClear = false)
      (keyed : entry.key? maxSlots = key) (limitAfter : entry.after.maxSlots = maxSlots)
      (balancesAfter : entry.after.Balances (books.asked maxSlots ++ key.toList)
        (books.askedSinceClear maxSlots ++ key.toList) (books.clears.map (·.before.keys.length))) :
      (books.enter use found).Balanced maxSlots := by
    obtain ⟨clears_eq, since_eq⟩ := enter_of_ask entered maxSlots asks
    subst keyed
    constructor
    · rwa [interner_eq]
    · rwa [interner_eq, asked_eq, since_eq, clears_eq]
  cases entry.posted with
  | @hit request event asks within known shared succeeded after_eq events_eq =>
      rw [before_eq] at within known after_eq
      rw [limit] at within
      refine asking (some request.key) (by simp [Entry.isClear, asks])
        (by simp [Entry.key?, asks, succeeded, within]) (by rwa [after_eq]) ?_
      rw [after_eq]
      exact balances.hit known
  | @miss request value asks within unknown keyed succeeded after_eq events_eq =>
      rw [before_eq] at within unknown after_eq
      rw [limit] at within
      refine asking (some request.key) (by simp [Entry.isClear, asks])
        (by simp [Entry.key?, asks, succeeded, within]) ?_ ?_
      · rwa [after_eq, (keys_add keyed).2.2.2]
      · rw [after_eq]
        exact balances.miss unknown keyed
  | passed asks beyond after_eq events_eq =>
      rw [before_eq] at beyond after_eq
      rw [limit] at beyond
      refine asking none (by simp [Entry.isClear, asks])
        (by simp [Entry.key?, asks, beyond]) (by rwa [after_eq]) ?_
      simpa [after_eq] using balances
  | failed asks failed after_eq events_eq =>
      rw [before_eq] at after_eq
      refine asking none (by simp [Entry.isClear, asks])
        (by simp [Entry.key?, asks, failed]) (by rwa [after_eq]) ?_
      simpa [after_eq] using balances
  | cleared clearing after_eq events_eq =>
      rw [before_eq] at after_eq
      obtain ⟨clears_eq, since_eq⟩ :=
        enter_of_clear entered maxSlots (by simp [Entry.isClear, clearing])
      have void : entry.key? maxSlots = none := by simp [Entry.key?, clearing]
      rw [void, Option.toList_none, List.append_nil] at asked_eq
      constructor
      · rwa [interner_eq, after_eq]
      · rw [interner_eq, after_eq, asked_eq, since_eq, clears_eq, List.map_append,
          List.map_singleton, before_eq]
        exact balances.clear

theorem balanced_run (maxSlots : Nat) (uses : List (Use × Workspace)) :
    (run maxSlots uses).Balanced maxSlots := by
  induction uses using List.reverseRecOn with
  | nil => exact ⟨rfl, .withMaxSlots maxSlots⟩
  | append_singleton uses next inductionHypothesis =>
      rw [run, List.foldl_append]
      exact inductionHypothesis.enter next.1 next.2

end Books

/-- What a use writes into the log: one event for a hit, one with the counters when the interner is
cleared, and nothing otherwise. -/
def Entry.Logged (entry : Entry) : Prop :=
  match entry.use with
  | .ask request =>
    (entry.after.hits = entry.before.hits + 1 ∧
      ∃ event, request.key.sharedEvent? = some event ∧
        entry.left.events = entry.found.events.push event) ∨
    (entry.after.hits = entry.before.hits ∧ entry.left.events = entry.found.events)
  | .clear =>
    entry.after.hits = entry.before.hits ∧ entry.after.misses = entry.before.misses ∧
      entry.left.events =
        entry.found.events.push (.cacheCleared entry.before.hits entry.before.misses)

theorem Entry.logged (entry : Entry) : entry.Logged := by
  rw [Logged]
  cases entry.posted with
  | hit asks within known shared succeeded after_eq events_eq =>
      rw [asks]
      exact .inl ⟨by rw [after_eq], _, shared, events_eq⟩
  | miss asks within unknown keyed succeeded after_eq events_eq =>
      rw [asks]
      exact .inr ⟨by rw [after_eq, (keys_add keyed).2.1], events_eq⟩
  | passed asks beyond after_eq events_eq =>
      rw [asks]
      exact .inr ⟨by rw [after_eq], events_eq⟩
  | failed asks failed after_eq events_eq =>
      rw [asks]
      exact .inr ⟨by rw [after_eq], events_eq⟩
  | cleared clearing after_eq events_eq =>
      rw [clearing]
      exact ⟨by rw [after_eq], by rw [after_eq], events_eq⟩

/-- Whatever an interner is used for: every request that succeeds within the limit is a hit or a
miss, the values kept are as many as the keys asked for since the interner was last cleared, every
miss is a value kept or forgotten, and the log tells of all hits and of nothing else but the
clearing. -/
theorem accounts_balance (maxSlots : Nat) (uses : List (Use × Workspace)) :
    let books := Books.run maxSlots uses
    let interner := books.interner
    interner.hits + interner.misses = (books.asked maxSlots).length ∧
      interner.tokens.length =
        ((books.askedSinceClear maxSlots).filter (·.isToken)).toFinset.card ∧
      interner.nodes.length =
        ((books.askedSinceClear maxSlots).filter (!·.isToken)).toFinset.card ∧
      interner.misses = interner.tokens.length + interner.nodes.length +
        (books.clears.map fun entry =>
          entry.before.tokens.length + entry.before.nodes.length).sum ∧
      ∀ entry ∈ books.entries, entry.Logged := by
  intro books interner
  obtain ⟨-, balances⟩ := Books.balanced_run maxSlots uses
  obtain ⟨tokens_eq, nodes_eq⟩ := length_filter_keys interner
  refine ⟨balances.counted, ?_, ?_, ?_, fun entry _ => entry.logged⟩
  · rw [← tokens_eq]
    exact balances.length_filter_keys (·.isToken)
  · rw [← nodes_eq]
    exact balances.length_filter_keys (!·.isToken)
  · simpa only [length_keys] using balances.missed

namespace Sample

/-- The same token twice, a kind that no token has, a node beyond the limit, and the token once more
after all is forgotten. -/
def uses : List (Use × Workspace) :=
  [(.ask (.token TokenKind.identifier "a"), .empty),
    (.ask (.token TokenKind.identifier "a"), ⟨1, #[]⟩),
    (.ask (.token NodeKind.list "a"), ⟨1, #[]⟩),
    (.ask (.node NodeKind.simpleNameReference [.token Green.Sample.functionToken]), ⟨1, #[]⟩),
    (.clear, ⟨2, #[]⟩),
    (.ask (.token TokenKind.identifier "a"), ⟨2, #[]⟩)]

end Sample

open Sample in
theorem accounts_balance_of_uses :
    let interner := (Books.run 0 uses).interner
    interner.hits + interner.misses = 3 ∧ interner.tokens.length = 1 ∧ interner.nodes.length = 0 ∧
      interner.misses = 1 + 0 + 1 ∧ ∀ entry ∈ (Books.run 0 uses).entries, entry.Logged := by
  obtain ⟨counted, tokens_eq, nodes_eq, missed, logged⟩ := accounts_balance 0 uses
  exact ⟨counted.trans rfl, tokens_eq.trans (by decide), nodes_eq.trans (by decide), missed, logged⟩

end Interner

end SyntaxTree

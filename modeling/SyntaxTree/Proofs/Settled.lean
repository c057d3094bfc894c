import SyntaxTree.Proofs.Calls
import SyntaxTree.Proofs.Soundness
import SyntaxTree.Proofs.Undisturbed

/-!
Interners in the hands of a client. Every call leads an interner on to one that follows it, and only
clearing makes it forget. Main statement: of two answers of an interner, whatever was called before
and in between, it is known exactly when they are the same value.
-/

namespace SyntaxTree

variable {Memory : Type} {made : List Green.Slot} {session later : Session Memory}

namespace Interner

/-- Whether one interner may have become another without forgetting anything. -/
structure Grows (interner : Interner) (next : Nat) (later : Interner) (laterNext : Nat) : Prop
    extends interner.Follows next later laterNext where
  kept : ∀ value, interner.Keeps value → later.Keeps value

theorem Grows.of_le {interner : Interner} {next laterNext : Nat} (increased : next ≤ laterNext) :
    interner.Grows next interner laterNext :=
  ⟨.of_le increased, fun _ kept => kept⟩

theorem Grows.trans {interner later last : Interner} {next laterNext lastNext : Nat}
    (first : interner.Grows next later laterNext) (second : later.Grows laterNext last lastNext) :
    interner.Grows next last lastNext :=
  ⟨first.toFollows.trans second.toFollows, fun value kept => second.kept value (first.kept value kept)⟩

theorem Answered.grows {interner later : Interner} {workspace after : Workspace}
    {request : Request} {value : Green.Slot}
    (answered : Answered interner workspace request value later after) :
    interner.Grows workspace.nextSerial later after.nextSerial :=
  ⟨answered.follows, fun _ kept => answered.kept kept⟩

end Interner

namespace Session

def next (session : Session Memory) : Nat := session.workspace.nextSerial

/-- Whether what a client has was made, and its interners are sound. -/
structure Settled (session : Session Memory) (made : List Green.Slot) : Prop where
  holds : session.Holds made
  sound : ∀ interner ∈ session.interners, interner.Sound session.next

/-- Whether the interner of a number has gone on to one that it is related to. -/
def Leads (Related : Interner → Nat → Interner → Nat → Prop) (number : Nat)
    (session later : Session Memory) : Prop :=
  ∀ interner, session.interners[number]? = some interner →
    ∃ now, later.interners[number]? = some now ∧ Related interner session.next now later.next

def start (memory : Memory) : Session Memory := ⟨.empty, [], [], memory⟩

/-- The session after a call, which may fail. -/
def after (session : Session Memory) (call : Call) : Session Memory := call.run.final session

def run (session : Session Memory) (calls : List Call) : Session Memory := calls.foldl after session

end Session

theorem Green.Complete.nextSerial_le {workspace after : Workspace} {more : List Green.Slot}
    (complete : Green.Complete workspace made) (grown : made ⊆ more)
    (completeAfter : Green.Complete after more) : workspace.nextSerial ≤ after.nextSerial := by
  by_contra decreased
  obtain ⟨value, present, stamped⟩ := complete.accounted after.nextSerial (Nat.lt_of_not_le decreased)
  exact completeAfter.history.stamp_ne_next (grown present) stamped

theorem Tracked.final {Result : Type} {good : List Green.Slot → Result → Prop}
    {action : Client Memory Result} (tracked : Tracked Session.Holds made good action)
    (holds : session.Holds made) :
    ∃ more, made ⊆ more ∧ (Client.final action session).Holds more := by
  have ran := tracked.run (List.Subset.refl _) holds
  unfold Client.final
  split at ran
  · next run =>
      obtain ⟨more, grown, holdsAfter, _⟩ := ran
      rw [run]
      exact ⟨more, grown, holdsAfter⟩
  · next run =>
      obtain ⟨more, grown, holdsAfter⟩ := ran
      rw [run]
      exact ⟨more, grown, holdsAfter⟩

namespace Client

/-- Asks an interner for a value. -/
def ask (number : Nat) (request : Interner.Request) : Client Memory Green.Slot := do
  let interner ← heldInterner number
  let (value, later) ← perform (request.run interner)
  putInterner number later
  hold value
  return value

theorem ask_cases (number : Nat) (request : Interner.Request) (session : Session Memory) :
    (∃ halt, ask number request session = .error halt session ∧
      ∀ interner, session.interners[number]? = some interner →
        ∃ failure, request.create session.workspace = .error failure session.workspace) ∨
    ∃ interner value now workspace, session.interners[number]? = some interner ∧
      interner.Answered session.workspace request value now workspace ∧
      ask number request session = .ok value { session with
        workspace, interners := session.interners.set number now, held := session.held ++ [value] } := by
  cases found : session.interners[number]? with
  | none =>
      refine .inl ⟨.dangling number, ?_, fun _ same => by cases same⟩
      simp [ask, heldInterner, found, bind, EStateM.bind]
  | some interner =>
      rcases request.run_cases interner session.workspace with
        ⟨value, now, workspace, run, answered⟩ | ⟨failure, run, failed⟩
      · refine .inr ⟨interner, value, now, workspace, rfl, answered, ?_⟩
        simp [ask, heldInterner, found, perform, run, putInterner, hold, bind, EStateM.bind, pure,
          EStateM.pure]
      · refine .inl ⟨.failed failure, ?_, fun _ _ => ⟨failure, failed⟩⟩
        simp [ask, heldInterner, found, perform, run, bind, EStateM.bind]

end Client

def Interner.Request.slots : Interner.Request → List Green.Slot
  | token _ _ => []
  | node _ slots => slots

theorem Interner.Known.tracked_run {interner : Interner} (known : interner.Known made)
    {request : Interner.Request} (available : ∀ slot ∈ request.slots, Green.Available made slot) :
    Tracked Green.Complete made (fun now answer => answer.1 ∈ now ∧ answer.2.Known now)
      (request.run interner) := by
  cases request with
  | token kind text =>
      exact (known.tracked_token kind text).bind fun _ answer =>
        Tracked.pure fun grown => ⟨grown answer.1, answer.2.mono grown⟩
  | node kind slots =>
      exact (known.tracked_node kind available).bind fun _ answer =>
        Tracked.pure fun grown => ⟨grown answer.1, answer.2.mono grown⟩

theorem Client.tracked_ask (number : Nat) {request : Interner.Request}
    (available : ∀ slot ∈ request.slots, Green.Available made slot) :
    Tracked Session.Holds made (fun now value => value ∈ now)
      (ask number request : Client Memory Green.Slot) := by
  apply (tracked_heldInterner number).bind
  intro _ _ grown known
  have stillAvailable := fun slot present => (available slot present).mono grown
  apply (tracked_perform (known.tracked_run stillAvailable)).bind
  intro _ _ _ answer
  apply (tracked_putInterner number answer.2).bind
  intro _ _ grown _
  apply (tracked_hold (.inr (grown answer.1))).bind
  intro _ _ grownMore _
  exact Tracked.pure fun grownLast => grownLast (grownMore (grown answer.1))

namespace Session

/-- Whether a settled session has become another one in which more was made. -/
structure GoesOn (session : Session Memory) (made : List Green.Slot) (later : Session Memory)
    (more : List Green.Slot) : Prop where
  grown : made ⊆ more
  settled : later.Settled more
  memory_eq : later.memory = session.memory

theorem GoesOn.refl (settled : session.Settled made) : session.GoesOn made session made :=
  ⟨List.Subset.refl _, settled, rfl⟩

/-- Whether it has done so without any of its interners forgetting anything. -/
def Prospers (session : Session Memory) (made : List Green.Slot) (later : Session Memory) : Prop :=
  ∃ more, session.GoesOn made later more ∧ ∀ number, session.Leads Interner.Grows number later

theorem Holds.next_le {more : List Green.Slot} (holds : session.Holds made) (grown : made ⊆ more)
    (holdsLater : later.Holds more) : session.next ≤ later.next :=
  holds.complete.nextSerial_le grown holdsLater.complete

section Leads

variable {Related : Interner → Nat → Interner → Nat → Prop} {interner now : Interner}
  {number : Nat}

theorem Leads.trans {last : Session Memory}
    (transitive : ∀ {first second third : Interner} {next secondNext thirdNext : Nat},
      Related first next second secondNext → Related second secondNext third thirdNext →
        Related first next third thirdNext)
    (firstLeads : session.Leads Related number later) (secondLeads : later.Leads Related number last) :
    session.Leads Related number last := by
  intro interner found
  obtain ⟨between, foundBetween, related⟩ := firstLeads interner found
  obtain ⟨final, foundFinal, relatedFinal⟩ := secondLeads between foundBetween
  exact ⟨final, foundFinal, transitive related relatedFinal⟩

theorem Leads.weaken (grows : session.Leads Interner.Grows number later) :
    session.Leads Interner.Follows number later := by
  intro interner found
  obtain ⟨now, foundNow, grown⟩ := grows interner found
  exact ⟨now, foundNow, grown.toFollows⟩

/-- Putting one interner in place leads that one on to it, and the others to themselves. -/
theorem leads_of_set (other : Nat) (found : session.interners[number]? = some interner)
    (interners_eq : later.interners = session.interners.set number now)
    (related : other = number → Related interner session.next now later.next)
    (same : ∀ interner, Related interner session.next interner later.next) :
    session.Leads Related other later := by
  intro before foundBefore
  rw [interners_eq]
  by_cases chosen : other = number
  · subst chosen
    obtain ⟨inRange, _⟩ := List.getElem?_eq_some_iff.mp found
    obtain rfl := Option.some.inj (found.symm.trans foundBefore)
    exact ⟨now, List.getElem?_set_self inRange, related rfl⟩
  · refine ⟨before, ?_, same before⟩
    rw [List.getElem?_set_ne (Ne.symm chosen)]
    exact foundBefore

theorem leads_of_same (interners_eq : later.interners = session.interners)
    (same : ∀ interner, Related interner session.next interner later.next) (number : Nat) :
    session.Leads Related number later := by
  intro interner found
  rw [interners_eq]
  exact ⟨interner, found, same interner⟩

theorem sound_of_set (settled : session.Settled made) (increased : session.next ≤ later.next)
    (interners_eq : later.interners = session.interners.set number now)
    (nowSound : now.Sound later.next) :
    ∀ interner ∈ later.interners, interner.Sound later.next := by
  rw [interners_eq]
  intro interner present
  rcases List.mem_or_eq_of_mem_set present with kept | rfl
  · exact (settled.sound interner kept).mono increased
  · exact nowSound

end Leads

end Session

theorem Session.Prospers.refl (settled : session.Settled made) : session.Prospers made session :=
  ⟨made, .refl settled, Session.leads_of_same rfl fun _ => .of_le (Nat.le_refl _)⟩

theorem Client.ask_prospers (settled : session.Settled made) (number : Nat)
    (request : Interner.Request) (available : ∀ slot ∈ request.slots, Green.Available made slot) :
    session.Prospers made ((ask number request).final session) := by
  obtain ⟨more, grown, holds⟩ := (tracked_ask number available).final settled.holds
  rcases ask_cases number request session with
    ⟨halt, run, _⟩ | ⟨interner, value, now, workspace, found, answered, run⟩
  · rw [final_of_error run]
    exact .refl settled
  · rw [final_of_ok run] at holds ⊢
    have increased := settled.holds.next_le grown holds
    have nowSound := answered.sound (settled.sound interner (List.mem_of_getElem? found))
    refine ⟨more, ⟨grown, ⟨holds, ?_⟩, rfl⟩, fun other => ?_⟩
    · exact Session.sound_of_set settled increased rfl nowSound
    · exact Session.leads_of_set other found rfl (fun _ => answered.grows)
        fun _ => .of_le increased

namespace Call

open Client

theorem final_internToken (number : Nat) (kind : Kind) (text : String)
    (session : Session Memory) :
    (internToken number kind text).run.final session =
      (ask number (.token kind text)).final session := by
  cases found : session.interners[number]? with
  | none => simp [final, Call.run, ask, heldInterner, found, bind, EStateM.bind]
  | some interner =>
      cases run : interner.token kind text session.workspace <;>
        simp [final, Call.run, ask, Interner.Request.run, heldInterner, found, perform, run,
          putInterner, hold, bind, EStateM.bind, pure, EStateM.pure]

/-- Asking for a node by references is asking for it over the values they stand for, if all of them
stand for one. -/
theorem final_internNode (number : Nat) (kind : Kind) (contents : List (Option Nat))
    (session : Session Memory) :
    (internNode number kind contents).run.final session = session ∨
      ∃ slots, contents.mapM content session = .ok slots session ∧
        (internNode number kind contents).run.final session =
          (ask number (.node kind slots)).final session := by
  have reads : Preserves Eq (contents.mapM content : Client Memory (List Green.Slot)) :=
    Preserves.mapM Preserves.content contents
  have unchanged := (reads session).symm
  cases found : session.interners[number]? with
  | none =>
      left
      simp [final, Call.run, heldInterner, found, bind, EStateM.bind]
  | some interner =>
      cases read : contents.mapM content session with
      | error halt later =>
          left
          rw [final_of_error read] at unchanged
          simp [final, Call.run, heldInterner, found, read, unchanged, bind, EStateM.bind]
      | ok slots later =>
          rw [final_of_ok read] at unchanged
          subst unchanged
          refine .inr ⟨slots, rfl, ?_⟩
          cases run : interner.node kind slots later.workspace <;>
            simp [final, Call.run, ask, Interner.Request.run, heldInterner, found, read, perform,
              run, putInterner, hold, bind, EStateM.bind, pure, EStateM.pure]

theorem final_clearInterner (number : Nat) (session : Session Memory) :
    (session.interners[number]? = none ∧ (clearInterner number).run.final session = session) ∨
      ∃ interner events, session.interners[number]? = some interner ∧
        (clearInterner number).run.final session = { session with
          workspace := { session.workspace with events }
          interners := session.interners.set number interner.cleared } := by
  cases found : session.interners[number]? with
  | none =>
      left
      simp [final, Call.run, heldInterner, found, bind, EStateM.bind]
  | some interner =>
      refine .inr ⟨interner,
        session.workspace.events.push (.cacheCleared interner.hits interner.misses), rfl, ?_⟩
      simp [final, Call.run, heldInterner, found, perform, Interner.clear, Interner.cleared,
        putInterner, Build.record, bind, EStateM.bind, pure, EStateM.pure]

theorem prospers_of_undisturbed (call : Call) (settled : session.Settled made)
    (undisturbed : session.Undisturbed (session.after call)) :
    session.Prospers made (session.after call) := by
  obtain ⟨more, grown, holds⟩ := call.tracked_run.final settled.holds
  have increased := settled.holds.next_le grown holds
  refine ⟨more, ⟨grown, ⟨holds, ?_⟩, undisturbed.memory_eq⟩, fun number => ?_⟩
  · rw [undisturbed.interners_eq]
    exact fun interner present => (settled.sound interner present).mono increased
  · exact Session.leads_of_same undisturbed.interners_eq (fun _ => .of_le increased) number

theorem newInterner_prospers (maxSlots : Nat) (settled : session.Settled made) :
    session.Prospers made (session.after (.newInterner maxSlots)) := by
  obtain ⟨more, grown, holds⟩ := (newInterner maxSlots).tracked_run.final settled.holds
  have increased := settled.holds.next_le grown holds
  refine ⟨more, ⟨grown, ⟨holds, ?_⟩, rfl⟩, fun number interner found => ?_⟩
  · intro interner present
    rcases List.mem_append.mp present with earlier | added
    · exact (settled.sound interner earlier).mono increased
    · obtain rfl := List.mem_singleton.mp added
      exact Interner.sound_of_nothing (fun _ => Interner.not_keeps_of_empty rfl rfl) _
  · obtain ⟨inRange, _⟩ := List.getElem?_eq_some_iff.mp found
    exact ⟨interner, (List.getElem?_append_left inRange).trans found, .of_le increased⟩

theorem internNode_prospers (number : Nat) (kind : Kind) (contents : List (Option Nat))
    (settled : session.Settled made) :
    session.Prospers made (session.after (.internNode number kind contents)) := by
  rcases final_internNode number kind contents session with same | ⟨slots, read, asked⟩
  · rw [Session.after, same]
    exact .refl settled
  · have resolved := (tracked_contents contents).run (List.Subset.refl _) settled.holds
    rw [read] at resolved
    obtain ⟨middle, grown, holds, available⟩ := resolved
    have settledThen : session.Settled middle := ⟨holds, settled.sound⟩
    obtain ⟨more, goesOn, grows⟩ := ask_prospers settledThen number (.node kind slots) available
    rw [Session.after, asked]
    exact ⟨more, ⟨List.Subset.trans grown goesOn.grown, goesOn.settled, goesOn.memory_eq⟩, grows⟩

theorem clearInterner_goesOn (number : Nat) (settled : session.Settled made) :
    ∃ more, session.GoesOn made (session.after (.clearInterner number)) more ∧
      session.Leads Interner.Follows number (session.after (.clearInterner number)) ∧
      ∀ other, other ≠ number →
        session.Leads Interner.Grows other (session.after (.clearInterner number)) := by
  obtain ⟨more, grown, holds⟩ := (clearInterner number).tracked_run.final settled.holds
  rcases final_clearInterner number session with ⟨_, same⟩ | ⟨interner, events, found, same⟩
  · rw [Session.after, same]
    exact ⟨made, .refl settled, Session.leads_of_same rfl (fun _ => .refl _ _) number,
      fun other _ => Session.leads_of_same rfl (fun _ => .of_le (Nat.le_refl _)) other⟩
  · rw [Session.after, same]
    rw [same] at holds
    refine ⟨more, ⟨grown, ⟨holds, ?_⟩, rfl⟩, ?_, fun other unlike => ?_⟩
    · exact Session.sound_of_set settled (Nat.le_refl _) rfl
        (Interner.sound_of_nothing (fun _ => Interner.not_keeps_cleared) _)
    · exact Session.leads_of_set number found rfl (fun _ => interner.follows_cleared _)
        fun _ => .refl _ _
    · exact Session.leads_of_set other found rfl (fun chosen => absurd chosen unlike)
        fun _ => .of_le (Nat.le_refl _)

/-- A call keeps a session settled. No call but clearing makes an interner forget anything. -/
theorem goesOn (call : Call) (settled : session.Settled made) :
    ∃ more, session.GoesOn made (session.after call) more ∧
      ∀ number, session.Leads Interner.Follows number (session.after call) ∧
        (call ≠ .clearInterner number →
          session.Leads Interner.Grows number (session.after call)) := by
  by_cases clears : ∃ cleared, call = .clearInterner cleared
  · obtain ⟨cleared, rfl⟩ := clears
    obtain ⟨more, goesOn, follows, grows⟩ := clearInterner_goesOn cleared settled
    refine ⟨more, goesOn, fun number => ?_⟩
    by_cases same : number = cleared
    · subst same
      exact ⟨follows, fun unlike => absurd rfl unlike⟩
    · have numberGrows := grows number same
      exact ⟨numberGrows.weaken, fun _ => numberGrows⟩
  · have prospers : session.Prospers made (session.after call) := by
      by_cases forInterner : call.IsForInterner
      · cases call with
        | newInterner maxSlots => exact newInterner_prospers maxSlots settled
        | internToken number kind text =>
            rw [Session.after, final_internToken]
            exact ask_prospers settled number _ (List.forall_mem_nil _)
        | internNode number kind contents =>
            exact internNode_prospers number kind contents settled
        | clearInterner number => exact absurd ⟨number, rfl⟩ clears
        | _ => exact absurd forInterner id
      · exact prospers_of_undisturbed call settled (call.undisturbed_run forInterner session)
    obtain ⟨more, goesOn, grows⟩ := prospers
    exact ⟨more, goesOn, fun number => ⟨(grows number).weaken, fun _ => grows number⟩⟩

end Call

namespace Session

theorem settled_start (memory : Memory) : (start memory).Settled [] :=
  ⟨⟨.start, List.forall_mem_nil _, List.forall_mem_nil _⟩, List.forall_mem_nil _⟩

/-- Any run of calls keeps a session settled. One that does not clear an interner makes it forget
nothing. -/
theorem Settled.run (settled : session.Settled made) (calls : List Call) :
    ∃ more, session.GoesOn made (session.run calls) more ∧
      ∀ number, session.Leads Interner.Follows number (session.run calls) ∧
        (.clearInterner number ∉ calls →
          session.Leads Interner.Grows number (session.run calls)) := by
  induction calls generalizing session made with
  | nil =>
      refine ⟨made, .refl settled, fun number => ⟨?_, fun _ => ?_⟩⟩
      · exact leads_of_same rfl (fun _ => .refl _ _) number
      · exact leads_of_same rfl (fun _ => .of_le (Nat.le_refl _)) number
  | cons call rest inductionHypothesis =>
      obtain ⟨middle, first, firstLeads⟩ := call.goesOn settled
      obtain ⟨more, second, secondLeads⟩ := inductionHypothesis first.settled
      refine ⟨more, ⟨List.Subset.trans first.grown second.grown, second.settled,
        second.memory_eq.trans first.memory_eq⟩, fun number => ⟨?_, fun unlike => ?_⟩⟩
      · exact (firstLeads number).1.trans .trans (secondLeads number).1
      · rw [List.mem_cons, not_or] at unlike
        exact ((firstLeads number).2 (Ne.symm unlike.1)).trans .trans
          ((secondLeads number).2 unlike.2)

/-- Once an interner was cleared, no value made before is found again. -/
theorem Settled.past_of_run (settled : session.Settled made) {calls : List Call} {number : Nat}
    {interner now : Interner} {stamp : Stamp} (found : session.interners[number]? = some interner)
    (cleared : .clearInterner number ∈ calls) (below : stamp.serial < session.next)
    (foundNow : (session.run calls).interners[number]? = some now) :
    now.Past (session.run calls).next stamp := by
  induction calls generalizing session made interner with
  | nil => cases cleared
  | cons call rest inductionHypothesis =>
      obtain ⟨middle, first, firstLeads⟩ := call.goesOn settled
      obtain ⟨between, foundBetween, follows⟩ := (firstLeads number).1 interner found
      by_cases clears : call = .clearInterner number
      · subst clears
        obtain ⟨_, _, secondLeads⟩ := first.settled.run rest
        obtain ⟨last, foundLast, lastFollows⟩ := (secondLeads number).1 between foundBetween
        obtain rfl := Option.some.inj (foundLast.symm.trans foundNow)
        rcases Call.final_clearInterner number session with ⟨none, _⟩ | ⟨before, _, there, same⟩
        · rw [none] at found
          cases found
        · have between_eq : between = before.cleared := by
            rw [after, same] at foundBetween
            obtain ⟨inRange, _⟩ := List.getElem?_eq_some_iff.mp there
            exact Option.some.inj (foundBetween.symm.trans (List.getElem?_set_self inRange))
          rw [between_eq] at lastFollows
          exact (Interner.past_cleared (Nat.lt_of_lt_of_le below follows.next_le)).follows lastFollows
      · refine inductionHypothesis first.settled foundBetween ?_ ?_ foundNow
        · exact (List.mem_cons.mp cleared).resolve_left (Ne.symm clears)
        · exact Nat.lt_of_lt_of_le below follows.next_le

/-- Whether a client can pass a slot to a call. -/
def Offers (session : Session Memory) (slot : Green.Slot) : Prop :=
  slot = .absent ∨ slot ∈ session.held

end Session

end SyntaxTree

import SyntaxTree.Proofs.Client
import SyntaxTree.Proofs.Stateful

/-!
What the actions of a client leave alone. Main statement: only the calls that name an interner touch
one, and no call touches what the client remembers.
-/

namespace SyntaxTree

variable {Memory Result Next Item : Type}

namespace Client

/-- The session in which an action ends, whether or not it fails. -/
def final (action : Client Memory Result) (session : Session Memory) : Session Memory :=
  match action session with
  | .ok _ later | .error _ later => later

theorem final_of_ok {action : Client Memory Result} {session later : Session Memory}
    {result : Result} (run : action session = .ok result later) : action.final session = later := by
  rw [final, run]

theorem final_of_error {action : Client Memory Result} {session later : Session Memory}
    {halt : Halt} (run : action session = .error halt later) : action.final session = later := by
  rw [final, run]

/-- Whether an action, from whatever session, ends in one that is related to it. -/
def Preserves (Related : Session Memory → Session Memory → Prop)
    (action : Client Memory Result) : Prop :=
  ∀ session, Related session (action.final session)

theorem final_eq_ending (action : Client Memory Result) (session : Session Memory) :
    action.final session = ending action session := by
  unfold final ending
  cases action session <;> rfl

theorem preserves_iff {Related : Session Memory → Session Memory → Prop}
    {action : Client Memory Result} : Preserves Related action ↔ Maintains Related action :=
  forall_congr' fun session => by rw [final_eq_ending]

namespace Preserves

variable {Related : Session Memory → Session Memory → Prop} [Std.Refl Related]
  {action : Client Memory Result} {next : Result → Client Memory Next}

theorem pure (result : Result) : Preserves Related (Pure.pure result) := fun session =>
  Std.Refl.refl session

theorem throw (halt : Halt) :
    Preserves Related (MonadExcept.throw halt : Client Memory Result) := fun session =>
  Std.Refl.refl session

omit [Std.Refl Related] in
theorem bind [IsTrans (Session Memory) Related] (first : Preserves Related action)
    (second : ∀ result, Preserves Related (next result)) : Preserves Related (action >>= next) :=
  preserves_iff.mpr <| (preserves_iff.mp first).bind fun result => preserves_iff.mp (second result)

theorem mapM [IsTrans (Session Memory) Related] {each : Item → Client Memory Result}
    (preserves : ∀ item, Preserves Related (each item)) (items : List Item) :
    Preserves Related (items.mapM each) :=
  preserves_iff.mpr <| .mapM fun item _ => preserves_iff.mp (preserves item)

theorem heldSlot (reference : Nat) : Preserves Related (heldSlot reference) := by
  intro session
  unfold final Client.heldSlot
  cases session.held[reference]? <;> exact Std.Refl.refl session

theorem content (reference : Option Nat) : Preserves Related (content reference) := by
  cases reference with
  | some reference => exact heldSlot reference
  | none => exact pure _

theorem heldInterner (number : Nat) : Preserves Related (heldInterner number) := by
  intro session
  unfold final Client.heldInterner
  cases session.interners[number]? <;> exact Std.Refl.refl session

variable [IsTrans (Session Memory) Related]

theorem heldNode (reference : Nat) : Preserves Related (heldNode reference) := by
  refine (heldSlot reference).bind fun slot => ?_
  cases slot with
  | node node => exact pure _
  | token _ | absent => exact throw _

theorem heldToken (reference : Nat) : Preserves Related (heldToken reference) := by
  refine (heldSlot reference).bind fun slot => ?_
  cases slot with
  | token token => exact pure _
  | node _ | absent => exact throw _

end Preserves

end Client

/-- Whether interners and memory are as they were. -/
structure Session.Undisturbed (session later : Session Memory) : Prop where
  interners_eq : later.interners = session.interners
  memory_eq : later.memory = session.memory

namespace Session.Undisturbed

instance : Std.Refl (Undisturbed : Session Memory → Session Memory → Prop) :=
  ⟨fun _ => ⟨rfl, rfl⟩⟩

instance : IsTrans (Session Memory) Undisturbed :=
  ⟨fun _ _ _ first second => ⟨second.interners_eq.trans first.interners_eq,
    second.memory_eq.trans first.memory_eq⟩⟩

end Session.Undisturbed

namespace Client

open Session (Undisturbed)

theorem undisturbed_perform (action : Build Result) :
    Preserves Undisturbed (perform action : Client Memory Result) := by
  intro session
  unfold final perform
  cases action session.workspace <;> exact ⟨rfl, rfl⟩

theorem undisturbed_hold (slot : Green.Slot) :
    Preserves Undisturbed (hold slot : Client Memory Unit) := fun _ => ⟨rfl, rfl⟩

theorem undisturbed_locate (place : Place) :
    Preserves Undisturbed (locate place : Client Memory Red.Node) :=
  (Preserves.heldNode place.root).bind fun _ => undisturbed_perform _

theorem undisturbed_supply (values : List (Option Green.Slot)) {owner : NodeKind}
    (type : Typed.FieldType) (field : Typed.Field owner type) :
    Preserves Undisturbed (supply values type field : Client Memory type.Value) := by
  unfold supply
  split
  · exact .pure _
  · exact .throw _

theorem undisturbed_createWith (values : List (Option Green.Slot)) (kind : NodeKind) :
    Preserves Undisturbed (Typed.createWith kind (supply values) : Client Memory Red.Node) := by
  have supplied {owner : NodeKind} (type : Typed.FieldType) (field : Typed.Field owner type) :
      Preserves Undisturbed (supply values type field : Client Memory type.Value) :=
    undisturbed_supply values type field
  have finish {View : Type} (action : Build View) (node : View → Red.Node) :
      Preserves Undisturbed (do return node (← perform action) : Client Memory Red.Node) :=
    (undisturbed_perform action).bind fun _ => .pure _
  cases kind with
  | simpleNameReference | basicLiteral => exact (supplied _ _).bind fun _ => finish _ _
  | modulePart | expressionStatement | positionalArgument =>
      exact (supplied _ _).bind fun _ => (supplied _ _).bind fun _ => finish _ _
  | returnStatement | restArgument | binaryExpression | bracedExpression
  | qualifiedNameReference =>
      exact (supplied _ _).bind fun _ => (supplied _ _).bind fun _ => (supplied _ _).bind fun _ =>
        finish _ _
  | functionCallExpression | namedArgument =>
      exact (supplied _ _).bind fun _ => (supplied _ _).bind fun _ => (supplied _ _).bind fun _ =>
        (supplied _ _).bind fun _ => finish _ _
  | list => exact finish _ _

theorem undisturbed_resolve (edit : EditCall) :
    Preserves Undisturbed (edit.resolve : Client Memory Edit) := by
  cases edit with
  | set index content => exact (Preserves.content content).bind fun _ => .pure _
  | insert index element => exact (Preserves.heldNode element).bind fun _ => .pure _
  | push element => exact (Preserves.heldNode element).bind fun _ => .pure _
  | remove index => exact .pure _

end Client

/-- The calls that are for interners. -/
def Call.IsForInterner : Call → Prop
  | .newInterner _ | .internToken _ _ _ | .internNode _ _ _ | .clearInterner _ => True
  | _ => False

open Client in
theorem Call.undisturbed_run (call : Call) (other : ¬ call.IsForInterner) :
    Preserves Session.Undisturbed (call.run : Client Memory Unit) := by
  cases call with
  | token call => exact (undisturbed_perform _).bind fun _ => undisturbed_hold _
  | node kind contents remarks | tryNode kind contents =>
      exact (Preserves.mapM Preserves.content contents).bind fun _ =>
        (undisturbed_perform _).bind fun _ => undisturbed_hold _
  | list elements =>
      exact (Preserves.mapM Preserves.heldNode elements).bind fun _ =>
        (undisturbed_perform _).bind fun _ => undisturbed_hold _
  | typedNode kind fields =>
      have given (field : Option Nat) : Preserves Session.Undisturbed
          (field.mapM heldSlot : Client Memory (Option Green.Slot)) := by
        cases field with
        | some reference => exact (Preserves.heldSlot reference).bind fun _ => .pure _
        | none => exact .pure _
      exact (Preserves.mapM given fields).bind fun _ =>
        (undisturbed_createWith _ kind).bind fun _ => undisturbed_hold _
  | typedList elements =>
      exact (Preserves.mapM Preserves.heldNode elements).bind fun _ =>
        (undisturbed_perform _).bind fun _ => undisturbed_hold _
  | newInterner _ | internToken _ _ _ | internNode _ _ _ | clearInterner _ =>
      exact absurd trivial other
  | look place index =>
      exact (undisturbed_locate place).bind fun _ =>
        (undisturbed_perform _).bind fun _ => undisturbed_hold _
  | edit place edits =>
      exact (undisturbed_locate place).bind fun _ =>
        (Preserves.mapM undisturbed_resolve edits).bind fun _ =>
        (undisturbed_perform _).bind fun _ => undisturbed_hold _
  | replaceSlot place index value =>
      exact (undisturbed_locate place).bind fun _ => (Preserves.content value).bind fun _ =>
        (undisturbed_perform _).bind fun _ => undisturbed_hold _
  | replaceSlots place contents =>
      have given (entry : Nat × Option Nat) : Preserves Session.Undisturbed
          (do return (entry.1, ← content entry.2) : Client Memory (Nat × Green.Slot)) :=
        (Preserves.content entry.2).bind fun _ => .pure _
      exact (undisturbed_locate place).bind fun _ => (Preserves.mapM given contents).bind fun _ =>
        (undisturbed_perform _).bind fun _ => undisturbed_hold _
  | replaceNode place element =>
      exact (undisturbed_locate place).bind fun _ => (Preserves.heldNode element).bind fun _ =>
        (undisturbed_perform _).bind fun _ => undisturbed_hold _
  | replaceToken place index element =>
      refine (undisturbed_locate place).bind fun _ => (undisturbed_perform _).bind fun _ =>
        (Preserves.heldToken element).bind fun _ => (undisturbed_perform _).bind fun replaced => ?_
      cases replaced.parent? with
      | some holder => exact undisturbed_hold _
      | none => exact .pure _

end SyntaxTree

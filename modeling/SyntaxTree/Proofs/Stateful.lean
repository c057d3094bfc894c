import SyntaxTree.Proofs.Transforming

/-!
Actions and the states they end in. A transform may keep notes, so building is also done with a
state of one's own beside the workspace. Main statement: what the handling of every node and token
maintains, a transform maintains.
-/

namespace SyntaxTree

variable {Error World Result Next Item : Type}

/-- The state in which an action ends, whether or not it fails. -/
def ending (action : EStateM Error World Result) (world : World) : World :=
  match action world with
  | .ok _ later | .error _ later => later

theorem ending_of_ok {action : EStateM Error World Result} {world later : World} {result : Result}
    (run : action world = .ok result later) : ending action world = later := by
  rw [ending, run]

theorem ending_of_error {action : EStateM Error World Result} {world later : World} {error : Error}
    (run : action world = .error error later) : ending action world = later := by
  rw [ending, run]

/-- Whether an action, from whatever state, ends in one that is related to it. -/
def Maintains (Related : World → World → Prop) (action : EStateM Error World Result) : Prop :=
  ∀ world, Related world (ending action world)

namespace Maintains

variable {Related : World → World → Prop} {action : EStateM Error World Result}
  {next : Result → EStateM Error World Next}

theorem pure [Std.Refl Related] (result : Result) :
    Maintains Related (Pure.pure result : EStateM Error World Result) :=
  fun world => Std.Refl.refl world

variable [IsTrans World Related]

theorem bind (first : Maintains Related action)
    (second : ∀ result, Maintains Related (next result)) : Maintains Related (action >>= next) := by
  intro world
  have reached := first world
  unfold ending at reached ⊢
  simp only [Bind.bind, EStateM.bind]
  cases run : action world with
  | ok result later =>
      rw [run] at reached
      exact IsTrans.trans _ _ _ reached (second result later)
  | error error later =>
      rw [run] at reached
      exact reached

theorem mapM [Std.Refl Related] {each : Item → EStateM Error World Result} {items : List Item}
    (maintained : ∀ item ∈ items, Maintains Related (each item)) :
    Maintains Related (items.mapM each) := by
  induction items with
  | nil =>
      rw [List.mapM_nil]
      exact pure _
  | cons item items inductionHypothesis =>
      rw [List.forall_mem_cons] at maintained
      rw [List.mapM_cons]
      exact maintained.1.bind fun _ => (inductionHypothesis maintained.2).bind fun _ => pure _

end Maintains

/-- Whether an action succeeds from whatever state, with a result of a certain kind. -/
def Delivers (good : Result → Prop) (action : EStateM Error World Result) : Prop :=
  ∀ world, ∃ result later, action world = .ok result later ∧ good result

namespace Delivers

variable {good : Result → Prop} {goodNext : Next → Prop} {action : EStateM Error World Result}
  {next : Result → EStateM Error World Next}

theorem pure {result : Result} (goodResult : good result) :
    Delivers good (Pure.pure result : EStateM Error World Result) :=
  fun world => ⟨result, world, rfl, goodResult⟩

theorem bind (first : Delivers good action)
    (second : ∀ result, good result → Delivers goodNext (next result)) :
    Delivers goodNext (action >>= next) := by
  intro world
  obtain ⟨result, between, firstRun, goodResult⟩ := first world
  obtain ⟨final, later, secondRun, goodFinal⟩ := second result goodResult between
  exact ⟨final, later, by simp [Bind.bind, EStateM.bind, firstRun, secondRun], goodFinal⟩

theorem mapM {goodItem : Item → Result → Prop} {each : Item → EStateM Error World Result}
    {items : List Item} (delivered : ∀ item ∈ items, Delivers (goodItem item) (each item)) :
    Delivers (List.Forall₂ goodItem items) (items.mapM each) := by
  induction items with
  | nil =>
      rw [List.mapM_nil]
      exact pure .nil
  | cons item items inductionHypothesis =>
      rw [List.forall_mem_cons] at delivered
      rw [List.mapM_cons]
      exact delivered.1.bind fun result goodResult =>
        (inductionHypothesis delivered.2).bind fun results goodResults =>
          pure (.cons goodResult goodResults)

end Delivers

namespace Transform

theorem maintains_greenOf {Related : World → World → Prop} [Std.Refl Related]
    [IsTrans World Related] [MonadLiftT Build (EStateM Error World)]
    {transform : Transform (EStateM Error World)}
    (onNode : ∀ node rebuilt, Maintains Related rebuilt →
      Maintains Related (transform.onNode node rebuilt))
    (onToken : ∀ token, Maintains Related (transform.onToken token))
    (create : ∀ kind slots,
      Maintains Related (liftM (Green.Node.tryCreate kind slots) : EStateM Error World Green.Node))
    (node : Red.Node) : Maintains Related (transform.greenOf node) := by
  induction node using Red.Node.below_induction with
  | step node inductionHypothesis =>
      rw [greenOf_eq_onNode]
      refine onNode node _ ((Maintains.mapM fun slot present => ?_).bind fun slots => ?_)
      · cases slot with
        | node below => exact (inductionHypothesis present).bind fun _ => .pure _
        | token token => exact (onToken token).bind fun _ => .pure _
        | absent => exact .pure _
      · split
        · exact .pure _
        · exact create _ _

end Transform

/-- Building with a state of one's own beside the workspace. -/
abbrev BuildWith (State : Type) := EStateM Failure (Workspace × State)

namespace BuildWith

variable {State : Type}

/-- Builds, and leaves the state of one's own as it is. -/
def ofBuild (action : Build Result) : BuildWith State Result := fun (workspace, state) =>
  match action workspace with
  | .ok result later => .ok result (later, state)
  | .error failure later => .error failure (later, state)

instance : MonadLift Build (BuildWith State) := ⟨ofBuild⟩

theorem liftM_eq (action : Build Result) :
    (liftM action : BuildWith State Result) = ofBuild action :=
  rfl

theorem ending_ofBuild (action : Build Result) (workspace : Workspace) (state : State) :
    ending (ofBuild action) (workspace, state) = (ending action workspace, state) := by
  unfold ending ofBuild
  dsimp only
  cases action workspace <;> rfl

end BuildWith

end SyntaxTree

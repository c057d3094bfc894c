import SyntaxTree.Typed.Untyped

/-!
Typed values are the values they are made from. Main statement: what a typed field stores is the
green value that the field's value was read from.
-/

namespace SyntaxTree.Typed

/-- A view that gives back the node it is made from. -/
class LawfulView (Value : Type) [View Value] : Prop where
  node_eq {node : Red.Node} {value : Value} :
    View.ofNode? node = some value → View.node value = node

instance (kind : NodeKind) : LawfulView (NodeOf kind) where
  node_eq found := by
    obtain ⟨_, same⟩ := Option.dite_none_right_eq_some.mp found
    cases same
    rfl

instance (Element : Type) : LawfulView (NodeList Element) where
  node_eq found := by
    obtain ⟨_, same⟩ := Option.dite_none_right_eq_some.mp found
    cases same
    rfl

instance : LawfulView Expression where
  node_eq {node value} found := by
    simp only [View.ofNode?, Expression.ofNode?] at found
    split at found <;> cases found <;> rfl

instance : LawfulView NameReference where
  node_eq {node value} found := by
    simp only [View.ofNode?, NameReference.ofNode?] at found
    split at found <;> cases found <;> rfl

theorem asToken_eq_ok {slot : Green.Slot} {token : Red.Token}
    (converted : asToken slot = .ok token) : tokenSlot token = slot := by
  cases slot <;> cases converted
  rfl

theorem asRoot_eq_ok {Value : Type} [View Value] [LawfulView Value] {slot : Green.Slot}
    {value : Value} (converted : asRoot slot = .ok value) : nodeSlot value = slot := by
  cases slot with
  | token token => cases converted
  | absent => cases converted
  | node node =>
      have viewed : asView (.root node) = .ok value := converted
      unfold asView at viewed
      split at viewed
      · next found =>
          cases viewed
          rw [nodeSlot, LawfulView.node_eq found]
          rfl
      · cases viewed

theorem mapM_some_eq_ok {Value : Type} {convert : Green.Slot → Conversion Value} {slot : Green.Slot}
    {value : Option Value} (converted : (some slot).mapM convert = .ok value) :
    ∃ present, convert slot = .ok present ∧ value = some present := by
  cases outcome : convert slot with
  | error reason =>
      rw [Option.mapM_some, outcome] at converted
      cases converted
  | ok present =>
      rw [Option.mapM_some, outcome] at converted
      cases converted
      exact ⟨present, rfl, rfl⟩

/-- A field stores what its value was made from. -/
theorem FieldType.toGreen_of_ofGreen {type : FieldType} {given : Option Green.Slot}
    {value : type.Value} (converted : type.ofGreen given = .ok value) :
    type.toGreen value = given.getD .absent := by
  cases type with
  | token => exact asToken_eq_ok converted
  | expression => exact asRoot_eq_ok converted
  | nameReference => exact asRoot_eq_ok converted
  | simpleNameReference => exact asRoot_eq_ok converted
  | statements => exact asRoot_eq_ok converted
  | arguments => exact asRoot_eq_ok converted
  | optionalToken =>
      cases given with
      | none =>
          cases converted
          rfl
      | some slot =>
          obtain ⟨present, found, rfl⟩ := mapM_some_eq_ok converted
          exact asToken_eq_ok found
  | optionalExpression =>
      cases given with
      | none =>
          cases converted
          rfl
      | some slot =>
          obtain ⟨present, found, rfl⟩ := mapM_some_eq_ok converted
          exact asRoot_eq_ok found

end SyntaxTree.Typed

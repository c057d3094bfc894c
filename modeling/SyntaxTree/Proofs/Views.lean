import SyntaxTree.Proofs.Fields
import SyntaxTree.Proofs.Placement

/-!
Views and the grammar. Three tables are written down apart: the layouts, the slots that the fields
read, and the variants of the unions. Main statement: they agree, so that a field reads whatever its
slot may hold, as a value that wraps the very handle in the slot.
-/

namespace SyntaxTree.Typed

/-- A view that goes by the kinds of nodes alone. Its values tell the kind that they stand for,
which is the kind of the node behind them. -/
class KindView (Value : Type) [View Value] extends LawfulView Value where
  isSome_ofNode? (node : Red.Node) :
    (View.ofNode? node : Option Value).isSome = View.accepts Value node.kind
  accepts_node (value : Value) : View.accepts Value (View.node value).kind = true
  /-- The node behind a value, viewed as the variant of the value says. -/
  toAny : Value → AnyNode
  toAny_eq (value : Value) : toAny value = .ofNode (View.node value)

namespace NodeOf

variable {kind : NodeKind}

def toAny (view : NodeOf kind) : AnyNode := ⟨kind, view⟩

theorem toAny_eq (view : NodeOf kind) : view.toAny = .ofNode view.node := by
  obtain ⟨node, rfl⟩ := view
  rfl

instance : KindView (NodeOf kind) where
  isSome_ofNode? node := by
    by_cases isKind : node.kind = kind <;> simp [View.ofNode?, ofNode?, View.accepts, isKind]
  accepts_node view := by simp [View.accepts, View.node, view.kind_eq]
  toAny := toAny
  toAny_eq := toAny_eq

end NodeOf

instance (Element : Type) : KindView (NodeList Element) where
  isSome_ofNode? node := by
    by_cases isList : node.kind = .list <;>
      simp [View.ofNode?, NodeList.ofNode?, View.accepts, isList]
  accepts_node list := by simp [View.accepts, View.node, list.kind_eq]
  toAny list := NodeOf.toAny ⟨list.node, list.kind_eq⟩
  toAny_eq list := NodeOf.toAny_eq _

instance : KindView AnyNode where
  node_eq found := by
    cases found
    rfl
  isSome_ofNode? node := rfl
  accepts_node value := rfl
  toAny value := value
  toAny_eq value := NodeOf.toAny_eq value.view

instance : KindView Expression where
  isSome_ofNode? node := by
    simp only [View.ofNode?, Expression.ofNode?]
    split <;> simp_all [View.accepts, Expression.accepts]
  accepts_node value := by
    cases value with
    | functionCall view | binary view | braced view | simpleName view | qualifiedName view
    | literal view =>
      simp [View.accepts, View.node, Expression.node, Expression.accepts, view.kind_eq]
  toAny
    | .functionCall view => view.toAny
    | .binary view => view.toAny
    | .braced view => view.toAny
    | .simpleName view => view.toAny
    | .qualifiedName view => view.toAny
    | .literal view => view.toAny
  toAny_eq value := by cases value <;> exact NodeOf.toAny_eq _

instance : KindView NameReference where
  isSome_ofNode? node := by
    simp only [View.ofNode?, NameReference.ofNode?]
    split <;> simp_all [View.accepts, NameReference.accepts]
  accepts_node value := by
    cases value with
    | simple view | qualified view =>
      simp [View.accepts, View.node, NameReference.node, NameReference.accepts, view.kind_eq]
  toAny
    | .simple view => view.toAny
    | .qualified view => view.toAny
  toAny_eq value := by cases value <;> exact NodeOf.toAny_eq _

instance : KindView Statement where
  node_eq {node value} found := by
    simp only [View.ofNode?, Statement.ofNode?] at found
    split at found <;> cases found <;> rfl
  isSome_ofNode? node := by
    simp only [View.ofNode?, Statement.ofNode?]
    split <;> simp_all [View.accepts, Statement.accepts]
  accepts_node value := by
    cases value with
    | returning view | expression view =>
      simp [View.accepts, View.node, Statement.node, Statement.accepts, view.kind_eq]
  toAny
    | .returning view => view.toAny
    | .expression view => view.toAny
  toAny_eq value := by cases value <;> exact NodeOf.toAny_eq _

instance : KindView FunctionArgument where
  node_eq {node value} found := by
    simp only [View.ofNode?, FunctionArgument.ofNode?] at found
    split at found <;> cases found <;> rfl
  isSome_ofNode? node := by
    simp only [View.ofNode?, FunctionArgument.ofNode?]
    split <;> simp_all [View.accepts, FunctionArgument.accepts]
  accepts_node value := by
    cases value with
    | positional view | named view | rest view =>
      simp [View.accepts, View.node, FunctionArgument.node, FunctionArgument.accepts, view.kind_eq]
  toAny
    | .positional view => view.toAny
    | .named view => view.toAny
    | .rest view => view.toAny
  toAny_eq value := by cases value <;> exact NodeOf.toAny_eq _

section KindView

variable {Value : Type} [View Value] [KindView Value]

theorem exists_ofNode?_iff {node : Red.Node} :
    (∃ value : Value, View.ofNode? node = some value) ↔ View.accepts Value node.kind = true := by
  rw [← Option.isSome_iff_exists, KindView.isSome_ofNode?]

/-- Whether a set of kinds holds just the node kinds that a view accepts. -/
def agrees (Value : Type) [View Value] (kinds : KindSet) : Bool :=
  NodeKind.all.all fun kind => kinds.contains kind == View.accepts Value kind

omit [KindView Value] in
theorem contains_eq_of_agrees {kinds : KindSet} (agreed : agrees Value kinds = true)
    (kind : NodeKind) : kinds.contains kind = View.accepts Value kind := by
  have listed : kind ∈ NodeKind.all := by cases kind <;> decide
  simpa using List.all_eq_true.mp agreed kind listed

/-- A node of a kind that a slot takes is read as a value. -/
theorem exists_nodeOfSlot?_of_agrees {kinds : KindSet} (agreed : agrees Value kinds = true)
    {node : Red.Node} (member : kinds.contains node.kind = true) :
    ∃ value : Value, nodeOfSlot? (.node node) = some value ∧ View.node value = node := by
  rw [contains_eq_of_agrees agreed] at member
  obtain ⟨value, found⟩ := exists_ofNode?_iff.mpr member
  exact ⟨value, found, LawfulView.node_eq found⟩

end KindView

/-- The slot that a value was read from. -/
def handleSlot {Value : Type} [View Value] (value : Value) : Red.Slot := .node (View.node value)

namespace FieldType

def isOptional : FieldType → Bool
  | optionalToken | optionalExpression => true
  | token | expression | nameReference | simpleNameReference | statements | arguments => false

/-- Whether the values of a field are those that a slot of some shape may hold. -/
def takes : FieldType → SlotShape → Bool
  | token, .token _ | optionalToken, .token _ => true
  | expression, .node kinds | optionalExpression, .node kinds => agrees Expression kinds
  | nameReference, .node kinds => agrees NameReference kinds
  | simpleNameReference, .node kinds => agrees SimpleNameReference kinds
  | statements, .list elements => agrees Statement elements
  | arguments, .list elements => agrees FunctionArgument elements
  | _, _ => false

/-- The slot that a value of a field stands for. -/
def toRed : (type : FieldType) → type.Value → Red.Slot
  | token => .token
  | optionalToken => fun token => token.elim .absent .token
  | expression => handleSlot
  | optionalExpression => fun value => value.elim .absent handleSlot
  | nameReference => handleSlot
  | simpleNameReference => handleSlot
  | statements => handleSlot
  | arguments => handleSlot

/-- What the values of a field say that they are, for those that stand for nodes. -/
def toAny? : (type : FieldType) → type.Value → Option AnyNode
  | token | optionalToken => fun _ => none
  | expression => some ∘ KindView.toAny
  | optionalExpression => Option.map KindView.toAny
  | nameReference => some ∘ KindView.toAny
  | simpleNameReference => some ∘ KindView.toAny
  | statements => some ∘ KindView.toAny
  | arguments => some ∘ KindView.toAny

/-- Whether a value stands for nothing. -/
def missing : (type : FieldType) → type.Value → Bool
  | optionalToken => Option.isNone
  | optionalExpression => Option.isNone
  | token | expression | nameReference | simpleNameReference | statements | arguments =>
    fun _ => false

theorem toAny?_eq {type : FieldType} (value : type.Value) :
    type.toAny? value = (type.toRed value).node?.map .ofNode := by
  cases type with
  | token => rfl
  | optionalToken => cases value <;> rfl
  | optionalExpression =>
      cases value with
      | none => rfl
      | some value => exact congrArg some (KindView.toAny_eq value)
  | expression | nameReference | simpleNameReference | statements | arguments =>
      exact congrArg some (KindView.toAny_eq value)

theorem missing_iff {type : FieldType} (value : type.Value) :
    type.missing value = true ↔ type.toRed value = .absent := by
  cases type with
  | optionalToken | optionalExpression => cases value <;> simp [missing, toRed, handleSlot]
  | token | expression | nameReference | simpleNameReference | statements | arguments =>
      simp [missing, toRed, handleSlot]

/-- What a slot may hold is read as a value that stands for that slot. -/
theorem exists_of_admits {type : FieldType} {spec : SlotSpec} {slot : Red.Slot}
    (optional_eq : spec.optional = type.isOptional) (taken : type.takes spec.shape = true)
    (admitted : spec.Admits (Green.Slot.description slot.green)) :
    ∃ value, type.ofSlot? slot = some value ∧ slot = type.toRed value := by
  cases slot with
  | absent =>
      change spec.Admits .absent at admitted
      cases admitted with
      | absent isOptional =>
          rw [isOptional] at optional_eq
          cases type with
          | optionalToken | optionalExpression => exact ⟨none, rfl, rfl⟩
          | token | expression | nameReference | simpleNameReference | statements | arguments =>
              cases optional_eq
  | token token =>
      change spec.Admits (.token token.green) at admitted
      cases admitted with
      | token shape _ =>
          rw [shape] at taken
          cases type with
          | token => exact ⟨token, rfl, rfl⟩
          | optionalToken => exact ⟨some token, rfl, rfl⟩
          | expression | optionalExpression | nameReference | simpleNameReference | statements
          | arguments => cases taken
  | node node =>
      change spec.Admits (.node node.green.description) at admitted
      cases admitted with
      | node shape member =>
          rw [Green.Node.description_kind] at member
          rw [shape] at taken
          cases type with
          | optionalExpression =>
              obtain ⟨value, found, same⟩ := exists_nodeOfSlot?_of_agrees taken member
              exact ⟨some value, congrArg some found, congrArg SyntaxTree.Slot.node same.symm⟩
          | expression | nameReference | simpleNameReference =>
              obtain ⟨value, found, same⟩ := exists_nodeOfSlot?_of_agrees taken member
              exact ⟨value, found, congrArg SyntaxTree.Slot.node same.symm⟩
          | token | optionalToken | statements | arguments => cases taken
      | list shape isList _ =>
          rw [Green.Node.description_kind] at isList
          rw [shape] at taken
          cases type with
          | statements | arguments => exact ⟨⟨node, isList⟩, dif_pos isList, rfl⟩
          | token | optionalToken | expression | optionalExpression | nameReference
          | simpleNameReference => cases taken

end FieldType

/-- The fields of a kind are the slots of its layout, in order. -/
theorem fieldsOf_index (owner : NodeKind) :
    (fieldsOf owner).map (·.field.index) = List.range owner.layout.length := by
  cases owner <;> rfl

/-- Every field is optional as its slot is, and takes what its slot may hold. -/
theorem exists_spec_of_field {owner : NodeKind} {field : AnyField owner}
    (listed : field ∈ fieldsOf owner) :
    ∃ spec, owner.layout[field.field.index]? = some spec ∧
      spec.optional = field.type.isOptional ∧ field.type.takes spec.shape = true := by
  have agreed : (fieldsOf owner).all (fun field => owner.layout[field.field.index]?.any fun spec =>
      spec.optional == field.type.isOptional && field.type.takes spec.shape) = true := by
    cases owner <;> rfl
  simpa [Option.any_eq_true] using List.all_eq_true.mp agreed field listed

end SyntaxTree.Typed

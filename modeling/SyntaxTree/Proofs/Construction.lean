import SyntaxTree.Typed.Create
import SyntaxTree.Proofs.Access

/-!
Typed constructors. A constructor pairs its parameters with the fields of its kind. Main statement:
it succeeds exactly when every token and every element of a list is of a kind that its slot takes,
and then each field reads what was given for it.
-/

namespace SyntaxTree

namespace SlotSpec

variable {spec : SlotSpec}

theorem admits_token_iff {kinds : KindSet} {token : Green.Token}
    (shape : spec.shape = .token kinds) :
    spec.Admits (.token token) ↔ kinds.contains token.kind = true := by
  constructor
  · intro admitted
    cases admitted with
    | token sameShape member =>
        cases shape.symm.trans sameShape
        exact member
  · exact .token shape

theorem admits_list_iff_elements {elements : KindSet} {green : Green.Node}
    (shape : spec.shape = .list elements) (isList : green.kind = .list) :
    spec.Admits (.node green.description) ↔
      ∀ slot ∈ green.slots, ∃ element : Green.Node,
        slot = .node element ∧ elements.contains element.kind = true := by
  simp only [admits_list_iff shape, isList, true_and]
  refine forall₂_congr fun slot _ => node_admits_iff.trans ?_
  constructor
  · rintro ⟨_, described, member⟩
    obtain ⟨element, rfl, rfl⟩ := Green.Slot.description_eq_node_iff.mp described
    exact ⟨element, rfl, by simpa using member⟩
  · rintro ⟨element, rfl, member⟩
    exact ⟨element.description, rfl, by simpa using member⟩

theorem index_eq_of_inOrder {Item : Type} {items : List Item} {index : Item → Nat} {count : Nat}
    (inOrder : items.map index = List.range count) {place : Nat} {item : Item}
    (found : items[place]? = some item) : index item = place := by
  have atPlace := congrArg (fun indexes : List Nat => indexes[place]?) inOrder
  simp only [List.getElem?_map, found, Option.map_some] at atPlace
  obtain ⟨_, same⟩ := List.getElem?_eq_some_iff.mp atPlace.symm
  rw [← same, List.getElem_range]

/-- Specs are met in order when each item meets the spec at its index. -/
theorem admitAll_map_iff {Item : Type} {items : List Item} {index : Item → Nat}
    {green : Item → Green.Slot} {specs : List SlotSpec}
    (inOrder : items.map index = List.range specs.length) :
    AdmitAll specs (items.map green) ↔
      ∀ item ∈ items, ∀ spec, specs[index item]? = some spec →
        spec.Admits (Green.Slot.description (green item)) := by
  have sameLength : items.length = specs.length := by
    simpa using congrArg List.length inOrder
  constructor
  · intro admitted item present spec found
    obtain ⟨place, itemFound⟩ := List.mem_iff_getElem?.mp present
    rw [index_eq_of_inOrder inOrder itemFound] at found
    exact admitted.get found (by simp [itemFound])
  · intro each
    refine List.forall₂_iff_get.mpr ⟨by simp [sameLength], fun place inSpecs inItems => ?_⟩
    have inItems : place < items.length := by simpa using inItems
    have found := List.getElem?_eq_getElem inItems
    simp only [List.get_eq_getElem, List.getElem_map]
    refine each _ (List.getElem_mem inItems) _ ?_
    rw [index_eq_of_inOrder inOrder found]
    exact List.getElem?_eq_getElem inSpecs

end SlotSpec

namespace Typed

theorem admits_nodeSlot {Value : Type} [View Value] [KindView Value] {spec : SlotSpec}
    {kinds : KindSet} (shape : spec.shape = .node kinds) (agreed : agrees Value kinds = true)
    (value : Value) : spec.Admits (Green.Slot.description (nodeSlot value)) := by
  refine (SlotSpec.admits_node_iff shape).mpr ?_
  rw [Green.Node.description_kind, contains_eq_of_agrees agreed]
  exact KindView.accepts_node value

namespace FieldType

theorem toGreen_eq {type : FieldType} (value : type.Value) :
    type.toGreen value = (type.toRed value).green := by
  cases type with
  | optionalToken | optionalExpression => cases value <;> rfl
  | token | expression | nameReference | simpleNameReference | statements | arguments => rfl

/-- A token that was given is of a kind that a slot takes, and the elements of a list that was given
are nodes of kinds that it takes. Other values fit by their types. -/
structure Suits (type : FieldType) (spec : SlotSpec) (value : type.Value) : Prop where
  token {token : Red.Token} {kinds : KindSet} : type.toRed value = .token token →
    spec.shape = .token kinds → kinds.contains token.kind = true
  elements {list : Red.Node} {elements : KindSet} : type.toRed value = .node list →
    spec.shape = .list elements → ∀ slot ∈ list.green.slots, ∃ element : Green.Node,
      slot = .node element ∧ elements.contains element.kind = true

theorem suits_token_iff {spec : SlotSpec} {kinds : KindSet} (shape : spec.shape = .token kinds)
    {type : FieldType} {value : type.Value} {token : Red.Token}
    (given : type.toRed value = .token token) :
    type.Suits spec value ↔ kinds.contains token.kind = true := by
  constructor
  · exact fun suits => suits.token given shape
  · refine fun member => ⟨fun same shapeAgain => ?_, fun other => ?_⟩
    · cases given.symm.trans same
      cases shape.symm.trans shapeAgain
      exact member
    · cases given.symm.trans other

theorem suits_list_iff {spec : SlotSpec} {elements : KindSet} (shape : spec.shape = .list elements)
    {type : FieldType} {value : type.Value} {list : Red.Node}
    (given : type.toRed value = .node list) :
    type.Suits spec value ↔ ∀ slot ∈ list.green.slots, ∃ element : Green.Node,
      slot = .node element ∧ elements.contains element.kind = true := by
  constructor
  · exact fun suits => suits.elements given shape
  · refine fun fits => ⟨fun other => ?_, fun same shapeAgain => ?_⟩
    · cases given.symm.trans other
    · cases given.symm.trans same
      cases shape.symm.trans shapeAgain
      exact fits

theorem suits_of_node {spec : SlotSpec} {kinds : KindSet} (shape : spec.shape = .node kinds)
    {type : FieldType} (value : type.Value) : type.Suits spec value := by
  refine ⟨fun _ other => ?_, fun _ other => ?_⟩
  · cases shape.symm.trans other
  · cases shape.symm.trans other

theorem suits_of_absent {spec : SlotSpec} {type : FieldType} {value : type.Value}
    (given : type.toRed value = .absent) : type.Suits spec value := by
  refine ⟨fun other => ?_, fun other => ?_⟩
  · cases given.symm.trans other
  · cases given.symm.trans other

/-- A value may go into a slot of its field just when it suits it. -/
theorem admits_toGreen_iff {type : FieldType} {spec : SlotSpec} {value : type.Value}
    (optional_eq : spec.optional = type.isOptional) (taken : type.takes spec.shape = true) :
    spec.Admits (Green.Slot.description (type.toGreen value)) ↔ type.Suits spec value := by
  cases type with
  | token =>
      cases shape : spec.shape with
      | token kinds =>
          rw [suits_token_iff shape rfl]
          exact SlotSpec.admits_token_iff shape
      | node kinds | list elements =>
          rw [shape] at taken
          cases taken
  | optionalToken =>
      cases shape : spec.shape with
      | token kinds =>
          cases value with
          | none => exact iff_of_true (.absent optional_eq) (suits_of_absent rfl)
          | some token =>
              rw [suits_token_iff shape rfl]
              exact SlotSpec.admits_token_iff shape
      | node kinds | list elements =>
          rw [shape] at taken
          cases taken
  | optionalExpression =>
      cases shape : spec.shape with
      | node kinds =>
          rw [shape] at taken
          cases value with
          | none => exact iff_of_true (.absent optional_eq) (suits_of_node shape _)
          | some value =>
              exact iff_of_true (admits_nodeSlot shape taken value) (suits_of_node shape _)
      | token kinds | list elements =>
          rw [shape] at taken
          cases taken
  | expression | nameReference | simpleNameReference =>
      cases shape : spec.shape with
      | node kinds =>
          rw [shape] at taken
          exact iff_of_true (admits_nodeSlot shape taken value) (suits_of_node shape _)
      | token kinds | list elements =>
          rw [shape] at taken
          cases taken
  | statements | arguments =>
      cases shape : spec.shape with
      | list elements =>
          rw [suits_list_iff shape rfl]
          exact SlotSpec.admits_list_iff_elements shape value.kind_eq
      | token kinds | node kinds =>
          rw [shape] at taken
          cases taken

end FieldType

/-- A field with a value for it. -/
structure Argument (owner : NodeKind) where
  field : AnyField owner
  value : field.type.Value

namespace Argument

variable {owner : NodeKind}

def index (argument : Argument owner) : Nat := argument.field.field.index

/-- What is stored in the slot of the field. -/
def green (argument : Argument owner) : Green.Slot := argument.field.type.toGreen argument.value

/-- The source text of the value, empty where nothing was given. -/
def text (argument : Argument owner) : String :=
  (argument.field.type.toRed argument.value).elim (·.text) (·.text) ""

/-- Whether the value may stand in the slot that the layout has for its field. -/
def Fits (argument : Argument owner) : Prop :=
  ∀ spec, owner.layout[argument.index]? = some spec →
    argument.field.type.Suits spec argument.value

theorem textOfSlot_green (argument : Argument owner) :
    Green.textOfSlot argument.green = argument.text := by
  rw [green, FieldType.toGreen_eq, text]
  cases argument.field.type.toRed argument.value with
  | node node => rfl
  | token token => exact Green.textOfSlot_token token.green
  | absent => rfl

theorem textOfSlots_map_green (arguments : List (Argument owner)) :
    Green.textOfSlots (arguments.map green) = String.join (arguments.map text) := by
  induction arguments with
  | nil => rfl
  | cons argument rest inductionHypothesis =>
      rw [List.map_cons, List.map_cons, Green.textOfSlots_cons, String.join_cons,
        argument.textOfSlot_green, inductionHypothesis]

end Argument

/-- A call of a typed constructor with its arguments. -/
inductive Construction : NodeKind → Type
  | modulePart (statements : NodeList Statement) (eof : Red.Token) : Construction .modulePart
  | returnStatement (keyword : Red.Token) (expression : Option Expression)
      (semicolon : Red.Token) : Construction .returnStatement
  | expressionStatement (expression : Expression) (semicolon : Red.Token) :
      Construction .expressionStatement
  | functionCallExpression (name : NameReference) (openParen : Red.Token)
      (arguments : NodeList FunctionArgument) (closeParen : Red.Token) :
      Construction .functionCallExpression
  | positionalArgument (comma : Option Red.Token) (expression : Expression) :
      Construction .positionalArgument
  | namedArgument (comma : Option Red.Token) (name : SimpleNameReference) (equals : Red.Token)
      (expression : Expression) : Construction .namedArgument
  | restArgument (comma ellipsis : Red.Token) (expression : Expression) :
      Construction .restArgument
  | binaryExpression (lhs : Expression) (operator : Red.Token) (rhs : Expression) :
      Construction .binaryExpression
  | bracedExpression (openParen : Red.Token) (expression : Expression) (closeParen : Red.Token) :
      Construction .bracedExpression
  | simpleNameReference (name : Red.Token) : Construction .simpleNameReference
  | qualifiedNameReference (modulePrefix colon identifier : Red.Token) :
      Construction .qualifiedNameReference
  | basicLiteral (literal : Red.Token) : Construction .basicLiteral

namespace Construction

variable {kind : NodeKind}

def run : Construction kind → Build (NodeOf kind)
  | modulePart statements eof => ModulePart.create statements eof
  | returnStatement keyword expression semicolon =>
    ReturnStatement.create keyword expression semicolon
  | expressionStatement expression semicolon => ExpressionStatement.create expression semicolon
  | functionCallExpression name openParen arguments closeParen =>
    FunctionCallExpression.create name openParen arguments closeParen
  | positionalArgument comma expression => PositionalArgument.create comma expression
  | namedArgument comma name equals expression =>
    NamedArgument.create comma name equals expression
  | restArgument comma ellipsis expression => RestArgument.create comma ellipsis expression
  | binaryExpression lhs operator rhs => BinaryExpression.create lhs operator rhs
  | bracedExpression openParen expression closeParen =>
    BracedExpression.create openParen expression closeParen
  | simpleNameReference name => SimpleNameReference.create name
  | qualifiedNameReference modulePrefix colon identifier =>
    QualifiedNameReference.create modulePrefix colon identifier
  | basicLiteral literal => BasicLiteral.create literal

/-- The arguments, each with the field of the same role. -/
def arguments : Construction kind → List (Argument kind)
  | modulePart statements eof =>
    [⟨⟨_, ModulePart.statements⟩, statements⟩, ⟨⟨_, ModulePart.eofToken⟩, eof⟩]
  | returnStatement keyword expression semicolon =>
    [⟨⟨_, ReturnStatement.returnKeyword⟩, keyword⟩, ⟨⟨_, ReturnStatement.expression⟩, expression⟩,
      ⟨⟨_, ReturnStatement.semicolonToken⟩, semicolon⟩]
  | expressionStatement expression semicolon =>
    [⟨⟨_, ExpressionStatement.expression⟩, expression⟩,
      ⟨⟨_, ExpressionStatement.semicolonToken⟩, semicolon⟩]
  | functionCallExpression name openParen arguments closeParen =>
    [⟨⟨_, FunctionCallExpression.functionName⟩, name⟩,
      ⟨⟨_, FunctionCallExpression.openParenToken⟩, openParen⟩,
      ⟨⟨_, FunctionCallExpression.arguments⟩, arguments⟩,
      ⟨⟨_, FunctionCallExpression.closeParenToken⟩, closeParen⟩]
  | positionalArgument comma expression =>
    [⟨⟨_, PositionalArgument.leadingComma⟩, comma⟩,
      ⟨⟨_, PositionalArgument.expression⟩, expression⟩]
  | namedArgument comma name equals expression =>
    [⟨⟨_, NamedArgument.leadingComma⟩, comma⟩, ⟨⟨_, NamedArgument.argumentName⟩, name⟩,
      ⟨⟨_, NamedArgument.equalsToken⟩, equals⟩, ⟨⟨_, NamedArgument.expression⟩, expression⟩]
  | restArgument comma ellipsis expression =>
    [⟨⟨_, RestArgument.leadingComma⟩, comma⟩, ⟨⟨_, RestArgument.ellipsis⟩, ellipsis⟩,
      ⟨⟨_, RestArgument.expression⟩, expression⟩]
  | binaryExpression lhs operator rhs =>
    [⟨⟨_, BinaryExpression.lhsExpr⟩, lhs⟩, ⟨⟨_, BinaryExpression.operator⟩, operator⟩,
      ⟨⟨_, BinaryExpression.rhsExpr⟩, rhs⟩]
  | bracedExpression openParen expression closeParen =>
    [⟨⟨_, BracedExpression.openParen⟩, openParen⟩,
      ⟨⟨_, BracedExpression.expression⟩, expression⟩,
      ⟨⟨_, BracedExpression.closeParen⟩, closeParen⟩]
  | simpleNameReference name => [⟨⟨_, SimpleNameReference.name⟩, name⟩]
  | qualifiedNameReference modulePrefix colon identifier =>
    [⟨⟨_, QualifiedNameReference.modulePrefix⟩, modulePrefix⟩,
      ⟨⟨_, QualifiedNameReference.colon⟩, colon⟩,
      ⟨⟨_, QualifiedNameReference.identifier⟩, identifier⟩]
  | basicLiteral literal => [⟨⟨_, BasicLiteral.literalToken⟩, literal⟩]

theorem ne_list (construction : Construction kind) : kind ≠ .list := by
  rintro rfl
  cases construction

/-- There is one argument for each field, in order. -/
theorem map_field_arguments (construction : Construction kind) :
    construction.arguments.map (·.field) = fieldsOf kind := by
  cases construction <;> rfl

/-- Arguments go into slots in the order of the parameters. -/
theorem run_eq (construction : Construction kind) :
    construction.run = NodeOf.create kind (construction.arguments.map (·.green)) := by
  cases construction <;> rfl

theorem map_index_arguments (construction : Construction kind) :
    construction.arguments.map (·.index) = List.range kind.layout.length := by
  rw [← fieldsOf_index, ← construction.map_field_arguments, List.map_map]
  rfl

theorem field_mem {construction : Construction kind} {argument : Argument kind}
    (present : argument ∈ construction.arguments) : argument.field ∈ fieldsOf kind := by
  rw [← construction.map_field_arguments]
  exact List.mem_map_of_mem present

/-- The slots follow the layout just when every argument fits. -/
theorem checkSlots_eq_ok_iff (construction : Construction kind) :
    kind.checkSlots (construction.arguments.map (·.green)) = .ok () ↔
      ∀ argument ∈ construction.arguments, argument.Fits := by
  rw [NodeKind.checkSlots_eq_ok_iff_admitAll, NodeKind.specs_of_ne_list construction.ne_list,
    SlotSpec.admitAll_map_iff construction.map_index_arguments]
  refine forall₂_congr fun argument present => forall₂_congr fun spec found => ?_
  obtain ⟨_, sameFound, optional_eq, taken⟩ := exists_spec_of_field (field_mem present)
  cases found.symm.trans sameFound
  exact FieldType.admits_toGreen_iff optional_eq taken

end Construction

namespace NodeOf

variable {kind : NodeKind} {slots : List Green.Slot}

theorem require_run {node : Red.Node} (isKind : node.kind = kind) (workspace : Workspace) :
    NodeOf.require kind node workspace = .ok ⟨node, isKind⟩ workspace := by
  simp [NodeOf.require, NodeOf.ofNode?, isKind]

theorem create_of_fits (fits : kind.checkSlots slots = .ok ()) (workspace : Workspace) :
    NodeOf.create kind slots workspace =
      .ok ⟨.root (.assemble ⟨workspace.nextSerial⟩ kind slots []), rfl⟩
        { workspace with nextSerial := workspace.nextSerial + 1 } := by
  have isKind :
      (Red.Node.root (.assemble ⟨workspace.nextSerial⟩ kind slots [])).kind = kind := rfl
  rw [create, Build.bind_run_of_ok (Green.Node.create_run fits [] workspace)]
  exact require_run isKind _

theorem create_of_misfit {reason : SlotError} (misfit : kind.checkSlots slots = .error reason)
    (workspace : Workspace) :
    NodeOf.create kind slots workspace =
      .error (.misuse (.cannotCreate kind reason)) workspace := by
  rw [create, Green.Node.create,
    Build.bind_run_of_error (Green.Node.createOr_of_misfit workspace misfit)]

/-- Whether every field that an argument is for reads the very value given, and the text is that of
the arguments in order. -/
structure MadeOf (view : NodeOf kind) (arguments : List (Argument kind)) : Prop where
  reads : ∀ argument ∈ arguments, ∃ value, view.get? argument.field.field = some value ∧
    argument.field.type.toGreen value = argument.green
  text_eq : view.node.text = String.join (arguments.map (·.text))

/-- A field reads what is stored in its slot. -/
theorem Reads.green_eq {view : NodeOf kind} {field : AnyField kind} {value : field.type.Value}
    (reads : view.Reads field value) :
    view.node.green.slots[field.field.index]? = some (field.type.toGreen value) := by
  rw [FieldType.toGreen_eq]
  exact Red.Node.slots_getElem?_of_slot? reads.slot?_eq

end NodeOf

theorem Construction.madeOf {kind : NodeKind} (construction : Construction kind)
    {view : NodeOf kind} (fits : kind.checkSlots (construction.arguments.map (·.green)) = .ok ())
    (slots_eq : view.node.green.slots = construction.arguments.map (·.green)) :
    view.MadeOf construction.arguments := by
  refine ⟨fun argument present => ?_, ?_⟩
  · have nodeFits : view.node.kind.checkSlots view.node.green.slots = .ok () := by
      rw [view.kind_eq, slots_eq]
      exact fits
    obtain ⟨value, reads⟩ := NodeOf.exists_reads_of_fits nodeFits (field_mem present)
    refine ⟨value, reads.get?_eq, ?_⟩
    obtain ⟨place, found⟩ := List.mem_iff_getElem?.mp present
    have index_eq : argument.index = place :=
      SlotSpec.index_eq_of_inOrder construction.map_index_arguments found
    have stored := reads.green_eq
    rw [slots_eq, List.getElem?_map, show argument.field.field.index = place from index_eq,
      found] at stored
    exact (Option.some.inj stored).symm
  · rw [Red.Node.text, Green.Node.text_eq, slots_eq, Argument.textOfSlots_map_green]

/-- A constructor succeeds exactly when its arguments fit, whatever the workspace, and gives a node
made of them. -/
theorem Construction.run_outcome {kind : NodeKind} (construction : Construction kind)
    (workspace : Workspace) :
    ((∀ argument ∈ construction.arguments, argument.Fits) ∧ ∃ view later,
      construction.run workspace = .ok view later ∧ view.MadeOf construction.arguments) ∨
    ((¬ ∀ argument ∈ construction.arguments, argument.Fits) ∧ ∃ reason,
      construction.run workspace =
        .error (.misuse (.cannotCreate kind reason)) workspace) := by
  rw [construction.run_eq, ← construction.checkSlots_eq_ok_iff]
  cases outcome : kind.checkSlots (construction.arguments.map (·.green)) with
  | ok _ =>
      exact .inl ⟨rfl, _, _, NodeOf.create_of_fits outcome workspace,
        construction.madeOf outcome rfl⟩
  | error reason =>
      exact .inr ⟨fun fits => (by cases fits), reason,
        NodeOf.create_of_misfit outcome workspace⟩

end Typed

end SyntaxTree

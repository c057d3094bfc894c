import SyntaxTree.Proofs.Materialized

/-!
Equality of handles. Two handles are equal when they are the very same handle, or when they see the
very same green value at the same offset and in the same slot of equal parents. Main statement:
however handles were come by, they are equal exactly when the very same root and the same slot
indexes lead to them.
-/

namespace SyntaxTree.Red

variable {workspace current : Workspace} {made : List Green.Slot}

/-- What is compared by a key is compared by an equivalence. -/
theorem equivalence_of_key {Handle Key : Type} {equal : Handle → Handle → Bool}
    (key : Handle → Key)
    (equal_iff : ∀ first second, equal first second = true ↔ key first = key second) :
    Equivalence fun first second => equal first second = true where
  refl _ := (equal_iff _ _).mpr rfl
  symm same := (equal_iff _ _).mpr ((equal_iff _ _).mp same).symm
  trans same also := (equal_iff _ _).mpr (((equal_iff _ _).mp same).trans ((equal_iff _ _).mp also))

/-- Equality of nodes as handles see them, each with the stamps of its own handle and of those of
its ancestors. -/
def Node.equal : Node → List Stamp → Node → List Stamp → Bool
  | .root first, firstStamps, .root second, secondStamps =>
    firstStamps == secondStamps || first.identical second
  | .child first firstOffset firstSlot firstParent, firstStamps,
    .child second secondOffset secondSlot secondParent, secondStamps =>
    firstStamps == secondStamps ||
      first.identical second && firstOffset == secondOffset && firstSlot == secondSlot &&
        firstParent.equal firstStamps.tail secondParent secondStamps.tail
  | _, firstStamps, _, secondStamps => firstStamps == secondStamps

/-- The very same handle, or the same green node at the same offset and in the same slot of equal
parents. -/
def NodeHandle.equal (first second : NodeHandle) : Bool :=
  first.node.equal first.stamps second.node second.stamps

/-- The same green token at the same offset and in the same slot of equal parents, or under none. -/
def TokenHandle.equal : TokenHandle → TokenHandle → Bool
  | ⟨.detached first, _⟩, ⟨.detached second, _⟩ => first.identical second
  | ⟨.held first firstOffset firstSlot firstParent, firstStamps⟩,
    ⟨.held second secondOffset secondSlot secondParent, secondStamps⟩ =>
    first.identical second && firstOffset == secondOffset && firstSlot == secondSlot &&
      firstParent.equal firstStamps secondParent secondStamps
  | _, _ => false

theorem Node.eq_of_ancestors {first second : Node} (same : first.ancestors = second.ancestors) :
    first = second := by
  cases first <;> cases second <;> exact (List.cons.inj same).1

/-- The very same handle is at the same place. -/
theorem Node.samePlace_of_stamps {meaning : Stamp → Node} {first second : Node}
    {firstStamps secondStamps : List Stamp} (firstNamed : firstStamps.map meaning = first.ancestors)
    (secondNamed : secondStamps.map meaning = second.ancestors)
    (identical : (firstStamps == secondStamps) = true) : first.samePlace second = true := by
  rw [eq_of_beq identical, secondNamed] at firstNamed
  rw [Node.eq_of_ancestors firstNamed]
  exact first.samePlace_self

/-- The stamps of handles tell nothing that their places do not. -/
theorem Node.equal_eq_samePlace {meaning : Stamp → Node} {first second : Node}
    {firstStamps secondStamps : List Stamp} (firstNamed : firstStamps.map meaning = first.ancestors)
    (secondNamed : secondStamps.map meaning = second.ancestors) :
    first.equal firstStamps second secondStamps = first.samePlace second := by
  have shortcut := samePlace_of_stamps firstNamed secondNamed
  induction first generalizing second firstStamps secondStamps with
  | root green =>
      cases second with
      | root other => exact Bool.or_eq_right_iff_imp.mpr shortcut
      | child other otherOffset otherSlot otherParent =>
          exact Bool.eq_false_iff.mpr fun identical => Bool.false_ne_true (shortcut identical)
  | child green offset slot parent inductionHypothesis =>
      cases second with
      | root other =>
          exact Bool.eq_false_iff.mpr fun identical => Bool.false_ne_true (shortcut identical)
      | child other otherOffset otherSlot otherParent =>
          have parentNamed : firstStamps.tail.map meaning = parent.ancestors := by
            rw [List.map_tail, firstNamed]
            rfl
          have otherNamed : secondStamps.tail.map meaning = otherParent.ancestors := by
            rw [List.map_tail, secondNamed]
            rfl
          have parents := inductionHypothesis parentNamed otherNamed
            (samePlace_of_stamps parentNamed otherNamed)
          rw [equal, parents]
          exact Bool.or_eq_right_iff_imp.mpr shortcut

theorem TokenHandle.equal_eq_samePlace {meaning : Stamp → Node} {first second : TokenHandle}
    (firstNamed : first.stamps.map meaning = first.token.ancestors)
    (secondNamed : second.stamps.map meaning = second.token.ancestors) :
    first.equal second = first.token.samePlace second.token := by
  obtain ⟨token, stamps⟩ := first
  obtain ⟨other, otherStamps⟩ := second
  cases token with
  | detached green => cases other <;> rfl
  | held green offset slot parent =>
      cases other with
      | detached otherGreen => rfl
      | held otherGreen otherOffset otherSlot otherParent =>
          rw [equal, Node.equal_eq_samePlace firstNamed secondNamed]
          rfl

namespace Materialized

variable {handles : List HandleSlot}

theorem equal_eq_samePlace (materialized : Materialized made current handles)
    {first second : NodeHandle} (firstPresent : .node first ∈ handles)
    (secondPresent : .node second ∈ handles) :
    first.equal second = first.node.samePlace second.node := by
  obtain ⟨meaning, named⟩ := materialized.exists_meaning
  exact Node.equal_eq_samePlace (named _ firstPresent).map_stamps (named _ secondPresent).map_stamps

theorem tokenEqual_eq_samePlace (materialized : Materialized made current handles)
    {first second : TokenHandle} (firstPresent : .token first ∈ handles)
    (secondPresent : .token second ∈ handles) :
    first.equal second = first.token.samePlace second.token := by
  obtain ⟨meaning, named⟩ := materialized.exists_meaning
  exact TokenHandle.equal_eq_samePlace (named _ firstPresent).map_stamps
    (named _ secondPresent).map_stamps

variable (history : Green.History workspace made)
  (materialized : Materialized made current handles)

include history materialized

theorem equal_iff {first second : NodeHandle} (firstPresent : .node first ∈ handles)
    (secondPresent : .node second ∈ handles) :
    first.equal second = true ↔
      first.node.treeRoot.green.identical second.node.treeRoot.green = true ∧
        first.node.path = second.node.path := by
  obtain ⟨firstRoot, firstMade, firstInTree⟩ :=
    HandleSlot.Placed.node_iff.mp (materialized.placed _ firstPresent)
  obtain ⟨secondRoot, secondMade, secondInTree⟩ :=
    HandleSlot.Placed.node_iff.mp (materialized.placed _ secondPresent)
  rw [materialized.equal_eq_samePlace firstPresent secondPresent, firstInTree.treeRoot_eq,
    secondInTree.treeRoot_eq]
  exact firstInTree.samePlace_iff secondInTree history firstMade secondMade

theorem tokenEqual_iff_of_held {first second : TokenHandle} {parent other : Node}
    (firstPresent : .token first ∈ handles) (secondPresent : .token second ∈ handles)
    (firstHeld : first.token.parent? = some parent)
    (secondHeld : second.token.parent? = some other) :
    first.equal second = true ↔
      parent.treeRoot.green.identical other.treeRoot.green = true ∧
        first.token.path = second.token.path := by
  obtain ⟨firstRoot, firstMade, firstInTree, firstTop⟩ :=
    (materialized.placed _ firstPresent).of_held firstHeld
  obtain ⟨secondRoot, secondMade, secondInTree, secondTop⟩ :=
    (materialized.placed _ secondPresent).of_held secondHeld
  rw [materialized.tokenEqual_eq_samePlace firstPresent secondPresent, firstTop, secondTop]
  exact firstInTree.samePlace_iff secondInTree history firstMade secondMade

omit history in
theorem tokenEqual_iff_of_detached {first second : TokenHandle}
    (firstPresent : .token first ∈ handles) (secondPresent : .token second ∈ handles)
    (firstDetached : first.token.parent? = none) (secondDetached : second.token.parent? = none) :
    first.equal second = true ↔ first.token.green.identical second.token.green = true := by
  rw [materialized.tokenEqual_eq_samePlace firstPresent secondPresent,
    Token.eq_detached_of_parent? firstDetached, Token.eq_detached_of_parent? secondDetached]
  rfl

end Materialized

/-- However handles were come by: two node handles are equal exactly when the very same root and the
same slot indexes lead to them, and so are two token handles with parents, while two tokens of no tree
are equal exactly when their green tokens are the very same. So equality is an equivalence, handles at
different places of one tree are never equal, and equal node handles have the same key. -/
theorem equality_is_place {handles : List HandleSlot} (history : Green.History workspace made)
    (materialized : Materialized made current handles) :
    (∀ {first second : NodeHandle}, .node first ∈ handles → .node second ∈ handles →
      (first.equal second = true ↔
        first.node.treeRoot.green.identical second.node.treeRoot.green = true ∧
          first.node.path = second.node.path)) ∧
    (∀ {first second : TokenHandle} {parent other : Node}, .token first ∈ handles →
      .token second ∈ handles → first.token.parent? = some parent →
      second.token.parent? = some other →
      (first.equal second = true ↔
        parent.treeRoot.green.identical other.treeRoot.green = true ∧
          first.token.path = second.token.path)) ∧
    (∀ {first second : TokenHandle}, .token first ∈ handles → .token second ∈ handles →
      first.token.parent? = none → second.token.parent? = none →
      (first.equal second = true ↔ first.token.green.identical second.token.green = true)) ∧
    Equivalence (fun first second : { handle : NodeHandle // .node handle ∈ handles } =>
      first.val.equal second.val = true) ∧
    Equivalence (fun first second : { handle : TokenHandle // .token handle ∈ handles } =>
      first.val.equal second.val = true) ∧
    (∀ {first second : NodeHandle}, .node first ∈ handles → .node second ∈ handles →
      first.node.treeRoot = second.node.treeRoot → first.node.path ≠ second.node.path →
      first.equal second = false) ∧
    (∀ {first second : TokenHandle}, .token first ∈ handles → .token second ∈ handles →
      first.token.treeRoot? = second.token.treeRoot? → first.token.path ≠ second.token.path →
      first.equal second = false) ∧
    ∀ {first second : NodeHandle}, .node first ∈ handles → .node second ∈ handles →
      first.equal second = true → first.node.hashKey = second.node.hashKey := by
  have places : ∀ {first second : NodeHandle}, .node first ∈ handles → .node second ∈ handles →
      (first.equal second = true ↔ first.node.samePlace second.node = true) :=
    fun firstPresent secondPresent => by
      rw [materialized.equal_eq_samePlace firstPresent secondPresent]
  have tokenPlaces : ∀ {first second : TokenHandle}, .token first ∈ handles →
      .token second ∈ handles →
      (first.equal second = true ↔ first.token.samePlace second.token = true) :=
    fun firstPresent secondPresent => by
      rw [materialized.tokenEqual_eq_samePlace firstPresent secondPresent]
  refine ⟨materialized.equal_iff history, materialized.tokenEqual_iff_of_held history,
    materialized.tokenEqual_iff_of_detached, ?_, ?_, ?_, ?_, ?_⟩
  · refine equivalence_of_key (fun handle => handle.val.node.chain) fun first second => ?_
    rw [places first.property second.property, Node.samePlace_iff_chain]
  · refine equivalence_of_key (fun handle => handle.val.token.chain) fun first second => ?_
    rw [tokenPlaces first.property second.property, Token.samePlace_iff_chain]
  · intro first second firstPresent secondPresent _ apart
    rw [← Bool.not_eq_true, places firstPresent secondPresent]
    exact fun same => apart (Node.of_samePlace same).2.1
  · intro first second firstPresent secondPresent _ apart
    rw [← Bool.not_eq_true, tokenPlaces firstPresent secondPresent]
    exact fun same => apart (Token.path_eq_of_samePlace same)
  · intro first second firstPresent secondPresent same
    exact (Node.of_samePlace ((places firstPresent secondPresent).mp same)).2.2

namespace Sample

/-- A name that the source lacks, which has no width. -/
def blankToken : Green.Token where
  stamp := ⟨0⟩
  kind := .identifier
  text := ""
  leading := .empty
  trailing := .empty
  remarks := [⟨.error, "missing", "expected a name"⟩]
  missing := true

def blank : Green.Node := .assemble ⟨1⟩ .simpleNameReference [.token blankToken] []

/-- A list that holds the same blank name twice. -/
def blanks : Green.Node := .assemble ⟨2⟩ .list [.node blank, .node blank] []

def blankHandle (serial index : Nat) : NodeHandle :=
  ⟨.child blank 0 index (.root blanks), [⟨serial⟩, ⟨3⟩]⟩

theorem blanks_history :
    Green.History ⟨3, #[]⟩ [.node blanks, .node blank, .token blankToken] := by
  have lacking : (Green.TokenCall.missing TokenKind.identifier
      ⟨.error, "missing", "expected a name"⟩).run .empty = .ok blankToken ⟨1, #[]⟩ := rfl
  have blankMade : Green.History ⟨2, #[]⟩ [.node blank, .token blankToken] :=
    (Green.History.start.token lacking).node (by simp [Green.Available])
      (Green.Node.create_run rfl [] _)
  exact blankMade.node (by simp [Green.Available]) (Green.Node.create_run rfl [] _)

/-- The first name was asked for twice, and the second once in between. -/
theorem blanks_materialized :
    Materialized [.node blanks, .node blank, .token blankToken] ⟨7, #[]⟩
      [.node (blankHandle 6 0), .node (blankHandle 5 1), .node (blankHandle 4 0),
        .node ⟨.root blanks, [⟨3⟩]⟩] := by
  have entered : NodeHandle.fresh (.root blanks) ⟨3, #[]⟩ =
      .ok ⟨.root blanks, [⟨3⟩]⟩ ⟨4, #[]⟩ := rfl
  have first : NodeHandle.slot ⟨.root blanks, [⟨3⟩]⟩ 0 ⟨4, #[]⟩ =
      .ok (.node (blankHandle 4 0)) ⟨5, #[]⟩ := rfl
  have second : NodeHandle.slot ⟨.root blanks, [⟨3⟩]⟩ 1 ⟨5, #[]⟩ =
      .ok (.node (blankHandle 5 1)) ⟨6, #[]⟩ := rfl
  have again : NodeHandle.slot ⟨.root blanks, [⟨3⟩]⟩ 0 ⟨6, #[]⟩ =
      .ok (.node (blankHandle 6 0)) ⟨7, #[]⟩ := rfl
  exact (((Materialized.start.node (by simp) .root entered).slot (by simp) first).slot
    (by simp) second).slot (by simp) again

end Sample

open Sample in
theorem equality_is_place_of_blanks :
    (blankHandle 4 0).equal (blankHandle 6 0) = true ∧
      (blankHandle 4 0).equal (blankHandle 5 1) = false ∧
      (blankHandle 4 0).node.hashKey = (blankHandle 5 1).node.hashKey := by
  have found := equality_is_place blanks_history blanks_materialized
  obtain ⟨nodes, _, _, _, _, apart, _, _⟩ := found
  refine ⟨(nodes (by simp) (by simp)).mpr ⟨rfl, rfl⟩, apart (by simp) (by simp) rfl ?_, rfl⟩
  decide

end SyntaxTree.Red

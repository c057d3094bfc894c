import SyntaxTree.Proofs.Grammar
import SyntaxTree.Proofs.Soundness

/-!
Recipes: trees told by kinds and token texts only, as a parser may want them. Main statements: green
values pass the checks of the grammar when the recipe they follow does; and of the values that an
interner keeps with all that is below them, one recipe is followed by one only.
-/

namespace SyntaxTree

structure Written where
  kind : TokenKind
  text : String
  deriving DecidableEq

structure Recipe where
  kind : NodeKind
  slots : List (Slot Recipe Written)

/-- A token with this kind and text, and nothing else to it. -/
def Written.token (written : Written) : Green.Token where
  stamp := ⟨0⟩
  kind := written.kind
  text := written.text
  leading := .empty
  trailing := .empty
  remarks := []
  missing := false

namespace Recipe

mutual

def description : Recipe → Description
  | ⟨kind, slots⟩ => ⟨kind, [], describeAll slots⟩

def describeAll : List (Slot Recipe Written) → List (Slot Description Green.Token)
  | [] => []
  | slot :: rest => describe slot :: describeAll rest

def describe : Slot Recipe Written → Slot Description Green.Token
  | .node recipe => .node recipe.description
  | .token written => .token written.token
  | .absent => .absent

end

theorem describeAll_eq_map (slots : List (Slot Recipe Written)) :
    describeAll slots = slots.map describe := by
  induction slots with
  | nil => rfl
  | cons slot rest inductionHypothesis => rw [describeAll, inductionHypothesis, List.map_cons]

@[simp]
theorem description_kind (recipe : Recipe) : recipe.description.kind = recipe.kind := by
  cases recipe
  rfl

@[simp]
theorem description_slots (recipe : Recipe) :
    recipe.description.slots = recipe.slots.map describe := by
  cases recipe
  exact describeAll_eq_map _

/-- Whether the tree follows the grammar. -/
def Fits (recipe : Recipe) : Prop := recipe.description.WellFormed

theorem Fits.admits {recipe : Recipe} (fits : recipe.Fits) :
    recipe.kind.Admits (recipe.slots.map describe) := by
  cases fits with
  | intro admits _ => simpa using admits

theorem Fits.child {recipe child : Recipe} (fits : recipe.Fits)
    (present : .node child ∈ recipe.slots) : child.Fits := by
  cases fits with
  | intro _ children =>
      apply children
      rw [description_slots]
      exact List.mem_map_of_mem present

/-- Whether no node, at any depth, has more slots than a limit. -/
inductive Small (maxSlots : Nat) : Recipe → Prop
  | intro {recipe : Recipe} : recipe.slots.length ≤ maxSlots →
      (∀ child : Recipe, .node child ∈ recipe.slots → Small maxSlots child) → Small maxSlots recipe

end Recipe

namespace Green

def Token.written (token : Token) : Written := ⟨token.kind, token.text⟩

mutual

/-- The recipe that a value follows. -/
def Node.recipe : Node → Recipe
  | ⟨_, kind, _, _, _, slots⟩ => ⟨kind, Slot.recipes slots⟩

def Slot.recipes : List (SyntaxTree.Slot Node Token) → List (SyntaxTree.Slot Recipe Written)
  | [] => []
  | slot :: rest => Slot.recipe slot :: Slot.recipes rest

def Slot.recipe : SyntaxTree.Slot Node Token → SyntaxTree.Slot Recipe Written
  | .node node => .node node.recipe
  | .token token => .token token.written
  | .absent => .absent

end

theorem Slot.recipes_eq_map (slots : List Slot) : Slot.recipes slots = slots.map Slot.recipe := by
  induction slots with
  | nil => rfl
  | cons slot rest inductionHypothesis => rw [Slot.recipes, inductionHypothesis, List.map_cons]

theorem Node.recipe_eq (node : Node) : node.recipe = ⟨node.kind, node.slots.map Slot.recipe⟩ := by
  cases node
  exact congrArg _ (Slot.recipes_eq_map _)

/-- What may stand in a slot is told by the recipe of the value that does. -/
theorem Slot.admits_of_recipe {spec : SlotSpec} {slot : Slot}
    (admitted : spec.Admits (Recipe.describe (Slot.recipe slot))) :
    spec.Admits (Slot.description slot) := by
  cases slot with
  | absent => exact admitted
  | token token =>
      cases admitted with
      | token shape member => exact .token shape member
  | node node =>
      have kind_eq : node.recipe.description.kind = node.description.kind := by
        simp [Node.recipe_eq]
      cases admitted with
      | node shape member => exact .node shape (kind_eq ▸ member)
      | list shape isList elements =>
          refine .list shape (kind_eq ▸ isList) ?_
          rw [Recipe.description_slots, Node.recipe_eq, List.map_map, List.forall_mem_map] at elements
          rw [Node.description_slots, List.forall_mem_map]
          intro slot present
          obtain ⟨element, described, member⟩ := elements slot present
          cases slot with
          | node child =>
              cases described
              exact ⟨child.description, rfl, by simpa [Node.recipe_eq] using member⟩
          | token token => cases described
          | absent => cases described

/-- Slots pass the check of a kind that admits their recipes. -/
theorem Slot.checkSlots_of_recipes {kind : NodeKind} {slots : List Slot}
    (admits : kind.Admits ((slots.map Slot.recipe).map Recipe.describe)) :
    kind.checkSlots slots = .ok () := by
  rw [NodeKind.checkSlots_eq_ok_iff]
  unfold NodeKind.Admits at admits ⊢
  rw [List.map_map] at admits
  by_cases isList : kind = .list
  · rw [if_pos isList, List.forall_mem_map] at admits ⊢
    intro slot present
    obtain ⟨element, described⟩ := admits slot present
    cases slot with
    | node child => exact ⟨child.description, rfl⟩
    | token token => cases described
    | absent => cases described
  · rw [if_neg isList, List.forall₂_map_right_iff] at admits ⊢
    exact admits.imp fun _ _ admitted => Slot.admits_of_recipe admitted

end Green

namespace Interner

/-- Whether an interner keeps a value and all that is below it. -/
inductive Covers (interner : Interner) : Green.Slot → Prop
  | absent : Covers interner .absent
  | token {token : Green.Token} : token ∈ interner.tokens → Covers interner (.token token)
  | node {node : Green.Node} : node ∈ interner.nodes → (∀ slot ∈ node.slots, Covers interner slot) →
      Covers interner (.node node)

theorem Covers.mono {interner later : Interner} {value : Green.Slot} (covers : interner.Covers value)
    (kept : ∀ other, interner.Keeps other → later.Keeps other) : later.Covers value := by
  induction covers with
  | absent => exact .absent
  | token present => exact .token (kept (.token _) present)
  | node present _ inductionHypothesis =>
      exact .node (kept (.node _) present) inductionHypothesis

theorem eq_of_map_recipe {firsts seconds : List Green.Slot}
    (unique : ∀ first ∈ firsts, ∀ second ∈ seconds,
      Green.Slot.recipe first = Green.Slot.recipe second → first = second)
    (same : firsts.map Green.Slot.recipe = seconds.map Green.Slot.recipe) : firsts = seconds := by
  induction firsts generalizing seconds with
  | nil => exact (List.map_eq_nil_iff.mp same.symm).symm
  | cons first firsts inductionHypothesis =>
      cases seconds with
      | nil => cases same
      | cons second seconds =>
          obtain ⟨headSame, tailSame⟩ := List.cons.inj same
          rw [unique first List.mem_cons_self second List.mem_cons_self headSame,
            inductionHypothesis (fun first firstPresent second secondPresent =>
              unique first (List.mem_cons_of_mem _ firstPresent) second
                (List.mem_cons_of_mem _ secondPresent)) tailSame]

/-- Of the values that an interner covers, one recipe is followed by one only. -/
theorem Covers.eq_of_recipe {interner : Interner} {next : Nat} {value other : Green.Slot}
    (covers : interner.Covers value) (sound : interner.Sound next)
    (coversOther : interner.Covers other)
    (same : Green.Slot.recipe value = Green.Slot.recipe other) : value = other := by
  induction covers generalizing other with
  | absent =>
      cases other with
      | absent => rfl
      | token token => cases same
      | node node => cases same
  | @token token present =>
      cases coversOther with
      | absent => cases same
      | @token twin twinPresent =>
          have written : token.written = twin.written := SyntaxTree.Slot.token.inj same
          obtain ⟨sameKind, sameText⟩ := Written.mk.inj written
          exact sound.byKey (.token token) (.token twin) present twinPresent
            (by rw [Green.Slot.key?, Green.Slot.key?, sameKind, sameText])
      | node _ _ => cases same
  | @node node present below inductionHypothesis =>
      cases coversOther with
      | absent => cases same
      | token _ => cases same
      | @node twin twinPresent twinBelow =>
          have recipes : node.recipe = twin.recipe := SyntaxTree.Slot.node.inj same
          rw [Green.Node.recipe_eq, Green.Node.recipe_eq] at recipes
          obtain ⟨sameKind, sameRecipes⟩ := Recipe.mk.inj recipes
          have sameSlots : node.slots = twin.slots :=
            eq_of_map_recipe (fun first firstPresent second secondPresent =>
              inductionHypothesis first firstPresent (twinBelow second secondPresent)) sameRecipes
          exact sound.byKey (.node node) (.node twin) present twinPresent
            (by rw [Green.Slot.key?, Green.Slot.key?, sameKind, sameSlots])

end Interner

end SyntaxTree

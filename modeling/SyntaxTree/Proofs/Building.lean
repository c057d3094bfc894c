import SyntaxTree.Proofs.History

/-!
Building what a description tells, from the leaves up. Main statement: building succeeds exactly for
the descriptions that follow the grammar, and gives what was described.
-/

namespace SyntaxTree.Description

mutual

/-- Makes every node of a description, each after its slots. -/
def build : Description → Build Green.Node
  | ⟨kind, remarks, slots⟩ => do
    let slots ← buildSlots slots
    Green.Node.create kind slots remarks

def buildSlots : List (Slot Description Green.Token) → Build (List Green.Slot)
  | [] => return []
  | slot :: rest => do
    let slot ← buildSlot slot
    return slot :: (← buildSlots rest)

def buildSlot : Slot Description Green.Token → Build Green.Slot
  | .node description => return .node (← description.build)
  | .token token => return .token token
  | .absent => return .absent

end

mutual

theorem WellFormed.build_succeeds (description : Description) (wellFormed : description.WellFormed)
    (workspace : Workspace) : ∃ node later, description.build workspace = .ok node later ∧
      node.description = description :=
  match description, wellFormed with
  | ⟨kind, remarks, slots⟩, .intro admits childrenWellFormed => by
    obtain ⟨greens, between, built, described⟩ :=
      buildSlots_succeeds slots childrenWellFormed workspace
    have fits : kind.checkSlots greens = .ok () := by
      rw [NodeKind.checkSlots_eq_ok_iff, described]
      exact admits
    have created := Green.Node.create_run fits remarks between
    refine ⟨_, _, (Build.bind_run_of_ok built).trans created, ?_⟩
    simp [Green.Node.description, Green.Node.assemble, Green.Slot.descriptions_eq_map, described]

theorem buildSlots_succeeds (slots : List (Slot Description Green.Token))
    (wellFormed : ∀ child : Description, .node child ∈ slots → child.WellFormed)
    (workspace : Workspace) : ∃ greens later, buildSlots slots workspace = .ok greens later ∧
      greens.map Green.Slot.description = slots :=
  match slots with
  | [] => ⟨[], workspace, rfl, rfl⟩
  | slot :: rest => by
    obtain ⟨green, between, built, described⟩ := buildSlot_succeeds slot
      (fun child same => wellFormed child (same ▸ List.mem_cons_self)) workspace
    obtain ⟨greens, later, restBuilt, restDescribed⟩ := buildSlots_succeeds rest
      (fun child present => wellFormed child (List.mem_cons_of_mem _ present)) between
    refine ⟨green :: greens, later, ?_, by rw [List.map_cons, described, restDescribed]⟩
    rw [buildSlots, Build.bind_run_of_ok built, Build.bind_run_of_ok restBuilt, Build.pure_run]

theorem buildSlot_succeeds (slot : Slot Description Green.Token)
    (wellFormed : ∀ child : Description, slot = .node child → child.WellFormed)
    (workspace : Workspace) : ∃ green later, buildSlot slot workspace = .ok green later ∧
      Green.Slot.description green = slot :=
  match slot with
  | .absent => ⟨.absent, workspace, rfl, rfl⟩
  | .token token => ⟨.token token, workspace, rfl, rfl⟩
  | .node child => by
    obtain ⟨node, later, built, described⟩ :=
      WellFormed.build_succeeds child (wellFormed child rfl) workspace
    refine ⟨.node node, later, ?_, by rw [Green.Slot.description, described]⟩
    rw [buildSlot, Build.bind_run_of_ok built, Build.pure_run]

end

mutual

theorem build_eq_ok (description : Description) {workspace later : Workspace} {node : Green.Node}
    (built : description.build workspace = .ok node later) :
    description.WellFormed ∧ node.description = description :=
  match description, built with
  | ⟨kind, remarks, slots⟩, built => by
    rw [build] at built
    obtain ⟨greens, between, slotsBuilt, created⟩ := Build.bind_run_eq_ok_iff.mp built
    obtain ⟨_, sameKind, fits, rfl, rfl⟩ := Green.Node.create_eq_ok_iff.mp created
    cases sameKind
    obtain ⟨childrenWellFormed, described⟩ := buildSlots_eq_ok slots slotsBuilt
    rw [NodeKind.checkSlots_eq_ok_iff, described] at fits
    refine ⟨.intro fits childrenWellFormed, ?_⟩
    simp [Green.Node.description, Green.Node.assemble, Green.Slot.descriptions_eq_map, described]

theorem buildSlots_eq_ok (slots : List (Slot Description Green.Token))
    {workspace later : Workspace} {greens : List Green.Slot}
    (built : buildSlots slots workspace = .ok greens later) :
    (∀ child : Description, .node child ∈ slots → child.WellFormed) ∧
      greens.map Green.Slot.description = slots :=
  match slots, built with
  | [], built => by
    cases built
    exact ⟨fun _ present => (by cases present), rfl⟩
  | slot :: rest, built => by
    rw [buildSlots] at built
    obtain ⟨green, between, firstBuilt, built⟩ := Build.bind_run_eq_ok_iff.mp built
    obtain ⟨greens, _, restBuilt, finished⟩ := Build.bind_run_eq_ok_iff.mp built
    cases finished
    obtain ⟨firstWellFormed, firstDescribed⟩ := buildSlot_eq_ok slot firstBuilt
    obtain ⟨restWellFormed, restDescribed⟩ := buildSlots_eq_ok rest restBuilt
    refine ⟨?_, by rw [List.map_cons, firstDescribed, restDescribed]⟩
    intro child present
    rcases List.mem_cons.mp present with same | later
    · exact firstWellFormed child same.symm
    · exact restWellFormed child later

theorem buildSlot_eq_ok (slot : Slot Description Green.Token)
    {workspace later : Workspace} {green : Green.Slot}
    (built : buildSlot slot workspace = .ok green later) :
    (∀ child : Description, slot = .node child → child.WellFormed) ∧
      Green.Slot.description green = slot :=
  match slot, built with
  | .absent, built => by
    cases built
    exact ⟨fun _ same => (by cases same), rfl⟩
  | .token token, built => by
    cases built
    exact ⟨fun _ same => (by cases same), rfl⟩
  | .node child, built => by
    rw [buildSlot] at built
    obtain ⟨node, _, childBuilt, finished⟩ := Build.bind_run_eq_ok_iff.mp built
    cases finished
    obtain ⟨wellFormed, described⟩ := build_eq_ok child childBuilt
    refine ⟨?_, by rw [Green.Slot.description, described]⟩
    rintro _ ⟨⟩
    exact wellFormed

end

/-- Exactly what follows the grammar can be built, and it comes out as described. -/
theorem wellFormed_iff_build (description : Description) (workspace : Workspace) :
    description.WellFormed ↔ ∃ node later, description.build workspace = .ok node later ∧
      node.description = description := by
  constructor
  · intro wellFormed
    exact wellFormed.build_succeeds _ workspace
  · rintro ⟨node, later, built, -⟩
    exact (build_eq_ok description built).1

end SyntaxTree.Description

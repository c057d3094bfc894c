import SyntaxTree.Proofs.Answers
import SyntaxTree.Proofs.Recipe

/-!
Building recipes through an interner, from the leaves up, while others make calls of their own in
between. Main statement: both of two builds succeed, and what they end in is the same value exactly
when the recipes are equal.
-/

namespace SyntaxTree

open Client

/-- The calls that others make, turn by turn. -/
abbrev Schedule := List (List Call)

/-- Lets others make the calls of their next turn. -/
def Client.others : Client Schedule Unit := fun session =>
  match session.memory with
  | [] => .ok () session
  | calls :: rest => .ok () ({ session with memory := rest }.run calls)

theorem Client.bind_run_of_ok {Memory Result Next : Type} {action : Client Memory Result}
    {next : Result → Client Memory Next} {session later : Session Memory} {result : Result}
    (first : action session = .ok result later) :
    (action >>= next) session = next result later := by
  simp [bind, EStateM.bind, first]

namespace Recipe

mutual

/-- Asks for every token and node of a recipe, each node after its slots. It is the turn of others
before each request. -/
def intern (number : Nat) : Recipe → Client Schedule Green.Slot
  | ⟨kind, slots⟩ => do
    let slots ← internSlots number slots
    others
    ask number (.node kind slots)

def internSlots (number : Nat) : List (Slot Recipe Written) → Client Schedule (List Green.Slot)
  | [] => return []
  | slot :: rest => do
    let slot ← internSlot number slot
    return slot :: (← internSlots number rest)

def internSlot (number : Nat) : Slot Recipe Written → Client Schedule Green.Slot
  | .node recipe => recipe.intern number
  | .token written => do
    others
    ask number (.token written.kind written.text)
  | .absent => return .absent

end

end Recipe

namespace Session

variable {made more : List Green.Slot} {number maxSlots : Nat} {session later : Session Schedule}
  {value : Green.Slot}

/-- Whether a build can go on: nobody is going to clear its interner. -/
structure Ready (number maxSlots : Nat) (session : Session Schedule) (made : List Green.Slot) : Prop
    extends session.Settled made where
  found : ∃ interner, session.interners[number]? = some interner ∧ interner.maxSlots = maxSlots
  calm : ∀ calls ∈ session.memory, .clearInterner number ∉ calls

/-- Whether a build has gone on, and its interner has forgotten nothing. -/
structure Proceeds (number maxSlots : Nat) (session : Session Schedule) (made : List Green.Slot)
    (later : Session Schedule) (more : List Green.Slot) : Prop where
  grown : made ⊆ more
  ready : later.Ready number maxSlots more
  leads : session.Leads Interner.Grows number later

/-- Whether the interner of a build keeps a value and all that is below it. -/
def Covers (number : Nat) (session : Session Schedule) (value : Green.Slot) : Prop :=
  ∃ interner, session.interners[number]? = some interner ∧ interner.Covers value

theorem Ready.proceeds_refl (ready : session.Ready number maxSlots made) :
    session.Proceeds number maxSlots made session made :=
  ⟨List.Subset.refl _, ready, leads_of_same rfl (fun _ => .of_le (Nat.le_refl _)) number⟩

theorem Proceeds.trans {last : Session Schedule} {most : List Green.Slot}
    (first : session.Proceeds number maxSlots made later more)
    (second : later.Proceeds number maxSlots more last most) :
    session.Proceeds number maxSlots made last most :=
  ⟨List.Subset.trans first.grown second.grown, second.ready,
    first.leads.trans .trans second.leads⟩

theorem Proceeds.covers (proceeds : session.Proceeds number maxSlots made later more)
    (covers : session.Covers number value) : later.Covers number value := by
  obtain ⟨interner, found, covered⟩ := covers
  obtain ⟨now, foundNow, grows⟩ := proceeds.leads interner found
  exact ⟨now, foundNow, covered.mono grows.kept⟩

/-- A build goes on through whatever leaves its interner with all it has. -/
theorem Ready.proceeds (ready : session.Ready number maxSlots made) (grown : made ⊆ more)
    (settled : later.Settled more) (leads : session.Leads Interner.Grows number later)
    (calm : ∀ calls ∈ later.memory, .clearInterner number ∉ calls) :
    session.Proceeds number maxSlots made later more := by
  obtain ⟨interner, found, limit⟩ := ready.found
  obtain ⟨now, foundNow, grows⟩ := leads interner found
  exact ⟨grown, ⟨settled, ⟨now, foundNow, grows.maxSlots_eq.trans limit⟩, calm⟩, leads⟩

theorem Ready.run (ready : session.Ready number maxSlots made) {calls : List Call}
    (calm : .clearInterner number ∉ calls) :
    ∃ more, session.Proceeds number maxSlots made (session.run calls) more := by
  obtain ⟨more, goesOn, leads⟩ := ready.toSettled.run calls
  refine ⟨more, ready.proceeds goesOn.grown goesOn.settled ((leads number).2 calm) ?_⟩
  rw [goesOn.memory_eq]
  exact ready.calm

theorem Ready.others (ready : session.Ready number maxSlots made) :
    ∃ later more, others session = .ok () later ∧
      session.Proceeds number maxSlots made later more := by
  unfold Client.others
  cases turns : session.memory with
  | nil => exact ⟨session, made, rfl, ready.proceeds_refl⟩
  | cons calls rest =>
      have calm := ready.calm
      rw [turns, List.forall_mem_cons] at calm
      have readyRest : ({ session with memory := rest } : Session Schedule).Ready number maxSlots
          made :=
        ⟨⟨⟨ready.holds.complete, ready.holds.held, ready.holds.interned⟩, ready.sound⟩,
          ready.found, calm.2⟩
      obtain ⟨more, proceeds⟩ := readyRest.run calm.1
      exact ⟨_, more, rfl, proceeds.grown, proceeds.ready, proceeds.leads⟩

/-- A request that can be met is answered, and the answer is found again. -/
theorem Ready.answered (ready : session.Ready number maxSlots made) (request : Interner.Request)
    (available : ∀ slot ∈ request.slots, Green.Available made slot)
    (within : request.WithinLimit maxSlots)
    (creatable : ∀ failure, request.create session.workspace ≠ .error failure session.workspace) :
    ∃ value later more, Client.ask number request session = .ok value later ∧
      session.Proceeds number maxSlots made later more ∧ value.key? = some request.key ∧
      value ∈ more ∧
      ∃ interner, later.interners[number]? = some interner ∧ interner.Keeps value := by
  obtain ⟨interner, found, limit⟩ := ready.found
  rcases ask_cases number request session with
    ⟨halt, _, failing⟩ | ⟨before, value, now, workspace, foundBefore, answered, asked⟩
  · obtain ⟨failure, failed⟩ := failing interner found
    exact absurd failed (creatable failure)
  · obtain rfl := Option.some.inj (foundBefore.symm.trans found)
    obtain ⟨more, goesOn, leads⟩ := ask_prospers ready.toSettled number request available
    rw [final_of_ok asked] at goesOn leads
    have handed : Green.Available more value :=
      goesOn.settled.holds.held value (List.mem_append_right _ List.mem_cons_self)
    obtain ⟨inRange, _⟩ := List.getElem?_eq_some_iff.mp found
    refine ⟨value, _, more, asked, ?_, answered.key?_eq, handed.resolve_left answered.ne_absent,
      now, List.getElem?_set_self inRange, ?_⟩
    · exact ready.proceeds goesOn.grown goesOn.settled (leads number) ready.calm
    · rw [← limit] at within
      exact answered.keeps within

end Session

open Session (Ready Proceeds Covers)

variable {made : List Green.Slot} {number maxSlots : Nat} {session : Session Schedule}

/-- Whether a value can be passed on and is found again. -/
structure Session.Has (number : Nat) (session : Session Schedule) (made : List Green.Slot)
    (value : Green.Slot) : Prop where
  available : Green.Available made value
  covers : session.Covers number value

theorem Session.Has.mono {later : Session Schedule} {more : List Green.Slot} {value : Green.Slot}
    (has : session.Has number made value)
    (proceeds : session.Proceeds number maxSlots made later more) : later.Has number more value :=
  ⟨has.available.mono proceeds.grown, proceeds.covers has.covers⟩

theorem Session.Ready.askToken (ready : session.Ready number maxSlots made) (written : Written) :
    ∃ value later more,
      ask number (.token written.kind written.text) session = .ok value later ∧
      session.Proceeds number maxSlots made later more ∧ later.Has number more value ∧
      Green.Slot.recipe value = .token written := by
  have creatable : ∀ failure, Interner.Request.create (.token written.kind written.text)
      session.workspace ≠ .error failure session.workspace := by
    intro failure failed
    cases failed
  obtain ⟨value, later, more, asked, proceeds, keyed, present, interner, found, kept⟩ :=
    ready.answered (.token written.kind written.text) (List.forall_mem_nil _) trivial creatable
  cases value with
  | node node => cases keyed
  | absent => cases keyed
  | token token =>
      simp only [Green.Slot.key?, Interner.Request.key, Option.some.injEq, Interner.Key.token.injEq,
        Kind.token.injEq] at keyed
      obtain ⟨kind_eq, text_eq⟩ := keyed
      refine ⟨.token token, later, more, asked, proceeds,
        ⟨.inr present, interner, found, .token kept⟩, ?_⟩
      rw [Green.Slot.recipe, Green.Token.written, kind_eq, text_eq]

theorem Session.Ready.askNode (ready : session.Ready number maxSlots made) {kind : NodeKind}
    {slots : List Green.Slot} (has : ∀ slot ∈ slots, session.Has number made slot)
    (within : slots.length ≤ maxSlots) (fits : kind.checkSlots slots = .ok ()) :
    ∃ value later more, ask number (.node kind slots) session = .ok value later ∧
      session.Proceeds number maxSlots made later more ∧ later.Has number more value ∧
      Green.Slot.recipe value = .node ⟨kind, slots.map Green.Slot.recipe⟩ := by
  have creatable : ∀ failure, Interner.Request.create (.node kind slots) session.workspace ≠
      .error failure session.workspace := by
    intro failure failed
    rw [Interner.Request.create, Build.bind_run_of_ok (Green.Node.create_run fits [] _)] at failed
    cases failed
  obtain ⟨value, later, more, asked, proceeds, keyed, present, interner, found, kept⟩ :=
    ready.answered (.node kind slots) (fun slot slotPresent => (has slot slotPresent).available)
      within creatable
  have hasLater := fun slot slotPresent => (has slot slotPresent).mono proceeds
  cases value with
  | token token => cases keyed
  | absent => cases keyed
  | node node =>
      simp only [Green.Slot.key?, Interner.Request.key, Option.some.injEq, Interner.Key.node.injEq,
        Kind.node.injEq] at keyed
      obtain ⟨rfl, sameAddresses⟩ := keyed
      -- The node found may be an old one, but what it was made of is what was passed now.
      have sameSlots : node.slots = slots := by
        have history := proceeds.ready.holds.complete.history
        apply history.eq_of_allIdentical (history.slots_available present)
        · exact fun slot slotPresent => (hasLater slot slotPresent).available
        · exact Green.Slot.allIdentical_iff.mpr sameAddresses
      refine ⟨.node node, later, more, asked, proceeds,
        ⟨.inr present, interner, found, .node kept ?_⟩, ?_⟩
      · rw [sameSlots]
        intro slot slotPresent
        obtain ⟨now, foundNow, coversSlot⟩ := (hasLater slot slotPresent).covers
        obtain rfl := Option.some.inj (foundNow.symm.trans found)
        exact coversSlot
      · rw [Green.Slot.recipe, Green.Node.recipe_eq, sameSlots]

namespace Recipe

mutual

/-- A recipe that follows the grammar is built, whatever others do in between. -/
theorem Fits.intern_succeeds (recipe : Recipe) (fits : recipe.Fits)
    (small : recipe.Small maxSlots) {made : List Green.Slot} {session : Session Schedule}
    (ready : session.Ready number maxSlots made) :
    ∃ value later more, recipe.intern number session = .ok value later ∧
      session.Proceeds number maxSlots made later more ∧ later.Has number more value ∧
      Green.Slot.recipe value = .node recipe :=
  match recipe, fits, small with
  | ⟨kind, slots⟩, fits, .intro within smallBelow => by
    obtain ⟨greens, afterSlots, madeSlots, built, slotsProceed, has, recipes⟩ :=
      internSlots_succeeds slots (fun _ present => fits.child present) smallBelow ready
    obtain ⟨afterOthers, madeOthers, waited, othersProceed⟩ := slotsProceed.ready.others
    have checked : kind.checkSlots greens = .ok () := by
      apply Green.Slot.checkSlots_of_recipes
      rw [recipes]
      exact fits.admits
    have greensWithin : greens.length ≤ maxSlots := by
      rw [← List.length_map Green.Slot.recipe, recipes]
      exact within
    obtain ⟨value, later, more, asked, askProceeds, hasValue, recipe_eq⟩ :=
      othersProceed.ready.askNode (fun slot present => (has slot present).mono othersProceed)
        greensWithin checked
    rw [recipes] at recipe_eq
    refine ⟨value, later, more, ?_, (slotsProceed.trans othersProceed).trans askProceeds, hasValue,
      recipe_eq⟩
    rw [intern, bind_run_of_ok built, bind_run_of_ok waited, asked]

theorem internSlots_succeeds (slots : List (Slot Recipe Written))
    (fits : ∀ child : Recipe, .node child ∈ slots → child.Fits)
    (small : ∀ child : Recipe, .node child ∈ slots → child.Small maxSlots)
    {made : List Green.Slot} {session : Session Schedule}
    (ready : session.Ready number maxSlots made) :
    ∃ values later more, internSlots number slots session = .ok values later ∧
      session.Proceeds number maxSlots made later more ∧
      (∀ value ∈ values, later.Has number more value) ∧ values.map Green.Slot.recipe = slots :=
  match slots with
  | [] => ⟨[], session, made, rfl, ready.proceeds_refl, List.forall_mem_nil _, rfl⟩
  | slot :: rest => by
    obtain ⟨value, between, madeFirst, built, firstProceeds, hasFirst, recipe_eq⟩ :=
      internSlot_succeeds slot (fun child same => fits child (same ▸ List.mem_cons_self))
        (fun child same => small child (same ▸ List.mem_cons_self)) ready
    obtain ⟨values, later, more, restBuilt, restProceeds, hasRest, recipes⟩ :=
      internSlots_succeeds rest (fun child present => fits child (List.mem_cons_of_mem _ present))
        (fun child present => small child (List.mem_cons_of_mem _ present)) firstProceeds.ready
    refine ⟨value :: values, later, more, ?_, firstProceeds.trans restProceeds,
      List.forall_mem_cons.mpr ⟨hasFirst.mono restProceeds, hasRest⟩, ?_⟩
    · rw [internSlots, bind_run_of_ok built, bind_run_of_ok restBuilt]
      rfl
    · rw [List.map_cons, recipe_eq, recipes]

theorem internSlot_succeeds (slot : Slot Recipe Written)
    (fits : ∀ child : Recipe, slot = .node child → child.Fits)
    (small : ∀ child : Recipe, slot = .node child → child.Small maxSlots)
    {made : List Green.Slot} {session : Session Schedule}
    (ready : session.Ready number maxSlots made) :
    ∃ value later more, internSlot number slot session = .ok value later ∧
      session.Proceeds number maxSlots made later more ∧ later.Has number more value ∧
      Green.Slot.recipe value = slot :=
  match slot with
  | .absent => by
    obtain ⟨interner, found, _⟩ := ready.found
    exact ⟨.absent, session, made, rfl, ready.proceeds_refl,
      ⟨.inl rfl, interner, found, .absent⟩, rfl⟩
  | .token written => by
    obtain ⟨afterOthers, madeOthers, waited, othersProceed⟩ := ready.others
    obtain ⟨value, later, more, asked, askProceeds, has, recipe_eq⟩ :=
      othersProceed.ready.askToken written
    refine ⟨value, later, more, ?_, othersProceed.trans askProceeds, has, recipe_eq⟩
    rw [internSlot, bind_run_of_ok waited, asked]
  | .node child => Fits.intern_succeeds child (fits child rfl) (small child rfl) ready

end

end Recipe

/-- Two builds through one interner, with anything called before them, in between, and between their
requests, except that nobody clears the interner from the first build on: both succeed, and they end
in the same value exactly when the recipes are equal. -/
theorem interning_is_perfect (schedule : Schedule) (before between : List Call) {interner : Interner}
    (found : ((Session.start schedule).run before).interners[number]? = some interner)
    (calm : ∀ calls ∈ schedule, .clearInterner number ∉ calls)
    (calmBetween : .clearInterner number ∉ between) {first second : Recipe} (firstFits : first.Fits)
    (secondFits : second.Fits) (firstSmall : first.Small interner.maxSlots)
    (secondSmall : second.Small interner.maxSlots) :
    ∃ value opened other closed,
      first.intern number ((Session.start schedule).run before) = .ok value opened ∧
      second.intern number (opened.run between) = .ok other closed ∧
      (value.identical other = true ↔ first = second) := by
  obtain ⟨made, goesOn, _⟩ := (Session.settled_start schedule).run before
  have ready : ((Session.start schedule).run before).Ready number interner.maxSlots made := by
    refine ⟨goesOn.settled, ⟨interner, found, rfl⟩, ?_⟩
    rw [goesOn.memory_eq]
    exact calm
  obtain ⟨value, opened, madeFirst, firstBuilt, firstProceeds, hasFirst, firstRecipe⟩ :=
    Recipe.Fits.intern_succeeds first firstFits firstSmall ready
  obtain ⟨madeBetween, ran⟩ := firstProceeds.ready.run calmBetween
  obtain ⟨other, closed, more, secondBuilt, secondProceeds, hasSecond, secondRecipe⟩ :=
    Recipe.Fits.intern_succeeds second secondFits secondSmall ran.ready
  refine ⟨value, opened, other, closed, firstBuilt, secondBuilt, ?_⟩
  have hasStill := (hasFirst.mono ran).mono secondProceeds
  have settled := secondProceeds.ready.toSettled
  constructor
  · intro same
    have equal := settled.holds.complete.history.eq_of_identical hasStill.available
      hasSecond.available same
    rw [equal, secondRecipe] at firstRecipe
    exact (Slot.node.inj firstRecipe).symm
  · rintro rfl
    obtain ⟨now, foundNow, covers⟩ := hasStill.covers
    obtain ⟨there, foundThere, coversOther⟩ := hasSecond.covers
    obtain rfl := Option.some.inj (foundNow.symm.trans foundThere)
    have sound := settled.sound now (List.mem_of_getElem? foundNow)
    rw [covers.eq_of_recipe sound coversOther (firstRecipe.trans secondRecipe.symm)]
    exact Green.Slot.identical_self other

namespace Recipe

def name (text : String) : Recipe := ⟨.simpleNameReference, [.token ⟨.identifier, text⟩]⟩

def argument (text : String) : Recipe := ⟨.positionalArgument, [.absent, .node (name text)]⟩

theorem name_fits (text : String) : (name text).Fits := by
  refine .intro ?_ (by simp [name, describe])
  exact .cons (.token rfl (by simp [Written.token])) .nil

theorem argument_fits (text : String) : (argument text).Fits := by
  refine .intro ?_ ?_
  · refine .cons (.absent rfl) (.cons (.node rfl ?_) .nil)
    rw [description_kind]
    exact (rfl : KindSet.expressions.contains NodeKind.simpleNameReference = true)
  · simpa [argument, describe, Fits] using name_fits text

theorem argument_small (text : String) : (argument text).Small 2 := by
  refine .intro (Nat.le_refl 2) ?_
  intro child present
  have isName : child = name text := by simpa [argument] using present
  rw [isName]
  refine .intro (Nat.le_succ 1) ?_
  intro child present
  simp [name] at present

end Recipe

/-- Others ask for the name in the argument while it is built, and for another one. -/
def Schedule.ofNames : Schedule :=
  [[.internToken 0 TokenKind.identifier "f"], [.internToken 0 TokenKind.identifier "a"],
    [.internNode 0 NodeKind.simpleNameReference [some 0]]]

theorem interning_is_perfect_of_arguments :
    (∃ value opened other closed,
      (Recipe.argument "f").intern 0 ((Session.start .ofNames).run [.newInterner 2]) =
        .ok value opened ∧
      (Recipe.argument "f").intern 0 (opened.run [.newInterner 3]) = .ok other closed ∧
      value.identical other = true) ∧
    ∃ value opened other closed,
      (Recipe.argument "f").intern 0 ((Session.start .ofNames).run [.newInterner 2]) =
        .ok value opened ∧
      (Recipe.argument "a").intern 0 (opened.run [.newInterner 3]) = .ok other closed ∧
      value.identical other = false := by
  have found : ((Session.start Schedule.ofNames).run [.newInterner 2]).interners[0]? =
      some (.withMaxSlots 2) := rfl
  have calm : ∀ calls ∈ Schedule.ofNames, Call.clearInterner 0 ∉ calls := by
    simp [Schedule.ofNames]
  have perfect (text : String) := interning_is_perfect .ofNames [.newInterner 2] [.newInterner 3]
    found calm (by simp) (Recipe.argument_fits "f") (Recipe.argument_fits text)
    (Recipe.argument_small "f") (Recipe.argument_small text)
  obtain ⟨value, opened, other, closed, built, rebuilt, same⟩ := perfect "f"
  obtain ⟨first, openedFirst, second, closedSecond, firstBuilt, secondBuilt, differ⟩ := perfect "a"
  refine ⟨⟨value, opened, other, closed, built, rebuilt, same.mpr rfl⟩,
    first, openedFirst, second, closedSecond, firstBuilt, secondBuilt, ?_⟩
  rw [← Bool.not_eq_true, differ]
  simp [Recipe.argument, Recipe.name]

end SyntaxTree

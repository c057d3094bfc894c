import SyntaxTree.Proofs.Interning

/-!
What an interner keeps over many requests. Main statements: an interner stays sound, that is, it
keeps one value for each key; and two answers are the same value exactly when their requests are for
the same key and within the limit, as long as nothing was forgotten in between.
-/

namespace SyntaxTree.Interner

variable {interner later : Interner} {workspace after : Workspace} {request : Request}
  {value other : Green.Slot} {next laterNext : Nat}

/-- Whether an interner keeps one value for each key and each stamp, all stamped before now. -/
structure Sound (interner : Interner) (next : Nat) : Prop where
  stamped : ∀ value, interner.Keeps value → ∃ stamp, value.stamp? = some stamp ∧ stamp.serial < next
  byKey : ∀ first second, interner.Keeps first → interner.Keeps second →
    first.key? = second.key? → first = second
  byStamp : ∀ first second, interner.Keeps first → interner.Keeps second →
    first.stamp? = second.stamp? → first = second

/-- What one interner, after some time, may have become: all that is new in it is stamped since. -/
structure Follows (interner : Interner) (next : Nat) (later : Interner) (laterNext : Nat) : Prop where
  next_le : next ≤ laterNext
  maxSlots_eq : later.maxSlots = interner.maxSlots
  keeps_cases : ∀ value, later.Keeps value →
    interner.Keeps value ∨ ∃ stamp, value.stamp? = some stamp ∧ next ≤ stamp.serial

/-- Whether a stamp was handed out but no value with it is kept. -/
structure Past (interner : Interner) (next : Nat) (stamp : Stamp) : Prop where
  serial_lt : stamp.serial < next
  not_kept : ∀ value, interner.Keeps value → value.stamp? ≠ some stamp

/-- What tells the values of an interner apart tells them apart from a new one as well. -/
theorem eq_of_keeps_add {Tag : Type} (tag : Green.Slot → Tag) (made : value ≠ .absent)
    (unique : ∀ first second, interner.Keeps first → interner.Keeps second →
      tag first = tag second → first = second)
    (new : ∀ other, interner.Keeps other → tag other ≠ tag value) :
    ∀ first second, (interner.add value).Keeps first → (interner.add value).Keeps second →
      tag first = tag second → first = second := by
  intro first second firstKept secondKept same
  rcases (keeps_add made).mp firstKept with rfl | firstEarlier
  · rcases (keeps_add made).mp secondKept with rfl | secondEarlier
    · rfl
    · exact absurd same.symm (new second secondEarlier)
  · rcases (keeps_add made).mp secondKept with rfl | secondEarlier
    · exact absurd same (new first firstEarlier)
    · exact unique first second firstEarlier secondEarlier same

theorem not_keeps_of_empty (noTokens : interner.tokens = []) (noNodes : interner.nodes = []) :
    ¬ interner.Keeps value := by
  cases value with
  | token token => simp [Keeps, noTokens]
  | node node => simp [Keeps, noNodes]
  | absent => exact id

theorem sound_of_nothing (nothing : ∀ value, ¬ interner.Keeps value) (next : Nat) :
    interner.Sound next :=
  ⟨fun value kept => absurd kept (nothing value), fun first _ kept => absurd kept (nothing first),
    fun first _ kept => absurd kept (nothing first)⟩

namespace Sound

theorem mono (sound : interner.Sound next) (increased : next ≤ laterNext) :
    interner.Sound laterNext := by
  refine ⟨?_, sound.byKey, sound.byStamp⟩
  intro value kept
  obtain ⟨stamp, stamped, below⟩ := sound.stamped value kept
  exact ⟨stamp, stamped, Nat.lt_of_lt_of_le below increased⟩

theorem stamp?_ne_next (sound : interner.Sound next) (kept : interner.Keeps value) :
    value.stamp? ≠ some ⟨next⟩ := by
  obtain ⟨stamp, stamped, below⟩ := sound.stamped value kept
  rw [stamped]
  rintro ⟨rfl⟩
  exact Nat.lt_irrefl _ below

theorem add (sound : interner.Sound next) {key : Key} (stamped : value.stamp? = some ⟨next⟩)
    (keyed : value.key? = some key)
    (missing : ∀ other, interner.Keeps other → other.key? ≠ some key) :
    (interner.add value).Sound (next + 1) := by
  have made : value ≠ .absent := by
    rintro rfl
    cases stamped
  rw [← keyed] at missing
  have notYet : ∀ other, interner.Keeps other → other.stamp? ≠ value.stamp? := by
    intro other kept
    rw [stamped]
    exact sound.stamp?_ne_next kept
  refine ⟨?_, eq_of_keeps_add _ made sound.byKey missing,
    eq_of_keeps_add _ made sound.byStamp notYet⟩
  intro other kept
  rcases (keeps_add made).mp kept with rfl | earlier
  · exact ⟨_, stamped, Nat.lt_succ_self _⟩
  · obtain ⟨stamp, found, below⟩ := sound.stamped other earlier
    exact ⟨stamp, found, Nat.lt_succ_of_lt below⟩

/-- The one value that matches is found, in whatever order values are searched. -/
theorem find?_eq (sound : interner.Sound next) (within : request.WithinLimit interner.maxSlots)
    (kept : interner.Keeps value) (keyed : value.key? = some request.key) :
    interner.find? request = some value := by
  cases found : interner.find? request with
  | none => exact absurd keyed (find?_eq_none found within kept)
  | some other =>
      obtain ⟨_, otherKept, otherKeyed⟩ := find?_eq_some found
      rw [sound.byKey other value otherKept kept (otherKeyed.trans keyed.symm)]

end Sound

namespace Follows

theorem refl (interner : Interner) (next : Nat) : interner.Follows next interner next :=
  ⟨Nat.le_refl _, rfl, fun _ kept => .inl kept⟩

theorem of_le (increased : next ≤ laterNext) : interner.Follows next interner laterNext :=
  ⟨increased, rfl, fun _ kept => .inl kept⟩

theorem trans {last : Interner} {lastNext : Nat} (first : interner.Follows next later laterNext)
    (second : later.Follows laterNext last lastNext) : interner.Follows next last lastNext := by
  refine ⟨Nat.le_trans first.next_le second.next_le,
    second.maxSlots_eq.trans first.maxSlots_eq, ?_⟩
  intro value kept
  rcases second.keeps_cases value kept with earlier | ⟨stamp, stamped, since⟩
  · exact first.keeps_cases value earlier
  · exact .inr ⟨stamp, stamped, Nat.le_trans first.next_le since⟩

end Follows

/-- What is past stays past. -/
theorem Past.follows {stamp : Stamp} (past : interner.Past next stamp)
    (follows : interner.Follows next later laterNext) : later.Past laterNext stamp := by
  refine ⟨Nat.lt_of_lt_of_le past.serial_lt follows.next_le, ?_⟩
  intro value kept
  rcases follows.keeps_cases value kept with earlier | ⟨newer, stamped, since⟩
  · exact past.not_kept value earlier
  · rw [stamped]
    rintro ⟨rfl⟩
    exact Nat.not_lt_of_le since past.serial_lt

namespace Answered

theorem key?_eq (answered : Answered interner workspace request value later after) :
    value.key? = some request.key := by
  cases answered with
  | found _ _ keyed _ => exact keyed
  | added _ _ created => exact (Request.create_eq_ok created).2.1
  | passed _ created => exact (Request.create_eq_ok created).2.1

theorem ne_absent (answered : Answered interner workspace request value later after) :
    value ≠ .absent := by
  rintro rfl
  cases answered.key?_eq

theorem kept (answered : Answered interner workspace request value later after)
    (kept : interner.Keeps other) : later.Keeps other := by
  have made := answered.ne_absent
  cases answered with
  | found _ _ _ _ => exact kept
  | added _ _ _ => exact (keeps_add made).mpr (.inr kept)
  | passed _ _ => exact kept

theorem keeps (answered : Answered interner workspace request value later after)
    (within : request.WithinLimit interner.maxSlots) : later.Keeps value := by
  have made := answered.ne_absent
  cases answered with
  | found _ kept _ _ => exact kept
  | added _ _ _ => exact (keeps_add made).mpr (.inl rfl)
  | passed beyond _ => exact absurd within beyond

theorem sound (answered : Answered interner workspace request value later after)
    (sound : interner.Sound workspace.nextSerial) : later.Sound after.nextSerial := by
  cases answered with
  | found _ _ _ next_eq =>
      rw [next_eq]
      exact ⟨sound.stamped, sound.byKey, sound.byStamp⟩
  | added _ missing created =>
      obtain ⟨stamped, keyed, next_eq⟩ := Request.create_eq_ok created
      rw [next_eq]
      exact sound.add stamped keyed missing
  | passed _ created =>
      rw [(Request.create_eq_ok created).2.2]
      exact sound.mono (Nat.le_succ _)

theorem follows (answered : Answered interner workspace request value later after) :
    interner.Follows workspace.nextSerial later after.nextSerial := by
  have made := answered.ne_absent
  cases answered with
  | found _ _ _ next_eq => exact ⟨Nat.le_of_eq next_eq.symm, rfl, fun _ kept => .inl kept⟩
  | added _ _ created =>
      obtain ⟨stamped, _, next_eq⟩ := Request.create_eq_ok created
      refine ⟨by rw [next_eq]; exact Nat.le_succ _, by cases value <;> rfl, ?_⟩
      intro other kept
      rcases (keeps_add made).mp kept with rfl | earlier
      · exact .inr ⟨_, stamped, Nat.le_refl _⟩
      · exact .inl earlier
  | passed _ created =>
      rw [(Request.create_eq_ok created).2.2]
      exact .of_le (Nat.le_succ _)

theorem exists_stamp (answered : Answered interner workspace request value later after)
    (sound : interner.Sound workspace.nextSerial) :
    ∃ stamp, value.stamp? = some stamp ∧ stamp.serial < after.nextSerial := by
  cases answered with
  | found _ kept _ next_eq =>
      rw [next_eq]
      exact sound.stamped value kept
  | added _ _ created =>
      obtain ⟨stamped, _, next_eq⟩ := Request.create_eq_ok created
      exact ⟨_, stamped, by rw [next_eq]; exact Nat.lt_succ_self _⟩
  | passed _ created =>
      obtain ⟨stamped, _, next_eq⟩ := Request.create_eq_ok created
      exact ⟨_, stamped, by rw [next_eq]; exact Nat.lt_succ_self _⟩

/-- A value beyond the limit is not found again. -/
theorem past {stamp : Stamp} (answered : Answered interner workspace request value later after)
    (sound : interner.Sound workspace.nextSerial)
    (beyond : ¬ request.WithinLimit interner.maxSlots) (stamped : value.stamp? = some stamp) :
    later.Past after.nextSerial stamp := by
  cases answered with
  | found within _ _ _ => exact absurd within beyond
  | added within _ _ => exact absurd within beyond
  | passed _ created =>
      obtain ⟨new, _, next_eq⟩ := Request.create_eq_ok created
      obtain rfl : stamp = ⟨workspace.nextSerial⟩ := Option.some.inj (stamped.symm.trans new)
      exact ⟨by rw [next_eq]; exact Nat.lt_succ_self _, fun _ kept => sound.stamp?_ne_next kept⟩

theorem stamp?_ne_of_past {stamp : Stamp}
    (answered : Answered interner workspace request value later after)
    (past : interner.Past workspace.nextSerial stamp) : value.stamp? ≠ some stamp := by
  have notNext : (⟨workspace.nextSerial⟩ : Stamp) ≠ stamp := by
    rintro rfl
    exact Nat.lt_irrefl _ past.serial_lt
  cases answered with
  | found _ kept _ _ => exact past.not_kept value kept
  | added _ _ created =>
      rw [(Request.create_eq_ok created).1]
      exact fun same => notNext (Option.some.inj same)
  | passed _ created =>
      rw [(Request.create_eq_ok created).1]
      exact fun same => notNext (Option.some.inj same)

/-- If nothing was forgotten in between, two answers are the same value exactly when their requests
are within the limit and for the same key. -/
theorem same_iff {first second : Request} {opened reopened closed : Interner}
    {afterFirst beforeSecond afterSecond : Workspace}
    (firstAnswered : Answered interner workspace first value opened afterFirst)
    (soundBefore : interner.Sound workspace.nextSerial)
    (follows : opened.Follows afterFirst.nextSerial reopened beforeSecond.nextSerial)
    (stillKept : ∀ other, opened.Keeps other → reopened.Keeps other)
    (secondAnswered : Answered reopened beforeSecond second other closed afterSecond)
    (soundBetween : reopened.Sound beforeSecond.nextSerial) :
    value.stamp? = other.stamp? ↔ first.WithinLimit interner.maxSlots ∧
      second.WithinLimit interner.maxSlots ∧ first.key = second.key := by
  have limit_eq : reopened.maxSlots = interner.maxSlots :=
    follows.maxSlots_eq.trans firstAnswered.follows.maxSlots_eq
  rw [← limit_eq]
  obtain ⟨stamp, stamped, _⟩ := firstAnswered.exists_stamp soundBefore
  by_cases within : first.WithinLimit reopened.maxSlots
  · have valueKept : reopened.Keeps value := by
      apply stillKept
      apply firstAnswered.keeps
      rwa [← limit_eq]
    have valueKeyed := firstAnswered.key?_eq
    cases secondAnswered with
    | found withinToo otherKept otherKeyed _ =>
        constructor
        · intro same
          obtain rfl := soundBetween.byStamp value other valueKept otherKept same
          exact ⟨within, withinToo, Option.some.inj (valueKeyed.symm.trans otherKeyed)⟩
        · rintro ⟨_, _, sameKey⟩
          rw [← sameKey, ← valueKeyed] at otherKeyed
          rw [soundBetween.byKey value other valueKept otherKept otherKeyed.symm]
    | added _ missing created =>
        rw [(Request.create_eq_ok created).1]
        constructor
        · exact fun same => absurd same (soundBetween.stamp?_ne_next valueKept)
        · rintro ⟨_, _, sameKey⟩
          exact absurd (valueKeyed.trans (congrArg some sameKey)) (missing value valueKept)
    | passed beyond created =>
        rw [(Request.create_eq_ok created).1]
        constructor
        · exact fun same => absurd same (soundBetween.stamp?_ne_next valueKept)
        · exact fun both => absurd both.2.1 beyond
  · have past : reopened.Past beforeSecond.nextSerial stamp := by
      refine (firstAnswered.past soundBefore ?_ stamped).follows follows
      rwa [← limit_eq]
    constructor
    · intro same
      exact absurd (same.symm.trans stamped) (secondAnswered.stamp?_ne_of_past past)
    · exact fun both => absurd both.1 within

end Answered

/-- The interner once it has forgotten its values. -/
def cleared (interner : Interner) : Interner := { interner with nodes := [], tokens := [] }

theorem not_keeps_cleared : ¬ interner.cleared.Keeps value := not_keeps_of_empty rfl rfl

theorem follows_cleared (interner : Interner) (next : Nat) :
    interner.Follows next interner.cleared next :=
  ⟨Nat.le_refl _, rfl, fun _ kept => absurd kept not_keeps_cleared⟩

theorem past_cleared {stamp : Stamp} (below : stamp.serial < next) :
    interner.cleared.Past next stamp :=
  ⟨below, fun _ kept => absurd kept not_keeps_cleared⟩

end SyntaxTree.Interner

import Mathlib.Data.List.Induction
import Emblib.Library.Program

/-! `triggered_action`: an action that is called while a trigger is there, from the time on that it has
been there without a break for longer than a delay. The breaks are those that the checks see, and
the time is counted from the first check that has seen the trigger again. -/
namespace Emblib.TriggeredActions
open Programs

/-! ## The code -/

inductive Request where
  | trigger
  | now
  | action

abbrev Reply : Request → Type
  | .trigger => Bool
  | .now => Int
  | .action => Unit

abbrev Task : Type → Type := Program Request Reply

structure TriggeredAction where
  delay : Int
  triggerDetected : Bool
  triggerTimepoint : Int

/-- The part of `check_and_execute` behind the reading of the clock. -/
def detected (action : TriggeredAction) (now : Int) : TriggeredAction :=
  if !action.triggerDetected then { action with triggerDetected := true, triggerTimepoint := now } else action

/-- `check_and_execute`. -/
def checkAndExecute (action : TriggeredAction) : Task TriggeredAction := do
  if ← Program.perform .trigger then
    let now ← Program.perform .now
    let action := detected action now
    if action.triggerTimepoint + action.delay < now then Program.perform Request.action
    return action
  else
    return { action with triggerDetected := false }

/-- The constructor. -/
def construct (delay : Int) : Task TriggeredAction := do
  let now ← Program.perform .now
  checkAndExecute { delay, triggerDetected := false, triggerTimepoint := now }

def checkAll : Nat → TriggeredAction → Task TriggeredAction
  | 0, action => return action
  | count + 1, action => do
    let action ← checkAll count action
    checkAndExecute action

/-- An object that is constructed and checked so many times. -/
def lifetime (delay : Int) (count : Nat) : Task TriggeredAction := do
  let action ← construct delay
  checkAll count action

/-! ## What the checks see -/

/-- The reading of the clock at a check that sees the trigger. -/
abbrev Check := Option Int

/-- The last check sees the trigger, and `first` is the reading at the first of the checks that have seen it
without a break. -/
structure HeldSince (checks : List Check) (first : Int) : Prop where
  run : ∃ before later, checks = before ++ some first :: later ∧ (∀ check ∈ later, check ≠ none) ∧
    ∀ reading, before.getLast? ≠ some (some reading)

/-- What the checks exchange. The action is called exactly at those checks that see the trigger, have
seen it without a break, and are more than the delay after the first of them. -/
inductive Tells (delay : Int) : List Check → List (Sigma Reply) → Prop where
  | nil : Tells delay [] []
  | absent (earlier : Tells delay checks exchanges) :
      Tells delay (checks ++ [none]) (exchanges ++ [⟨.trigger, false⟩])
  | waits (earlier : Tells delay checks exchanges)
      (early : ∀ first, HeldSince (checks ++ [some now]) first → now ≤ first + delay) :
      Tells delay (checks ++ [some now]) (exchanges ++ [⟨.trigger, true⟩, ⟨.now, now⟩])
  | acts (earlier : Tells delay checks exchanges) (held : HeldSince (checks ++ [some now]) first)
      (due : first + delay < now) :
      Tells delay (checks ++ [some now]) (exchanges ++ [⟨.trigger, true⟩, ⟨.now, now⟩, ⟨.action, ()⟩])

section Checks
variable {checks : List Check} {first now : Int}

theorem held_first (broken : ∀ reading, checks.getLast? ≠ some (some reading)) :
    HeldSince (checks ++ [some now]) now :=
  ⟨⟨checks, [], rfl, by simp, broken⟩⟩

theorem held_on (held : HeldSince checks first) : HeldSince (checks ++ [some now]) first := by
  obtain ⟨before, later, rfl, unbroken, broken⟩ := held.run
  refine ⟨⟨before, later ++ [some now], by simp, ?_, broken⟩⟩
  intro check member
  rcases List.mem_append.mp member with earlier | last
  · exact unbroken check earlier
  · rw [List.mem_singleton.mp last]
    exact Option.some_ne_none now

/-- What begins later has no break before it. -/
theorem held_shorter {other : Int} {before rest later later' : List Check}
    (split : some first :: later = rest ++ some other :: later') (unbroken : ∀ check ∈ later, check ≠ none)
    (broken : ∀ reading, (before ++ rest).getLast? ≠ some (some reading)) : first = other := by
  cases rest using List.reverseRecOn with
  | nil =>
    cases split
    rfl
  | append_singleton rest last =>
    have inside : last ∈ some first :: later := by
      rw [split]
      simp
    have reading : ∃ reading, last = some reading := by
      rcases List.mem_cons.mp inside with start | member
      · exact ⟨first, start⟩
      · exact Option.ne_none_iff_exists'.mp (unbroken last member)
    obtain ⟨reading, rfl⟩ := reading
    rw [← List.append_assoc] at broken
    exact absurd List.getLast?_concat (broken reading)

/-- The checks determine the reading. -/
theorem held_unique {other : Int} (held : HeldSince checks first) (also : HeldSince checks other) :
    first = other := by
  obtain ⟨before, later, shape, unbroken, broken⟩ := held.run
  obtain ⟨before', later', shape', unbroken', broken'⟩ := also.run
  rcases List.append_eq_append_iff.mp (shape.symm.trans shape') with ⟨rest, longer, split⟩ | ⟨rest, longer, split⟩
  · exact held_shorter split unbroken (longer ▸ broken')
  · exact (held_shorter split unbroken' (longer ▸ broken)).symm

end Checks

/-! ## The state tells since when -/

/-- The members say whether the last check has seen the trigger, and since when. -/
structure Follows (delay : Int) (checks : List Check) (action : TriggeredAction) : Prop where
  delay : action.delay = delay
  detected : action.triggerDetected = true → HeldSince checks action.triggerTimepoint
  missed : action.triggerDetected = false → ∀ reading, checks.getLast? ≠ some (some reading)

variable {delay now : Int} {checks : List Check} {action : TriggeredAction} {exchanges : List (Sigma Reply)}

theorem follows_detected (follows : Follows delay checks action) (now : Int) :
    HeldSince (checks ++ [some now]) (detected action now).triggerTimepoint ∧
      Follows delay (checks ++ [some now]) (detected action now) := by
  have held : HeldSince (checks ++ [some now]) (detected action now).triggerTimepoint := by
    unfold detected
    cases seen : action.triggerDetected with
    | true => exact held_on (follows.detected seen)
    | false => exact held_first (follows.missed seen)
  have still : (detected action now).triggerDetected = true := by
    unfold detected
    cases seen : action.triggerDetected with
    | true => exact seen
    | false => rfl
  have kept : (detected action now).delay = action.delay := by
    unfold detected
    split <;> rfl
  refine ⟨held, kept.trans follows.delay, fun _ => held, fun missed => ?_⟩
  rw [still] at missed
  exact absurd missed.symm Bool.false_ne_true

/-- One check. -/
theorem check_tells (tells : Tells delay checks exchanges) (follows : Follows delay checks action) :
    (checkAndExecute action).Yields fun after more => ∃ check, Tells delay (checks ++ [check]) (exchanges ++ more) ∧
      Follows delay (checks ++ [check]) after := by
  intro triggered
  cases triggered with
  | false =>
    refine ⟨none, .absent tells, follows.delay, fun seen => absurd seen Bool.false_ne_true, fun _ reading => ?_⟩
    rw [List.getLast?_concat]
    exact fun same => Option.some_ne_none reading (Option.some.inj same).symm
  | true =>
    intro now
    obtain ⟨held, after⟩ := follows_detected follows now
    show Program.Yields (ite _ _ _) _
    split
    case isTrue due =>
      intro _
      exact ⟨some now, .acts tells held (after.delay ▸ due), after⟩
    case isFalse early =>
      refine ⟨some now, .waits tells fun first also => ?_, after⟩
      rw [held_unique also held, ← after.delay]
      exact Int.not_lt.mp early

theorem checkAll_tells (count : Nat) (tells : Tells delay checks exchanges) (follows : Follows delay checks action) :
    (checkAll count action).Yields fun after more => ∃ later, later.length = count ∧
      Tells delay (checks ++ later) (exchanges ++ more) ∧ Follows delay (checks ++ later) after := by
  induction count with
  | zero => exact ⟨[], rfl, by simpa using tells, by simpa using follows⟩
  | succ count ih =>
    refine yields_bind.mpr (yields_mono ih ?_)
    rintro middle first ⟨later, length, told, reached⟩
    refine yields_mono (check_tells told reached) ?_
    rintro after more ⟨check, told, reached⟩
    refine ⟨later ++ [check], by rw [List.length_append, length, List.length_singleton], ?_, ?_⟩
    · rw [← List.append_assoc, ← List.append_assoc]
      exact told
    · rw [← List.append_assoc]
      exact reached

/-- **The action is called when the trigger has held.** Whatever the trigger and the clock say, the
construction reads the clock once and checks, and each check asks for the trigger, reads the clock if it is
there, and calls the action if and only if it is and the first check of the unbroken run of those that have
seen it is more than the delay ago; a check without the trigger starts the delay anew. -/
theorem acts_when_held (delay : Int) (count : Nat) {exchanges : List (Sigma Reply)} {final : TriggeredAction}
    (executes : (lifetime delay count).Executes exchanges final) :
    ∃ start checks told, exchanges = ⟨.now, start⟩ :: told ∧ checks.length = count + 1 ∧
      Tells delay checks told := by
  have yields : (lifetime delay count).Yields fun _ exchanges => ∃ start checks told,
      exchanges = ⟨.now, start⟩ :: told ∧ checks.length = count + 1 ∧ Tells delay checks told := by
    intro start
    have fresh : Follows delay [] { delay, triggerDetected := false, triggerTimepoint := start } :=
      ⟨rfl, fun seen => absurd seen Bool.false_ne_true, by simp⟩
    refine yields_bind.mpr (yields_mono (check_tells .nil fresh) ?_)
    rintro action first ⟨check, told, reached⟩
    refine yields_mono (checkAll_tells count told reached) ?_
    rintro final later ⟨checks, length, told, _⟩
    exact ⟨start, [check] ++ checks, first ++ later, rfl, by rw [List.length_append, length]; exact Nat.add_comm 1 count,
      told⟩
  exact executes_yields executes yields

/-- A trigger that is there at two checks, misses one and comes back. -/
theorem acts_when_held_testing : ∃ start checks told,
    [⟨Request.now, 0⟩, ⟨.trigger, true⟩, ⟨.now, 1⟩, ⟨.trigger, true⟩, ⟨.now, 5⟩, ⟨.action, ()⟩, ⟨.trigger, false⟩,
      ⟨.trigger, true⟩, ⟨.now, 6⟩] = ⟨.now, start⟩ :: told ∧ checks.length = 4 ∧ Tells 3 checks told :=
  acts_when_held 3 3 ⟨0, _, rfl, true, _, rfl, 1, _, rfl, true, _, rfl, 5, _, rfl, (), _, rfl, false, _, rfl, true,
    _, rfl, 6, _, rfl, rfl, rfl⟩

end Emblib.TriggeredActions

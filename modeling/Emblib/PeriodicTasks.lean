import Emblib.BasicScheduler
import Emblib.Library.Watchdog

/-! The periodic tasks of the scheduler, the simple and the adaptive ones, over whole histories. When
a task is called is told by the events alone: by its registration, its calls, the periods that it
has set, the resets and the readings of the runs. The other tasks have no part in it, and neither
has what the callbacks do. -/
namespace Emblib.PeriodicTasks
open Runs BasicScheduler

variable {F A B : Type}

/-! ## The two lists -/

/-- How far a run has come with a list: it has not come to it, it is before a task or in its callback,
or it is through. -/
inductive Stage where
  | away
  | before (now : Int)
  | turn (i : Nat) (now : Int)
  | inside (i : Nat) (now : Int)
  | after (now : Int)

def Stage.now : Stage → Option Int
  | .away => none
  | .before now | .turn _ now | .inside _ now | .after now => some now

/-- Events that are the same for both lists. -/
def Plain : Event F A → Prop
  | .started _ | .returned | .passed | .finished | .periodSet _ => True
  | .acted .reset _ => True
  | _ => False

/-- A list of tasks, with the events that are about it. -/
structure Lane (F A B : Type) where
  items : Scheduler F A → List (PeriodicTask B)
  stage : Position → Stage
  called : Event F A → Option B
  added : Event F A → Option (PeriodicTask B)
  plain : ∀ event, Plain event → called event = none ∧ added event = none
  apart : ∀ event task, added event = some task → called event = none

/-- A task as it is told: the period, the time since when it counts, the reading of the last run, and
whether its callback has control. -/
structure View where
  period : Int := 0
  since : Int := 0
  reading : Int := 0
  inside : Bool := false

/-- What the events that are the same for both lists change. -/
def View.going (view : View) : Event F A → View
  | .started now => { view with reading := now }
  | .returned => { view with inside := false }
  | .acted .reset now => { view with since := now }
  | .periodSet period => if view.inside then { view with period := period } else view
  | _ => view

section Told
variable [DecidableEq B] (lane : Lane F A B) (task : B)

def View.after (view : View) (event : Event F A) : View :=
  match lane.called event with
  | some func => if func = task then { view with since := view.reading, inside := true } else view
  | none =>
    match lane.added event with
    | some item =>
      if item.func = task then { view with period := item.period, since := item.execTimepoint } else view
    | none => view.going event

def viewOf (events : List (Event F A)) : View := events.foldl (View.after lane task) {}

def calls (events : List (Event F A)) : Nat := events.countP fun event => lane.called event = some task

def registrations (events : List (Event F A)) : Nat :=
  events.countP fun event => (lane.added event).map (·.func) = some task

def IsReset : Event F A → Prop
  | .acted .reset _ => True
  | _ => False

/-- A run starts or ends. -/
def Boundary : Event F A → Prop
  | .started _ => True
  | .finished => True
  | _ => False

end Told

/-! ## What a step does to a list -/

/-- One step, as far as a list is concerned. -/
inductive Moves (lane : Lane F A B) (s s' : State F A) : Event F A → Prop where
  | started (away : lane.stage s.position = .away)
      (first : lane.stage s'.position = .before now ∨ lane.stage s'.position = .turn 0 now)
      (same : lane.items s'.scheduler = lane.items s.scheduler) : Moves lane s s' (.started now)
  | entered (before : lane.stage s.position = .before now) (first : lane.stage s'.position = .turn 0 now)
      (same : lane.items s'.scheduler = lane.items s.scheduler) : Moves lane s s' .passed
  | skipped (turn : lane.stage s.position = .turn i now) (found : (lane.items s.scheduler)[i]? = some task)
      (early : task.due now = false) (next : lane.stage s'.position = .turn (i + 1) now)
      (same : lane.items s'.scheduler = lane.items s.scheduler) : Moves lane s s' .passed
  | called (turn : lane.stage s.position = .turn i now) (found : (lane.items s.scheduler)[i]? = some task)
      (due : task.due now = true) (inside : lane.stage s'.position = .inside i now)
      (restarted : lane.items s'.scheduler = (lane.items s.scheduler).set i (task.restart now))
      (tells : lane.called event = some task.func) (ordinary : ¬Boundary event ∧ ¬IsReset event) : Moves lane s s' event
  | returned (inside : lane.stage s.position = .inside i now) (next : lane.stage s'.position = .turn (i + 1) now)
      (same : lane.items s'.scheduler = lane.items s.scheduler) : Moves lane s s' .returned
  | left (turn : lane.stage s.position = .turn i now) (beyond : (lane.items s.scheduler)[i]? = none)
      (after : lane.stage s'.position = .after now) (same : lane.items s'.scheduler = lane.items s.scheduler) :
      Moves lane s s' .passed
  | finished (after : lane.stage s.position = .after now) (away : lane.stage s'.position = .away)
      (same : lane.items s'.scheduler = lane.items s.scheduler) : Moves lane s s' .finished
  | added (there : lane.stage s'.position = lane.stage s.position)
      (appended : lane.items s'.scheduler = lane.items s.scheduler ++ [item]) (tells : lane.added event = some item)
      (ordinary : ¬Boundary event ∧ ¬IsReset event) : Moves lane s s' event
  | reset (there : lane.stage s'.position = lane.stage s.position)
      (restarted : lane.items s'.scheduler = (lane.items s.scheduler).map (·.restart now)) :
      Moves lane s s' (.acted .reset now)
  | periodSet (inside : lane.stage s.position = .inside i now) (there : lane.stage s'.position = lane.stage s.position)
      (changed : lane.items s'.scheduler =
        (lane.items s.scheduler).modify i fun task => { task with period := period }) :
      Moves lane s s' (.periodSet period)
  | quiet (there : lane.stage s'.position = lane.stage s.position)
      (same : lane.items s'.scheduler = lane.items s.scheduler)
      (uncalled : lane.called event = none) (unadded : lane.added event = none) (within : ¬Boundary event)
      (unreset : ¬IsReset event)
      (elsewhere : event = .returned ∨ (∃ period, event = .periodSet period) →
        ∀ i now, lane.stage s.position ≠ .inside i now) : Moves lane s s' event

variable {event : Event F A} {s s' : State F A}

section Followed
variable [DecidableEq B] {lane : Lane F A B} {task : B} {view : View} {i : Nat}

theorem after_plain (event : Event F A) (plain : Plain event) : view.after lane task event = view.going event := by
  unfold View.after
  rw [(lane.plain event plain).1, (lane.plain event plain).2]

theorem after_called {func : B} (tells : lane.called event = some func) :
    view.after lane task event =
      if func = task then { view with since := view.reading, inside := true } else view := by
  unfold View.after
  rw [tells]

theorem after_added {item : PeriodicTask B} (tells : lane.added event = some item) (other : item.func ≠ task) :
    view.after lane task event = view := by
  unfold View.after
  rw [lane.apart event item tells, tells]
  exact if_neg other

/-- The task is the only one of the list with its function, and the list has what is told of it. -/
structure Follows (lane : Lane F A B) (task : B) (i : Nat) (view : View) (s : State F A) : Prop where
  own : (lane.items s.scheduler)[i]? = some ⟨task, view.period, view.since⟩
  single : ∀ j item, (lane.items s.scheduler)[j]? = some item → item.func = task → j = i
  inside : view.inside = true ↔ ∃ now, lane.stage s.position = .inside i now
  reading : ∀ now, (lane.stage s.position).now = some now → view.reading = now

omit [DecidableEq B] in
/-- The task's callback does not have control at this stage. -/
theorem outside_of (follows : Follows lane task i view s) (elsewhere : ∀ now, lane.stage s.position ≠ .inside i now) :
    view.inside = false :=
  Bool.eq_false_iff.mpr fun inside => (follows.inside.mp inside).elim fun now => elsewhere now

/-- What is no event of the list changes nothing that is told of the task. -/
theorem quiet_after (uncalled : lane.called event = none) (unadded : lane.added event = none)
    (within : ¬Boundary event) (unreset : ¬IsReset event)
    (outside : event = .returned ∨ (∃ period, event = .periodSet period) → view.inside = false) :
    view.after lane task event = view := by
  have going : view.after lane task event = view.going event := by
    unfold View.after
    rw [uncalled, unadded]
  rw [going]
  cases event with
  | started => exact absurd trivial within
  | returned =>
    show { view with inside := false } = view
    rw [← outside (.inl rfl)]
  | acted action now =>
    cases action with
    | reset => exact absurd trivial unreset
    | _ => rfl
  | periodSet period =>
    show (if view.inside = true then { view with period := period } else view) = view
    rw [outside (.inr ⟨period, rfl⟩), if_neg Bool.false_ne_true]
  | _ => rfl

/-- The run has not come to the task. -/
def Ahead (i : Nat) : Stage → Prop
  | .before _ => True
  | .turn j _ => j ≤ i
  | .inside j _ => j < i
  | _ => False

/-- The run has come past the task, or is in its callback. -/
def Passed (i : Nat) : Stage → Prop
  | .turn j _ => i < j
  | .inside j _ => i ≤ j
  | .after _ => True
  | _ => False

def Unreset (events : List (Event F A)) : Prop := ∀ event ∈ events, ¬IsReset event

/-- The events since the start of a run, when the task was told to be so. -/
inductive Progress (lane : Lane F A B) (task : B) (i : Nat) (start : View) (now : Int) (events : List (Event F A))
    (view : View) (stage : Stage) : Prop where
  | ahead (ahead : Ahead i stage) (uncalled : calls lane task events = 0)
      (same : Unreset events → view.since = start.since ∧ view.period = start.period)
  | passed (passed : Passed i stage) (once : calls lane task events ≤ 1)
      (due : Unreset events → (calls lane task events = 1 ↔ start.since + start.period ≤ now))

variable {start other : View} {now : Int} {events : List (Event F A)} {stage : Stage}

theorem calls_snoc_other (uncalled : lane.called event ≠ some task) :
    calls lane task (events ++ [event]) = calls lane task events := by
  unfold calls
  rw [List.countP_append, List.countP_singleton, if_neg (by simpa using uncalled), Nat.add_zero]

theorem calls_snoc_own (called : lane.called event = some task) :
    calls lane task (events ++ [event]) = calls lane task events + 1 := by
  unfold calls
  rw [List.countP_append, List.countP_singleton, if_pos (by simpa using called)]

theorem unreset_snoc : Unreset (events ++ [event]) ↔ Unreset events ∧ ¬IsReset event := by
  unfold Unreset
  rw [List.forall_mem_append, List.forall_mem_singleton]

theorem ahead_on (uncalled : calls lane task events = 0)
    (same : Unreset events → view.since = start.since ∧ view.period = start.period)
    (others : lane.called event ≠ some task) (ahead : Ahead i stage)
    (kept : ¬IsReset event → other.since = view.since ∧ other.period = view.period) :
    Progress lane task i start now (events ++ [event]) other stage := by
  refine .ahead ahead ((calls_snoc_other others).trans uncalled) fun unreset => ?_
  obtain ⟨before, last⟩ := unreset_snoc.mp unreset
  obtain ⟨since, period⟩ := same before
  exact ⟨(kept last).1.trans since, (kept last).2.trans period⟩

theorem passed_on (once : calls lane task events ≤ 1)
    (due : Unreset events → (calls lane task events = 1 ↔ start.since + start.period ≤ now))
    (others : lane.called event ≠ some task) (passed : Passed i stage) :
    Progress lane task i start now (events ++ [event]) other stage := by
  refine .passed passed (by rwa [calls_snoc_other others]) fun unreset => ?_
  rw [calls_snoc_other others]
  exact due (unreset_snoc.mp unreset).1

omit [DecidableEq B] in
theorem plain_uncalled (event : Event F A) (plain : Plain event) : lane.called event ≠ some task := by
  rw [(lane.plain event plain).1]
  exact nofun

/-- The turn of the task is the only one that can call it, and does so if its period is over. -/
theorem progress_step (moves : Moves lane s s' event) (follows : Follows lane task i view s)
    (reading : view.reading = now) (within : ¬Boundary event)
    (registered : (lane.added event).map (·.func) ≠ some task)
    (progress : Progress lane task i start now events view (lane.stage s.position)) :
    Progress lane task i start now (events ++ [event]) (view.after lane task event) (lane.stage s'.position) := by
  cases moves with
  | started => exact absurd trivial within
  | finished => exact absurd trivial within
  | entered before first same =>
    rw [before] at progress
    rw [first, after_plain .passed trivial]
    cases progress with
    | ahead _ uncalled same => exact ahead_on uncalled same (plain_uncalled .passed trivial) i.zero_le fun _ => ⟨rfl, rfl⟩
    | passed passed => exact passed.elim
  | @skipped j later item turn found early next same =>
    have current : later = now := (follows.reading later (by rw [turn]; rfl)).symm.trans reading
    rw [turn] at progress
    rw [next, after_plain .passed trivial]
    cases progress with
    | ahead ahead uncalled same =>
      cases Nat.lt_or_eq_of_le ahead with
      | inl earlier => exact ahead_on uncalled same (plain_uncalled .passed trivial) earlier fun _ => ⟨rfl, rfl⟩
      | inr here =>
        have none : calls lane task (events ++ [.passed]) = 0 :=
          (calls_snoc_other (plain_uncalled .passed trivial)).trans uncalled
        refine .passed (Nat.lt_succ_of_le (Nat.le_of_eq here.symm)) (none ▸ Nat.zero_le 1) fun unreset => ?_
        obtain ⟨since, period⟩ := same (unreset_snoc.mp unreset).1
        obtain rfl : item = ⟨task, view.period, view.since⟩ := Option.some.inj (found.symm.trans (here ▸ follows.own))
        rw [none, ← since, ← period, ← current]
        exact iff_of_false nofun (of_decide_eq_false early)
    | passed passed once due =>
      exact passed_on once due (plain_uncalled .passed trivial) (Nat.lt_succ_of_lt passed)
  | @called j later item _ turn found isDue inside restarted tells ordinary =>
    have current : later = now := (follows.reading later (by rw [turn]; rfl)).symm.trans reading
    rw [turn] at progress
    rw [inside, after_called tells]
    have own (named : item.func = task) : j = i := follows.single j item found named
    cases progress with
    | ahead ahead uncalled same =>
      by_cases named : item.func = task
      · have one : calls lane task (events ++ [event]) = 1 := by
          rw [calls_snoc_own (tells.trans (congrArg some named)), uncalled]
        refine .passed (Nat.le_of_eq (own named).symm) (Nat.le_of_eq one) fun unreset => iff_of_true one ?_
        obtain ⟨since, period⟩ := same (unreset_snoc.mp unreset).1
        obtain rfl : item = ⟨task, view.period, view.since⟩ :=
          Option.some.inj (found.symm.trans (own named ▸ follows.own))
        rw [← since, ← period, ← current]
        exact of_decide_eq_true isDue
      · have apart : j ≠ i := by
          rintro rfl
          exact named (congrArg PeriodicTask.func (Option.some.inj (found.symm.trans follows.own)))
        rw [if_neg named]
        refine ahead_on uncalled same (fun called => named ?_) (Nat.lt_of_le_of_ne ahead apart) fun _ => ⟨rfl, rfl⟩
        exact Option.some.inj (tells.symm.trans called)
    | passed passed once due =>
      have other : item.func ≠ task := fun named => Nat.lt_irrefl i (own named ▸ passed)
      refine passed_on once due (fun called => other ?_) (Nat.le_of_lt passed)
      exact Option.some.inj (tells.symm.trans called)
  | returned inside next same =>
    rw [inside] at progress
    rw [next, after_plain .returned trivial]
    cases progress with
    | ahead ahead uncalled same => exact ahead_on uncalled same (plain_uncalled .returned trivial) ahead fun _ => ⟨rfl, rfl⟩
    | passed passed once due => exact passed_on once due (plain_uncalled .returned trivial) (Nat.lt_succ_of_le passed)
  | left turn beyond after same =>
    rw [turn] at progress
    rw [after, after_plain .passed trivial]
    cases progress with
    | ahead ahead =>
      have listed := (List.getElem?_eq_some_iff.mp follows.own).1
      exact absurd (Nat.lt_of_le_of_lt ahead listed) (Nat.not_lt.mpr (List.getElem?_eq_none_iff.mp beyond))
    | passed _ once due => exact passed_on once due (plain_uncalled .passed trivial) trivial
  | @added item _ there appended tells ordinary =>
    have uncalled : lane.called event ≠ some task := by
      rw [lane.apart event item tells]
      exact nofun
    rw [there, after_added tells fun same => registered (by rw [tells, ← same]; rfl)]
    cases progress with
    | ahead ahead none same => exact ahead_on none same uncalled ahead fun _ => ⟨rfl, rfl⟩
    | passed passed once due => exact passed_on once due uncalled passed
  | @reset later there restarted =>
    rw [there, after_plain (.acted .reset later) trivial]
    cases progress with
    | ahead ahead none same =>
      exact ahead_on none same (plain_uncalled (.acted .reset later) trivial) ahead fun unreset => absurd trivial unreset
    | passed passed once due => exact passed_on once due (plain_uncalled (.acted .reset later) trivial) passed
  | @periodSet j later period inside there changed =>
    rw [there, after_plain (.periodSet period) trivial]
    cases progress with
    | ahead ahead none same =>
      have outside : view.inside = false := outside_of follows fun moment here => by
        rw [here] at ahead
        exact Nat.lt_irrefl i ahead
      have kept : view.going (.periodSet period : Event F A) = view := by
        show (if view.inside = true then { view with period := period } else view) = view
        rw [outside, if_neg Bool.false_ne_true]
      refine ahead_on none same (plain_uncalled (.periodSet period) trivial) ahead fun _ => ?_
      rw [kept]
      exact ⟨rfl, rfl⟩
    | passed passed once due => exact passed_on once due (plain_uncalled (.periodSet period) trivial) passed
  | quiet there same uncalled unadded within unreset elsewhere =>
    have silent : lane.called event ≠ some task := by
      rw [uncalled]
      exact nofun
    rw [there]
    cases progress with
    | ahead ahead none same =>
      refine ahead_on none same silent ahead fun _ => ?_
      rw [quiet_after uncalled unadded within unreset fun which => outside_of follows (elsewhere which i)]
      exact ⟨rfl, rfl⟩
    | passed passed once due => exact passed_on once due silent passed

/-! ## Before the registration -/

/-- No task of the list has the function. -/
structure Absent (lane : Lane F A B) (task : B) (view : View) (s : State F A) : Prop where
  without : task ∉ (lane.items s.scheduler).map (·.func)
  outside : view.inside = false
  reading : ∀ now, (lane.stage s.position).now = some now → view.reading = now
  within : ∀ j now, lane.stage s.position = .inside j now → j < (lane.items s.scheduler).length

omit [DecidableEq B] in
/-- A callback of the list is one of its tasks. -/
theorem inside_step (moves : Moves lane s s' event) {j : Nat} (there : lane.stage s'.position = .inside j now) :
    j < (lane.items s.scheduler).length ∨ lane.stage s.position = .inside j now := by
  cases moves with
  | started _ first _ =>
    cases first with
    | inl before => cases before.symm.trans there
    | inr turn => cases turn.symm.trans there
  | entered _ first => cases first.symm.trans there
  | skipped _ _ _ next => cases next.symm.trans there
  | called _ found _ inside =>
    cases inside.symm.trans there
    exact .inl (List.getElem?_eq_some_iff.mp found).1
  | returned _ next => cases next.symm.trans there
  | left _ _ after => cases after.symm.trans there
  | finished _ away => cases away.symm.trans there
  | added same => exact .inr (same.symm.trans there)
  | reset same => exact .inr (same.symm.trans there)
  | periodSet _ same => exact .inr (same.symm.trans there)
  | quiet same => exact .inr (same.symm.trans there)

/-- What holds of the task after a history that registers it at most once. -/
inductive Tracks (lane : Lane F A B) (task : B) (history : List (Event F A)) (s : State F A) : Prop where
  | absent (unregistered : registrations lane task history = 0) (absent : Absent lane task (viewOf lane task history) s)
  | listed (i : Nat) (registered : registrations lane task history = 1)
      (follows : Follows lane task i (viewOf lane task history) s)

section Run
variable (inverts : ∀ {s : State F A} {event s'}, Step s event s' → Moves lane s s' event)
include inverts

end Run

end Followed

/-! ## The scheduler -/

variable {unbound : F} {clock : Int} {history : List (Event F A)} {final : State F A}

end Emblib.PeriodicTasks

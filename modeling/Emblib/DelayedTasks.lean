import Emblib.BasicScheduler

/-! The single slot of the delayed task, over whole histories of the scheduler. A registration is
kept if its task is executed once, by the first run that starts when it is due. That depends only
on where it is made: what the delayed task itself registers is lost, because the slot is cleared
when it returns. -/
namespace Emblib.DelayedTasks
open Runs BasicScheduler

variable {F A : Type}

/-! ## What it means to keep a registration -/

/-- An execution of the delayed task. -/
def Execution : Event F A → Prop
  | .executed _ => True
  | _ => False

/-- A run starts, at this time or after it. -/
def StartDue (due : Int) : Event F A → Prop
  | .started now => due ≤ now
  | _ => False

/-- A registration, which replaces the one before. -/
def Registration : Event F A → Prop
  | .acted (.addDelayedTask _ _) _ => True
  | _ => False

/-- A run starts or ends, or the delayed task is executed. -/
def Milestone : Event F A → Prop
  | .started _ => True
  | .executed _ => True
  | .finished => True
  | _ => False

/-- None of the events is of the kind. -/
def Without (kind : Event F A → Prop) (events : List (Event F A)) : Prop := ∀ event ∈ events, ¬kind event

/-- How far a registered task has come. -/
inductive Phase where
  | waiting
  | running (now : Int)
  | executed

/-- The events after a registration, up to the next one: no run has started when the task was
due; or the first one that has is not over; or that run has executed it, and none has again. -/
inductive Progress (task : F) (due : Int) : List (Event F A) → Phase → Prop where
  | waiting (early : Without (StartDue due) events) (unexecuted : Without Execution events) :
      Progress task due events .waiting
  | running (early : Without (StartDue due) before) (unexecuted : Without Execution before)
      (isDue : due ≤ now) (within : Without Milestone inside) :
      Progress task due (before ++ .started now :: inside) (.running now)
  | executed (early : Without (StartDue due) before) (unexecuted : Without Execution before)
      (isDue : due ≤ now) (within : Without Milestone inside) (once : Without Execution after) :
      Progress task due (before ++ .started now :: inside ++ .executed task :: after) .executed

def Kept (task : F) (due : Int) (events : List (Event F A)) : Prop :=
  ∃ phase, Progress task due events phase

/-- The delayed task has been called, and has not returned. -/
def InsideDelayedTask (history : List (Event F A)) : Prop :=
  ∃ before task inside, history = before ++ .executed task :: inside ∧ .returned ∉ inside

/-! ## What a step does to the slot -/

/-- What the slot of the delayed task holds. -/
def slot (s : Scheduler F A) : F × Int × Int := (s.delayedTask, s.delayedTaskDelay, s.delayedTaskStart)

/-- The reading of a run that has the check of the slot still ahead. -/
def ahead : Position → Option Int
  | .tasks _ now | .task _ now | .adaptiveTasks _ now | .adaptiveTask _ now | .delayed now => some now
  | .outside | .delayedTask _ | .ending _ => none

def Inside (position : Position) : Prop := ∃ now, position = .delayedTask now

/-- One step, as far as the slot and the place of the program in `run` are concerned. -/
inductive Moves (s s' : State F A) : Event F A → Prop where
  | started (outside : s.position = .outside) (first : s'.position = .tasks 0 now) (later : s.clock ≤ now)
      (clock : s'.clock = now) (same : slot s'.scheduler = slot s.scheduler) : Moves s s' (.started now)
  | executed (check : s.position = .delayed now) (armed : s.scheduler.delayedTaskDelay ≠ 0)
      (isDue : s.scheduler.delayedTaskStart + s.scheduler.delayedTaskDelay ≤ now)
      (inside : s'.position = .delayedTask now) (clock : s'.clock = s.clock)
      (same : slot s'.scheduler = slot s.scheduler) : Moves s s' (.executed s.scheduler.delayedTask)
  | missed (check : s.position = .delayed now)
      (idle : s.scheduler.delayedTaskDelay ≠ 0 →
        now < s.scheduler.delayedTaskStart + s.scheduler.delayedTaskDelay)
      (ending : s'.position = .ending now) (clock : s'.clock = s.clock)
      (same : slot s'.scheduler = slot s.scheduler) : Moves s s' .passed
  | cleared (inside : s.position = .delayedTask now) (ending : s'.position = .ending now)
      (clock : s'.clock = s.clock) (cleared : s'.scheduler.delayedTaskDelay = 0) : Moves s s' .returned
  | finished (ending : s.position = .ending now) (outside : s'.position = .outside)
      (clock : s'.clock = s.clock) (same : slot s'.scheduler = slot s.scheduler) : Moves s s' .finished
  | registered (same : s'.position = s.position) (later : s.clock ≤ now) (clock : s'.clock = now)
      (holds : slot s'.scheduler = (task, delay, now)) :
      Moves s s' (.acted (.addDelayedTask task delay) now)
  | quiet (milestone : ¬Milestone event) (registration : ¬Registration event)
      (sameRun : ahead s'.position = ahead s.position) (inside : Inside s'.position ↔ Inside s.position)
      (returned : event = .returned → ¬Inside s.position) (later : s.clock ≤ s'.clock)
      (same : slot s'.scheduler = slot s.scheduler) : Moves s s' event

variable {task : F} {due delay start now clock : Int} {kind : Event F A → Prop} {event : Event F A}
  {events before after : List (Event F A)} {phase : Phase} {s s' : State F A}

theorem not_inside {position : Position} (elsewhere : ∀ now, position ≠ .delayedTask now) :
    ¬Inside position :=
  fun ⟨now, same⟩ => elsewhere now same

/-- A step of `run` away from the check and from the delayed task. -/
theorem moves_within {scheduler next : Scheduler F A} {position onward : Position}
    (milestone : ¬Milestone event) (registration : ¬Registration event)
    (sameRun : ahead onward = ahead position) (running : ahead position ≠ none)
    (same : slot next = slot scheduler) :
    Moves ⟨scheduler, position, clock⟩ ⟨next, onward, clock⟩ event := by
  have outside : ¬Inside position := by
    rintro ⟨now, rfl⟩
    exact running rfl
  have outside' : ¬Inside onward := by
    rintro ⟨now, rfl⟩
    exact running sameRun.symm
  exact .quiet milestone registration sameRun (iff_of_false outside' outside) (fun _ => outside)
    (Int.le_refl _) same

theorem moves_proceed {scheduler next : Scheduler F A} {position onward : Position}
    (proceeds : proceed scheduler position = some (event, next, onward)) :
    Moves ⟨scheduler, position, clock⟩ ⟨next, onward, clock⟩ event := by
  cases position with
  | outside => cases proceeds
  | task => cases proceeds
  | adaptiveTask => cases proceeds
  | delayedTask => cases proceeds
  | tasks i now =>
    simp only [proceed] at proceeds
    cases found : scheduler.tasks[i]? with
    | none =>
      simp only [found] at proceeds
      cases proceeds
      exact moves_within id id rfl (Option.some_ne_none now) rfl
    | some task =>
      simp only [found] at proceeds
      split at proceeds
      · cases proceeds
        exact moves_within id id rfl (Option.some_ne_none now) rfl
      · cases proceeds
        exact moves_within id id rfl (Option.some_ne_none now) rfl
  | adaptiveTasks i now =>
    simp only [proceed] at proceeds
    cases found : scheduler.adaptiveTasks[i]? with
    | none =>
      simp only [found] at proceeds
      cases proceeds
      exact moves_within id id rfl (Option.some_ne_none now) rfl
    | some task =>
      simp only [found] at proceeds
      split at proceeds
      · cases proceeds
        exact moves_within id id rfl (Option.some_ne_none now) rfl
      · cases proceeds
        exact moves_within id id rfl (Option.some_ne_none now) rfl
  | delayed now =>
    simp only [proceed] at proceeds
    split at proceeds
    case isTrue due =>
      cases proceeds
      exact .executed rfl due.1 due.2 rfl rfl rfl
    case isFalse idle =>
      cases proceeds
      exact .missed rfl (fun armed => Int.not_le.mp fun due => idle ⟨armed, due⟩) rfl rfl rfl
  | ending now =>
    cases proceeds
    exact .finished rfl rfl rfl rfl

theorem moves_resume {scheduler next : Scheduler F A} {position onward : Position}
    (resumes : resume scheduler position = some (next, onward)) :
    Moves ⟨scheduler, position, clock⟩ ⟨next, onward, clock⟩ .returned := by
  cases position with
  | task i now =>
    cases resumes
    exact moves_within id id rfl (Option.some_ne_none now) rfl
  | adaptiveTask i now =>
    cases resumes
    exact moves_within id id rfl (Option.some_ne_none now) rfl
  | delayedTask now =>
    cases resumes
    exact .cleared rfl rfl rfl rfl
  | outside => cases resumes
  | tasks => cases resumes
  | adaptiveTasks => cases resumes
  | delayed => cases resumes
  | ending => cases resumes

theorem moves_act {scheduler : Scheduler F A} {position : Position} (action : Action F A)
    (later : clock ≤ now) :
    Moves ⟨scheduler, position, clock⟩ ⟨action.perform now scheduler, position, now⟩
    (.acted action now) := by
  cases action with
  | addDelayedTask task delay => exact .registered rfl later rfl rfl
  | addTask task period => exact .quiet id id rfl Iff.rfl nofun later rfl
  | addAdaptiveTask task period => exact .quiet id id rfl Iff.rfl nofun later rfl
  | reset => exact .quiet id id rfl Iff.rfl nofun later rfl

/-- Every step is one of these. -/
theorem moves_of_step (step : Step s event s') : Moves s s' event := by
  cases step with
  | run later => exact .started rfl rfl later rfl rfl
  | proceed next => exact moves_proceed next
  | resume back => exact moves_resume back
  | act _ later _ => exact moves_act _ later
  | setPeriod => exact .quiet id id rfl Iff.rfl nofun (Int.le_refl _) rfl

/-! ## A registration from outside the delayed task -/

theorem without_append : Without kind (before ++ after) ↔ Without kind before ∧ Without kind after :=
  List.forall_mem_append

theorem without_cons : Without kind (event :: events) ↔ ¬kind event ∧ Without kind events :=
  List.forall_mem_cons

theorem without_nil : Without kind [] := List.forall_mem_nil _

theorem without_snoc (so_far : Without kind events) (next : ¬kind event) :
    Without kind (events ++ [event]) :=
  without_append.mpr ⟨so_far, without_cons.mpr ⟨next, without_nil⟩⟩

/-- What a state must look like while the task is in this phase. -/
def Agrees (task : F) (delay start : Int) (s : State F A) : Phase → Prop
  | .waiting => slot s.scheduler = (task, delay, start) ∧ ¬Inside s.position ∧
      ∀ now, ahead s.position = some now → now < start + delay
  | .running now => slot s.scheduler = (task, delay, start) ∧ ahead s.position = some now
  | .executed => s.scheduler.delayedTaskDelay = 0 ∨ Inside s.position

/-- A run that has the check still ahead has read the clock before. -/
def Timely (s : State F A) : Prop := ∀ now, ahead s.position = some now → now ≤ s.clock

theorem timely_step (moves : Moves s s' event) (timely : Timely s) : Timely s' := by
  cases moves with
  | started _ first _ clock _ =>
    intro now reading
    rw [first] at reading
    cases reading
    exact Int.le_of_eq clock.symm
  | executed _ _ _ inside _ _ => simp [Timely, inside, ahead]
  | missed _ _ ending _ _ => simp [Timely, ending, ahead]
  | cleared _ ending _ _ => simp [Timely, ending, ahead]
  | finished _ outside _ _ => simp [Timely, outside, ahead]
  | registered same later clock _ =>
    intro now reading
    rw [same] at reading
    exact clock ▸ Int.le_trans (timely now reading) later
  | quiet _ _ sameRun _ _ later _ =>
    intro now reading
    rw [sameRun] at reading
    exact Int.le_trans (timely now reading) later

theorem progress_waiting_snoc (progress : Progress task due events .waiting) (early : ¬StartDue due event)
    (unexecuted : ¬Execution event) : Progress task due (events ++ [event]) .waiting := by
  cases progress with
  | waiting none never => exact .waiting (without_snoc none early) (without_snoc never unexecuted)

theorem progress_running_snoc (progress : Progress task due events (.running now))
    (within : ¬Milestone event) :
    Progress task due (events ++ [event]) (.running now) := by
  cases progress with
  | running early unexecuted isDue before =>
    rw [List.append_assoc, List.cons_append]
    exact .running early unexecuted isDue (without_snoc before within)

theorem progress_running_executed (progress : Progress task due events (.running now)) :
    Progress task due (events ++ [.executed task]) .executed := by
  cases progress with
  | running early unexecuted isDue within => exact .executed early unexecuted isDue within without_nil

theorem progress_executed_snoc (progress : Progress task due events .executed) (once : ¬Execution event) :
    Progress task due (events ++ [event]) .executed := by
  cases progress with
  | executed early unexecuted isDue within before =>
    rw [List.append_assoc, List.cons_append]
    exact .executed early unexecuted isDue within (without_snoc before once)

theorem not_execution (within : ¬Milestone event) : ¬Execution event := by
  cases event with
  | executed => exact absurd trivial within
  | _ => exact id

theorem not_start_due (within : ¬Milestone event) : ¬StartDue due event := by
  cases event with
  | started => exact absurd trivial within
  | _ => exact id

/-- While the task waits, it stays in the slot until the first run that starts when it is due. -/
theorem waiting_step (moves : Moves s s' event) (unreplaced : ¬Registration event)
    (progress : Progress task (start + delay) events .waiting)
    (agrees : Agrees task delay start s .waiting) :
    ∃ phase, Progress task (start + delay) (events ++ [event]) phase ∧
      Agrees task delay start s' phase := by
  obtain ⟨pending, outside, early⟩ := agrees
  cases moves with
  | @started now position first _ _ same =>
    by_cases isDue : start + delay ≤ now
    · cases progress with
      | waiting none never => exact ⟨.running now, .running none never isDue without_nil,
        same.trans pending, by rw [first]; rfl⟩
    · refine ⟨.waiting, progress_waiting_snoc progress isDue id, same.trans pending, ?_, ?_⟩
      · rw [first]
        exact not_inside (by simp)
      · rw [first]
        rintro now' ⟨⟩
        exact Int.not_le.mp isDue
  | executed check armed isDue _ _ _ =>
    obtain ⟨_, rfl, rfl⟩ : _ ∧ _ ∧ _ := by simpa [slot] using pending
    exact absurd isDue (Int.not_le.mpr (early _ (congrArg ahead check)))
  | missed check _ ending _ same =>
    refine ⟨.waiting, progress_waiting_snoc progress id id, same.trans pending, ?_, ?_⟩
    · rw [ending]
      exact not_inside (by simp)
    · simp [ending, ahead]
  | cleared inside _ _ _ => exact absurd ⟨_, inside⟩ outside
  | finished _ ends _ same =>
    refine ⟨.waiting, progress_waiting_snoc progress id id, same.trans pending, ?_, ?_⟩
    · rw [ends]
      exact not_inside (by simp)
    · simp [ends, ahead]
  | registered => exact absurd trivial unreplaced
  | quiet within _ sameRun inside _ _ same =>
    refine ⟨.waiting, progress_waiting_snoc progress (not_start_due within)
      (not_execution within), same.trans pending, ?_, ?_⟩
    · rwa [inside]
    · rwa [sameRun]

/-- The first run that starts when the task is due reaches the check with the task in the slot. -/
theorem running_step (positive : 0 < delay) (moves : Moves s s' event) (unreplaced : ¬Registration event)
    (progress : Progress task (start + delay) events (.running now))
    (agrees : Agrees task delay start s (.running now)) :
    ∃ phase, Progress task (start + delay) (events ++ [event]) phase ∧
      Agrees task delay start s' phase := by
  obtain ⟨pending, reading⟩ := agrees
  cases moves with
  | started outside _ _ _ _ => simp [outside, ahead] at reading
  | executed _ _ _ inside _ _ =>
    obtain ⟨rfl, _, _⟩ : _ ∧ _ ∧ _ := by simpa [slot] using pending
    exact ⟨.executed, progress_running_executed progress, .inr ⟨_, inside⟩⟩
  | missed check idle _ _ _ =>
    obtain ⟨_, rfl, rfl⟩ : _ ∧ _ ∧ _ := by simpa [slot] using pending
    obtain rfl : _ = now := by simpa [check, ahead] using reading
    cases progress with
    | running _ _ isDue _ => exact absurd isDue (Int.not_le.mpr (idle (Int.ne_of_gt positive)))
  | cleared inside _ _ _ => simp [inside, ahead] at reading
  | finished ending _ _ _ => simp [ending, ahead] at reading
  | registered => exact absurd trivial unreplaced
  | quiet within _ sameRun _ _ _ same =>
    exact ⟨.running now, progress_running_snoc progress within, same.trans pending, sameRun.trans reading⟩

/-- A task that has been executed is not in the slot any more, once it has returned. -/
theorem executed_step (moves : Moves s s' event) (unreplaced : ¬Registration event)
    (progress : Progress task (start + delay) events .executed)
    (agrees : Agrees task delay start s .executed) :
    ∃ phase, Progress task (start + delay) (events ++ [event]) phase ∧
      Agrees task delay start s' phase := by
  have cleared (same : slot s'.scheduler = slot s.scheduler) (outside : ¬Inside s.position) :
      s'.scheduler.delayedTaskDelay = 0 :=
    (congrArg (·.2.1) same).trans (agrees.resolve_right outside)
  cases moves with
  | started outside _ _ _ same =>
    exact ⟨.executed, progress_executed_snoc progress id,
      .inl (cleared same (not_inside (by simp [outside])))⟩
  | executed check armed _ _ _ same =>
    exact absurd (agrees.resolve_right (not_inside (by simp [check]))) armed
  | missed check _ _ _ same =>
    exact ⟨.executed, progress_executed_snoc progress id,
      .inl (cleared same (not_inside (by simp [check])))⟩
  | cleared _ _ _ empty => exact ⟨.executed, progress_executed_snoc progress id, .inl empty⟩
  | finished ending _ _ same =>
    exact ⟨.executed, progress_executed_snoc progress id,
      .inl (cleared same (not_inside (by simp [ending])))⟩
  | registered => exact absurd trivial unreplaced
  | quiet within _ _ inside _ _ same =>
    refine ⟨.executed, progress_executed_snoc progress (not_execution within), ?_⟩
    exact agrees.imp (congrArg (·.2.1) same).trans inside.mpr

theorem progress_step (positive : 0 < delay) (moves : Moves s s' event) (unreplaced : ¬Registration event)
    (progress : Progress task (start + delay) events phase) (agrees : Agrees task delay start s phase) :
    ∃ phase, Progress task (start + delay) (events ++ [event]) phase ∧
      Agrees task delay start s' phase := by
  cases phase with
  | waiting => exact waiting_step moves unreplaced progress agrees
  | running now => exact running_step positive moves unreplaced progress agrees
  | executed => exact executed_step moves unreplaced progress agrees

/-- A task that is in the slot, and not due for the run that is going on, is kept. -/
theorem kept_of_run (positive : 0 < delay) (agrees : Agrees task delay start s .waiting)
    (run : Run Step s events s') (unreplaced : Without Registration events) :
    Kept task (start + delay) events := by
  have tracked : Without Registration events →
      ∃ phase, Progress task (start + delay) events phase ∧ Agrees task delay start s' phase := by
    refine run_invariant (fun events s' => Without Registration events →
      ∃ phase, Progress task (start + delay) events phase ∧ Agrees task delay start s' phase) run ?_ ?_
    · exact fun _ => ⟨.waiting, .waiting without_nil without_nil, agrees⟩
    · intro events s' event s'' _ ih step unreplaced
      obtain ⟨before, last⟩ := without_append.mp unreplaced
      obtain ⟨phase, progress, agrees⟩ := ih before
      exact progress_step positive (moves_of_step step) (without_cons.mp last).1 progress agrees
  obtain ⟨phase, progress, _⟩ := tracked unreplaced
  exact ⟨phase, progress⟩


/-! ## Where the registration is made -/

theorem insideDelayedTask_executed (history : List (Event F A)) (task : F) :
    InsideDelayedTask (history ++ [.executed task]) :=
  ⟨history, task, [], rfl, List.not_mem_nil⟩

theorem insideDelayedTask_snoc {history : List (Event F A)} (execution : ¬Execution event) :
    InsideDelayedTask (history ++ [event]) ↔ InsideDelayedTask history ∧ event ≠ .returned := by
  constructor
  · rintro ⟨before, task, inside, shape, running⟩
    rcases List.eq_nil_or_concat inside with rfl | ⟨inside, last, rfl⟩
    · obtain ⟨_, same⟩ := List.append_inj' shape rfl
      obtain rfl := List.singleton_inj.mp same
      exact absurd trivial execution
    · rw [List.concat_eq_append] at shape running
      rw [← List.cons_append, ← List.append_assoc] at shape
      obtain ⟨rfl, same⟩ := List.append_inj' shape rfl
      obtain rfl := List.singleton_inj.mp same
      refine ⟨⟨before, task, inside, rfl, fun member => running (List.mem_append_left _ member)⟩, ?_⟩
      rintro rfl
      exact running (List.mem_append_right _ (List.mem_singleton.mpr rfl))
  · rintro ⟨⟨before, task, inside, rfl, running⟩, other⟩
    refine ⟨before, task, inside ++ [event], by simp, ?_⟩
    rw [List.mem_append, List.mem_singleton]
    rintro (member | same)
    · exact running member
    · exact other same.symm

/-- The history tells when the program is in the delayed task. -/
theorem inside_step {history : List (Event F A)} (moves : Moves s s' event)
    (known : Inside s.position ↔ InsideDelayedTask history) :
    Inside s'.position ↔ InsideDelayedTask (history ++ [event]) := by
  cases moves with
  | started outside first _ _ _ =>
    rw [insideDelayedTask_snoc id, ← known, first]
    exact iff_of_false (not_inside (by simp)) fun both => not_inside (by simp [outside]) both.1
  | executed _ _ _ inside _ _ => exact iff_of_true ⟨_, inside⟩ (insideDelayedTask_executed history _)
  | missed check _ ending _ _ =>
    rw [insideDelayedTask_snoc id, ← known, ending]
    exact iff_of_false (not_inside (by simp)) fun both => not_inside (by simp [check]) both.1
  | cleared _ ending _ _ =>
    rw [insideDelayedTask_snoc id, ending]
    exact iff_of_false (not_inside (by simp)) fun both => both.2 rfl
  | finished ending outside _ _ =>
    rw [insideDelayedTask_snoc id, ← known, outside]
    exact iff_of_false (not_inside (by simp)) fun both => not_inside (by simp [ending]) both.1
  | registered same _ _ _ =>
    rw [insideDelayedTask_snoc id, ← known, same]
    exact ⟨fun inside => ⟨inside, nofun⟩, And.left⟩
  | quiet within _ _ inside returned _ _ =>
    rw [insideDelayedTask_snoc (not_execution within), ← known, inside]
    exact ⟨fun inside => ⟨inside, fun back => returned back inside⟩, And.left⟩

theorem timely_run {unbound : F} (run : Run Step (State.initial unbound clock) events s) : Timely s := by
  refine run_invariant (fun _ s => Timely s) run (by simp [Timely, State.initial, ahead]) ?_
  exact fun _ _ _ _ _ timely step => timely_step (moves_of_step step) timely

theorem inside_run {unbound : F} (run : Run Step (State.initial unbound clock) events s) :
    Inside s.position ↔ InsideDelayedTask events := by
  refine run_invariant (fun events s => Inside s.position ↔ InsideDelayedTask events) run ?_ ?_
  · refine iff_of_false (not_inside (by simp [State.initial])) ?_
    rintro ⟨before, task, inside, shape, _⟩
    simp at shape
  · exact fun _ _ _ _ _ known step => inside_step (moves_of_step step) known

/-! ## The rest of a run in which the callbacks do nothing -/

/-- Events of a loop of `run` with idle callbacks. -/
def Idle : Event F A → Prop
  | .called _ | .calledAdaptive _ | .returned | .passed => True
  | _ => False

/-- `run` gets from one position to another with idle callbacks. -/
def Idles (clock : Int) (scheduler : Scheduler F A) (position : Position) (after : Scheduler F A)
    (onward : Position) : Prop :=
  ∃ events, Run Step ⟨scheduler, position, clock⟩ events ⟨after, onward, clock⟩ ∧
    (∀ event ∈ events, Idle event) ∧ slot after = slot scheduler

theorem run_step (step : Step s event s') : Run Step s [event] s' := .snoc .nil step

theorem idles_proceed {scheduler after : Scheduler F A} {position onward : Position} (event : Event F A)
    (idle : Idle event) (same : slot after = slot scheduler)
    (next : proceed scheduler position = some (event, after, onward)) :
    Idles clock scheduler position after onward :=
  ⟨[event], run_step (.proceed next), List.forall_mem_singleton.mpr idle, same⟩

theorem idles_resume {scheduler : Scheduler F A} {position onward : Position}
    (back : resume scheduler position = some (scheduler, onward)) :
    Idles clock scheduler position scheduler onward :=
  ⟨[.returned], run_step (.resume back), List.forall_mem_singleton.mpr trivial, rfl⟩

theorem idles_trans {first middle last : Scheduler F A} {position between onward : Position}
    (earlier : Idles clock first position middle between)
    (rest : Idles clock middle between last onward) :
    Idles clock first position last onward := by
  obtain ⟨events, run, idle, same⟩ := earlier
  obtain ⟨events', run', idle', same'⟩ := rest
  exact ⟨events ++ events', run_append run run', List.forall_mem_append.mpr ⟨idle, idle'⟩,
    same'.trans same⟩

/-- A loop over a list of tasks comes to its end, if the call of a task leaves the list as long as
it is. -/
theorem loop_end {B : Type} {head callback : Nat → Position} {exit : Position}
    (items : Scheduler F A → List (PeriodicTask B))
    (exits : ∀ i scheduler, (items scheduler)[i]? = none →
      proceed scheduler (head i) = some (.passed, scheduler, exit))
    (skips : ∀ i scheduler task, (items scheduler)[i]? = some task → task.due now = false →
      proceed scheduler (head i) = some (.passed, scheduler, head (i + 1)))
    (calls : ∀ i scheduler task, (items scheduler)[i]? = some task → task.due now = true →
      ∃ event called, proceed scheduler (head i) = some (event, called, callback i) ∧ Idle event ∧
        slot called = slot scheduler ∧ (items called).length = (items scheduler).length)
    (returns : ∀ i (scheduler : Scheduler F A),
      resume scheduler (callback i) = some (scheduler, head (i + 1)))
    (clock : Int) (rest i : Nat) (scheduler : Scheduler F A)
    (left : (items scheduler).length ≤ i + rest) :
    ∃ after, Idles clock scheduler (head i) after exit := by
  induction rest generalizing i scheduler with
  | zero =>
    have found := List.getElem?_eq_none left
    exact ⟨scheduler, idles_proceed .passed trivial rfl (exits i scheduler found)⟩
  | succ rest ih =>
    cases found : (items scheduler)[i]? with
    | none => exact ⟨scheduler, idles_proceed .passed trivial rfl (exits i scheduler found)⟩
    | some task =>
      cases due : task.due now with
      | false =>
        obtain ⟨after, others⟩ := ih (i + 1) scheduler (by omega)
        have skip : Idles clock scheduler (head i) scheduler (head (i + 1)) :=
          idles_proceed .passed trivial rfl (skips i scheduler task found due)
        exact ⟨after, idles_trans skip others⟩
      | true =>
        obtain ⟨event, called, next, idle, same, length⟩ := calls i scheduler task found due
        obtain ⟨after, others⟩ := ih (i + 1) called (by omega)
        have call : Idles clock scheduler (head i) called (head (i + 1)) :=
          idles_trans (idles_proceed event idle same next) (idles_resume (returns i called))
        exact ⟨after, idles_trans call others⟩

theorem tasks_end (now clock : Int) (scheduler : Scheduler F A) :
    ∃ after, Idles clock scheduler (.tasks 0 now) after (.adaptiveTasks 0 now) := by
  refine @loop_end _ _ now _ (.tasks · now) (.task · now) _ (·.tasks)
    ?_ ?_ ?_ (fun _ _ => rfl) clock _ 0 scheduler (Nat.le_add_left ..)
  · intro i scheduler found
    simp only [proceed, found]
  · intro i scheduler task found due
    simp [proceed, found, due]
  · intro i scheduler task found due
    exact ⟨.called task.func, { scheduler with tasks := scheduler.tasks.set i (task.restart now) },
      by simp [proceed, found, due], trivial, rfl, List.length_set ..⟩

theorem adaptiveTasks_end (now clock : Int) (scheduler : Scheduler F A) :
    ∃ after, Idles clock scheduler (.adaptiveTasks 0 now) after (.delayed now) := by
  refine @loop_end _ _ now _ (.adaptiveTasks · now) (.adaptiveTask · now) _ (·.adaptiveTasks)
    ?_ ?_ ?_ (fun _ _ => rfl) clock _ 0 scheduler (Nat.le_add_left ..)
  · intro i scheduler found
    simp only [proceed, found]
  · intro i scheduler task found due
    simp [proceed, found, due]
  · intro i scheduler task found due
    exact ⟨.calledAdaptive task.func,
      { scheduler with adaptiveTasks := scheduler.adaptiveTasks.set i (task.restart now) },
      by simp [proceed, found, due], trivial, rfl, List.length_set ..⟩

/-- A whole run with idle callbacks, when the slot is empty. -/
theorem run_idle (scheduler : Scheduler F A) (empty : scheduler.delayedTaskDelay = 0)
    (later : clock ≤ now) :
    ∃ events after,
      Run Step ⟨scheduler, .outside, clock⟩ (.started now :: events ++ [.finished])
        ⟨after, .outside, now⟩ ∧
      ∀ event ∈ events, Idle event := by
  obtain ⟨middle, tasks⟩ := tasks_end now now scheduler
  obtain ⟨after, adaptiveTasks⟩ := adaptiveTasks_end now now middle
  have loops := idles_trans tasks adaptiveTasks
  have same : slot after = slot scheduler := loops.choose_spec.2.2
  have cleared : after.delayedTaskDelay = 0 := (congrArg (·.2.1) same).trans empty
  have check : Idles now after (.delayed now) after (.ending now) :=
    idles_proceed .passed trivial rfl (by simp [proceed, cleared])
  obtain ⟨events, run, idle, _⟩ := idles_trans loops check
  have start : Run Step ⟨scheduler, .outside, clock⟩ [.started now] ⟨scheduler, .tasks 0 now, now⟩ :=
    run_step (.run later)
  have finish : Run Step ⟨after, .ending now, now⟩ [.finished] ⟨after, .outside, now⟩ :=
    run_step (.proceed rfl)
  exact ⟨events, after, run_append (run_append start run) finish, idle⟩

theorem idle_not_registration (idle : Idle event) : ¬Registration event := by
  cases event with
  | acted => exact absurd idle id
  | _ => exact id

theorem idle_not_execution (idle : Idle event) : ¬Execution event := by
  cases event with
  | executed => exact absurd idle id
  | _ => exact id

/-- A run that starts when the task is due, and ends without executing it, has lost it. -/
theorem not_kept (unexecuted : Without Execution events) (started : .started now ∈ events)
    (isDue : due ≤ now) :
    ¬Kept task due (events ++ [.finished]) := by
  rintro ⟨phase, progress⟩
  generalize shape : events ++ [.finished] = all at progress
  cases progress with
  | waiting early _ =>
    rw [← shape] at early
    exact early _ (List.mem_append_left _ started) isDue
  | @running before now' inside _ _ _ within =>
    rcases List.eq_nil_or_concat inside with rfl | ⟨inside, last, rfl⟩
    · obtain ⟨_, same⟩ := List.append_inj' shape rfl
      simp at same
    · rw [List.concat_eq_append, ← List.cons_append, ← List.append_assoc] at shape
      obtain ⟨_, same⟩ := List.append_inj' shape rfl
      obtain rfl := List.singleton_inj.mp same
      exact within .finished (by simp) trivial
  | @executed before now' inside after _ _ _ _ _ =>
    have member : .executed task ∈ events ++ [.finished] := by
      rw [shape]
      simp
    rcases List.mem_append.mp member with inside | last
    · exact unexecuted _ inside trivial
    · simp at last

/-- What the delayed task registers can be lost: it returns, and a run starts late enough. -/
theorem lost_inside (task : F) {s : State F A} (inside : Inside s.position) (due : Int) :
    ∃ events final, Run Step s events final ∧ Without Registration events ∧ ¬Kept task due events := by
  obtain ⟨scheduler, position, clock⟩ := s
  obtain ⟨now, rfl⟩ := inside
  have back : Run Step ⟨scheduler, .delayedTask now, clock⟩ [.returned]
      ⟨{ scheduler with delayedTaskDelay := 0 }, .ending now, clock⟩ := run_step (.resume rfl)
  have finish : Run Step ⟨{ scheduler with delayedTaskDelay := 0 }, .ending now, clock⟩ [.finished]
      ⟨{ scheduler with delayedTaskDelay := 0 }, .outside, clock⟩ := run_step (.proceed rfl)
  obtain ⟨events, final, run, idle⟩ :=
    run_idle { scheduler with delayedTaskDelay := 0 } rfl (Int.le_max_left clock due)
  have whole := run_append (run_append back finish) run
  refine ⟨_, _, whole, ?_, ?_⟩
  · simp only [without_append, without_cons]
    exact ⟨⟨⟨id, without_nil⟩, ⟨id, without_nil⟩⟩,
      ⟨id, fun event member => idle_not_registration (idle event member)⟩, id, without_nil⟩
  · rw [← List.append_assoc]
    have started : .started (max clock due) ∈ [.returned] ++ [.finished] ++
        (.started (max clock due) :: events) := by simp
    refine not_kept ?_ started (Int.le_max_right clock due)
    simp only [without_append, without_cons]
    exact ⟨⟨⟨id, without_nil⟩, ⟨id, without_nil⟩⟩, id,
      fun event member => idle_not_execution (idle event member)⟩

/-- A registration with a positive delay is kept, whatever happens before the next one, if and
only if it is not made inside the delayed task. -/
theorem registration_kept_iff {unbound : F} {history : List (Event F A)}
    (run : Run Step (State.initial unbound clock)
      (history ++ [.acted (.addDelayedTask task delay) now]) s)
    (positive : 0 < delay) :
    (∀ events final, Run Step s events final → Without Registration events →
      Kept task (now + delay) events) ↔
      ¬InsideDelayedTask history := by
  obtain ⟨middle, before, step⟩ := run_snoc run
  have known := inside_run before
  have timely := timely_run before
  cases moves_of_step step with
  | registered same later clock holds =>
    constructor
    · intro kept history
      obtain ⟨events, final, onward, unreplaced, lost⟩ :=
        lost_inside task (same ▸ known.mpr history) (now + delay)
      exact lost (kept events final onward unreplaced)
    · intro outside events final onward unreplaced
      refine kept_of_run positive ⟨holds, ?_, ?_⟩ onward unreplaced
      · rw [same, known]
        exact outside
      · intro reading running
        rw [same] at running
        have := timely reading running
        omega
  | quiet _ registration _ _ _ _ _ => exact absurd trivial registration

theorem registration_outside_kept :
    0 < (5 : Int) ∧ ∀ events final,
      Run Step ⟨(Scheduler.initial 0).addDelayedTask 1 5 3, .outside, 3⟩ events final →
      Without (F := ℕ) (A := ℕ) Registration events → Kept 1 (3 + 5) events := by
  have registered : Run Step (State.initial 0 3 : State ℕ ℕ) ([] ++ [.acted (.addDelayedTask 1 5) 3])
      ⟨(Scheduler.initial 0).addDelayedTask 1 5 3, .outside, 3⟩ :=
    .snoc .nil (.act trivial (Int.le_refl 3) trivial)
  have outside : ¬InsideDelayedTask (F := ℕ) (A := ℕ) [] := by simp [InsideDelayedTask]
  exact ⟨by decide, (registration_kept_iff registered (by decide)).mpr outside⟩

/-- Task 1 is executed at 5 and registers task 2, which a run at 11 should execute. -/
theorem registration_inside_lost : ∃ final : State ℕ ℕ,
    Run Step (State.initial 0 0)
      ([.acted (.addDelayedTask 1 5) 0, .started 5, .passed, .passed, .executed 1] ++
        .acted (.addDelayedTask 2 5) 6 ::
          [.returned, .finished, .started 11, .passed, .passed, .passed, .finished]) final ∧
    Without (F := ℕ) (A := ℕ) Registration
      [.returned, .finished, .started 11, .passed, .passed, .passed, .finished] ∧
    ¬Kept 2 (6 + 5) (A := ℕ)
      [.returned, .finished, .started 11, .passed, .passed, .passed, .finished] := by
  let first : Scheduler ℕ ℕ := (Scheduler.initial 0).addDelayedTask 1 5 0
  let second := first.addDelayedTask 2 5 6
  let cleared := { second with delayedTaskDelay := 0 }
  refine ⟨⟨cleared, .outside, 11⟩, ?_, by simp [Without, Registration], ?_⟩
  · have register : Run Step (State.initial 0 0) [.acted (.addDelayedTask 1 5) 0] ⟨first, .outside, 0⟩ :=
      run_step (.act trivial (Int.le_refl 0) trivial)
    have execute : Run Step ⟨first, .outside, 0⟩ [.started 5, .passed, .passed, .executed 1]
        ⟨first, .delayedTask 5, 5⟩ :=
      .snoc (.snoc (.snoc (run_step (.run (by decide))) (.proceed rfl)) (.proceed rfl)) (.proceed rfl)
    have rearm : Run Step ⟨first, .delayedTask 5, 5⟩ [.acted (.addDelayedTask 2 5) 6]
        ⟨second, .delayedTask 5, 6⟩ :=
      run_step (.act trivial (by decide) trivial)
    have back : Run Step ⟨second, .delayedTask 5, 6⟩ [.returned, .finished] ⟨cleared, .outside, 6⟩ :=
      .snoc (run_step (.resume rfl)) (.proceed rfl)
    have run : Run Step ⟨cleared, .outside, 6⟩ [.started 11, .passed, .passed, .passed, .finished]
        ⟨cleared, .outside, 11⟩ :=
      .snoc (.snoc (.snoc (.snoc (run_step (.run (by decide))) (.proceed rfl)) (.proceed rfl))
        (.proceed rfl)) (.proceed rfl)
    exact run_append (run_append register execute) (run_append rearm (run_append back run))
  · have unexecuted : Without (F := ℕ) (A := ℕ) Execution
      [.returned, .finished, .started 11, .passed, .passed, .passed] := by
      simp [Without, Execution]
    exact not_kept unexecuted (.tail _ (.tail _ (.head _))) (Int.le_refl 11)

end Emblib.DelayedTasks

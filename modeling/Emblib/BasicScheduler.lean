import Emblib.Library.Run

/-! `basic_scheduler`: `run` statement by statement, with the program around it and the callbacks
free to use the scheduler wherever they have control. Time is counted in one unit, in which
milliseconds are whole. -/
namespace Emblib.BasicScheduler
open Runs

def maxSimpleTasks : Nat := 16
def maxAdaptiveTasks : Nat := 4

/-- `periodic_task` and `adaptive_periodic_task`, which differ in the type of the callback. -/
structure PeriodicTask (F : Type) where
  func : F
  period : Int
  execTimepoint : Int

/-- The static members. -/
structure Scheduler (F A : Type) where
  tasks : List (PeriodicTask F)
  adaptiveTasks : List (PeriodicTask A)
  delayedTaskStart : Int
  delayedTaskDelay : Int
  delayedTask : F

variable {F A : Type}

/-- No tasks; the delegate of the delayed task is the one that is bound to nothing. -/
def Scheduler.initial (unbound : F) : Scheduler F A where
  tasks := []
  adaptiveTasks := []
  delayedTaskStart := 0
  delayedTaskDelay := 0
  delayedTask := unbound

def Scheduler.addTask (task : F) (period now : Int) (s : Scheduler F A) : Scheduler F A :=
  { s with tasks := s.tasks ++ [⟨task, period, now⟩] }

def Scheduler.addAdaptiveTask (task : A) (period now : Int) (s : Scheduler F A) : Scheduler F A :=
  { s with adaptiveTasks := s.adaptiveTasks ++ [⟨task, period, now⟩] }

def Scheduler.addDelayedTask (task : F) (delay now : Int) (s : Scheduler F A) : Scheduler F A :=
  { s with delayedTask := task, delayedTaskDelay := delay, delayedTaskStart := now }

def PeriodicTask.restart (now : Int) (task : PeriodicTask F) : PeriodicTask F :=
  { task with execTimepoint := now }

def Scheduler.reset (now : Int) (s : Scheduler F A) : Scheduler F A :=
  { s with tasks := s.tasks.map (·.restart now), adaptiveTasks := s.adaptiveTasks.map (·.restart now) }

/-- `adaptive_task_context::set_period`, for the task at index `i`. -/
def Scheduler.setPeriod (i : Nat) (period : Int) (s : Scheduler F A) : Scheduler F A :=
  { s with adaptiveTasks := s.adaptiveTasks.modify i fun task => { task with period := period } }

def PeriodicTask.due (now : Int) (task : PeriodicTask F) : Bool :=
  decide (task.execTimepoint + task.period ≤ now)

/-! ## `run` -/

/-- Where the program stands: outside `run`, before a statement of it, or in one of its
callbacks. Inside `run` there is the clock reading that it works with. -/
inductive Position where
  | outside
  | tasks (i : Nat) (now : Int)
  | task (i : Nat) (now : Int)
  | adaptiveTasks (i : Nat) (now : Int)
  | adaptiveTask (i : Nat) (now : Int)
  | delayed (now : Int)
  | delayedTask (now : Int)
  | ending (now : Int)

/-- The program or a callback has control, not `run`. -/
def Position.MayAct : Position → Prop
  | .outside | .task .. | .adaptiveTask .. | .delayedTask .. => True
  | .tasks .. | .adaptiveTasks .. | .delayed .. | .ending .. => False

/-- What can be asked of the scheduler from outside, and by every callback. -/
inductive Action (F A : Type) where
  | addTask (task : F) (period : Int)
  | addAdaptiveTask (task : A) (period : Int)
  | addDelayedTask (task : F) (delay : Int)
  | reset

inductive Event (F A : Type) where
  | started (now : Int)
  | called (task : F)
  | calledAdaptive (task : A)
  | executed (delayedTask : F)
  | returned
  | passed
  | finished
  | acted (action : Action F A) (now : Int)
  | periodSet (period : Int)

/-- `push_back` assumes that the list is not full. -/
def Action.Assumes (s : Scheduler F A) : Action F A → Prop
  | .addTask .. => s.tasks.length ≠ maxSimpleTasks
  | .addAdaptiveTask .. => s.adaptiveTasks.length ≠ maxAdaptiveTasks
  | .addDelayedTask .. => True
  | .reset => True

/-- An action at the time that it reads from the clock. -/
def Action.perform (now : Int) (s : Scheduler F A) : Action F A → Scheduler F A
  | .addTask task period => s.addTask task period now
  | .addAdaptiveTask task period => s.addAdaptiveTask task period now
  | .addDelayedTask task delay => s.addDelayedTask task delay now
  | .reset => s.reset now

/-- The next statement of `run`, where `run` has control: what it does, and where it leads. -/
def proceed (s : Scheduler F A) : Position → Option (Event F A × Scheduler F A × Position)
  | .tasks i now =>
    match s.tasks[i]? with
    | none => some (.passed, s, .adaptiveTasks 0 now)
    | some task =>
      if task.due now then
        some (.called task.func, { s with tasks := s.tasks.set i (task.restart now) }, .task i now)
      else some (.passed, s, .tasks (i + 1) now)
  | .adaptiveTasks i now =>
    match s.adaptiveTasks[i]? with
    | none => some (.passed, s, .delayed now)
    | some task =>
      if task.due now then
        some (.calledAdaptive task.func, { s with adaptiveTasks := s.adaptiveTasks.set i (task.restart now) },
          .adaptiveTask i now)
      else some (.passed, s, .adaptiveTasks (i + 1) now)
  | .delayed now =>
    if s.delayedTaskDelay ≠ 0 ∧ s.delayedTaskStart + s.delayedTaskDelay ≤ now then
      some (.executed s.delayedTask, s, .delayedTask now)
    else some (.passed, s, .ending now)
  | .ending _ => some (.finished, s, .outside)
  | .outside | .task .. | .adaptiveTask .. | .delayedTask .. => none

/-- Where a callback returns to, and what `run` does right after it. -/
def resume (s : Scheduler F A) : Position → Option (Scheduler F A × Position)
  | .task i now => some (s, .tasks (i + 1) now)
  | .adaptiveTask i now => some (s, .adaptiveTasks (i + 1) now)
  -- The delay is cleared only now, whatever the callback has registered.
  | .delayedTask now => some ({ s with delayedTaskDelay := 0 }, .ending now)
  | .outside | .tasks .. | .adaptiveTasks .. | .delayed .. | .ending .. => none

/-- The scheduler, the position of the program, and the last reading of the clock. -/
structure State (F A : Type) where
  scheduler : Scheduler F A
  position : Position
  clock : Int

def State.initial (unbound : F) (clock : Int) : State F A := ⟨.initial unbound, .outside, clock⟩

/-- One step. The clock is steady, and a callback does not call `run`. -/
inductive Step : State F A → Event F A → State F A → Prop where
  | run {s : Scheduler F A} (later : clock ≤ now) :
      Step ⟨s, .outside, clock⟩ (.started now) ⟨s, .tasks 0 now, now⟩
  | proceed {s : Scheduler F A} (next : proceed s position = some (event, after, onward)) :
      Step ⟨s, position, clock⟩ event ⟨after, onward, clock⟩
  | resume {s : Scheduler F A} (back : resume s position = some (after, onward)) :
      Step ⟨s, position, clock⟩ .returned ⟨after, onward, clock⟩
  | act {s : Scheduler F A} (mayAct : position.MayAct) (later : clock ≤ now) (assumed : action.Assumes s) :
      Step ⟨s, position, clock⟩ (.acted action now) ⟨action.perform now s, position, now⟩
  | setPeriod {s : Scheduler F A} :
      Step ⟨s, .adaptiveTask i now, clock⟩ (.periodSet period) ⟨s.setPeriod i period, .adaptiveTask i now, clock⟩

end Emblib.BasicScheduler

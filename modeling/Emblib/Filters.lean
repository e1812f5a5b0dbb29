import Mathlib.Data.List.Induction

/-! What the filters have in common: samples are pushed, and the output is set or reset in between.
What a filter does is told by the samples since the output was last set. -/
namespace Emblib.Filters

variable {F T : Type}

inductive Operation (T : Type) where
  | push (value : T)
  | setOutput (value : T)
  | reset

/-- The member functions of a filter. A push may be undefined where the arithmetic of the samples
is. -/
structure Methods (F T : Type) where
  push : F → T → Option F
  setOutput : F → T → F
  reset : F → F

def Methods.apply (methods : Methods F T) (filter : F) : Operation T → Option F
  | .push value => methods.push filter value
  | .setOutput value => some (methods.setOutput filter value)
  | .reset => some (methods.reset filter)

/-- The filter after the operations, unless one of them is undefined. -/
def Methods.applyAll (methods : Methods F T) (filter : F) (operations : List (Operation T)) :
    Option F :=
  operations.foldlM methods.apply filter

/-- The value that the output was set to last, and the samples since. -/
structure History (T : Type) where
  set : T
  samples : List T

def History.next (initOutput : T) (history : History T) : Operation T → History T
  | .push value => { history with samples := history.samples ++ [value] }
  | .setOutput value => ⟨value, []⟩
  | .reset => ⟨initOutput, []⟩

/-- A new filter is reset. -/
def historyOf (initOutput : T) (operations : List (Operation T)) : History T :=
  operations.foldl (History.next initOutput) ⟨initOutput, []⟩

theorem historyOf_snoc (initOutput : T) (operations : List (Operation T)) (last : Operation T) :
    historyOf initOutput (operations ++ [last]) =
      (historyOf initOutput operations).next initOutput last := by
  rw [historyOf, List.foldl_append]
  rfl

/-- The pushes meet a condition on the samples before them. -/
def AtEveryPush (holds : List T → T → Prop) (initOutput : T) (operations : List (Operation T)) :
    Prop :=
  ∀ done value later, operations = done ++ .push value :: later →
    holds (historyOf initOutput done).samples value

theorem atEveryPush_earlier {holds : List T → T → Prop} {initOutput : T}
    {first second : List (Operation T)} (all : AtEveryPush holds initOutput (first ++ second)) :
    AtEveryPush holds initOutput first := by
  rintro done value later rfl
  apply all done value (later ++ second)
  rw [List.append_assoc, List.cons_append]

theorem applyAll_snoc (methods : Methods F T) (filter : F) (operations : List (Operation T))
    (last : Operation T) :
    methods.applyAll filter (operations ++ [last]) =
      (methods.applyAll filter operations).bind (methods.apply · last) := by
  rw [Methods.applyAll, List.foldlM_append]
  simp [Methods.applyAll]

/-- What a push keeps, where it is allowed, and what setting the output establishes, holds in every
run. -/
theorem run_history {methods : Methods F T} {initOutput : T} {start : F}
    (holds : History T → F → Prop) {allowed : List T → T → Prop}
    (pushed : ∀ history filter value, holds history filter → allowed history.samples value →
      ∃ next, methods.push filter value = some next ∧
        holds (history.next initOutput (.push value)) next)
    (set : ∀ history filter value, holds history filter →
      holds ⟨value, []⟩ (methods.setOutput filter value))
    (cleared : ∀ history filter, holds history filter →
      holds ⟨initOutput, []⟩ (methods.reset filter))
    (initial : holds ⟨initOutput, []⟩ start) {operations : List (Operation T)}
    (all : AtEveryPush allowed initOutput operations) :
    ∃ filter, methods.applyAll start operations = some filter ∧
      holds (historyOf initOutput operations) filter := by
  induction operations using List.reverseRecOn with
  | nil => exact ⟨start, rfl, initial⟩
  | append_singleton operations last ih =>
    obtain ⟨filter, ran, kept⟩ := ih (atEveryPush_earlier all)
    rw [applyAll_snoc, ran, historyOf_snoc, Option.bind_some]
    cases last with
    | push value => exact pushed _ filter value kept (all operations value [] rfl)
    | setOutput value => exact ⟨_, rfl, set _ filter value kept⟩
    | reset => exact ⟨_, rfl, cleared _ filter kept⟩

end Emblib.Filters

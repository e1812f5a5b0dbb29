import Mathlib.Data.List.Induction

/-! Runs of a labelled transition relation, grown at their end. A property of every
run is proved once by the step that preserves it; a run also splits at any label. -/
namespace Emblib.Runs

variable {S L : Type}

/-- The labels of the steps taken, in order, with the state they lead to. -/
inductive Run (step : S → L → S → Prop) (start : S) : List L → S → Prop where
  | nil : Run step start [] start
  | snoc (before : Run step start labels middle) (next : step middle label final) :
      Run step start (labels ++ [label]) final

variable {step : S → L → S → Prop} {start middle final : S} {labels first second : List L}

/-- The last step of a run. -/
theorem run_snoc (run : Run step start (labels ++ [label]) final) :
    ∃ middle, Run step start labels middle ∧ step middle label final := by
  generalize shape : labels ++ [label] = all at run
  cases run with
  | nil => simp at shape
  | snoc before next =>
    obtain ⟨rfl, last⟩ := List.append_inj' shape rfl
    obtain rfl := List.singleton_inj.mp last
    exact ⟨_, before, next⟩

theorem run_append (before : Run step start first middle) (after : Run step middle second final) :
    Run step start (first ++ second) final := by
  induction after with
  | nil => simpa using before
  | snoc _ next ih =>
    rw [← List.append_assoc]
    exact .snoc ih next

/-- A run passes through a state at every position of its labels. -/
theorem run_split (run : Run step start (first ++ second) final) :
    ∃ middle, Run step start first middle ∧ Run step middle second final := by
  induction second using List.reverseRecOn generalizing final with
  | nil => exact ⟨final, by simpa using run, .nil⟩
  | append_singleton second label ih =>
    rw [← List.append_assoc] at run
    obtain ⟨before, ran, last⟩ := run_snoc run
    obtain ⟨middle, left, right⟩ := ih ran
    exact ⟨middle, left, .snoc right last⟩

/-- What holds at the start and is preserved by each step holds after every run. The
property may mention the labels so far. -/
theorem run_invariant (holds : List L → S → Prop) (run : Run step start labels final)
    (initial : holds [] start)
    (preserved : ∀ labels middle label final, Run step start labels middle → holds labels middle →
      step middle label final → holds (labels ++ [label]) final) : holds labels final := by
  induction run with
  | nil => exact initial
  | snoc before next ih => exact preserved _ _ _ _ before ih next

/-- Steps that are also steps of another relation. -/
theorem run_mono {wider : S → L → S → Prop}
    (widen : ∀ middle label final, step middle label final → wider middle label final)
    (run : Run step start labels final) : Run wider start labels final := by
  induction run with
  | nil => exact .nil
  | snoc _ next ih => exact .snoc ih (widen _ _ _ next)

/-- A run whose steps all have a further property is a run of the steps that have it. -/
theorem run_strengthen {further : S → L → S → Prop} (run : Run step start labels final)
    (holds : ∀ first label later middle final, labels = first ++ label :: later →
      Run step start first middle → step middle label final → further middle label final) :
    Run (fun middle label final => step middle label final ∧ further middle label final)
      start labels final := by
  induction run with
  | nil => exact .nil
  | @snoc labels _ label _ before next ih =>
    refine .snoc (ih ?_) ⟨next, holds labels label [] _ _ rfl before next⟩
    intro first other later middle final split ran step
    apply holds first other (later ++ [label]) middle final _ ran step
    rw [split, List.append_assoc, List.cons_append]

end Emblib.Runs

import Emblib.Library.Program
import Emblib.Library.Run

/-! Objects whose operations are programs, and an account of them. The account is told by the operations and
their exchanges alone, and if every operation goes on with it, so does every sequence of operations. -/
namespace Emblib.Accounts
open Programs Runs

variable {E O S A : Type} {R : E → Type}

/-- A step of an object and of its account, by an operation with its exchanges. -/
def Accounted (perform : O → S → Program E R S) (tells : S → A → O → List (Sigma R) → A → Prop) (before : S × A)
    (label : O × List (Sigma R)) (after : S × A) : Prop :=
  (perform label.1 before.1).Executes label.2 after.1 ∧ tells after.1 before.2 label.1 label.2 after.2

variable {perform : O → S → Program E R S} {loop : List O → S → Program E R S}
  {tells : S → A → O → List (Sigma R) → A → Prop} {represents : S → A → Prop} {object : S} {account : A}

/-- A loop over the operations is a run of the object and its account; the induction carries what the account
says about the object. -/
theorem accounted_run (nil : ∀ object, loop [] object = .pure object)
    (cons : ∀ operation rest object, loop (operation :: rest) object = perform operation object >>= loop rest)
    (step : ∀ operation object account, represents object account →
      (perform operation object).Yields fun after exchanges => ∃ told,
        tells after account operation exchanges told ∧ represents after told)
    (operations : List O) (start : represents object account) :
    (loop operations object).Yields fun final exchanges => ∃ labels told,
      exchanges = labels.flatMap (·.2) ∧ labels.map (·.1) = operations ∧
        Run (Accounted perform tells) (object, account) labels (final, told) ∧ represents final told := by
  induction operations generalizing object account with
  | nil =>
    rw [nil]
    exact ⟨[], account, rfl, rfl, .nil, start⟩
  | cons operation rest ih =>
    rw [cons]
    have own := yields_and (yields_executes (perform operation object)) (step operation object account start)
    refine yields_bind.mpr (yields_mono own fun middle first outcome => ?_)
    obtain ⟨executes, told, telling, between⟩ := outcome
    refine yields_mono (ih between) fun final second outcome => ?_
    obtain ⟨labels, last, rfl, rfl, run, after⟩ := outcome
    exact ⟨(operation, first) :: labels, last, rfl, rfl, run_append (.snoc .nil ⟨executes, telling⟩) run, after⟩

end Emblib.Accounts

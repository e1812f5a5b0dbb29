import Emblib.Library.Program

/-! Programs whose requests may throw. An exception leaves the program where it is: the requests
before it have been made, each of them legal, and the one that throws has left some state behind.
What holds then is judged as a postcondition is, request by request. -/
namespace Emblib.Programs

section Throwing
variable {E S A B : Type} {R : E → Type} {handler : (effect : E) → S → R effect × S}
  {legal : E → S → Prop} {throws : E → S → S → Prop} {post : List E → S → Prop}
  {program : Program E R A} {state left : S} {done : List E}

/-- The program has made these requests when the next one throws and leaves this state. -/
def Interrupted (handler : (effect : E) → S → R effect × S) (legal : E → S → Prop)
    (throws : E → S → S → Prop) : Program E R A → S → List E → S → Prop
  | .pure _, _, _, _ => False
  | .request effect _, state, [], left => throws effect state left
  | .request effect next, state, first :: rest, left =>
    first = effect ∧ legal effect state ∧
      Interrupted handler legal throws (next (handler effect state).1) (handler effect state).2 rest left

/-- Wherever an exception interrupts the program, the requests made and the state left meet the
postcondition. -/
def OnThrow (handler : (effect : E) → S → R effect × S) (legal : E → S → Prop)
    (throws : E → S → S → Prop) (program : Program E R A) (state : S) (post : List E → S → Prop) : Prop :=
  ∀ done left, Interrupted handler legal throws program state done left → post done left

@[simp] theorem requests_bind (program : Program E R A) (next : A → Program E R B) (state : S) :
    requests handler (program >>= next) state =
      requests handler program state ++
        requests handler (next (run handler program state).1) (run handler program state).2 := by
  induction program generalizing state with
  | pure value => rfl
  | request effect rest ih => exact congrArg (effect :: ·) (ih _ _)

@[simp] theorem onThrow_pure (value : A) :
    OnThrow handler legal throws (.pure value) state post ↔ True :=
  iff_of_true (fun _ _ => nofun) trivial

@[simp] theorem onThrow_request (effect : E) (next : R effect → Program E R A) :
    OnThrow handler legal throws (.request effect next) state post ↔
      (∀ left, throws effect state left → post [] left) ∧
        (legal effect state → OnThrow handler legal throws (next (handler effect state).1)
          (handler effect state).2 fun done => post (effect :: done)) := by
  constructor
  · intro all
    exact ⟨fun left thrown => all [] left thrown,
      fun allowed done left later => all (_ :: done) left ⟨rfl, allowed, later⟩⟩
  · rintro ⟨first, later⟩ done left interrupted
    cases done with
    | nil => exact first left interrupted
    | cons asked done =>
      obtain ⟨rfl, allowed, rest⟩ := interrupted
      exact later allowed done left rest

@[simp] theorem onThrow_perform (effect : E) :
    OnThrow handler legal throws (Program.perform effect) state post ↔
      ∀ left, throws effect state left → post [] left := by
  rw [Program.perform, onThrow_request]
  exact and_iff_left fun _ => (onThrow_pure _).mpr trivial

/-- Sequencing: the second program is interrupted behind the requests of the first. -/
@[simp] theorem onThrow_bind (next : A → Program E R B) :
    OnThrow handler legal throws (program >>= next) state post ↔
      OnThrow handler legal throws program state post ∧
        (Obeys handler legal program state →
          OnThrow handler legal throws (next (run handler program state).1) (run handler program state).2
            fun done => post (requests handler program state ++ done)) := by
  induction program generalizing state post with
  | pure value =>
    rw [Program.pure_bind, and_iff_right ((onThrow_pure value).mpr trivial), obeys_pure, true_imp_iff]
    exact Iff.rfl
  | request effect rest ih =>
    rw [Program.request_bind, onThrow_request, onThrow_request, obeys_request, and_assoc]
    simp only [ih, imp_and, and_imp]
    exact Iff.rfl

theorem onThrow_mono {weaker : List E → S → Prop}
    (all : OnThrow handler legal throws program state post)
    (imp : ∀ done left, post done left → weaker done left) :
    OnThrow handler legal throws program state weaker :=
  fun done left interrupted => imp done left (all done left interrupted)

/-- A program none of whose requests throws is never interrupted. -/
theorem onThrow_quiet (issues : program.Issues fun effect => ∀ state left, ¬throws effect state left) :
    OnThrow handler legal throws program state post := by
  induction program generalizing state post with
  | pure value => exact (onThrow_pure value).mpr trivial
  | request effect next ih =>
    refine (onThrow_request effect next).mpr ⟨fun left thrown => ?_, fun _ => ih _ (issues.2 _)⟩
    exact absurd thrown (issues.1 state left)

/-- A loop is interrupted in one of its rounds, behind the requests of the rounds before. -/
theorem onThrow_times (holds : Nat → List E → S → Prop) {count : Nat} {body : Nat → Program E R Unit}
    (round : ∀ i, i < count → ∀ before s, holds i before s →
      (OnThrow handler legal throws (body i) s fun done => post (before ++ done)) ∧
        (Obeys handler legal (body i) s →
          holds (i + 1) (before ++ requests handler (body i) s) (run handler (body i) s).2))
    (start : holds 0 [] state) :
    OnThrow handler legal throws (Program.times count body) state post ∧
      (Obeys handler legal (Program.times count body) state →
        holds count (requests handler (Program.times count body) state)
          (run handler (Program.times count body) state).2) := by
  induction count with
  | zero => exact ⟨(onThrow_pure ()).mpr trivial, fun _ => start⟩
  | succ count ih =>
    obtain ⟨earlier, middle⟩ := ih fun i below => round i (Nat.lt_succ_of_lt below)
    have last (obeyed : Obeys handler legal (Program.times count body) state) :=
      round count (Nat.lt_succ_self count) _ _ (middle obeyed)
    rw [Program.times, run_bind, requests_bind, onThrow_bind, obeys_bind]
    refine ⟨⟨earlier, fun obeyed => (last obeyed).1⟩, ?_⟩
    rintro ⟨obeyed, also⟩
    exact (last obeyed).2 also

/-! ## Families of devices -/

section Family
variable {N : Type} [DecidableEq N]

/-- A request of a family throws as it does for the device that it names. -/
def familyThrows (throws : E → S → S → Prop) (request : N × E) (states left : N → S) : Prop :=
  ∃ after, throws request.2 (states request.1) after ∧ left = Function.update states request.1 after

/-- A program for one device of a family is interrupted as it is for the device alone. -/
@[simp] theorem onThrow_on (name : N) (states : N → S) {post : List (N × E) → (N → S) → Prop} :
    OnThrow (family handler) (fun request states => legal request.2 (states request.1))
        (familyThrows throws) (program.on name) states post ↔
      OnThrow handler legal throws program (states name) fun done left =>
        post (done.map (name, ·)) (Function.update states name left) := by
  induction program generalizing states post with
  | pure value => exact iff_of_true (fun _ _ => nofun) fun _ _ => nofun
  | request effect next ih =>
    have first : (∀ left, familyThrows throws (name, effect) states left → post [] left) ↔
        ∀ after, throws effect (states name) after → post [] (Function.update states name after) := by
      constructor
      · exact fun all after thrown => all _ ⟨after, thrown, rfl⟩
      · rintro all _ ⟨after, thrown, rfl⟩
        exact all after thrown
    rw [Program.on, onThrow_request, onThrow_request, first]
    simp only [family, ih, Function.update_self, Function.update_idem, List.map_cons, List.map_nil]

@[simp] theorem requests_on (name : N) (program : Program E R A) (states : N → S) :
    requests (family handler) (program.on name) states =
      (requests handler program (states name)).map (name, ·) := by
  induction program generalizing states with
  | pure value => rfl
  | request effect next ih =>
    rw [Program.on, requests, requests, ih, List.map_cons]
    simp only [family, Function.update_self]

end Family

end Throwing
end Emblib.Programs

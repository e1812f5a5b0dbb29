import Mathlib.Logic.Function.Basic

/-! Programs that talk to a device through typed requests. The device may answer
in several ways and may lose power in the middle of a request, so a program is
judged twice: by what it returns when it completes, and by every device state it
passes through. The rules follow the requests a program makes one by one. -/
namespace Emblib.Programs

/-- A program is a value, or a request followed by a continuation of its reply. -/
inductive Program (E : Type) (R : E → Type) (A : Type) where
  | pure (value : A) : Program E R A
  | request (effect : E) (next : R effect → Program E R A) : Program E R A

namespace Program

variable {E S A B C : Type} {R : E → Type}

/-- Continue with the returned value. -/
def bind (program : Program E R A) (next : A → Program E R B) : Program E R B :=
  match program with
  | .pure value => next value
  | .request effect rest => .request effect fun reply => (rest reply).bind next

instance : Monad (Program E R) where
  pure := .pure
  bind := bind

/-- A single request, returning its reply. -/
def perform (effect : E) : Program E R (R effect) := .request effect .pure

@[simp] theorem pure_eq (value : A) : (Pure.pure value : Program E R A) = .pure value := rfl

@[simp] theorem pure_bind (value : A) (next : A → Program E R B) :
    (Program.pure value >>= next) = next value := rfl

@[simp] theorem request_bind (effect : E) (rest : R effect → Program E R A)
    (next : A → Program E R B) :
    (Program.request effect rest >>= next) = .request effect fun reply => rest reply >>= next :=
  rfl

@[simp] theorem perform_bind (effect : E) (next : R effect → Program E R B) :
    (perform effect >>= next) = .request effect next := rfl

/-- A loop that counts up from zero. -/
def times : Nat → (Nat → Program E R Unit) → Program E R Unit
  | 0, _ => .pure ()
  | count + 1, body => do
    times count body
    body count

/-- A loop that counts down to zero; a round is given the count behind it. -/
def timesDown : Nat → (Nat → Program E R Unit) → Program E R Unit
  | 0, _ => .pure ()
  | count + 1, body => do
    body count
    timesDown count body

/-- A callee is called if there is one. -/
def callIf {D : Type} (handler : Option D) (call : D → Program E R Unit) : Program E R Unit :=
  match handler with
  | some handler => call handler
  | none => .pure ()

/-- The program for one device of a family. -/
def on {N : Type} (name : N) :
    Program E R A → Program (N × E) (fun request => R request.2) A
  | .pure value => .pure value
  | .request effect next => .request (name, effect) fun reply => (next reply).on name

/-- Every request the program can make is allowed, whatever replies it gets. -/
def Issues (allowed : E → Prop) : Program E R A → Prop
  | .pure _ => True
  | .request effect next => allowed effect ∧ ∀ reply, (next reply).Issues allowed

theorem issues_bind {allowed : E → Prop} {program : Program E R A}
    {next : A → Program E R B} (first : program.Issues allowed)
    (rest : ∀ value, (next value).Issues allowed) : (program >>= next).Issues allowed := by
  induction program with
  | pure value => exact rest value
  | request effect next ih => exact ⟨first.1, fun reply => ih reply (first.2 reply)⟩

theorem issues_mono {allowed weaker : E → Prop} {program : Program E R A} (issues : program.Issues allowed)
    (imp : ∀ effect, allowed effect → weaker effect) : program.Issues weaker := by
  induction program with
  | pure value => trivial
  | request effect next ih => exact ⟨imp effect issues.1, fun reply => ih reply (issues.2 reply)⟩

theorem issues_any (program : Program E R A) : program.Issues fun _ => True := by
  induction program with
  | pure value => trivial
  | request effect next ih => exact ⟨trivial, ih⟩

theorem issues_times {allowed : E → Prop} {body : Nat → Program E R Unit}
    (rounds : ∀ i, (body i).Issues allowed) (count : Nat) : (times count body).Issues allowed := by
  induction count with
  | zero => trivial
  | succ count ih => exact issues_bind ih fun _ => rounds count

theorem issues_timesDown {allowed : E → Prop} {body : Nat → Program E R Unit}
    (rounds : ∀ i, (body i).Issues allowed) (count : Nat) : (timesDown count body).Issues allowed := by
  induction count with
  | zero => trivial
  | succ count ih => exact issues_bind (rounds count) fun _ => ih

end Program

/-! ## Running against a handler that always answers -/

section Handler
variable {E S S' A B : Type} {R : E → Type}

/-- The run against a handler, a total function of the request and the state. -/
def run (handler : (effect : E) → S → R effect × S) : Program E R A → S → A × S
  | .pure value, state => (value, state)
  | .request effect next, state =>
    let (reply, after) := handler effect state
    run handler (next reply) after

variable {handler : (effect : E) → S → R effect × S}

@[simp] theorem run_pure (value : A) (state : S) :
    run handler (.pure value) state = (value, state) := rfl

@[simp] theorem run_request (effect : E) (next : R effect → Program E R A) (state : S) :
    run handler (.request effect next) state =
      run handler (next (handler effect state).1) (handler effect state).2 := rfl

@[simp] theorem run_perform (effect : E) (state : S) :
    run handler (Program.perform effect) state = handler effect state := rfl

@[simp] theorem run_bind (program : Program E R A) (next : A → Program E R B) (state : S) :
    run handler (program >>= next) state =
      run handler (next (run handler program state).1) (run handler program state).2 := by
  induction program generalizing state with
  | pure value => rfl
  | request effect rest ih => exact ih _ _

/-- What each round of a loop preserves; the property may mention the rounds so far. -/
theorem run_times (holds : Nat → S → Prop) {count : Nat} {body : Nat → Program E R Unit}
    (round : ∀ i, i < count → ∀ s, holds i s → holds (i + 1) (run handler (body i) s).2)
    {s : S} (start : holds 0 s) : holds count (run handler (Program.times count body) s).2 := by
  induction count with
  | zero => exact start
  | succ count ih =>
    rw [Program.times, run_bind]
    exact round count (Nat.lt_succ_self count) _
      (ih fun i below => round i (Nat.lt_succ_of_lt below))

/-- Two loops whose rounds do the same in the states that they come to. -/
theorem run_times_congr (holds : S → Prop) {count : Nat} {body other : Nat → Program E R Unit}
    (round : ∀ i, i < count → ∀ s, holds s →
      run handler (body i) s = run handler (other i) s ∧ holds (run handler (other i) s).2)
    {s : S} (start : holds s) :
    run handler (Program.times count body) s = run handler (Program.times count other) s ∧
      holds (run handler (Program.times count other) s).2 := by
  induction count with
  | zero => exact ⟨rfl, start⟩
  | succ count ih =>
    obtain ⟨same, reached⟩ := ih fun i below => round i (Nat.lt_succ_of_lt below)
    obtain ⟨last, after⟩ := round count (Nat.lt_succ_self count) _ reached
    rw [Program.times, Program.times, run_bind, run_bind, same, last]
    exact ⟨rfl, after⟩

/-- The handler of a family of devices. -/
def family {N : Type} [DecidableEq N] (handler : (effect : E) → S → R effect × S)
    (request : N × E) (states : N → S) : R request.2 × (N → S) :=
  let (reply, after) := handler request.2 (states request.1)
  (reply, Function.update states request.1 after)

/-- A program for one device leaves the others alone. -/
@[simp] theorem run_on {N : Type} [DecidableEq N] (name : N) (program : Program E R A)
    (states : N → S) :
    run (family handler) (program.on name) states =
      ((run handler program (states name)).1,
        Function.update states name (run handler program (states name)).2) := by
  induction program generalizing states with
  | pure value => simp only [Program.on, run_pure, Function.update_eq_self]
  | request effect next ih =>
    simp only [Program.on, run_request, family, ih, Function.update_self, Function.update_idem]

/-- Two handlers that agree on the allowed requests, from related states to
related states, give a program the same result from related states. -/
theorem run_related {allowed : E → Prop} {other : (effect : E) → S' → R effect × S'}
    (related : S → S' → Prop)
    (agree : ∀ effect, allowed effect → ∀ s t, related s t →
      (handler effect s).1 = (other effect t).1 ∧ related (handler effect s).2 (other effect t).2)
    (program : Program E R A) (issues : program.Issues allowed) {s : S} {t : S'}
    (start : related s t) :
    (run handler program s).1 = (run other program t).1 ∧
      related (run handler program s).2 (run other program t).2 := by
  induction program generalizing s t with
  | pure value => exact ⟨rfl, start⟩
  | request effect next ih =>
    obtain ⟨same, after⟩ := agree effect issues.1 s t start
    simp only [run_request, same]
    exact ih _ (issues.2 _) after

/-- What every allowed request preserves, the whole program preserves. -/
theorem run_preserves {allowed : E → Prop} (holds : S → Prop)
    (step : ∀ effect, allowed effect → ∀ s, holds s → holds (handler effect s).2)
    (program : Program E R A) (issues : program.Issues allowed) {s : S} (start : holds s) :
    holds (run handler program s).2 := by
  induction program generalizing s with
  | pure value => exact start
  | request effect next ih => exact ih _ (issues.2 _) (step effect issues.1 s start)

/-! ## Requests with a precondition -/

/-- Every request of the run is legal in the state that it meets. -/
def Obeys (handler : (effect : E) → S → R effect × S) (legal : E → S → Prop) :
    Program E R A → S → Prop
  | .pure _, _ => True
  | .request effect next, state =>
    legal effect state ∧ Obeys handler legal (next (handler effect state).1) (handler effect state).2

/-- The requests of the run, in order. -/
def requests (handler : (effect : E) → S → R effect × S) : Program E R A → S → List E
  | .pure _, _ => []
  | .request effect next, state =>
    effect :: requests handler (next (handler effect state).1) (handler effect state).2

theorem requests_issues {allowed : E → Prop} {program : Program E R A} (issues : program.Issues allowed)
    (state : S) : ∀ effect ∈ requests handler program state, allowed effect := by
  induction program generalizing state with
  | pure value => exact nofun
  | request effect next ih =>
    intro asked member
    cases List.mem_cons.mp member with
    | inl first => exact first ▸ issues.1
    | inr later => exact ih _ (issues.2 _) _ asked later

variable {legal : E → S → Prop}

@[simp] theorem obeys_pure (value : A) (state : S) :
    Obeys handler legal (.pure value) state ↔ True := Iff.rfl

@[simp] theorem obeys_request (effect : E) (next : R effect → Program E R A) (state : S) :
    Obeys handler legal (.request effect next) state ↔
      legal effect state ∧ Obeys handler legal (next (handler effect state).1) (handler effect state).2 :=
  Iff.rfl

@[simp] theorem obeys_perform (effect : E) (state : S) :
    Obeys handler legal (Program.perform effect) state ↔ legal effect state :=
  iff_of_eq (and_true _)

@[simp] theorem obeys_bind (program : Program E R A) (next : A → Program E R B) (state : S) :
    Obeys handler legal (program >>= next) state ↔
      Obeys handler legal program state ∧
        Obeys handler legal (next (run handler program state).1) (run handler program state).2 := by
  induction program generalizing state with
  | pure value => exact (iff_of_eq (true_and _)).symm
  | request effect rest ih =>
    simp only [Program.request_bind, Obeys, ih, run_request, and_assoc]

/-- A loop obeys if each round does where the rounds before it lead. -/
theorem obeys_times (holds : Nat → S → Prop) {count : Nat} {body : Nat → Program E R Unit}
    (round : ∀ i, i < count → ∀ s, holds i s →
      Obeys handler legal (body i) s ∧ holds (i + 1) (run handler (body i) s).2)
    {s : S} (start : holds 0 s) :
    Obeys handler legal (Program.times count body) s ∧
      holds count (run handler (Program.times count body) s).2 := by
  induction count with
  | zero => exact ⟨trivial, start⟩
  | succ count ih =>
    obtain ⟨before, middle⟩ := ih fun i below => round i (Nat.lt_succ_of_lt below)
    obtain ⟨last, final⟩ := round count (Nat.lt_succ_self count) _ middle
    rw [Program.times, run_bind]
    exact ⟨(obeys_bind _ _ _).mpr ⟨before, last⟩, final⟩

/-- The same for a loop that counts down. -/
theorem obeys_timesDown (holds : Nat → S → Prop) {count : Nat} {body : Nat → Program E R Unit}
    (round : ∀ i, i < count → ∀ s, holds (i + 1) s →
      Obeys handler legal (body i) s ∧ holds i (run handler (body i) s).2)
    {s : S} (start : holds count s) :
    Obeys handler legal (Program.timesDown count body) s ∧
      holds 0 (run handler (Program.timesDown count body) s).2 := by
  induction count generalizing s with
  | zero => exact ⟨trivial, start⟩
  | succ count ih =>
    obtain ⟨first, after⟩ := round count (Nat.lt_succ_self count) s start
    obtain ⟨rest, final⟩ := ih (fun i below => round i (Nat.lt_succ_of_lt below)) after
    rw [Program.timesDown, run_bind]
    exact ⟨(obeys_bind _ _ _).mpr ⟨first, rest⟩, final⟩

/-- A program for one device of a family obeys what the device asks. -/
@[simp] theorem obeys_on {N : Type} [DecidableEq N] (name : N) (program : Program E R A)
    (states : N → S) :
    Obeys (family handler) (fun request states => legal request.2 (states request.1)) (program.on name)
        states ↔ Obeys handler legal program (states name) := by
  induction program generalizing states with
  | pure value => exact Iff.rfl
  | request effect next ih => simp only [Program.on, Obeys, ih, family, Function.update_self]

end Handler

/-! ## Running against a handler that may not answer -/

section Attempt
variable {E S A : Type} {R : E → Type}

/-- The run against a handler that may give no answer; without one there is no result. -/
def attempt (handler : (effect : E) → S → Option (R effect × S)) : Program E R A → S → Option (A × S)
  | .pure value, state => some (value, state)
  | .request effect next, state =>
    match handler effect state with
    | none => none
    | some (reply, after) => attempt handler (next reply) after

/-- What every answer to an allowed request preserves, a run that ends preserves. -/
theorem attempt_issues {handler : (effect : E) → S → Option (R effect × S)} {allowed : E → Prop} (holds : S → Prop)
    (step : ∀ effect state reply after, allowed effect → handler effect state = some (reply, after) →
      holds state → holds after)
    {program : Program E R A} (issues : program.Issues allowed) {state : S} {value : A} {final : S}
    (ends : attempt handler program state = some (value, final)) (start : holds state) : holds final := by
  induction program generalizing state with
  | pure result =>
    cases ends
    exact start
  | request effect next ih =>
    unfold attempt at ends
    cases answered : handler effect state with
    | none =>
      rw [answered] at ends
      cases ends
    | some answer =>
      obtain ⟨reply, after⟩ := answer
      rw [answered] at ends
      exact ih reply (issues.2 reply) ends (step effect state reply after issues.1 answered start)

/-- What every answer preserves, a run that ends preserves. -/
theorem attempt_preserves {handler : (effect : E) → S → Option (R effect × S)} (holds : S → Prop)
    (step : ∀ effect state reply after, handler effect state = some (reply, after) → holds state → holds after)
    (program : Program E R A) {state : S} {value : A} {final : S}
    (ends : attempt handler program state = some (value, final)) (start : holds state) : holds final :=
  attempt_issues holds (fun effect state reply after _ => step effect state reply after) program.issues_any ends start

variable {S' B' A' : Type} {first : A → A' → Prop} {second : B → B' → Prop} {left : Option A} {right : Option A'}

end Attempt

/-! ## Whatever the replies -/

section Exchanges
variable {E A B : Type} {R : E → Type}

/-- Whatever is replied to its requests, the program ends with a value and a list of requests
with their replies that meet the postcondition. -/
def Program.Yields : Program E R A → (A → List (Sigma R) → Prop) → Prop
  | .pure value, post => post value []
  | .request effect next, post =>
    ∀ reply, (next reply).Yields fun value exchanges => post value (⟨effect, reply⟩ :: exchanges)

variable {post : A → List (Sigma R) → Prop} {program : Program E R A}

@[simp] theorem yields_pure (value : A) :
    (Program.pure value : Program E R A).Yields post ↔ post value [] := Iff.rfl

@[simp] theorem yields_request (effect : E) (next : R effect → Program E R A) :
    (Program.request effect next).Yields post ↔
      ∀ reply, (next reply).Yields fun value exchanges => post value (⟨effect, reply⟩ :: exchanges) :=
  Iff.rfl

/-- Sequencing: the exchanges of the second program come behind those of the first. -/
theorem yields_bind {next : A → Program E R B} {post : B → List (Sigma R) → Prop} :
    (program >>= next).Yields post ↔
      program.Yields fun value first => (next value).Yields fun final second => post final (first ++ second) := by
  induction program generalizing post with
  | pure value => exact Iff.rfl
  | request effect rest ih => exact forall_congr' fun reply => ih reply

theorem yields_mono {weaker : A → List (Sigma R) → Prop} (yields : program.Yields post)
    (imp : ∀ value exchanges, post value exchanges → weaker value exchanges) : program.Yields weaker := by
  induction program generalizing post weaker with
  | pure value => exact imp _ _ yields
  | request effect next ih => exact fun reply => ih reply (yields reply) fun value exchanges => imp value _

theorem yields_and {also : A → List (Sigma R) → Prop} (first : program.Yields post)
    (second : program.Yields also) :
    program.Yields fun value exchanges => post value exchanges ∧ also value exchanges := by
  induction program generalizing post also with
  | pure value => exact ⟨first, second⟩
  | request effect next ih => exact fun reply => ih reply (first reply) (second reply)

theorem yields_trivial (program : Program E R A) : program.Yields fun _ _ => True := by
  induction program with
  | pure value => trivial
  | request effect next ih => exact ih

/-- The program ends with this value after these exchanges. -/
def Program.Executes : Program E R A → List (Sigma R) → A → Prop
  | .pure value, exchanges, final => exchanges = [] ∧ final = value
  | .request effect next, exchanges, final =>
    ∃ reply rest, exchanges = ⟨effect, reply⟩ :: rest ∧ (next reply).Executes rest final

theorem yields_executes (program : Program E R A) :
    program.Yields fun value exchanges => program.Executes exchanges value := by
  induction program with
  | pure value => exact ⟨rfl, rfl⟩
  | request effect next ih =>
    exact fun reply => yields_mono (ih reply) fun value exchanges executes => ⟨reply, exchanges, rfl, executes⟩

theorem executes_yields {exchanges : List (Sigma R)} {value : A} (executes : program.Executes exchanges value)
    (yields : program.Yields post) : post value exchanges := by
  induction program generalizing post exchanges with
  | pure result =>
    obtain ⟨rfl, rfl⟩ := executes
    exact yields
  | request effect next ih =>
    obtain ⟨reply, rest, rfl, executes⟩ := executes
    have holds := ih reply executes (yields reply)
    exact holds

/-- A program that issues only some requests exchanges only these. -/
theorem yields_issues {allowed : E → Prop} (issues : program.Issues allowed) :
    program.Yields fun _ exchanges => ∀ exchange ∈ exchanges, allowed exchange.1 := by
  induction program with
  | pure value => exact nofun
  | request effect next ih =>
    refine fun reply => yields_mono (ih reply (issues.2 reply)) fun value exchanges all exchange member => ?_
    cases List.mem_cons.mp member with
    | inl first => exact first ▸ issues.1
    | inr later => exact all exchange later

theorem callIf_yields {D : Type} (call : D → Program E R Unit) (calls : D → List (Sigma R))
    (calling : ∀ handler, (call handler).Yields fun _ exchanges => exchanges = calls handler)
    (handler : Option D) :
    (Program.callIf handler call).Yields fun _ exchanges => exchanges = handler.toList.flatMap calls := by
  cases handler with
  | none => rfl
  | some handler => exact yields_mono (calling handler) fun _ exchanges same => by simp [same]

/-- Of requests that are none of these, none is left. -/
theorem filter_effects_none {these : E → Bool} {exchanges : List (Sigma R)}
    (none : ∀ exchange ∈ exchanges, these exchange.1 = false) :
    (exchanges.map (·.1)).filter these = [] := by
  rw [List.filter_eq_nil_iff]
  intro effect member
  obtain ⟨exchange, exchanged, rfl⟩ := List.mem_map.mp member
  simp [none exchange exchanged]

/-- A handler that answers these requests with these replies, one after the other. -/
def Replied {S : Type} (handler : (effect : E) → S → R effect × S) : List (Sigma R) → S → S → Prop
  | [], state, final => final = state
  | exchange :: rest, state, final =>
    exchange.2 = (handler exchange.1 state).1 ∧ Replied handler rest (handler exchange.1 state).2 final

/-- A run against a handler is one of the executions. -/
theorem yields_run {S : Type} (handler : (effect : E) → S → R effect × S)
    (yields : program.Yields post) (state : S) :
    ∃ exchanges, post (run handler program state).1 exchanges ∧
      Replied handler exchanges state (run handler program state).2 := by
  induction program generalizing post state with
  | pure value => exact ⟨[], yields, rfl⟩
  | request effect next ih =>
    obtain ⟨exchanges, holds, replied⟩ := ih _ (yields _) (handler effect state).2
    exact ⟨_, holds, rfl, replied⟩

end Exchanges

/-! ## Devices with faults -/

section Device
variable {E S A B : Type} {R : E → Type}

/-- What a device may do with a request: the replies it can give with the state
each leaves behind, and the states a power loss during the request can leave. -/
structure Device (E : Type) (R : E → Type) (S : Type) where
  answers : (effect : E) → S → R effect → S → Prop
  tears : E → S → S → Prop

/-- The program runs to its end with this value and final state. -/
def Completes (device : Device E R S) : Program E R A → S → A → S → Prop
  | .pure result, state, value, final => value = result ∧ final = state
  | .request effect next, state, value, final =>
    ∃ reply middle, device.answers effect state reply middle ∧
      Completes device (next reply) middle value final

/-- The state is seen before, between or after the program's requests, or is left
by a power loss inside one of them. -/
def Visits (device : Device E R S) : Program E R A → S → S → Prop
  | .pure _, state, seen => seen = state
  | .request effect next, state, seen =>
    seen = state ∨ device.tears effect state seen ∨
      ∃ reply middle, device.answers effect state reply middle ∧
        Visits device (next reply) middle seen

/-- Every completed run meets the postcondition and every state passed through,
the ones left by a power loss included, meets the invariant. -/
def Ensures (device : Device E R S) (post : A → S → Prop) (during : S → Prop) :
    Program E R A → S → Prop
  | .pure value, state => post value state ∧ during state
  | .request effect next, state =>
    during state ∧ (∀ torn, device.tears effect state torn → during torn) ∧
      ∀ reply middle, device.answers effect state reply middle →
        Ensures device post during (next reply) middle

variable {device : Device E R S} {post : A → S → Prop} {during : S → Prop}
  {program : Program E R A} {state : S}

@[simp] theorem ensures_pure (value : A) :
    Ensures device post during (.pure value) state ↔ post value state ∧ during state := Iff.rfl

theorem ensures_request {effect : E} {next : R effect → Program E R A} :
    Ensures device post during (.request effect next) state ↔
      during state ∧ (∀ torn, device.tears effect state torn → during torn) ∧
        ∀ reply middle, device.answers effect state reply middle →
          Ensures device post during (next reply) middle := Iff.rfl

theorem ensures_start (ensures : Ensures device post during program state) : during state := by
  cases program with
  | pure value => exact ensures.2
  | request effect next => exact ensures.1

/-- Sequencing: the second program starts wherever the first one may end. -/
theorem ensures_bind {next : A → Program E R B} {final : B → S → Prop} :
    Ensures device final during (program >>= next) state ↔
      Ensures device (fun value middle => Ensures device final during (next value) middle) during
        program state := by
  induction program generalizing state with
  | pure value => exact ⟨fun rest => ⟨rest, ensures_start rest⟩, And.left⟩
  | request effect rest ih =>
    simp only [Program.request_bind, ensures_request, ih]

/-- Weaken the postcondition and the invariant together. -/
theorem ensures_mono {weaker : A → S → Prop} {wider : S → Prop}
    (ensures : Ensures device post during program state)
    (result : ∀ value final, post value final → during final → weaker value final)
    (seen : ∀ middle, during middle → wider middle) :
    Ensures device weaker wider program state := by
  induction program generalizing state with
  | pure value => exact ⟨result _ _ ensures.1 ensures.2, seen _ ensures.2⟩
  | request effect next ih =>
    exact ⟨seen _ ensures.1, fun torn tears => seen _ (ensures.2.1 torn tears),
      fun reply middle answers => ih reply (ensures.2.2 reply middle answers)⟩

/-- Weaken only the postcondition. -/
theorem ensures_weaken {weaker : A → S → Prop}
    (ensures : Ensures device post during program state)
    (result : ∀ value final, post value final → weaker value final) :
    Ensures device weaker during program state :=
  ensures_mono ensures (fun value final holds _ => result value final holds) fun _ seen => seen

/-- Two judgements of one program hold together. -/
theorem ensures_and {also : A → S → Prop} {besides : S → Prop}
    (first : Ensures device post during program state)
    (second : Ensures device also besides program state) :
    Ensures device (fun value final => post value final ∧ also value final)
      (fun middle => during middle ∧ besides middle) program state := by
  induction program generalizing state with
  | pure value => exact ⟨⟨first.1, second.1⟩, first.2, second.2⟩
  | request effect next ih =>
    exact ⟨⟨first.1, second.1⟩,
      fun torn tears => ⟨first.2.1 torn tears, second.2.1 torn tears⟩,
      fun reply middle answers =>
        ih reply (first.2.2 reply middle answers) (second.2.2 reply middle answers)⟩

theorem completes_ensures (ensures : Ensures device post during program state)
    (completes : Completes device program state value final) : post value final := by
  induction program generalizing state with
  | pure result =>
    obtain ⟨rfl, rfl⟩ := completes
    exact ensures.1
  | request effect next ih =>
    obtain ⟨reply, middle, answers, rest⟩ := completes
    exact ih reply (ensures.2.2 reply middle answers) rest

theorem visits_ensures (ensures : Ensures device post during program state)
    (visits : Visits device program state seen) : during seen := by
  induction program generalizing state with
  | pure result =>
    obtain rfl := visits
    exact ensures.2
  | request effect next ih =>
    obtain rfl | torn | ⟨reply, middle, answers, rest⟩ := visits
    · exact ensures.1
    · exact ensures.2.1 _ torn
    · exact ih reply (ensures.2.2 reply middle answers) rest

/-- A completed run has passed through its final state. -/
theorem completes_visits (completes : Completes device program state value final) :
    Visits device program state final := by
  induction program generalizing state with
  | pure result => exact completes.2
  | request effect next ih =>
    obtain ⟨reply, middle, answers, rest⟩ := completes
    exact .inr (.inr ⟨reply, middle, answers, ih reply rest⟩)

/-- A handler whose answers the device may give produces a completed run. -/
theorem completes_run {handler : (effect : E) → S → R effect × S}
    (answers : ∀ effect s, device.answers effect s (handler effect s).1 (handler effect s).2)
    (program : Program E R A) (state : S) :
    Completes device program state (run handler program state).1 (run handler program state).2 := by
  induction program generalizing state with
  | pure value => exact ⟨rfl, rfl⟩
  | request effect next ih => exact ⟨_, _, answers effect state, ih _ _⟩

end Device
end Emblib.Programs

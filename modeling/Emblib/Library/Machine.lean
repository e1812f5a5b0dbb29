/-! Machines that answer operations one after the other, and when the answers of one
machine are those of another: a simulation relation that every allowed operation keeps,
and operations of one client that another client of the same state cannot influence. -/
namespace Emblib.Machines

variable {O P R Q S T : Type}

/-- The answers to the operations, in order, and the state they lead to. -/
def execute (step : O → S → R × S) : List O → S → List R × S
  | [], state => ([], state)
  | op :: ops, state =>
    let (result, middle) := step op state
    let (results, final) := execute step ops middle
    (result :: results, final)

/-- Every operation is performed in a state that allows it. -/
def Respects (step : O → S → R × S) (allowed : O → S → Prop) : List O → S → Prop
  | [], _ => True
  | op :: ops, state => allowed op state ∧ Respects step allowed ops (step op state).2

variable {step : O → S → R × S} {spec : O → T → R × T} {allowed : O → T → Prop}

@[simp] theorem execute_nil (state : S) : execute step [] state = ([], state) := rfl

@[simp] theorem execute_cons (op : O) (ops : List O) (state : S) :
    execute step (op :: ops) state =
      ((step op state).1 :: (execute step ops (step op state).2).1,
        (execute step ops (step op state).2).2) := rfl

/-- Forward simulation: related states stay related and answer alike. -/
theorem execute_simulates (related : S → T → Prop)
    (simulates : ∀ op state abstract, allowed op abstract → related state abstract →
      (step op state).1 = (spec op abstract).1 ∧ related (step op state).2 (spec op abstract).2)
    (ops : List O) {state : S} {abstract : T} (start : related state abstract)
    (respects : Respects spec allowed ops abstract) :
    (execute step ops state).1 = (execute spec ops abstract).1 ∧
      related (execute step ops state).2 (execute spec ops abstract).2 := by
  induction ops generalizing state abstract with
  | nil => exact ⟨rfl, start⟩
  | cons op ops ih =>
    obtain ⟨permitted, rest⟩ := respects
    obtain ⟨same, after⟩ := simulates op state abstract permitted start
    obtain ⟨results, final⟩ := ih after rest
    simp only [execute_cons, same, results, final, and_self]

theorem respects_true (ops : List O) (state : S) : Respects step (fun _ _ => True) ops state := by
  induction ops generalizing state with
  | nil => trivial
  | cons op ops ih => exact ⟨trivial, ih _⟩

/-- Forward simulation between machines that allow every operation. -/
theorem execute_refines (related : S → T → Prop)
    (refines : ∀ op state abstract, related state abstract →
      (step op state).1 = (spec op abstract).1 ∧ related (step op state).2 (spec op abstract).2)
    (ops : List O) {state : S} {abstract : T} (start : related state abstract) :
    (execute step ops state).1 = (execute spec ops abstract).1 ∧
      related (execute step ops state).2 (execute spec ops abstract).2 :=
  execute_simulates related (fun op state abstract _ => refines op state abstract) ops start
    (respects_true ops abstract)

/-! ## Two clients of one state -/

/-- One machine for the operations of two clients. -/
def either (left : O → S → R × S) (right : P → S → Q × S) : O ⊕ P → S → (R ⊕ Q) × S
  | .inl op, state => ((.inl (left op state).1), (left op state).2)
  | .inr op, state => ((.inr (right op state).1), (right op state).2)

/-- Operations of the right client keep a state indistinguishable for the left one, so the
left client gets the answers it would get alone. -/
theorem execute_undisturbed {left : O → S → R × S} {right : P → S → Q × S} (same : S → S → Prop)
    (blind : ∀ op state other, same state other →
      (left op state).1 = (left op other).1 ∧ same (left op state).2 (left op other).2)
    (quiet : ∀ op state other, same state other → same (right op state).2 other)
    (ops : List (O ⊕ P)) {state other : S} (start : same state other) :
    (execute (either left right) ops state).1.filterMap Sum.getLeft? =
        (execute left (ops.filterMap Sum.getLeft?) other).1 ∧
      same (execute (either left right) ops state).2
        (execute left (ops.filterMap Sum.getLeft?) other).2 := by
  induction ops generalizing state other with
  | nil => exact ⟨rfl, start⟩
  | cons op ops ih =>
    cases op with
    | inl op =>
      obtain ⟨answer, after⟩ := blind op state other start
      obtain ⟨answers, final⟩ := ih after
      refine ⟨?_, final⟩
      simp only [execute_cons, either, List.filterMap_cons, Sum.getLeft?_inl, answer, answers]
    | inr op =>
      obtain ⟨answers, final⟩ := ih (quiet op state other start)
      refine ⟨?_, final⟩
      simpa only [execute_cons, either, List.filterMap_cons, Sum.getLeft?_inr] using answers

/-! ## The operations of one kind -/

/-- The answers to the selected operations. -/
def answersTo (selected : O → Bool) (ops : List O) (results : List R) : List R :=
  ((ops.zip results).filter fun pair => selected pair.1).map (·.2)

/-- Operations that keep a state indistinguishable for the selected ones can be deleted: the selected
operations get the same answers. -/
theorem execute_selected (selected : O → Bool) (same : S → S → Prop)
    (blind : ∀ op, selected op = true → ∀ state other, same state other →
      (step op state).1 = (step op other).1 ∧ same (step op state).2 (step op other).2)
    (quiet : ∀ op, selected op = false → ∀ state other, same state other → same (step op state).2 other)
    (ops : List O) {state other : S} (start : same state other) :
    answersTo selected ops (execute step ops state).1 = (execute step (ops.filter selected) other).1 ∧
      same (execute step ops state).2 (execute step (ops.filter selected) other).2 := by
  induction ops generalizing state other with
  | nil => exact ⟨rfl, start⟩
  | cons op ops ih =>
    cases chosen : selected op with
    | true =>
      obtain ⟨answer, after⟩ := blind op chosen state other start
      obtain ⟨answers, final⟩ := ih after
      rw [List.filter_cons_of_pos chosen, execute_cons, execute_cons, answer, ← answers]
      exact ⟨by simp [answersTo, chosen], final⟩
    | false =>
      obtain ⟨answers, final⟩ := ih (quiet op chosen state other start)
      rw [List.filter_cons_of_neg (by simp [chosen]), execute_cons, ← answers]
      exact ⟨by simp [answersTo, chosen], final⟩

/-- What each answer is like, in any state. -/
theorem execute_each {holds : O → R → Prop} (each : ∀ op state, holds op (step op state).1) (ops : List O)
    (state : S) : ∀ entry ∈ ops.zip (execute step ops state).1, holds entry.1 entry.2 := by
  induction ops generalizing state with
  | nil => exact nofun
  | cons op ops ih =>
    intro entry member
    rw [execute_cons, List.zip_cons_cons] at member
    cases List.mem_cons.mp member with
    | inl first => exact first ▸ each op state
    | inr later => exact ih _ entry later

end Emblib.Machines

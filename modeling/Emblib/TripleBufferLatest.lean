import Mathlib.Algebra.Group.Nat.Even
import Emblib.TripleBuffer

/-! Which value a `load` of the triple buffer returns. Every `load` exchanges, so without a
`store` in between the reader gets the latest value and the one before it by turns: a
`load` returns the latest value if it is the first, third, ... since the last exchange
of the writer, and otherwise the value that the reader gave back for it. -/
namespace Emblib.TripleBufferLatest
open Runs Words TripleBuffer

/-- What the exchanges amount to: the last value stored, the value that the reader's buffer
held at that exchange, and the number of exchanges of the reader since. -/
structure History (I W : Type) where
  latest : I → W
  passed : I → W
  loads : Nat

def History.next (history : History I W) : Exchange I W → History I W
  | .store value => ⟨value, if Even history.loads then history.passed else history.latest, 0⟩
  | .load => { history with loads := history.loads + 1 }

def history (zero : I → W) (past : List (Exchange I W)) : History I W :=
  past.foldl History.next ⟨zero, zero, 0⟩

/-- The value of the last `store` that has exchanged, or the initial one. -/
def latest (zero : I → W) (past : List (Exchange I W)) : I → W := (history zero past).latest

/-- The value that the reader's buffer held when it did. -/
def passed (zero : I → W) (past : List (Exchange I W)) : I → W := (history zero past).passed

/-- The next exchange of a `load` is the first, third, ... since the last one of a `store`,
or there was none of a `store`. -/
def Fresh (zero : I → W) (past : List (Exchange I W)) : Prop :=
  Even (history zero past).loads ∨ ∀ value, .store value ∉ past

section History
variable {I W : Type} {zero : I → W} {past : List (Exchange I W)}

theorem history_snoc (exchange : Exchange I W) :
    history zero (past ++ [exchange]) = (history zero past).next exchange := by
  rw [history, List.foldl_append]
  rfl

/-- Each exchange of the reader swaps the latest value with the passed one. -/
theorem hands_history :
    hands zero past =
      if Even (history zero past).loads then ⟨passed zero past, latest zero past⟩
      else ⟨latest zero past, passed zero past⟩ := by
  unfold latest passed
  induction past using List.reverseRecOn with
  | nil => simp [hands, history]
  | append_singleton past exchange ih =>
    rw [hands_snoc, history_snoc, ih]
    cases exchange with
    | store value =>
      by_cases even : Even (history zero past).loads <;> simp [Hands.next, History.next, even]
    | load =>
      by_cases even : Even (history zero past).loads <;>
        simp [Hands.next, History.next, even, Nat.even_add_one]

/-- Before the first exchange of a `store` there is only the initial value. -/
theorem history_unstored (unstored : ∀ value, .store value ∉ past) :
    latest zero past = zero ∧ passed zero past = zero := by
  unfold latest passed
  induction past using List.reverseRecOn with
  | nil => exact ⟨rfl, rfl⟩
  | append_singleton past exchange ih =>
    have before := ih fun value member => unstored value (List.mem_append_left _ member)
    rw [history_snoc]
    cases exchange with
    | store value => exact absurd (by simp) (unstored value)
    | load => exact before

theorem offered_fresh (fresh : Fresh zero past) : (hands zero past).offered = latest zero past := by
  rw [hands_history]
  rcases fresh with even | unstored
  · rw [if_pos even]
  · obtain ⟨latestZero, passedZero⟩ := @history_unstored _ _ zero _ unstored
    split
    · rfl
    · rw [latestZero, passedZero]

theorem offered_stale (stale : ¬ Fresh zero past) : (hands zero past).offered = passed zero past := by
  have odd : ¬ Even (history zero past).loads := fun even => stale (.inl even)
  rw [hands_history, if_neg odd]

end History

section Loads
variable {I W : Type} {zero : I → W} {before during : List (Event I W)}

/-- Until its next exchange the reader holds the same value. -/
theorem hands_during (own : .loadExchange ∉ during) :
    (hands zero (exchanges (before ++ during))).held = (hands zero (exchanges before)).held := by
  induction during using List.reverseRecOn with
  | nil => rw [List.append_nil]
  | append_singleton during event ih =>
    have earlier := ih fun member => own (List.mem_append_left _ member)
    rw [← List.append_assoc]
    cases event with
    | loadExchange => exact absurd (by simp) own
    | storeExchange value =>
      rw [exchanges_store, hands_snoc]
      exact earlier
    | storeBegin value => rw [exchanges_quiet rfl, earlier]
    | storeWord word => rw [exchanges_quiet rfl, earlier]
    | storeAssign => rw [exchanges_quiet rfl, earlier]
    | loadAssign => rw [exchanges_quiet rfl, earlier]
    | loadWord word => rw [exchanges_quiet rfl, earlier]
    | loadReturn value => rw [exchanges_quiet rfl, earlier]

variable [DecidableEq I] [Fintype I]

/-- A `load` returns what was in the shared buffer at its exchange. -/
theorem load_returns_offered
    (run : Run Step (initial zero) (before ++ .loadExchange :: during ++ [.loadReturn value]) final)
    (own : .loadExchange ∉ during) : value = (hands zero (exchanges before)).offered := by
  obtain ⟨middle, ran, step⟩ := run_snoc run
  rw [returned_held (handoff_run ran) step]
  have split : before ++ .loadExchange :: during = before ++ [.loadExchange] ++ during := by simp
  rw [split, hands_during own, exchanges_load, hands_snoc]
  rfl

/-- **When a `load` returns the latest value.** The value is the one of the last `store`
whose exchange came before the `load`'s if and only if the `load` is fresh or the value
passed over happens to be the same; otherwise it is the value passed over. -/
theorem load_returns_latest_iff
    (run : Run Step (initial zero) (before ++ .loadExchange :: during ++ [.loadReturn value]) final)
    (own : .loadExchange ∉ during) :
    (value = latest zero (exchanges before) ↔
        Fresh zero (exchanges before) ∨
          passed zero (exchanges before) = latest zero (exchanges before)) ∧
      (¬ Fresh zero (exchanges before) → value = passed zero (exchanges before)) := by
  have offered := load_returns_offered run own
  by_cases fresh : Fresh zero (exchanges before)
  · rw [offered_fresh fresh] at offered
    exact ⟨⟨fun _ => .inl fresh, fun _ => offered⟩, fun stale => absurd fresh stale⟩
  · rw [offered_stale fresh] at offered
    rw [offered]
    exact ⟨⟨.inr, fun either => either.resolve_left fresh⟩, fun _ => rfl⟩

end Loads

/-- A `store` of 1 over 0, a `load` that returns `first`, and then the next `load` until it
returns. -/
def testingTrace (first : Unit → UInt8) : List (Event Unit UInt8) :=
  [.storeBegin fun _ => 1, .storeWord (), .storeExchange fun _ => 1, .storeAssign,
    .loadExchange, .loadAssign, .loadWord (), .loadReturn first]

theorem testing_loads :
    ∃ first second state,
      Run Step (initial fun _ => 0) (testingTrace first ++
        .loadExchange :: [.loadAssign, .loadWord ()] ++ [.loadReturn second]) state ∧
      first () = 1 ∧ second () = 0 := by
  have store : Run Step (initial fun _ : Unit => (0 : UInt8))
      [.storeBegin fun _ => 1, .storeWord (), .storeExchange fun _ => 1, .storeAssign] _ :=
    .snoc (.snoc (.snoc (.snoc .nil (.storeBegin rfl)) (.storeWord rfl (Finset.mem_univ ())))
      (.storeExchange rfl)) (.storeAssign rfl)
  have load := Run.snoc (.snoc (.snoc (.snoc store (.loadExchange rfl)) (.loadAssign rfl fun _ => 0))
    (.loadWord rfl (Finset.mem_univ ()))) (.loadReturn rfl)
  have again := Run.snoc (.snoc (.snoc (.snoc load (.loadExchange rfl)) (.loadAssign rfl fun _ => 0))
    (.loadWord rfl (Finset.mem_univ ()))) (.loadReturn rfl)
  exact ⟨_, _, _, again, rfl, rfl⟩

theorem load_returns_latest_iff_testing :
    ∃ first second state,
      Run Step (initial fun _ => 0) (testingTrace first ++
        .loadExchange :: [.loadAssign, .loadWord ()] ++ [.loadReturn second]) state ∧
      (second = latest (fun _ => 0) (exchanges (testingTrace first)) ↔
        Fresh (fun _ => 0) (exchanges (testingTrace first)) ∨
          passed (fun _ => 0) (exchanges (testingTrace first)) =
            latest (fun _ => 0) (exchanges (testingTrace first))) ∧
      (¬ Fresh (fun _ => 0) (exchanges (testingTrace first)) →
        second = passed (fun _ => 0) (exchanges (testingTrace first))) := by
  obtain ⟨first, second, state, run, _, _⟩ := testing_loads
  exact ⟨first, second, state, run, load_returns_latest_iff run (by simp)⟩

/-- The second of two `load`s after a `store` does not return the value stored. -/
theorem repeated_load_is_stale :
    ∃ first second state,
      Run Step (initial fun _ => 0) (testingTrace first ++
        .loadExchange :: [.loadAssign, .loadWord ()] ++ [.loadReturn second]) state ∧
      latest (fun _ => 0) (exchanges (testingTrace first)) () = 1 ∧ first () = 1 ∧ second () = 0 := by
  obtain ⟨first, second, state, run, firstOne, secondZero⟩ := testing_loads
  exact ⟨first, second, state, run, rfl, firstOne, secondZero⟩

end Emblib.TripleBufferLatest

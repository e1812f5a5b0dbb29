import Emblib.Seqlock

/-! Loads of the sequence locks are atomic. From its look at an even counter on, a reader
has copied words of the value committed then, unless a call of the writer has begun. A
second look at an equal counter rules that out: as long as fewer than half of the counter's
values are used up during the load, no call has completed in between, and none is under
way, since the counter would be odd. -/
namespace Emblib.SeqlockLoads
open Runs Words Seqlock

/-- What a reader has copied since the calls `past` were completed: an even counter was
seen at some instant, and the words are those of the value committed then, unless the
writer has disturbed it since. -/
def Watched {w : Nat} {R I W : Type} (kind : Kind) (zero : I → W) (past : List (Job I W))
    (during : List (Event R I W)) (reader : R) (state : State w R I W) : Prop :=
  ∀ s1 snapshot left, state.readers reader = .copying s1 snapshot left →
    (kind = .seqlock → ¬ IsOdd s1) ∧
      (¬ IsOdd s1 → ∃ early late, during = early ++ late ∧
        s1 = BitVec.ofNat w (2 * (past ++ commits early).length) ∧
        (commits late = [] → ¬ Inside state →
          Copied left (committed zero (past ++ commits early)) snapshot))

section Loads
variable {w : Nat} {R I W : Type} [DecidableEq R] [DecidableEq I] [Fintype I] {kind : Kind}
  {zero : I → W} {past : List (Job I W)} {before during : List (Event R I W)} {reader : R}
  {state after : State w R I W} {event : Event R I W}

theorem watched_step (positive : 0 < w) (guarded : Guarded zero (past ++ commits during) state)
    (watched : Watched kind zero past during reader state) (step : Step kind state event after) :
    Watched kind zero past (during ++ [event]) reader after := by
  intro s1 snapshot left copying
  rcases reader_step step reader with same | ⟨junk, sampled, quiet, even⟩ |
    ⟨_, _, _, word, before, copied, quiet⟩ | gone
  · obtain ⟨parity, seen⟩ := watched s1 snapshot left (same ▸ copying)
    refine ⟨parity, fun even => ?_⟩
    obtain ⟨early, late, split, counter, undisturbed⟩ := seen even
    refine ⟨early, late ++ [event], by rw [split, List.append_assoc], counter, ?_⟩
    intro none outside
    rw [commits_append] at none
    obtain ⟨noneLate, noneNow⟩ := List.append_eq_nil_iff.mp none
    have quiet : event.committed = Option.none := by simpa [commits] using noneNow
    exact undisturbed noneLate (outside_step step quiet outside).1
  · -- the counter is looked at: it is even, so the writer is outside
    rw [sampled] at copying
    cases copying
    refine ⟨even, fun even => ⟨during ++ [event], [], by simp, ?_, fun _ _ => copied_univ⟩⟩
    have outside : ¬ Inside state := by
      intro inside
      apply even
      rw [guarded_inside guarded inside, odd_ofNat positive]
      omega
    rw [commits_quiet quiet]
    exact (guarded_outside guarded outside).1
  · rw [copied] at copying
    cases copying
    obtain ⟨parity, seen⟩ := watched _ _ _ before
    refine ⟨parity, fun even => ?_⟩
    obtain ⟨early, late, split, counter, undisturbed⟩ := seen even
    refine ⟨early, late ++ [event], by rw [split, List.append_assoc], counter, ?_⟩
    intro none outside
    rw [commits_quiet quiet] at none
    have outsideBefore := (outside_step step quiet outside).1
    have value := (guarded_outside guarded outsideBefore).2
    rw [split, commits_append, none, List.append_nil] at value
    rw [value]
    exact copied_erase (undisturbed none outsideBefore) word
  · exact absurd copying (gone s1 snapshot left)

/-- A load that has begun is watched in every state that follows. -/
theorem watched_run (positive : 0 < w)
    (start : Run (Step kind) (initial zero) before state) (idle : state.readers reader = .looping)
    (run : Run (Step kind) state during after) :
    Guarded zero (commits before ++ commits during) after ∧
      Watched kind zero (commits before) during reader after := by
  refine run_invariant (fun during after => Guarded zero (commits before ++ commits during) after ∧
    Watched kind zero (commits before) during reader after) run ⟨?_, ?_⟩ ?_
  · simpa [commits] using guarded_run start
  · intro s1 snapshot left copying
    rw [idle] at copying
    cases copying
  · rintro during middle event after ran ⟨guarded, watched⟩ step
    refine ⟨?_, watched_step positive guarded watched step⟩
    have whole := guarded_run (run_append start (.snoc ran step))
    rw [commits_append] at whole
    exact whole

/-- **Loads are atomic.** If fewer than `2 ^ (w - 1)` calls of the writer complete between
the beginning of a `load` and its return, then the value returned is the one that was
committed at some instant in between. -/
theorem load_is_atomic (positive : 0 < w)
    (run : Run (Step kind) (initial zero : State w R I W)
      (before ++ .loadBegin reader :: during ++ [.loadReturn reader value]) final)
    (few : (commits during).length < 2 ^ (w - 1)) :
    ∃ early late, during = early ++ late ∧
      value = committed zero (commits (before ++ .loadBegin reader :: early)) := by
  obtain ⟨middle, ran, last⟩ := run_snoc run
  have reassociated : before ++ .loadBegin reader :: during =
      before ++ [.loadBegin reader] ++ during := by simp
  rw [reassociated] at ran
  obtain ⟨begun, start, rest⟩ := run_split ran
  have looping : begun.readers reader = .looping := by
    obtain ⟨_, _, begin⟩ := run_snoc start
    cases begin with
    | loadBegin _ idle => exact Function.update_self _ _ _
  obtain ⟨guarded, watched⟩ := watched_run positive start looping rest
  cases last with
  | loadReturn _ copied unchanged =>
    obtain ⟨rfl, checked⟩ := unchanged
    obtain ⟨parity, seen⟩ := watched _ _ _ copied
    have even : ¬ IsOdd middle.seq := by
      cases kind with
      | seqlock => exact parity rfl
      | isrSeqlock => exact checked rfl
    obtain ⟨early, late, split, counter, undisturbed⟩ := seen even
    -- an even counter means that no call is under way
    have outside : ¬ Inside middle := by
      intro inside
      apply even
      rw [guarded_inside guarded inside, odd_ofNat positive]
      omega
    have total : (commits during).length = (commits early).length + (commits late).length := by
      rw [split, commits_append, List.length_append]
    have counterNow := (guarded_outside guarded outside).1
    rw [counter, List.length_append, List.length_append] at counterNow
    -- and an equal one that none has completed since it was seen first
    have equal := count_eq positive counterNow (by omega) (by omega)
    have none : commits late = [] := List.eq_nil_of_length_eq_zero (by omega)
    refine ⟨early, late, split, ?_⟩
    have prefixed : before ++ .loadBegin reader :: early = before ++ [.loadBegin reader] ++ early := by
      simp
    rw [prefixed, commits_append]
    exact copied_empty (undisturbed none outside)

end Loads

/-- A `load` that copies while an `update` runs, and so looks and copies again. -/
def testingDuring : List (Event Unit Unit UInt8) :=
  [.writeBegin (.update fun value word => value word + 1), .sample (), .mark, .readWord (), .call,
    .writeWord (), .loadWord () (), .commit (.update fun value word => value word + 1), .retry (),
    .sample (), .loadWord () ()]

theorem load_is_atomic_testing :
    ∃ value final,
      Run (Step .seqlock) (initial (fun _ => 7) : State 2 Unit Unit UInt8)
        ([] ++ .loadBegin () :: testingDuring ++ [.loadReturn () value]) final ∧
      ∃ early late, testingDuring = early ++ late ∧
        value = committed (fun _ => 7) (commits ([] ++ .loadBegin () :: early)) := by
  have sampled : Run (Step .seqlock) (initial (fun _ => 7) : State 2 Unit Unit UInt8)
      [.loadBegin (), .writeBegin (.update fun value word => value word + 1), .sample ()] _ :=
    .snoc (.snoc (.snoc .nil (.loadBegin () rfl)) (.writeBegin rfl))
      (.sample () rfl (fun _ => by decide) fun _ => 0)
  have called := Run.snoc (.snoc (.snoc sampled (.markUpdate rfl fun _ => 0))
    (.readWord rfl (Finset.mem_univ ()))) (.call rfl)
  have copied := Run.snoc (.snoc called (.writeWord rfl (Finset.mem_univ ())))
    (.loadWord () () rfl (Finset.mem_univ ()))
  have retried := Run.snoc (.snoc copied (.commit rfl))
    (.retry () rfl fun accepts => absurd accepts.1 (by decide))
  have again := Run.snoc (.snoc retried (.sample () rfl (fun _ => by decide) fun _ => 0))
    (.loadWord () () rfl (Finset.mem_univ ()))
  have returned := Run.snoc again (.loadReturn () rfl ⟨rfl, fun other => nomatch other⟩)
  exact ⟨_, _, returned, load_is_atomic (by decide) returned (by decide)⟩

end Emblib.SeqlockLoads

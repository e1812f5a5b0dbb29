import Emblib.Library.Counter
import Emblib.Library.Run
import Emblib.Library.Words

/-! The sequence locks `seqlock` and `isr_seqlock`, with the steps of one writer and any
number of readers in any order. The writer makes the counter odd, changes the value word
by word and makes the counter even again; a reader copies the value between two looks at
the counter. The classes differ in when they look at the parity, not in what they return. -/
namespace Emblib.Seqlock
open Runs Words

inductive Kind where
  | seqlock
  | isrSeqlock
  deriving DecidableEq

/-- A call of the writer. -/
inductive Job (I W : Type) where
  | store (desired : I → W)
  | update (f : (I → W) → I → W)

/-- What a call makes of the current value. -/
def Job.result : Job I W → (I → W) → I → W
  | .store desired, _ => desired
  | .update f, value => f value

/-- Where the writer is in its call; `s` is the local copy of the counter. `update` reads
the value before it calls `f`, which nobody else can change meanwhile. -/
inductive Writer (w : Nat) (I W : Type) where
  | idle
  | loaded (job : Job I W) (s : BitVec w)
  | reading (f : (I → W) → I → W) (s : BitVec w) (snapshot : I → W) (left : Finset I)
  | writing (job : Job I W) (s : BitVec w) (desired : I → W) (left : Finset I)

/-- Where a reader is in `load`. -/
inductive Reader (w : Nat) (I W : Type) where
  | idle
  | looping
  | copying (s1 : BitVec w) (snapshot : I → W) (left : Finset I)

structure State (w : Nat) (R I W : Type) where
  seq : BitVec w
  value : I → W
  writer : Writer w I W
  readers : R → Reader w I W

def initial (zero : I → W) : State w R I W where
  seq := 0
  value := zero
  writer := .idle
  readers := fun _ => .idle

/-- `s & 1`. -/
def IsOdd (s : BitVec w) : Prop := s &&& 1#w ≠ 0#w

instance (s : BitVec w) : Decidable (IsOdd s) := inferInstanceAs (Decidable (_ ≠ _))

inductive Event (R I W : Type) where
  | writeBegin (job : Job I W)
  | mark
  | readWord (word : I)
  | call
  | writeWord (word : I)
  | commit (job : Job I W)
  | loadBegin (reader : R)
  | sample (reader : R)
  | spin (reader : R)
  | loadWord (reader : R) (word : I)
  | retry (reader : R)
  | loadReturn (reader : R) (value : I → W)

/-- `load` returns if the counter has not changed; `isr_seqlock` checks the parity here,
`seqlock` has done so before it copied. -/
def Accepts (kind : Kind) (s1 s2 : BitVec w) : Prop := s1 = s2 ∧ (kind = .isrSeqlock → ¬ IsOdd s1)

inductive Step {w : Nat} {R I W : Type} [DecidableEq R] [DecidableEq I] [Fintype I] (kind : Kind) :
    State w R I W → Event R I W → State w R I W → Prop where
  | writeBegin (idle : state.writer = .idle) :
      Step kind state (.writeBegin job) { state with writer := .loaded job state.seq }
  | markStore (loaded : state.writer = .loaded (.store desired) s) :
      Step kind state .mark
        { state with seq := s + 1#w, writer := .writing (.store desired) s desired Finset.univ }
  | markUpdate (loaded : state.writer = .loaded (.update f) s) (junk : I → W) :
      Step kind state .mark
        { state with seq := s + 1#w, writer := .reading f s junk Finset.univ }
  | readWord (reading : state.writer = .reading f s snapshot left) (member : word ∈ left) :
      Step kind state (.readWord word)
        { state with
          writer := .reading f s (Function.update snapshot word (state.value word)) (left.erase word) }
  | call (read : state.writer = .reading f s snapshot ∅) :
      Step kind state .call
        { state with writer := .writing (.update f) s (f snapshot) Finset.univ }
  | writeWord (writing : state.writer = .writing job s desired left) (member : word ∈ left) :
      Step kind state (.writeWord word)
        { state with
          value := Function.update state.value word (desired word)
          writer := .writing job s desired (left.erase word) }
  | commit (written : state.writer = .writing job s desired ∅) :
      Step kind state (.commit job) { state with seq := s + 2#w, writer := .idle }
  | loadBegin (reader : R) (idle : state.readers reader = .idle) :
      Step kind state (.loadBegin reader)
        { state with readers := Function.update state.readers reader .looping }
  | sample (reader : R) (looping : state.readers reader = .looping)
      (even : kind = .seqlock → ¬ IsOdd state.seq) (junk : I → W) :
      Step kind state (.sample reader)
        { state with
          readers := Function.update state.readers reader (.copying state.seq junk Finset.univ) }
  | spin (reader : R) (looping : state.readers reader = .looping) (odd : kind = .seqlock ∧ IsOdd state.seq) :
      Step kind state (.spin reader) state
  | loadWord (reader : R) (word : I) (copying : state.readers reader = .copying s1 snapshot left)
      (member : word ∈ left) :
      Step kind state (.loadWord reader word)
        { state with
          readers := Function.update state.readers reader
            (.copying s1 (Function.update snapshot word (state.value word)) (left.erase word)) }
  | retry (reader : R) (copied : state.readers reader = .copying s1 snapshot ∅)
      (changed : ¬ Accepts kind s1 state.seq) :
      Step kind state (.retry reader)
        { state with readers := Function.update state.readers reader .looping }
  | loadReturn (reader : R) (copied : state.readers reader = .copying s1 snapshot ∅)
      (unchanged : Accepts kind s1 state.seq) :
      Step kind state (.loadReturn reader snapshot)
        { state with readers := Function.update state.readers reader .idle }

/-! ## Committed values -/

variable {w : Nat} {R I W : Type}

def Event.committed : Event R I W → Option (Job I W)
  | .commit job => some job
  | _ => none

/-- The calls of the writer that have completed, in order. -/
def commits (trace : List (Event R I W)) : List (Job I W) := trace.filterMap Event.committed

/-- The committed value after these calls. -/
def committed (zero : I → W) (jobs : List (Job I W)) : I → W :=
  jobs.foldl (fun value job => job.result value) zero

theorem commits_append (first second : List (Event R I W)) :
    commits (first ++ second) = commits first ++ commits second := List.filterMap_append

theorem commits_quiet {event : Event R I W} (quiet : event.committed = none) :
    commits (trace ++ [event]) = commits trace := by
  simp [commits, quiet]

theorem commits_commit (trace : List (Event R I W)) (job : Job I W) :
    commits (trace ++ [.commit job]) = commits trace ++ [job] := by
  simp [commits, Event.committed]

theorem committed_snoc (zero : I → W) (jobs : List (Job I W)) (job : Job I W) :
    committed zero (jobs ++ [job]) = job.result (committed zero jobs) := by
  rw [committed, List.foldl_append]
  rfl

/-! ## The counter -/

theorem odd_iff (positive : 0 < w) (s : BitVec w) : IsOdd s ↔ s.toNat % 2 = 1 := by
  have one : (1#w).toNat = 1 := by
    rw [BitVec.toNat_ofNat]
    exact Nat.mod_eq_of_lt (Nat.one_lt_two_pow (by omega))
  have low : (s &&& 1#w).toNat = s.toNat % 2 := by
    rw [BitVec.toNat_and, one, Nat.and_one_is_mod]
  unfold IsOdd
  rw [← BitVec.toNat_inj.ne, low]
  simp

theorem two_pow_pred (positive : 0 < w) : 2 ^ w = 2 * 2 ^ (w - 1) := by
  obtain ⟨bits, rfl⟩ : ∃ bits, w = bits + 1 := ⟨w - 1, by omega⟩
  rw [Nat.add_sub_cancel, Nat.pow_succ']

theorem odd_ofNat (positive : 0 < w) (count : Nat) : IsOdd (BitVec.ofNat w count) ↔ count % 2 = 1 := by
  have divides : 2 ∣ 2 ^ w := ⟨_, two_pow_pred positive⟩
  rw [odd_iff positive, BitVec.toNat_ofNat, Nat.mod_mod_of_dvd _ divides]

/-- Counters that are equal and close enough are the same count. -/
theorem count_eq (positive : 0 < w) (same : BitVec.ofNat w (2 * first) = BitVec.ofNat w (2 * second))
    (le : first ≤ second) (close : second - first < 2 ^ (w - 1)) : first = second := by
  have pow := two_pow_pred positive
  have doubled := Counters.ofNat_close same (by omega) (by omega)
  omega

/-! ## The writer -/

/-- The writer is between its two changes of the counter. -/
def Inside (state : State w R I W) : Prop :=
  match state.writer with
  | .reading .. => True
  | .writing .. => True
  | _ => False

/-- What the writer guarantees after the calls that have completed. -/
def Guarded (zero : I → W) (jobs : List (Job I W)) (state : State w R I W) : Prop :=
  match state.writer with
  | .idle => state.seq = BitVec.ofNat w (2 * jobs.length) ∧ state.value = committed zero jobs
  | .loaded _ s =>
    s = state.seq ∧ state.seq = BitVec.ofNat w (2 * jobs.length) ∧ state.value = committed zero jobs
  | .reading _ s snapshot left =>
    s = BitVec.ofNat w (2 * jobs.length) ∧ state.seq = s + 1#w ∧
      state.value = committed zero jobs ∧ Copied left (committed zero jobs) snapshot
  | .writing job s desired left =>
    s = BitVec.ofNat w (2 * jobs.length) ∧ state.seq = s + 1#w ∧
      desired = job.result (committed zero jobs) ∧ Copied left desired state.value

section Writer
variable {zero : I → W} {jobs : List (Job I W)} {state : State w R I W}

theorem guarded_initial : Guarded zero [] (initial zero : State w R I W) := ⟨rfl, rfl⟩

/-- Outside, the counter is even and the value is the committed one. -/
theorem guarded_outside (guarded : Guarded zero jobs state) (outside : ¬ Inside state) :
    state.seq = BitVec.ofNat w (2 * jobs.length) ∧ state.value = committed zero jobs := by
  unfold Guarded at guarded
  unfold Inside at outside
  cases writer : state.writer with
  | idle => simpa [writer] using guarded
  | loaded job s =>
    simp only [writer] at guarded
    exact guarded.2
  | reading f s snapshot left => simp [writer] at outside
  | writing job s desired left => simp [writer] at outside

/-- Inside, the counter is odd. -/
theorem guarded_inside (guarded : Guarded zero jobs state) (inside : Inside state) :
    state.seq = BitVec.ofNat w (2 * jobs.length + 1) := by
  unfold Guarded at guarded
  unfold Inside at inside
  cases writer : state.writer with
  | idle => simp [writer] at inside
  | loaded job s => simp [writer] at inside
  | reading f s snapshot left =>
    simp only [writer] at guarded
    rw [guarded.2.1, guarded.1, BitVec.ofNat_add]
  | writing job s desired left =>
    simp only [writer] at guarded
    rw [guarded.2.1, guarded.1, BitVec.ofNat_add]

end Writer

section Steps
variable [DecidableEq R] [DecidableEq I] [Fintype I] {kind : Kind} {zero : I → W}
  {trace : List (Event R I W)} {state after : State w R I W} {event : Event R I W}

theorem guarded_step (guarded : Guarded zero (commits trace) state) (step : Step kind state event after) :
    Guarded zero (commits (trace ++ [event])) after := by
  cases step with
  | writeBegin idle =>
    rw [commits_quiet rfl]
    simp only [Guarded, idle] at guarded
    exact ⟨rfl, guarded⟩
  | markStore loaded =>
    rw [commits_quiet rfl]
    simp only [Guarded, loaded] at guarded
    exact ⟨guarded.1.trans guarded.2.1, rfl, rfl, copied_univ⟩
  | markUpdate loaded junk =>
    rw [commits_quiet rfl]
    simp only [Guarded, loaded] at guarded
    exact ⟨guarded.1.trans guarded.2.1, rfl, guarded.2.2, copied_univ⟩
  | readWord reading member =>
    rw [commits_quiet rfl]
    simp only [Guarded, reading] at guarded
    obtain ⟨counter, marked, value, copied⟩ := guarded
    refine ⟨counter, marked, value, ?_⟩
    rw [value]
    exact copied_erase copied _
  | call read =>
    rw [commits_quiet rfl]
    simp only [Guarded, read] at guarded
    obtain ⟨counter, marked, value, copied⟩ := guarded
    exact ⟨counter, marked, congrArg _ (copied_empty copied), copied_univ⟩
  | writeWord writing member =>
    rw [commits_quiet rfl]
    simp only [Guarded, writing] at guarded
    obtain ⟨counter, marked, desired, copied⟩ := guarded
    exact ⟨counter, marked, desired, copied_erase copied _⟩
  | commit written =>
    simp only [Guarded, written] at guarded
    obtain ⟨counter, _, desired, copied⟩ := guarded
    rw [commits_commit]
    refine ⟨?_, ?_⟩
    · rw [counter, List.length_append, List.length_singleton, Nat.mul_add, BitVec.ofNat_add]
    · rw [committed_snoc, ← desired]
      exact copied_empty copied
  | loadBegin reader idle =>
    rw [commits_quiet rfl]
    exact guarded
  | sample reader looping even junk =>
    rw [commits_quiet rfl]
    exact guarded
  | spin reader looping odd =>
    rw [commits_quiet rfl]
    exact guarded
  | loadWord reader word copying member =>
    rw [commits_quiet rfl]
    exact guarded
  | retry reader copied changed =>
    rw [commits_quiet rfl]
    exact guarded
  | loadReturn reader copied unchanged =>
    rw [commits_quiet rfl]
    exact guarded

theorem guarded_run (run : Run (Step kind) (initial zero) trace state) :
    Guarded zero (commits trace) state :=
  run_invariant (fun trace state => Guarded zero (commits trace) state) run guarded_initial
    fun _ _ _ _ _ guarded step => guarded_step guarded step

/-- A step that ends outside and does not commit starts outside, with the same value. -/
theorem outside_step (step : Step kind state event after) (quiet : event.committed = none)
    (outside : ¬ Inside after) : ¬ Inside state ∧ after.value = state.value := by
  cases step with
  | writeBegin idle => exact ⟨by simp [Inside, idle], rfl⟩
  | markStore loaded => exact absurd trivial outside
  | markUpdate loaded junk => exact absurd trivial outside
  | readWord reading member => exact absurd trivial outside
  | call read => exact absurd trivial outside
  | writeWord writing member => exact absurd trivial outside
  | commit written => cases quiet
  | loadBegin reader idle => exact ⟨outside, rfl⟩
  | sample reader looping even junk => exact ⟨outside, rfl⟩
  | spin reader looping odd => exact ⟨outside, rfl⟩
  | loadWord reader word copying member => exact ⟨outside, rfl⟩
  | retry reader copied changed => exact ⟨outside, rfl⟩
  | loadReturn reader copied unchanged => exact ⟨outside, rfl⟩

/-- What a step can do to one reader: nothing, a look at the counter before it copies, one
word copied, or it is not copying afterwards. -/
theorem reader_step (step : Step kind state event after) (reader : R) :
    after.readers reader = state.readers reader ∨
      (∃ junk, after.readers reader = .copying state.seq junk Finset.univ ∧
        event.committed = none ∧ (kind = .seqlock → ¬ IsOdd state.seq)) ∨
      (∃ s1 snapshot left word, state.readers reader = .copying s1 snapshot left ∧
        after.readers reader =
          .copying s1 (Function.update snapshot word (state.value word)) (left.erase word) ∧
        event.committed = none) ∨
      ∀ s1 snapshot left, after.readers reader ≠ .copying s1 snapshot left := by
  have other (next : Reader w I W) (moved : R) (different : reader ≠ moved) :
      Function.update state.readers moved next reader = state.readers reader :=
    Function.update_of_ne different _ _
  cases step with
  | writeBegin idle => exact .inl rfl
  | markStore loaded => exact .inl rfl
  | markUpdate loaded junk => exact .inl rfl
  | readWord reading member => exact .inl rfl
  | call read => exact .inl rfl
  | writeWord writing member => exact .inl rfl
  | commit written => exact .inl rfl
  | spin moved looping odd => exact .inl rfl
  | loadBegin moved idle =>
    by_cases same : reader = moved
    · subst same
      exact .inr (.inr (.inr (by simp)))
    · exact .inl (other _ _ same)
  | sample moved looping even junk =>
    by_cases same : reader = moved
    · subst same
      exact .inr (.inl ⟨junk, Function.update_self _ _ _, rfl, even⟩)
    · exact .inl (other _ _ same)
  | loadWord moved word copying member =>
    by_cases same : reader = moved
    · subst same
      exact .inr (.inr (.inl ⟨_, _, _, word, copying, Function.update_self _ _ _, rfl⟩))
    · exact .inl (other _ _ same)
  | retry moved copied changed =>
    by_cases same : reader = moved
    · subst same
      exact .inr (.inr (.inr (by simp)))
    · exact .inl (other _ _ same)
  | loadReturn moved copied unchanged =>
    by_cases same : reader = moved
    · subst same
      exact .inr (.inr (.inr (by simp)))
    · exact .inl (other _ _ same)

end Steps
end Emblib.Seqlock

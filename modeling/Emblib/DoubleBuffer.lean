import Emblib.Library.Run
import Emblib.Library.Words

/-! The double buffer with the steps of one writer and any number of readers in any order. The
writer fills the buffer that is not in front and then puts it in front; a reader looks which one is
in front and copies it. After one commit the buffer that a load still copies is the back buffer,
and nothing keeps the next store from it: it is the words that the load has not yet copied, not
the number of commits, that decide whether the load is torn. -/
namespace Emblib.DoubleBuffer
open Runs Words

/-- Where the writer is in `store`. Only the writer changes `front_`, so it may as well look at it
when the call begins. -/
inductive Writer (I W : Type) where
  | idle
  | writing (back : UInt8) (desired : I → W) (left : Finset I)

/-- Where a reader is in `load`. -/
inductive Reader (I W : Type) where
  | idle
  | called
  | copying (front : UInt8) (snapshot : I → W) (left : Finset I)

structure State (R I W : Type) where
  buf : UInt8 → I → W
  front : UInt8
  writer : Writer I W
  readers : R → Reader I W

def initial (zero : I → W) : State R I W where
  buf := fun _ => zero
  front := 0
  writer := .idle
  readers := fun _ => .idle

inductive Event (R I W : Type) where
  | storeBegin (desired : I → W)
  | writeWord (word : I)
  | commit (desired : I → W)
  | loadBegin (reader : R)
  | sample (reader : R)
  | loadWord (reader : R) (word : I)
  | loadReturn (reader : R) (value : I → W)

inductive Step {R I W : Type} [DecidableEq R] [DecidableEq I] [Fintype I] :
    State R I W → Event R I W → State R I W → Prop where
  | storeBegin (idle : state.writer = .idle) :
      Step state (.storeBegin desired)
        { state with writer := .writing (1 - state.front) desired Finset.univ }
  | writeWord (writing : state.writer = .writing back desired left) (member : word ∈ left) :
      Step state (.writeWord word)
        { state with
          buf := Function.update state.buf back
            (Function.update (state.buf back) word (desired word))
          writer := .writing back desired (left.erase word) }
  | commit (written : state.writer = .writing back desired ∅) :
      Step state (.commit desired) { state with front := back, writer := .idle }
  | loadBegin (reader : R) (idle : state.readers reader = .idle) :
      Step state (.loadBegin reader)
        { state with readers := Function.update state.readers reader .called }
  | sample (reader : R) (called : state.readers reader = .called) (junk : I → W) :
      Step state (.sample reader)
        { state with
          readers := Function.update state.readers reader
            (.copying state.front junk Finset.univ) }
  | loadWord (reader : R) (word : I) (copying : state.readers reader = .copying front snapshot left)
      (member : word ∈ left) :
      Step state (.loadWord reader word)
        { state with
          readers := Function.update state.readers reader
            (.copying front (Function.update snapshot word (state.buf front word))
              (left.erase word)) }
  | loadReturn (reader : R) (copied : state.readers reader = .copying front snapshot ∅) :
      Step state (.loadReturn reader snapshot)
        { state with readers := Function.update state.readers reader .idle }

/-! ## Committed values -/

variable {R I W : Type}

def Event.committed : Event R I W → Option (I → W)
  | .commit desired => some desired
  | _ => none

/-- The values that the writer has put in front, in order. -/
def commits (trace : List (Event R I W)) : List (I → W) := trace.filterMap Event.committed

/-- The value in front after these commits. -/
def committed (zero : I → W) (values : List (I → W)) : I → W := values.getLastD zero

theorem commits_append (first second : List (Event R I W)) :
    commits (first ++ second) = commits first ++ commits second := List.filterMap_append

theorem commits_quiet {event : Event R I W} (quiet : event.committed = none) :
    commits (trace ++ [event]) = commits trace := by
  rw [commits_append, commits, commits, List.filterMap_cons_none quiet, List.filterMap_nil,
    List.append_nil]

theorem commits_commit (trace : List (Event R I W)) (desired : I → W) :
    commits (trace ++ [.commit desired]) = commits trace ++ [desired] := commits_append _ _

theorem committed_snoc (zero : I → W) (values : List (I → W)) (desired : I → W) :
    committed zero (values ++ [desired]) = desired := List.getLastD_concat

theorem committed_mem (zero : I → W) (values : List (I → W)) :
    committed zero values = zero ∨ committed zero values ∈ values :=
  List.mem_cons.mp List.getLastD_mem_cons

/-- The load that began after the events `before` returned in full the value that was in front at
some instant of it. -/
def Atomic (zero : I → W) (before during : List (Event R I W)) (reader : R) (value : I → W) : Prop :=
  ∃ early late, during = early ++ late ∧
    value = committed zero (commits (before ++ .loadBegin reader :: early))

theorem atomic_mem {zero : I → W} {before during : List (Event R I W)} {reader : R} {value : I → W}
    (atomic : Atomic zero before during reader value) :
    value = zero ∨ value ∈ commits (before ++ .loadBegin reader :: during) := by
  obtain ⟨early, late, split, rfl⟩ := atomic
  apply (committed_mem zero (commits (before ++ .loadBegin reader :: early))).imp_right
  intro member
  rw [split, ← List.cons_append, ← List.append_assoc, commits_append]
  exact List.mem_append_left _ member

/-! ## The writer -/

/-- What the writer keeps: it works on the back buffer, and the value that it puts in front is one
that was passed to `store`. -/
structure Guarded (zero : I → W) (trace : List (Event R I W)) (state : State R I W) : Prop where
  index : state.front = 0 ∨ state.front = 1
  front : state.buf state.front = committed zero (commits trace)
  writing : state.writer = .writing back desired left →
    back = 1 - state.front ∧ Copied left desired (state.buf back) ∧ .storeBegin desired ∈ trace
  stored : ∀ value ∈ commits trace, .storeBegin value ∈ trace

theorem guarded_initial (zero : I → W) : Guarded zero [] (initial zero : State R I W) where
  index := .inl rfl
  front := rfl
  writing := nofun
  stored := nofun

/-- The two buffers. -/
theorem back_ne_front {front : UInt8} (index : front = 0 ∨ front = 1) : 1 - front ≠ front := by
  rcases index with rfl | rfl <;> decide

theorem index_back {front : UInt8} (index : front = 0 ∨ front = 1) :
    1 - front = 0 ∨ 1 - front = 1 := by
  rcases index with rfl | rfl <;> decide

section Steps
variable {zero : I → W} {past : List (I → W)} {trace before during : List (Event R I W)}
  {state after : State R I W} {event : Event R I W} {reader : R}

/-- A step that leaves the buffers and the writer alone. -/
theorem guarded_other (guarded : Guarded zero trace state) (buf : after.buf = state.buf)
    (front : after.front = state.front) (writer : after.writer = state.writer)
    (quiet : event.committed = none) : Guarded zero (trace ++ [event]) after where
  index := by
    rw [front]
    exact guarded.index
  front := by
    rw [commits_quiet quiet, buf, front]
    exact guarded.front
  writing writing := by
    rw [writer] at writing
    obtain ⟨back, copied, begun⟩ := guarded.writing writing
    rw [buf, front]
    exact ⟨back, copied, List.mem_append_left _ begun⟩
  stored value member := by
    rw [commits_quiet quiet] at member
    exact List.mem_append_left _ (guarded.stored value member)

variable [DecidableEq R] [DecidableEq I] [Fintype I]

theorem guarded_step (guarded : Guarded zero trace state) (step : Step state event after) :
    Guarded zero (trace ++ [event]) after := by
  have stored (value : I → W) (member : value ∈ commits trace) (next : Event R I W) :
      Event.storeBegin value ∈ trace ++ [next] := List.mem_append_left _ (guarded.stored value member)
  cases step with
  | storeBegin idle =>
    refine ⟨guarded.index, ?_, ?_, ?_⟩
    · rw [commits_quiet rfl]
      exact guarded.front
    · rintro back desired left ⟨⟩
      exact ⟨rfl, copied_univ, List.mem_append_right _ (List.mem_singleton_self _)⟩
    · intro value member
      rw [commits_quiet rfl] at member
      exact stored value member _
  | @writeWord left word _ back desired writing member =>
    obtain ⟨isBack, copied, begun⟩ := guarded.writing writing
    refine ⟨guarded.index, ?_, ?_, ?_⟩
    · have other : state.front ≠ back := by
        rw [isBack]
        exact (back_ne_front guarded.index).symm
      rw [commits_quiet rfl, ← guarded.front]
      exact Function.update_of_ne other _ _
    · rintro back' desired' left' ⟨⟩
      refine ⟨isBack, ?_, List.mem_append_left _ begun⟩
      simp only [Function.update_self]
      exact copied_erase copied word
    · intro value member
      rw [commits_quiet rfl] at member
      exact stored value member _
  | commit written =>
    obtain ⟨isBack, copied, begun⟩ := guarded.writing written
    refine ⟨?_, ?_, ?_, ?_⟩
    · rw [isBack]
      exact index_back guarded.index
    · rw [commits_commit, committed_snoc]
      exact copied_empty copied
    · nofun
    · intro value member
      rw [commits_commit] at member
      rcases List.mem_append.mp member with earlier | now
      · exact stored value earlier _
      · rw [List.mem_singleton.mp now]
        exact List.mem_append_left _ begun
  | loadBegin moved idle => exact guarded_other guarded rfl rfl rfl rfl
  | sample moved called junk => exact guarded_other guarded rfl rfl rfl rfl
  | loadWord moved word copying member => exact guarded_other guarded rfl rfl rfl rfl
  | loadReturn moved copied => exact guarded_other guarded rfl rfl rfl rfl

theorem guarded_run (run : Run Step (initial zero) trace state) : Guarded zero trace state :=
  run_invariant (Guarded zero) run (guarded_initial zero)
    fun _ _ _ _ _ guarded step => guarded_step guarded step

/-! ## A reader -/

/-- What a step can do to one reader: nothing, a look at `front_`, one word copied, or it is not
copying afterwards. -/
theorem reader_step (step : Step state event after) (reader : R) :
    after.readers reader = state.readers reader ∨
      (∃ junk, after.readers reader = .copying state.front junk Finset.univ ∧
        after.buf = state.buf ∧ event.committed = none) ∨
      (∃ front snapshot left word, state.readers reader = .copying front snapshot left ∧
        word ∈ left ∧ after.buf = state.buf ∧
        after.readers reader =
          .copying front (Function.update snapshot word (state.buf front word))
            (left.erase word)) ∨
      ∀ front snapshot left, after.readers reader ≠ .copying front snapshot left := by
  have other (next : Reader I W) (moved : R) (different : reader ≠ moved) :
      Function.update state.readers moved next reader = state.readers reader :=
    Function.update_of_ne different _ _
  cases step with
  | storeBegin idle => exact .inl rfl
  | writeWord writing member => exact .inl rfl
  | commit written => exact .inl rfl
  | loadBegin moved idle =>
    by_cases same : reader = moved
    · subst same
      exact .inr (.inr (.inr (by simp)))
    · exact .inl (other _ _ same)
  | sample moved called junk =>
    by_cases same : reader = moved
    · subst same
      exact .inr (.inl ⟨junk, Function.update_self _ _ _, rfl, rfl⟩)
    · exact .inl (other _ _ same)
  | loadWord moved word copying member =>
    by_cases same : reader = moved
    · subst same
      exact .inr (.inr (.inl ⟨_, _, _, word, copying, member, rfl, Function.update_self _ _ _⟩))
    · exact .inl (other _ _ same)
  | loadReturn moved copied =>
    by_cases same : reader = moved
    · subst same
      exact .inr (.inr (.inr (by simp)))
    · exact .inl (other _ _ same)

/-- The step is a store's write of a word in the buffer that the reader copies, and the reader has
still to copy that word. The word may happen to stay as it was. -/
def Disturbs (reader : R) (state : State R I W) (event : Event R I W) : Prop :=
  ∃ word back desired rest snapshot left, event = .writeWord word ∧
    state.writer = .writing back desired rest ∧ state.readers reader = .copying back snapshot left ∧
    word ∈ left

/-- The steps that do not disturb a reader. -/
def Undisturbed (reader : R) (state : State R I W) (event : Event R I W) (after : State R I W) :
    Prop := Step state event after ∧ ¬ Disturbs reader state event

/-- The words that are left to copy stay as they are. -/
theorem undisturbed_words {front : UInt8} (step : Undisturbed reader state event after)
    (copying : state.readers reader = .copying front snapshot left) (member : word ∈ left) :
    after.buf front word = state.buf front word := by
  obtain ⟨step, harmless⟩ := step
  cases step with
  | @writeWord rest written _ back desired writing among =>
    by_cases same : front = back
    · subst same
      have other : word ≠ written := by
        rintro rfl
        exact harmless ⟨_, _, _, _, _, _, rfl, writing, copying, member⟩
      simp only [Function.update_self]
      exact Function.update_of_ne other _ _
    · exact congrFun (Function.update_of_ne same _ _) word
  | storeBegin | commit | loadBegin | sample | loadWord | loadReturn => rfl

/-- What a reader has copied and what it has still to copy, since the values `past` were in front,
are the words of one value, in front at some instant in between. -/
def Watched (zero : I → W) (past : List (I → W)) (during : List (Event R I W)) (reader : R)
    (state : State R I W) : Prop :=
  ∀ front snapshot left, state.readers reader = .copying front snapshot left →
    ∃ early late, during = early ++ late ∧
      Copied left (committed zero (past ++ commits early)) snapshot ∧
      ∀ word ∈ left, state.buf front word = committed zero (past ++ commits early) word

theorem watched_step (inFront : state.buf state.front = committed zero (past ++ commits during))
    (watched : Watched zero past during reader state) (step : Undisturbed reader state event after) :
    Watched zero past (during ++ [event]) reader after := by
  intro front snapshot left copying
  rcases reader_step step.1 reader with same | ⟨junk, sampled, buf, quiet⟩ |
    ⟨_, _, _, word, before, member, buf, copied⟩ | gone
  · rw [same] at copying
    obtain ⟨early, late, split, done, ahead⟩ := watched _ _ _ copying
    refine ⟨early, late ++ [event], by rw [split, List.append_assoc], done, ?_⟩
    intro word member
    rw [undisturbed_words step copying member]
    exact ahead word member
  · rw [sampled] at copying
    cases copying
    refine ⟨during ++ [event], [], by rw [List.append_nil], copied_univ, ?_⟩
    intro word _
    rw [commits_quiet quiet, buf, inFront]
  · rw [copied] at copying
    cases copying
    obtain ⟨early, late, split, done, ahead⟩ := watched _ _ _ before
    refine ⟨early, late ++ [event], by rw [split, List.append_assoc], ?_, ?_⟩
    · rw [ahead word member]
      exact copied_erase done word
    · intro other among
      rw [buf]
      exact ahead other (Finset.mem_of_mem_erase among)
  · exact absurd copying (gone front snapshot left)

/-! ## Loads -/

theorem loadBegin_called (run : Run Step state (trace ++ [.loadBegin reader]) after) :
    after.readers reader = .called := by
  obtain ⟨_, _, begin⟩ := run_snoc run
  cases begin with
  | loadBegin _ idle => exact Function.update_self _ _ _

/-- A load that has begun is watched in every state that follows. -/
theorem watched_run (start : Run Step (initial zero) before state)
    (called : state.readers reader = .called) (run : Run (Undisturbed reader) state during after) :
    Watched zero (commits before) during reader after := by
  refine run_invariant (fun during after => Watched zero (commits before) during reader after) run
    ?_ ?_
  · intro front snapshot left copying
    rw [called] at copying
    cases copying
  · intro during middle event after ran watched step
    have whole := guarded_run (run_append start (run_mono (fun _ _ _ step => step.1) ran))
    have inFront := whole.front
    rw [commits_append] at inFront
    exact watched_step inFront watched step

/-- **Undisturbed loads are atomic**: in any run, a load during which no store writes a word that
it has still to copy returns a value that was in front at some instant of the load, and that was
passed to `store` or is the first one. -/
theorem undisturbed_load_atomic (start : Run Step (initial zero) before begun)
    (load : Run (Undisturbed reader) begun
      (.loadBegin reader :: during ++ [.loadReturn reader value]) final) :
    Atomic zero before during reader value ∧
      (value = zero ∨ .storeBegin value ∈ before ++ .loadBegin reader :: during) := by
  obtain ⟨middle, ran, last⟩ := run_snoc load
  have headed : Event.loadBegin reader :: during = [.loadBegin reader] ++ during := rfl
  rw [headed] at ran
  obtain ⟨called, call, rest⟩ := run_split ran
  have begins := run_append start (run_mono (fun _ _ _ step => step.1) call)
  have watched := watched_run begins (loadBegin_called begins) rest
  have guarded := guarded_run (run_append begins (run_mono (fun _ _ _ step => step.1) rest))
  cases last.1 with
  | loadReturn _ copied =>
    obtain ⟨early, late, split, done, _⟩ := watched _ _ _ copied
    have value := copied_empty done
    rw [← commits_append, List.append_assoc, List.singleton_append] at value
    have atomic : Atomic zero before during reader _ := ⟨early, late, split, value⟩
    refine ⟨atomic, (atomic_mem atomic).imp_right fun member => ?_⟩
    rw [List.append_assoc] at guarded
    exact guarded.stored _ member

/-- Only a store disturbs a load. -/
theorem undisturbed_other (step : Step state event after)
    (other : ∀ word, event ≠ .writeWord word) : Undisturbed reader state event after := by
  refine ⟨step, ?_⟩
  rintro ⟨word, _, _, _, _, _, same, _⟩
  exact other word same

/-- A store that begins and ends while the load copies the other buffer. -/
theorem undisturbed_load_atomic_testing :
    let during : List (Event Unit Unit UInt8) :=
      [.sample (), .storeBegin fun _ => 2, .writeWord (), .commit fun _ => 2, .loadWord () ()]
    ∃ value final, Run (Undisturbed ()) (initial fun _ => 1)
        (.loadBegin () :: during ++ [.loadReturn () value]) final ∧
      Atomic (fun _ => 1) [] during () value := by
  intro during
  have begun : Run (Undisturbed ()) (initial fun _ => 1 : State Unit Unit UInt8)
      [.loadBegin (), .sample (), .storeBegin fun _ => 2] _ :=
    .snoc (.snoc (.snoc .nil (undisturbed_other (.loadBegin () rfl) nofun))
      (undisturbed_other (.sample () rfl fun _ => 0) nofun))
      (undisturbed_other (.storeBegin rfl) nofun)
  have written := Run.snoc begun ⟨.writeWord rfl (Finset.mem_univ ()), ?harmless⟩
  case harmless =>
    rintro ⟨_, _, _, _, _, _, _, writing, copying, _⟩
    cases writing
    have front : (0 : UInt8) = 1 := (Reader.copying.inj copying).1
    exact absurd front (by decide)
  have copied := Run.snoc (.snoc written (undisturbed_other (.commit rfl) nofun))
    (undisturbed_other (.loadWord () () rfl (Finset.mem_univ ())) nofun)
  have returned := Run.snoc copied (undisturbed_other (.loadReturn () rfl) nofun)
  exact ⟨_, _, returned, (undisturbed_load_atomic .nil returned).1⟩

/-! ## The constraint on the writer -/

/-- No store writes after a commit. -/
def Spaced (during : List (Event R I W)) : Prop :=
  ∀ first later word, during = first ++ .writeWord word :: later → commits first = []

theorem front_step (step : Step state event after) (quiet : event.committed = none) :
    after.front = state.front := by
  cases step with
  | commit written => cases quiet
  | storeBegin | writeWord | loadBegin | sample | loadWord | loadReturn => rfl

/-- As long as there is no commit, a load copies the buffer in front. -/
theorem copies_front (called : state.readers reader = .called) (run : Run Step state during after)
    (quiet : commits during = []) (copying : after.readers reader = .copying front snapshot left) :
    front = after.front := by
  refine run_invariant
    (fun during after => commits during = [] → ∀ front snapshot left,
      after.readers reader = .copying front snapshot left → front = after.front)
    run ?_ ?_ quiet _ _ _ copying
  · intro _ front snapshot left copying
    rw [called] at copying
    cases copying
  · intro during middle event after ran copies step quiet front snapshot left copying
    rw [commits_append] at quiet
    obtain ⟨quietBefore, quietNow⟩ := List.append_eq_nil_iff.mp quiet
    have still : event.committed = none := by simpa [commits] using quietNow
    rw [front_step step still]
    rcases reader_step step reader with same | ⟨junk, sampled, _, _⟩ |
      ⟨_, _, _, word, before, _, _, copied⟩ | gone
    · exact copies quietBefore _ _ _ (same ▸ copying)
    · rw [sampled] at copying
      cases copying
      rfl
    · rw [copied] at copying
      cases copying
      exact copies quietBefore _ _ _ before
    · exact absurd copying (gone front snapshot left)

/-- **Loads are atomic if the writer waits**: a load is not torn if no store writes during it after
a commit, so it is not enough that there is only one commit. -/
theorem spaced_load_atomic (start : Run Step (initial zero) before begun)
    (load : Run Step begun (.loadBegin reader :: during ++ [.loadReturn reader value]) final)
    (spaced : Spaced during) : Atomic zero before during reader value := by
  refine (undisturbed_load_atomic start (run_strengthen load ?_)).1
  rintro first event later middle after split ran step
    ⟨word, back, desired, rest, snapshot, left, rfl, writing, copying, member⟩
  have isBack := ((guarded_run (run_append start ran)).writing writing).1
  have index := (guarded_run (run_append start ran)).index
  cases first with
  | nil => cases split
  | cons begins first =>
    rw [List.cons_append, List.cons_append] at split
    obtain ⟨rfl, during_eq⟩ := List.cons_eq_cons.mp split
    -- the last event of the load is its return, so the word is written before
    rcases List.eq_nil_or_concat later with rfl | ⟨later, last, rfl⟩
    · cases (List.append_inj' during_eq rfl).2
    · rw [List.concat_eq_append, ← List.cons_append, ← List.append_assoc] at during_eq
      have quiet := spaced first later word (List.append_inj' during_eq rfl).1
      have headed : Event.loadBegin reader :: first = [.loadBegin reader] ++ first := rfl
      rw [headed] at ran
      obtain ⟨called, call, run⟩ := run_split ran
      have inFront := copies_front (loadBegin_called (run_append start call)) run quiet copying
      apply back_ne_front index
      rw [← isBack, inFront]

end Steps

/-! ## A torn load -/

section Torn
variable [DecidableEq R]

/-- A store of two words, with no other step in between. -/
theorem store_run (state : State R Bool W) (desired : Bool → W) (idle : state.writer = .idle) :
    Run Step state
      [.storeBegin desired, .writeWord false, .writeWord true, .commit desired]
      { state with
        buf := Function.update state.buf (1 - state.front) desired
        front := 1 - state.front
        writer := .idle } := by
  have begun : Run Step state [.storeBegin desired] _ := .snoc .nil (.storeBegin idle)
  have first := Run.snoc begun (.writeWord rfl (Finset.mem_univ false))
  have second := Run.snoc first (.writeWord rfl (by decide : true ∈ Finset.univ.erase false))
  have stored := Run.snoc second (.commit rfl)
  have words (old : Bool → W) :
      Function.update (Function.update old false (desired false)) true (desired true) = desired := by
    funext word
    cases word <;> rfl
  simp only [Function.update_self, Function.update_idem, words] at stored
  exact stored

end Torn

/-- The first store. -/
def tornBefore : List (Event Unit Bool UInt8) :=
  [.storeBegin fun _ => 1, .writeWord false, .writeWord true, .commit fun _ => 1]

/-- The load copies one word, the second store is committed, and the third one changes the other
word before the load comes to it. -/
def tornDuring : List (Event Unit Bool UInt8) :=
  [.sample (), .loadWord () false, .storeBegin fun _ => 2, .writeWord false, .writeWord true,
    .commit fun _ => 2, .storeBegin fun _ => 3, .writeWord true, .loadWord () true]

/-- One commit during the load, and it returns a word of the first store with a word of the third. -/
theorem load_torn_by_next_store :
    ∃ value final, Run Step (initial (fun _ => 0) : State Unit Bool UInt8)
        (tornBefore ++ .loadBegin () :: tornDuring ++ [.loadReturn () value]) final ∧
      (commits tornDuring).length ≤ 1 ∧ value false = 1 ∧ value true = 3 ∧
      ¬ Atomic (fun _ => 0) tornBefore tornDuring () value := by
  have first := store_run (initial (fun _ => 0) : State Unit Bool UInt8) (fun _ => 1) rfl
  have copied := Run.snoc (.snoc (.snoc first (.loadBegin () rfl)) (.sample () rfl fun _ => 0))
    (.loadWord () false rfl (Finset.mem_univ false))
  have second := run_append copied (store_run _ (fun _ => 2) rfl)
  have third := @Run.snoc _ _ _ _ _ _ (.storeBegin fun _ => 3) _ second (.storeBegin rfl)
  have overwritten := Run.snoc third (.writeWord rfl (Finset.mem_univ true))
  have torn := Run.snoc overwritten (.loadWord () true rfl (by decide : true ∈ Finset.univ.erase false))
  have returned := Run.snoc torn (.loadReturn () rfl)
  refine ⟨_, _, returned, by decide, rfl, rfl, ?_⟩
  intro atomic
  rcases atomic_mem atomic with zero | stored
  · exact absurd (congrFun zero false) (by decide)
  · exact absurd stored (by decide)

end Emblib.DoubleBuffer

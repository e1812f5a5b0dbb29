import Emblib.Library.Run
import Emblib.Library.Words

/-! The triple buffer, with the steps of one writer and one reader in any order. An
exchange is one step and the assignment of its result another; a value is copied word
by word. The reader's and the shared buffer always hold whole values, which an exchange
of the writer replaces and one of the reader swaps. -/
namespace Emblib.TripleBuffer
open Runs Words

/-- Where the writer is in `store`. -/
inductive Writer (I W : Type) where
  | idle
  | copying (value : I → W) (left : Finset I)
  | exchanged (result : UInt8)

/-- Where the reader is in `load`. -/
inductive Reader (I W : Type) where
  | idle
  | exchanged (result : UInt8)
  | copying (copy : I → W) (left : Finset I)

structure State (I W : Type) where
  buf : UInt8 → I → W
  shared : UInt8
  write : UInt8
  read : UInt8
  writer : Writer I W
  reader : Reader I W

/-- The object after construction; `zero` is `T{}`. -/
def initial (zero : I → W) : State I W where
  buf := fun _ => zero
  shared := 0
  write := 1
  read := 2
  writer := .idle
  reader := .idle

inductive Event (I W : Type) where
  | storeBegin (value : I → W)
  | storeWord (word : I)
  | storeExchange (value : I → W)
  | storeAssign
  | loadExchange
  | loadAssign
  | loadWord (word : I)
  | loadReturn (value : I → W)

/-- One step of either party. -/
inductive Step {I W : Type} [DecidableEq I] [Fintype I] : State I W → Event I W → State I W → Prop where
  | storeBegin (idle : state.writer = .idle) :
      Step state (.storeBegin value) { state with writer := .copying value Finset.univ }
  | storeWord (copying : state.writer = .copying value left) (member : word ∈ left) :
      Step state (.storeWord word)
        { state with
          buf := Function.update state.buf state.write
            (Function.update (state.buf state.write) word (value word))
          writer := .copying value (left.erase word) }
  | storeExchange (copied : state.writer = .copying value ∅) :
      Step state (.storeExchange value)
        { state with shared := state.write, writer := .exchanged state.shared }
  | storeAssign (exchanged : state.writer = .exchanged result) :
      Step state .storeAssign { state with write := result, writer := .idle }
  | loadExchange (idle : state.reader = .idle) :
      Step state .loadExchange
        { state with shared := state.read, reader := .exchanged state.shared }
  | loadAssign (exchanged : state.reader = .exchanged result) (junk : I → W) :
      Step state .loadAssign { state with read := result, reader := .copying junk Finset.univ }
  | loadWord (copying : state.reader = .copying copy left) (member : word ∈ left) :
      Step state (.loadWord word)
        { state with
          reader := .copying (Function.update copy word (state.buf state.read word))
            (left.erase word) }
  | loadReturn (copied : state.reader = .copying copy ∅) :
      Step state (.loadReturn copy) { state with reader := .idle }

/-! ## Roles -/

variable {I W : Type}

/-- The index that is the writer's, in its register until it is assigned. -/
def State.writeRole (state : State I W) : UInt8 :=
  match state.writer with
  | .exchanged result => result
  | _ => state.write

/-- The index that is the reader's, in its register until it is assigned. -/
def State.readRole (state : State I W) : UInt8 :=
  match state.reader with
  | .exchanged result => result
  | _ => state.read

def State.roles (state : State I W) : List UInt8 := [state.writeRole, state.shared, state.readRole]

/-! ## What the exchanges do to the values -/

inductive Exchange (I W : Type) where
  | store (value : I → W)
  | load

def Event.exchange : Event I W → Option (Exchange I W)
  | .storeExchange value => some (.store value)
  | .loadExchange => some .load
  | _ => none

/-- The exchanges of a run, in order. -/
def exchanges (trace : List (Event I W)) : List (Exchange I W) := trace.filterMap Event.exchange

/-- The values in the reader's and in the shared buffer. -/
structure Hands (I W : Type) where
  held : I → W
  offered : I → W

def Hands.next (hands : Hands I W) : Exchange I W → Hands I W
  | .store value => { hands with offered := value }
  | .load => ⟨hands.offered, hands.held⟩

def hands (zero : I → W) (past : List (Exchange I W)) : Hands I W := past.foldl Hands.next ⟨zero, zero⟩

theorem hands_snoc (zero : I → W) (past : List (Exchange I W)) (exchange : Exchange I W) :
    hands zero (past ++ [exchange]) = (hands zero past).next exchange := by
  rw [hands, List.foldl_append]
  rfl

theorem exchanges_quiet {event : Event I W} (quiet : event.exchange = none) :
    exchanges (trace ++ [event]) = exchanges trace := by
  simp [exchanges, quiet]

theorem exchanges_store (value : I → W) :
    exchanges (trace ++ [.storeExchange value]) = exchanges trace ++ [.store value] := by
  simp [exchanges, Event.exchange]

theorem exchanges_load : exchanges (trace ++ [(.loadExchange : Event I W)]) = exchanges trace ++ [.load] := by
  simp [exchanges, Event.exchange]

/-- The three buffers have one role each, two of them hold whole values, and both
parties have copied what they should. -/
structure Handoff (zero : I → W) (trace : List (Event I W)) (state : State I W) : Prop where
  roles : state.roles.Perm [0, 1, 2]
  held : state.buf state.readRole = (hands zero (exchanges trace)).held
  offered : state.buf state.shared = (hands zero (exchanges trace)).offered
  filling : ∀ value left, state.writer = .copying value left →
    Copied left value (state.buf state.write) ∧ .storeBegin value ∈ trace
  reading : ∀ copy left, state.reader = .copying copy left →
    Copied left (hands zero (exchanges trace)).held copy

theorem handoff_initial (zero : I → W) : Handoff zero [] (initial zero) where
  roles := List.Perm.swap 0 1 [2]
  held := rfl
  offered := rfl
  filling := by
    intro value left copying
    cases copying
  reading := by
    intro copy left copying
    cases copying

theorem roles_distinct {state : State I W} (roles : state.roles.Perm [0, 1, 2]) :
    state.writeRole ≠ state.shared ∧ state.writeRole ≠ state.readRole ∧
      state.shared ≠ state.readRole := by
  have distinct : state.roles.Nodup := roles.nodup_iff.mpr (by decide)
  simpa [State.roles, and_assoc] using distinct

section Roles
variable {zero : I → W} {trace : List (Event I W)} {state after : State I W} {event : Event I W}

theorem writeRole_idle (idle : state.writer = .idle) : state.writeRole = state.write := by
  simp [State.writeRole, idle]

theorem writeRole_copying (copying : state.writer = .copying value left) :
    state.writeRole = state.write := by
  simp [State.writeRole, copying]

theorem writeRole_exchanged (exchanged : state.writer = .exchanged result) :
    state.writeRole = result := by
  simp [State.writeRole, exchanged]

theorem readRole_idle (idle : state.reader = .idle) : state.readRole = state.read := by
  simp [State.readRole, idle]

theorem readRole_exchanged (exchanged : state.reader = .exchanged result) :
    state.readRole = result := by
  simp [State.readRole, exchanged]

theorem readRole_copying (copying : state.reader = .copying copy left) :
    state.readRole = state.read := by
  simp [State.readRole, copying]

/-- An event of the writer that leaves the roles and the reader alone. -/
theorem handoff_writer (handoff : Handoff zero trace state) (quiet : event.exchange = none)
    (roles : after.roles = state.roles) (reader : after.reader = state.reader)
    (buf : ∀ index, index ≠ state.writeRole → after.buf index = state.buf index)
    (filling : ∀ value left, after.writer = .copying value left →
      Copied left value (after.buf after.write) ∧ .storeBegin value ∈ trace ++ [event]) :
    Handoff zero (trace ++ [event]) after := by
  obtain ⟨writeShared, writeRead, _⟩ := roles_distinct handoff.roles
  obtain ⟨_, shared, read⟩ : after.writeRole = state.writeRole ∧ after.shared = state.shared ∧
      after.readRole = state.readRole := by simpa [State.roles] using roles
  refine ⟨roles ▸ handoff.roles, ?_, ?_, filling, ?_⟩
  · rw [exchanges_quiet quiet, read, buf _ (Ne.symm writeRead), handoff.held]
  · rw [exchanges_quiet quiet, shared, buf _ (Ne.symm writeShared), handoff.offered]
  · intro copy left copying
    rw [exchanges_quiet quiet]
    exact handoff.reading copy left (reader ▸ copying)

/-- An event of the reader that leaves the roles, the buffers and the writer alone. -/
theorem handoff_reader (handoff : Handoff zero trace state) (quiet : event.exchange = none)
    (roles : after.roles = state.roles) (writer : after.writer = state.writer)
    (write : after.write = state.write) (buf : after.buf = state.buf)
    (reading : ∀ copy left, after.reader = .copying copy left →
      Copied left (hands zero (exchanges trace)).held copy) :
    Handoff zero (trace ++ [event]) after := by
  obtain ⟨_, shared, read⟩ : after.writeRole = state.writeRole ∧ after.shared = state.shared ∧
      after.readRole = state.readRole := by simpa [State.roles] using roles
  refine ⟨roles ▸ handoff.roles, ?_, ?_, ?_, ?_⟩
  · rw [exchanges_quiet quiet, read, buf, handoff.held]
  · rw [exchanges_quiet quiet, shared, buf, handoff.offered]
  · intro value left copying
    obtain ⟨copied, begun⟩ := handoff.filling value left (writer ▸ copying)
    rw [buf, write]
    exact ⟨copied, List.mem_append_left _ begun⟩
  · intro copy left copying
    rw [exchanges_quiet quiet]
    exact reading copy left copying

end Roles

section Steps
variable [DecidableEq I] [Fintype I] {zero : I → W} {trace before during : List (Event I W)}
  {state after : State I W} {event : Event I W}

theorem handoff_step (handoff : Handoff zero trace state) (step : Step state event after) :
    Handoff zero (trace ++ [event]) after := by
  cases step with
  | storeBegin idle =>
    refine handoff_writer handoff rfl ?_ rfl (fun _ _ => rfl) ?_
    · simp only [State.roles, writeRole_idle idle]
      rfl
    · intro value left copying
      cases copying
      exact ⟨copied_univ, by simp⟩
  | storeWord copying member =>
    refine handoff_writer handoff rfl ?_ rfl ?_ ?_
    · simp only [State.roles, writeRole_copying copying]
      rfl
    · intro index different
      rw [writeRole_copying copying] at different
      exact Function.update_of_ne different _ _
    · intro value left copyingNow
      cases copyingNow
      obtain ⟨copied, begun⟩ := handoff.filling _ _ copying
      simp only [Function.update_self]
      exact ⟨copied_erase copied _, List.mem_append_left _ begun⟩
  | storeExchange copied =>
    -- the writer's buffer is complete and becomes the shared one
    have complete := copied_empty (handoff.filling _ _ copied).1
    refine ⟨?_, ?_, ?_, ?_, ?_⟩
    · have roles := handoff.roles
      rw [State.roles, writeRole_copying copied] at roles
      exact (List.Perm.swap _ _ _).trans roles
    · rw [exchanges_store, hands_snoc]
      exact handoff.held
    · rw [exchanges_store, hands_snoc]
      exact complete
    · intro value left copying
      cases copying
    · rw [exchanges_store, hands_snoc]
      exact handoff.reading
  | storeAssign exchanged =>
    refine handoff_writer handoff rfl ?_ rfl (fun _ _ => rfl) ?_
    · simp only [State.roles, writeRole_exchanged exchanged]
      rfl
    · intro value left copying
      cases copying
  | loadExchange idle =>
    -- the reader's and the shared buffer change places
    refine ⟨?_, ?_, ?_, ?_, ?_⟩
    · have roles := handoff.roles
      rw [State.roles, readRole_idle idle] at roles
      exact ((List.Perm.swap _ _ _).cons _).trans roles
    · rw [exchanges_load, hands_snoc]
      exact handoff.offered
    · rw [exchanges_load, hands_snoc, Hands.next, ← handoff.held, readRole_idle idle]
    · intro value left copying
      obtain ⟨copied, begun⟩ := handoff.filling value left copying
      exact ⟨copied, List.mem_append_left _ begun⟩
    · intro copy left copying
      cases copying
  | loadAssign exchanged junk =>
    refine handoff_reader handoff rfl ?_ rfl rfl rfl ?_
    · simp only [State.roles, readRole_exchanged exchanged]
      rfl
    · intro copy left copying
      cases copying
      exact copied_univ
  | loadWord copying member =>
    refine handoff_reader handoff rfl ?_ rfl rfl rfl ?_
    · simp only [State.roles, readRole_copying copying]
      rfl
    · intro copy left copyingNow
      cases copyingNow
      rw [← readRole_copying copying, handoff.held]
      exact copied_erase (handoff.reading _ _ copying) _
  | loadReturn copied =>
    refine handoff_reader handoff rfl ?_ rfl rfl rfl ?_
    · simp only [State.roles, readRole_copying copied]
      rfl
    · intro copy left copying
      cases copying

theorem handoff_run (run : Run Step (initial zero) trace state) : Handoff zero trace state :=
  run_invariant (Handoff zero) run (handoff_initial zero)
    fun _ _ _ _ _ handoff step => handoff_step handoff step

/-- What a `load` returns is what the reader's buffer holds. -/
theorem returned_held (handoff : Handoff zero trace state)
    (step : Step state (.loadReturn value) after) : value = (hands zero (exchanges trace)).held := by
  cases step with
  | loadReturn copied => exact copied_empty (handoff.reading _ _ copied)

end Steps

/-! ## No tearing -/

section Tearing
variable {zero : I → W} {past : List (Exchange I W)} {trace : List (Event I W)}

/-- The values in the two buffers are the initial one or come from an exchange. -/
theorem hands_given :
    ((hands zero past).held = zero ∨ .store (hands zero past).held ∈ past) ∧
      ((hands zero past).offered = zero ∨ .store (hands zero past).offered ∈ past) := by
  induction past using List.reverseRecOn with
  | nil => exact ⟨.inl rfl, .inl rfl⟩
  | append_singleton past exchange ih =>
    have held := ih.1.imp_right (List.mem_append_left [exchange])
    have offered := ih.2.imp_right (List.mem_append_left [exchange])
    rw [hands_snoc]
    cases exchange with
    | store value => exact ⟨held, .inr (by simp [Hands.next])⟩
    | load => exact ⟨offered, held⟩

variable [DecidableEq I] [Fintype I] {state : State I W}

/-- What is exchanged has been passed to a `store`. -/
theorem exchanged_begun (run : Run Step (initial zero) trace state) :
    ∀ value, .store value ∈ exchanges trace → .storeBegin value ∈ trace := by
  refine run_invariant
    (fun trace _ => ∀ value, .store value ∈ exchanges trace → .storeBegin value ∈ trace)
    run (fun value member => nomatch member) ?_
  intro trace middle event after before known step value member
  have quiet (silent : event.exchange = none) : .storeBegin value ∈ trace ++ [event] :=
    List.mem_append_left _ (known value (exchanges_quiet silent ▸ member))
  cases step with
  | storeExchange copied =>
    rw [exchanges_store] at member
    rcases List.mem_append.mp member with earlier | now
    · exact List.mem_append_left _ (known value earlier)
    · obtain rfl : value = _ := by simpa using now
      exact List.mem_append_left _ ((handoff_run before).filling _ _ copied).2
  | loadExchange idle =>
    rw [exchanges_load] at member
    exact List.mem_append_left _ (known value (by simpa using member))
  | storeBegin idle => exact quiet rfl
  | storeWord copying inside => exact quiet rfl
  | storeAssign exchanged => exact quiet rfl
  | loadAssign exchanged junk => exact quiet rfl
  | loadWord copying inside => exact quiet rfl
  | loadReturn copied => exact quiet rfl

/-- **The triple buffer never tears.** In every state reached the three roles are three
different buffers, the writer fills none that the reader copies, and a `load` returns
a whole value that a `store` was given, or the initial one. -/
theorem triple_buffer_never_tears (run : Run Step (initial zero) trace state) :
    (state.writeRole ≠ state.shared ∧ state.writeRole ≠ state.readRole ∧
        state.shared ≠ state.readRole ∧ ∀ role ∈ state.roles, role < 3) ∧
      (∀ value left copy remaining, state.writer = .copying value left →
        state.reader = .copying copy remaining → state.write ≠ state.read) ∧
      ∀ value after, Step state (.loadReturn value) after → value = zero ∨ .storeBegin value ∈ trace := by
  have handoff := handoff_run run
  obtain ⟨writeShared, writeRead, sharedRead⟩ := roles_distinct handoff.roles
  refine ⟨⟨writeShared, writeRead, sharedRead, ?_⟩, ?_, ?_⟩
  · intro role member
    have known := handoff.roles.mem_iff.mp member
    simp only [List.mem_cons, List.not_mem_nil, or_false] at known
    rcases known with rfl | rfl | rfl <;> decide
  · intro value left copy remaining filling reading
    rw [writeRole_copying filling, readRole_copying reading] at writeRead
    exact writeRead
  · intro value after step
    rw [returned_held handoff step]
    exact hands_given.1.imp_right (exchanged_begun run _)

end Tearing

/-- The reader has copied the only word while the writer has filled its own buffer. -/
theorem triple_buffer_never_tears_testing :
    ∃ state, Run Step (initial fun _ : Unit => (0 : UInt8))
        [.loadExchange, .storeBegin fun _ => 1, .loadAssign, .storeWord (), .loadWord ()] state ∧
      (state.writeRole ≠ state.shared ∧ state.writeRole ≠ state.readRole ∧
        state.shared ≠ state.readRole ∧ ∀ role ∈ state.roles, role < 3) ∧
      (∀ value left copy remaining, state.writer = .copying value left →
        state.reader = .copying copy remaining → state.write ≠ state.read) ∧
      ∀ value after, Step state (.loadReturn value) after → value = (fun _ => 0) ∨
        .storeBegin value ∈ [Event.loadExchange, .storeBegin fun _ => 1, .loadAssign, .storeWord (),
          .loadWord ()] := by
  have begun : Run Step (initial fun _ : Unit => (0 : UInt8))
      [.loadExchange, .storeBegin fun _ => 1] _ :=
    .snoc (.snoc .nil (.loadExchange rfl)) (.storeBegin rfl)
  have run := Run.snoc (.snoc (.snoc begun (.loadAssign rfl fun _ => 0))
    (.storeWord rfl (Finset.mem_univ ()))) (.loadWord rfl (Finset.mem_univ ()))
  exact ⟨_, run, triple_buffer_never_tears run⟩

end Emblib.TripleBuffer

import Emblib.CircularBufferRefinement

/-! Several buffers of one type, and what their copies and moves make of them. Whether the
elements are copied one by one, to the front of the ring, or the whole object is copied
with its position in the ring, the destination has the contents of the source; so all
operations on all buffers together refine those on as many deques. -/
namespace Emblib.CircularBufferCopies
open Programs Machines Rings CircularBuffer CircularBufferRefinement
open Program (times)
open InplaceStorage hiding destroySlot perform

/-! ## Element by element -/

/-- Getting an element changes at most its own slot. -/
def Fetches (fetch : Nat → Method T (Slot T)) : Prop :=
  ∀ index (object : Object T), ∃ slots,
    run access (fetch index) object = (object.slots index, { object with slots }) ∧
      ∀ k, k ≠ index → slots k = object.slots k

theorem read_fetches : Fetches fun index => (InplaceStorage.perform (.read index) : Method T (Slot T)) :=
  fun _ object => ⟨object.slots, rfl, fun _ _ => rfl⟩

theorem take_fetches : Fetches fun index => (InplaceStorage.perform (.take index) : Method T (Slot T)) :=
  fun _ _ => ⟨_, rfl, fun _ different => Function.update_of_ne different _ _⟩

section Elements
variable {N T : Type} {config : Config} {this other : N} {elements : List T}
  {fetch : Nat → Method T (Slot T)} {start states : N → Object T}

/-- After `i` rounds of the loop: the elements that have been constructed, the slots that
have yet to be read, and the buffers that are not concerned. -/
structure Copying (config : Config) (this other : N) (elements : List T) (start : N → Object T)
    (i : Nat) (states : N → Object T) : Prop where
  built : Represents config (states this) (elements.take i)
  based : (states this).front = 0
  front : (states other).front = (start other).front
  size : (states other).size = (start other).size
  unread : ∀ k, i ≤ k → k < (start other).size →
    (states other).slots (((start other).front + k) % config.capacity) =
      (start other).slots (((start other).front + k) % config.capacity)
  apart : ∀ name, name ≠ this → name ≠ other → states name = start name

theorem copying_start (front : (start this).front = 0) (size : (start this).size = 0) :
    Copying config this other elements start 0 start where
  built := represents_nil front size
  based := front
  front := rfl
  size := rfl
  unread := fun _ _ _ => rfl
  apart := fun _ _ _ => rfl

variable [DecidableEq N]

/-- One round of the loop. -/
theorem copying_round (different : this ≠ other) (fetches : Fetches fetch)
    (represents : Represents config (start other) elements) (below : i < (start other).size)
    (copying : Copying config this other elements start i states) :
    Copying config this other elements start (i + 1)
      (run (family access) (do
        let element ← (do fetch (← indexOf config i) : Method T (Slot T)).on other
        (do InplaceStorage.perform (.construct i element)
            InplaceStorage.perform (.setSize ((← size) + 1)) : Method T Unit).on this) states).2 := by
  have length := represents_length represents
  have bound := represents.size
  obtain ⟨slots, fetched, same⟩ :=
    fetches (((states other).front + i) % config.capacity) (states other)
  -- the element that this round reads is still there
  obtain ⟨value, element⟩ : ∃ value, elements[i]? = some value :=
    ⟨_, List.getElem?_eq_getElem (by omega)⟩
  have here := represents_get represents below
  rw [element, ← copying.unread i (Nat.le_refl i) below, ← copying.front] at here
  have count := represents_length copying.built
  rw [List.length_take, Nat.min_eq_left (by omega)] at count
  have pushed := represents_pushBack value copying.built (by omega)
  have slot : ((states this).front + (states this).size) % config.capacity = i := by
    rw [copying.based, count, Nat.zero_add, Nat.mod_eq_of_lt (by omega)]
  rw [slot, Option.some.inj here] at pushed
  simp only [run_bind, run_on, run_indexOf, fetched, run_perform, run_size, access,
    Function.update_of_ne different]
  refine ⟨?_, ?_, ?_, ?_, ?_, ?_⟩
  · rw [Function.update_self, List.take_add_one, element]
    exact pushed
  · rw [Function.update_self]
    exact copying.based
  · rw [Function.update_of_ne different.symm, Function.update_self]
    exact copying.front
  · rw [Function.update_of_ne different.symm, Function.update_self]
    exact copying.size
  · intro k above inside
    rw [Function.update_of_ne different.symm, Function.update_self, ← copying.unread k (by omega) inside]
    refine same _ ?_
    rw [copying.front]
    exact Counters.slot_ne (by omega) (Nat.le_add_right _ _) (by omega) (Nat.le_add_right _ _) (by omega)
  · intro name notThis notOther
    rw [Function.update_of_ne notThis, Function.update_of_ne notOther]
    exact copying.apart name notThis notOther

/-- The loop has constructed the elements of the source in order. -/
theorem constructFrom_copies (different : this ≠ other) (fetches : Fetches fetch)
    (represents : Represents config (start other) elements) (front : (start this).front = 0)
    (size : (start this).size = 0) :
    Copying config this other elements start elements.length
      (run (family access) (constructFrom config fetch this other) start).2 := by
  simp only [constructFrom, run_bind, run_on, run_size, Function.update_eq_self]
  rw [← represents_length represents]
  refine run_times (Copying config this other elements start) ?_ (copying_start front size)
  intro i below states copying
  exact copying_round different fetches represents below copying

/-- The copy, and every other buffer as it was. -/
theorem copyConstructFrom_represents (different : this ≠ other)
    (represents : Represents config (start other) elements) (front : (start this).front = 0)
    (size : (start this).size = 0) :
    let after := (run (family access) (copyConstructFrom config this other) start).2
    Represents config (after this) elements ∧ (after this).front = 0 ∧
      ∀ name, name ≠ this → after name = start name := by
  have copying := constructFrom_copies different read_fetches represents front size
  have source : (run (family access) (copyConstructFrom config this other) start).2 other = start other := by
    simp only [copyConstructFrom, constructFrom, run_bind, run_on, run_size, Function.update_eq_self]
    refine run_times (fun _ (states : N → Object T) => states other = start other) ?_ rfl
    intro i _ states kept
    simp only [run_bind, run_on, run_indexOf, run_perform, access, Function.update_eq_self]
    rw [Function.update_of_ne different.symm, kept]
  refine ⟨?_, copying.based, fun name notThis => ?_⟩
  · have built := copying.built
    rwa [List.take_length] at built
  · by_cases same : name = other
    · rw [same]
      exact source
    · exact copying.apart name notThis same

/-- The elements have moved, and every third buffer is as it was. -/
theorem moveConstructFrom_represents (different : this ≠ other)
    (represents : Represents config (start other) elements) (front : (start this).front = 0)
    (size : (start this).size = 0) :
    let after := (run (family access) (moveConstructFrom config this other) start).2
    Represents config (after this) elements ∧ (after this).front = 0 ∧
      Represents config (after other) [] ∧
      ∀ name, name ≠ this → name ≠ other → after name = start name := by
  have copying := constructFrom_copies different take_fetches represents front size
  simp only [moveConstructFrom, run_bind, run_on]
  refine ⟨?_, ?_, ?_, fun name notThis notOther => ?_⟩
  · have built := copying.built
    rw [Function.update_of_ne different]
    rwa [List.take_length] at built
  · rw [Function.update_of_ne different]
    exact copying.based
  · rw [Function.update_self]
    exact clear_represents
  · rw [Function.update_of_ne notOther]
    exact copying.apart name notThis notOther

@[simp] theorem run_bitwiseFrom : run (family access) (bitwiseFrom this other) start =
    ((), Function.update start this (start other)) := by
  simp [bitwiseFrom, access]

end Elements

/-! ## Commands -/

inductive Command (N T : Type) where
  | operate (this : N) (op : Operation T)
  | copyConstruct (this other : N)
  | moveConstruct (this other : N)
  | copyAssign (this other : N)
  | moveAssign (this other : N)

section Commands
variable {N T : Type} [DecidableEq N] {config : Config}

/-- The command on the buffers. A buffer that is constructed anew has been destroyed before. -/
def code (config : Config) : Command N T → Code N T (Answer (Slot T))
  | .operate this op => (perform config op).on this
  | .copyConstruct this other => do
    (destructor config).on this
    copyConstruct config this other
    return .done
  | .moveConstruct this other => do
    (destructor config).on this
    moveConstruct config this other
    return .done
  | .copyAssign this other => do copyAssign config this other; return .done
  | .moveAssign this other => do moveAssign config this other; return .done

def machine (config : Config) (command : Command N T) (states : N → Object T) :
    Answer (Slot T) × (N → Object T) :=
  run (family access) (code config command) states

/-- The elements leave their source unless they are trivially copyable. -/
def moved (config : Config) (this other : N) (lists : N → List T) : N → List T :=
  Function.update (Function.update lists other (if config.triviallyCopyable then lists other else []))
    this (lists other)

/-- The command on the deques. -/
def deques (config : Config) : Command N T → (N → List T) → Answer (Slot T) × (N → List T)
  | .operate this op, lists =>
    let (answer, after) := Deque.update config.capacity op (lists this)
    (answer.map .live, Function.update lists this after)
  | .copyConstruct this other, lists => (.done, Function.update lists this (lists other))
  | .moveConstruct this other, lists => (.done, moved config this other lists)
  | .copyAssign this other, lists => (.done, Function.update lists this (lists other))
  | .moveAssign this other, lists => (.done, if this = other then lists else moved config this other lists)

def Command.Allowed : Command N T → (N → List T) → Prop
  | .operate this op, lists => op.Allowed (lists this)
  | .copyConstruct this other, _ => this ≠ other
  | .moveConstruct this other, _ => this ≠ other
  | _, _ => True

def Related (config : Config) (states : N → Object T) (lists : N → List T) : Prop :=
  ∀ name, Represents config (states name) (lists name)

variable {states after : N → Object T} {lists : N → List T} {this other : N}

theorem related_update {buffer : Object T} {elements : List T} (related : Related config states lists)
    (represents : Represents config buffer elements) :
    Related config (Function.update states this buffer) (Function.update lists this elements) := by
  intro name
  by_cases same : name = this
  · subst same
    rwa [Function.update_self, Function.update_self]
  · rw [Function.update_of_ne same, Function.update_of_ne same]
    exact related name

theorem related_copied (related : Related config states lists)
    (copied : Represents config (after this) (lists other))
    (apart : ∀ name, name ≠ this → after name = states name) :
    Related config after (Function.update lists this (lists other)) := by
  intro name
  by_cases same : name = this
  · subst same
    rwa [Function.update_self]
  · rw [Function.update_of_ne same, apart name same]
    exact related name

theorem related_moved (elementwise : config.triviallyCopyable = false)
    (related : Related config states lists)
    (received : Represents config (after this) (lists other)) (left : Represents config (after other) [])
    (apart : ∀ name, name ≠ this → name ≠ other → after name = states name) :
    Related config after (moved config this other lists) := by
  intro name
  rw [moved, elementwise]
  by_cases same : name = this
  · subst same
    rwa [Function.update_self]
  · rw [Function.update_of_ne same]
    by_cases source : name = other
    · subst source
      rwa [Function.update_self]
    · rw [Function.update_of_ne source, apart name same source]
      exact related name

/-- A bitwise move leaves the source as it is. -/
theorem moved_bitwise (bitwise : config.triviallyCopyable = true) :
    moved config this other lists = Function.update lists this (lists other) := by
  rw [moved, if_pos bitwise, Function.update_eq_self]

/-- A copy into an empty buffer. -/
theorem copied_related {buffer : Object T} (different : this ≠ other)
    (related : Related config states lists) (front : buffer.front = 0) (size : buffer.size = 0) :
    Related config
      (run (family access) (copyConstructFrom config this other) (Function.update states this buffer)).2
      (Function.update lists this (lists other)) := by
  have source : Function.update states this buffer other = states other :=
    Function.update_of_ne different.symm _ _
  obtain ⟨copied, _, apart⟩ := copyConstructFrom_represents different
    (source ▸ related other) (by rwa [Function.update_self]) (by rwa [Function.update_self])
  refine related_copied related copied fun name notThis => ?_
  rw [apart name notThis, Function.update_of_ne notThis]

/-- A move into an empty buffer. -/
theorem moved_related {buffer : Object T} (different : this ≠ other)
    (related : Related config states lists) (elementwise : config.triviallyCopyable = false)
    (front : buffer.front = 0) (size : buffer.size = 0) :
    Related config
      (run (family access) (moveConstructFrom config this other) (Function.update states this buffer)).2
      (moved config this other lists) := by
  have source : Function.update states this buffer other = states other :=
    Function.update_of_ne different.symm _ _
  obtain ⟨received, _, left, apart⟩ := moveConstructFrom_represents different
    (source ▸ related other) (by rwa [Function.update_self]) (by rwa [Function.update_self])
  refine related_moved elementwise related received left fun name notThis notOther => ?_
  rw [apart name notThis notOther, Function.update_of_ne notThis]

/-- One command on the buffers is one command on the deques. -/
theorem machine_refines (command : Command N T) (allowed : command.Allowed lists)
    (related : Related config states lists) :
    (machine config command states).1 = (deques config command lists).1 ∧
      Related config (machine config command states).2 (deques config command lists).2 := by
  cases command with
  | operate this op =>
    obtain ⟨answer, after⟩ := perform_refines op (related this) allowed
    simp only [machine, code, run_on]
    exact ⟨answer, related_update related after⟩
  | copyConstruct this other =>
    have different : this ≠ other := allowed
    cases kind : config.triviallyCopyable with
    | true =>
      simp only [machine, code, copyConstruct, kind, if_true, run_bind, run_on, run_perform, access,
        Function.update_idem, run_bitwiseFrom, Function.update_of_ne different.symm]
      exact ⟨rfl, related_update related (related other)⟩
    | false =>
      simp only [machine, code, copyConstruct, kind, Bool.false_eq_true, if_false, run_bind, run_on,
        run_perform, access, Function.update_idem]
      exact ⟨rfl, copied_related different related rfl rfl⟩
  | moveConstruct this other =>
    have different : this ≠ other := allowed
    cases kind : config.triviallyCopyable with
    | true =>
      simp only [machine, code, moveConstruct, kind, if_true, run_bind, run_on, run_perform, access,
        Function.update_idem, run_bitwiseFrom, Function.update_of_ne different.symm, deques,
        moved_bitwise kind]
      exact ⟨rfl, related_update related (related other)⟩
    | false =>
      simp only [machine, code, moveConstruct, kind, Bool.false_eq_true, if_false, run_bind, run_on,
        run_perform, access, Function.update_idem]
      exact ⟨rfl, moved_related different related kind rfl rfl⟩
  | copyAssign this other =>
    cases kind : config.triviallyCopyable with
    | true =>
      simp only [machine, code, copyAssign, kind, if_true, run_bind, run_bitwiseFrom]
      exact ⟨rfl, related_update related (related other)⟩
    | false =>
      by_cases self : this = other
      · subst self
        simp only [machine, code, copyAssign, kind, Bool.false_eq_true, if_false, ne_eq, not_true,
          deques, Function.update_eq_self]
        exact ⟨rfl, related⟩
      · simp only [machine, code, copyAssign, kind, Bool.false_eq_true, if_false, ne_eq, self,
          not_false_eq_true, if_true, run_bind, run_on]
        exact ⟨rfl, copied_related self related clear_front clear_size⟩
  | moveAssign this other =>
    cases kind : config.triviallyCopyable with
    | true =>
      simp only [machine, code, moveAssign, kind, if_true, run_bind, run_bitwiseFrom, deques,
        moved_bitwise kind]
      by_cases self : this = other
      · subst self
        rw [if_pos rfl, Function.update_eq_self]
        exact ⟨rfl, related⟩
      · rw [if_neg self]
        exact ⟨rfl, related_update related (related other)⟩
    | false =>
      by_cases self : this = other
      · subst self
        simp only [machine, code, moveAssign, kind, Bool.false_eq_true, if_false, ne_eq, not_true,
          deques, if_true]
        exact ⟨rfl, related⟩
      · simp only [machine, code, moveAssign, kind, Bool.false_eq_true, if_false, ne_eq, self,
          not_false_eq_true, if_true, run_bind, run_on, deques]
        exact ⟨rfl, moved_related self related kind clear_front clear_size⟩

/-- **`circular_buffer` refines a bounded overwriting deque.** Whatever commands are given
to any number of buffers, within the preconditions, every answer is that of the deques;
each buffer stays within its bounds and holds the contents of its deque; and from the
buffers reached, the copies element by element, to the front of the ring, and the bitwise
ones, which keep the position in it, give the same contents. -/
theorem circular_buffer_refines_deque (commands : List (Command N T))
    (respects : Respects (deques config) Command.Allowed commands fun _ => []) :
    let (answers, buffers) := execute (machine config) commands fun _ => .initial
    let (expected, lists) := execute (deques config) commands fun _ => []
    answers = expected ∧
      (∀ name, (buffers name).front < config.capacity ∧ (buffers name).size ≤ config.capacity ∧
        contents config (buffers name) = (lists name).map .live) ∧
      ∀ this other, this ≠ other →
        let fresh := Function.update buffers this .initial
        let copied := (run (family access) (copyConstructFrom config this other) fresh).2 this
        let moved := (run (family access) (moveConstructFrom config this other) fresh).2 this
        let bitwise := (run (family access) (bitwiseFrom this other) fresh).2 this
        contents config copied = contents config (buffers other) ∧ copied.front = 0 ∧
          contents config moved = contents config (buffers other) ∧ moved.front = 0 ∧
          contents config bitwise = contents config (buffers other) ∧
          bitwise.front = (buffers other).front := by
  have initial : Related config (fun _ => (.initial : Object T)) fun _ : N => [] :=
    fun _ => represents_nil rfl rfl
  obtain ⟨answers, related⟩ := execute_simulates (Related config)
    (fun command states lists => machine_refines command) commands initial respects
  refine ⟨answers, fun name => ?_, fun this other different => ?_⟩
  · exact ⟨(related name).front, (related name).size, (related name).contents⟩
  · have source := Function.update_of_ne different.symm (.initial : Object T)
      (execute (machine config) commands fun _ => .initial).2
    have represents := related other
    rw [← source] at represents
    obtain ⟨copied, copiedFront, _⟩ := copyConstructFrom_represents different
      represents (by rw [Function.update_self]; rfl) (by rw [Function.update_self]; rfl)
    obtain ⟨moved, movedFront, _⟩ := moveConstructFrom_represents different
      represents (by rw [Function.update_self]; rfl) (by rw [Function.update_self]; rfl)
    simp only [run_bitwiseFrom, Function.update_self, source]
    exact ⟨copied.contents.trans (related other).contents.symm, copiedFront,
      moved.contents.trans (related other).contents.symm, movedFront, trivial, trivial⟩

end Commands

/-- Two buffers of two elements that are copied and destroyed by hand. -/
def testingConfig : Config where
  capacity := 2
  positive := by decide
  triviallyCopyable := false
  triviallyDestructible := false
  destructible := nofun
  keepsItself := true
  kept := fun _ => rfl

/-- A push onto a full buffer, a copy, and a move of what wraps around. -/
def testingCommands : List (Command Bool UInt8) :=
  [.operate true (.pushBack 1), .operate true (.pushBack 2), .operate true (.pushBack 3),
    .copyConstruct false true, .operate true .popFront, .operate false .front,
    .operate true (.tryPushFront 4), .moveAssign false true, .operate false .back,
    .operate true .size]

theorem circular_buffer_refines_deque_testing :
    (execute (machine testingConfig) testingCommands fun _ => .initial).1 =
        [.done, .done, .done, .done, .done, .element (some (.live 2)), .flag true, .done,
          .element (some (.live 3)), .count 0] ∧
      contents testingConfig ((execute (machine testingConfig) testingCommands fun _ => .initial).2 false) =
        [.live 4, .live 3] := by
  have respects : Respects (deques testingConfig) Command.Allowed testingCommands fun _ => [] := by
    simp [testingCommands, Respects, Command.Allowed, Operation.Allowed, deques, Deque.update,
      Deque.pushBack, moved, testingConfig]
  obtain ⟨answers, buffers, _⟩ := circular_buffer_refines_deque testingCommands respects
  exact ⟨answers, (buffers false).2.2⟩

end Emblib.CircularBufferCopies

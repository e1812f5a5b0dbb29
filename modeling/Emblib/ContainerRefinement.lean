import Emblib.InplaceQueue
import Emblib.InplaceScripts

/-! The four containers with storage in place are bounded lists. A queue is a window of its ring that
never overwrites; a stack and a vector are rings that stay at their first slot. Copies and moves
keep the elements, whatever way the source has come to its position. -/
namespace Emblib.ContainerRefinement
open Programs Machines CircularBufferRefinement CircularBufferCopies
open Program (times timesDown)
open InplaceScripts (Kind Container QueueOperation StackOperation VectorOperation queuePerform stackPerform
  vectorPerform queueAllowed stackAllowed vectorAllowed bufferAllowed fresh)
open InplaceStorage hiding perform destroySlot

/-! ## The lists -/

/-- A queue is read at the front and grows at the back. -/
def queueUpdate (bound : Nat) : QueueOperation T → List T → Answer T × List T
  | .push value, elements => (.done, elements ++ [value])
  | .emplace value, elements => (.done, elements ++ [value])
  | .tryPush value, elements =>
    if elements.length = bound then (.flag false, elements) else (.flag true, elements ++ [value])
  | .pop, elements => (.done, elements.tail)
  | .tryPop, elements => (.element elements.head?, elements.tail)
  | .clear, _ => (.done, [])
  | .front, elements => (.element elements.head?, elements)
  | .back, elements => (.element elements.getLast?, elements)
  | .size, elements => (.count elements.length, elements)
  | .capacity, elements => (.count bound, elements)
  | .empty, elements => (.flag elements.isEmpty, elements)
  | .full, elements => (.flag (elements.length == bound), elements)

/-- The top of a stack is the end of the list. -/
def stackUpdate (bound : Nat) : StackOperation T → List T → Answer T × List T
  | .push value, elements => (.done, elements ++ [value])
  | .emplace value, elements => (.done, elements ++ [value])
  | .tryPush value, elements =>
    if elements.length = bound then (.flag false, elements) else (.flag true, elements ++ [value])
  | .pop, elements => (.done, elements.dropLast)
  | .tryPop, elements => (.element elements.getLast?, elements.dropLast)
  | .clear, _ => (.done, [])
  | .top, elements => (.element elements.getLast?, elements)
  | .size, elements => (.count elements.length, elements)
  | .capacity, elements => (.count bound, elements)
  | .empty, elements => (.flag elements.isEmpty, elements)
  | .full, elements => (.flag (elements.length == bound), elements)

def vectorUpdate (bound : Nat) : VectorOperation T → List T → Answer T × List T
  | .pushBack value, elements => (.done, elements ++ [value])
  | .emplaceBack value, elements => (.done, elements ++ [value])
  | .tryPushBack value, elements =>
    if elements.length = bound then (.flag false, elements) else (.flag true, elements ++ [value])
  | .popBack, elements => (.done, elements.dropLast)
  | .tryPopBack, elements => (.element elements.getLast?, elements.dropLast)
  | .clear, _ => (.done, [])
  | .get i, elements => (.element elements[i]?, elements)
  | .front, elements => (.element elements.head?, elements)
  | .back, elements => (.element elements.getLast?, elements)
  | .size, elements => (.count elements.length, elements)
  | .capacity, elements => (.count bound, elements)
  | .empty, elements => (.flag elements.isEmpty, elements)
  | .full, elements => (.flag (elements.length == bound), elements)

/-- What an operation means for the list of the elements. -/
def listUpdate (T : Type) (config : Config) : (kind : Kind) → (kind.container T config).Operation →
    List T → Answer T × List T
  | .circularBuffer => Deque.update config.capacity
  | .inplaceQueue => queueUpdate config.capacity
  | .inplaceStack => stackUpdate config.capacity
  | .inplaceVector => vectorUpdate config.capacity

/-! ## Stacks -/

/-- A ring that stays at its first slot. -/
structure Based (config : Config) (object : Object T) (elements : List T) : Prop
    extends Represents config object elements where
  based : object.front = 0

section Stack
variable {T : Type} {config : Config} {object : Object T} {elements : List T} {value : T}

theorem based_nil (front : object.front = 0) (size : object.size = 0) : Based config object [] where
  toRepresents := represents_nil front size
  based := front

/-- The slot at a position. -/
theorem based_slot (based : Based config object elements) (inside : i < config.capacity) :
    (object.front + i) % config.capacity = i := by
  rw [based.based, Nat.zero_add, Nat.mod_eq_of_lt inside]

theorem based_get (based : Based config object elements) (inside : i < object.size) :
    elements[i]?.map .live = some (object.slots i) := by
  have here := represents_get based.toRepresents inside
  rwa [based_slot based (Nat.lt_of_lt_of_le inside based.size)] at here

theorem based_first (based : Based config object elements) (pending : 0 < object.size) :
    elements.head?.map .live = some (object.slots 0) := by
  have first := represents_front based.toRepresents pending
  rwa [based.based] at first

theorem based_last (based : Based config object elements) (pending : 0 < object.size) :
    elements.getLast?.map .live = some (object.slots (object.size - 1)) := by
  have last := represents_back based.toRepresents pending
  rwa [based_slot based (Nat.lt_of_lt_of_le (Nat.sub_one_lt (Nat.pos_iff_ne_zero.mp pending)) based.size)]
    at last

@[simp] theorem run_stackDestroySlot (index : Nat) : run access (InplaceStack.destroySlot config index) object =
    ((), { object with
      slots := InplaceStorage.destroySlot config.triviallyDestructible object.slots index }) := by
  unfold InplaceStack.destroySlot InplaceStorage.destroySlot
  split <;> rfl

theorem emplace_based (value : T) (based : Based config object elements) (room : object.size ≠ config.capacity) :
    Based config (run access (InplaceStack.emplace config (.outside value)) object).2 (elements ++ [value]) := by
  have below : object.size < config.capacity := Nat.lt_of_le_of_ne based.size room
  have pushed := represents_pushBack value based.toRepresents below
  rw [based_slot based below] at pushed
  exact ⟨pushed, based.based⟩

theorem dropped_based {slots : Nat → Slot T} (based : Based config object elements) (pending : 0 < object.size)
    (same : ∀ k, k ≠ object.size - 1 → slots k = object.slots k) :
    Based config { object with slots, size := object.size - 1 } elements.dropLast where
  toRepresents := by
    apply represents_popBack based.toRepresents pending
    intro k different
    rw [based_slot based (Nat.lt_of_lt_of_le (Nat.sub_one_lt (Nat.pos_iff_ne_zero.mp pending)) based.size)]
      at different
    exact same k different
  based := based.based

theorem run_pop : run access (InplaceStack.pop config) object =
    ((), { object with
      size := object.size - 1
      slots := InplaceStorage.destroySlot config.triviallyDestructible object.slots (object.size - 1) }) := by
  simp [InplaceStack.pop, InplaceStack.size, access]

theorem pop_based (based : Based config object elements) (pending : 0 < object.size) :
    Based config (run access (InplaceStack.pop config) object).2 elements.dropLast := by
  rw [run_pop]
  exact dropped_based based pending fun k different => destroySlot_of_ne different

theorem tryPop_based (based : Based config object elements) :
    (run access (InplaceStack.tryPop config) object).1 = elements.getLast?.map .live ∧
      Based config (run access (InplaceStack.tryPop config) object).2 elements.dropLast := by
  have length := represents_length based.toRepresents
  by_cases none : object.size = 0
  · obtain rfl : elements = [] := List.eq_nil_of_length_eq_zero (by omega)
    simp only [InplaceStack.tryPop, InplaceStack.empty, InplaceStack.size, run_bind, run_perform, access, none,
      Program.pure_eq, run_pure, beq_self_eq_true, if_true]
    exact ⟨rfl, based⟩
  · have pending := Nat.pos_iff_ne_zero.mpr none
    simp only [InplaceStack.tryPop, InplaceStack.empty, InplaceStack.size, run_bind, run_perform, access,
      Program.pure_eq, run_pure, beq_iff_eq, none, if_false, run_pop]
    refine ⟨(based_last based pending).symm, dropped_based based pending fun k different => ?_⟩
    rw [destroySlot_of_ne different, Function.update_of_ne different]

/-- The loop destroys elements and does nothing else. -/
theorem stackClear_based (based : object.front = 0) :
    Based config (run access (InplaceStack.clear config) object).2 [] ∧
      (run access (InplaceStack.clear config) object).2.front = 0 ∧
      (run access (InplaceStack.clear config) object).2.size = 0 := by
  have issues (i : Nat) : (InplaceStack.destroySlot config i : Method T Unit).Issues
      fun request => ∃ index, request = .destroy index := by
    unfold InplaceStack.destroySlot
    split
    · trivial
    · exact ⟨⟨i, rfl⟩, fun _ => trivial⟩
  have front : (run access (timesDown object.size fun i => InplaceStack.destroySlot config i) object).2.front = 0 := by
    apply run_preserves (fun left : Object T => left.front = 0) _ _ (Program.issues_timesDown issues _) based
    rintro _ ⟨index, rfl⟩ left kept
    exact kept
  simp only [InplaceStack.clear, InplaceStack.size, run_bind, run_perform, access]
  exact ⟨based_nil front rfl, front, trivial⟩

end Stack

/-! ## One operation -/

/-- Each operation on an object answers as the list does and leaves it holding the new list. -/
def Refines (holds : Object T → List T → Prop) {O : Type} (allowed : O → Object T → Prop)
    (perform : O → Method T (Answer (Slot T))) (update : O → List T → Answer T × List T) : Prop :=
  ∀ op object elements, holds object elements → allowed op object →
    (run access (perform op) object).1 = (update op elements).1.map .live ∧
      holds (run access (perform op) object).2 (update op elements).2

section Operations
variable {T : Type} {config : Config} {object : Object T} {elements after : List T}
  {holds : Object T → List T → Prop}

theorem answered {A : Type} {method : Method T A} (answer : A → Answer (Slot T)) (expected : Answer T)
    (same : answer (run access method object).1 = expected.map .live)
    (held : holds (run access method object).2 after) :
    (run access (do return answer (← method)) object).1 = expected.map .live ∧
      holds (run access (do return answer (← method)) object).2 after := by
  rw [run_bind]
  exact ⟨same, held⟩

/-- A push that is made if there is room. -/
theorem tried {insert : Method T Unit} {value : T} (length : object.size = elements.length)
    (held : holds object elements)
    (pushed : object.size ≠ config.capacity → holds (run access insert object).2 (elements ++ [value])) :
    let attempt : Method T Bool := do
      if (← InplaceStorage.perform .size) == config.capacity then return false
      insert
      return true
    let next : Answer T × List T :=
      if elements.length = config.capacity then (.flag false, elements) else (.flag true, elements ++ [value])
    let answer : Method T (Answer (Slot T)) := do return .flag (← attempt)
    (run access answer object).1 = next.1.map .live ∧ holds (run access answer object).2 next.2 := by
  intro attempt next answer
  by_cases full : object.size = config.capacity
  · simp only [answer, attempt, next, run_bind, run_perform, access, full, ← length, beq_self_eq_true, if_true]
    exact ⟨rfl, held⟩
  · simp only [answer, attempt, next, run_bind, run_perform, access, full, ← length, beq_iff_eq, if_false]
    exact ⟨rfl, pushed full⟩

theorem empty_isEmpty (length : object.size = elements.length) : (object.size == 0) = elements.isEmpty := by
  rw [length]
  cases elements <;> rfl

theorem buffer_refines : Refines (T := T) (Represents config) bufferAllowed
    (CircularBufferRefinement.perform config) (Deque.update config.capacity) := by
  intro op buffer elements represents allowed
  apply perform_refines op represents
  have length := represents_length represents
  have present (pending : buffer.size ≠ 0) : elements ≠ [] := by
    rintro rfl
    exact pending length
  cases op with
  | popFront => exact present allowed
  | popBack => exact present allowed
  | front => exact present allowed
  | back => exact present allowed
  | get i =>
    have inside : i < buffer.size := allowed
    exact Nat.lt_of_lt_of_eq inside length
  | _ => trivial

theorem queue_refines : Refines (T := T) (Represents config) (queueAllowed config)
    (queuePerform config) (queueUpdate config.capacity) := by
  intro op queue elements represents allowed
  have length := represents_length represents
  have pushed (value : T) (room : queue.size ≠ config.capacity) :
      Represents config (run access (InplaceQueue.push config (.outside value)) queue).2 (elements ++ [value]) :=
    InplaceQueue.push_represents value represents (length ▸ Nat.lt_of_le_of_ne represents.size room)
  have done {method : Method T Unit} {after : List T}
      (held : Represents config (run access method queue).2 after) :=
    answered (fun _ => (.done : Answer (Slot T))) .done rfl held
  cases op with
  | push value => exact done (pushed value allowed)
  | emplace value => exact done (pushed value allowed)
  | tryPush value => exact tried length represents (pushed value)
  | pop => exact done (popFront_represents represents (Nat.pos_iff_ne_zero.mpr allowed))
  | tryPop =>
    obtain ⟨answer, popped⟩ := tryPopFront_represents represents
    exact answered .element (.element elements.head?) (congrArg Answer.element answer) popped
  | clear => exact done clear_represents
  | front =>
    have first := represents_front represents (Nat.pos_iff_ne_zero.mpr allowed)
    exact ⟨congrArg Answer.element first.symm, represents⟩
  | back =>
    have last := represents_back represents (Nat.pos_iff_ne_zero.mpr allowed)
    exact ⟨congrArg Answer.element last.symm, represents⟩
  | size => exact ⟨congrArg Answer.count length, represents⟩
  | capacity => exact ⟨rfl, represents⟩
  | empty => exact ⟨congrArg Answer.flag (empty_isEmpty length), represents⟩
  | full => exact ⟨congrArg (fun count => Answer.flag (count == config.capacity)) length, represents⟩

theorem stack_refines : Refines (T := T) (Based config) (stackAllowed config) (stackPerform config)
    (stackUpdate config.capacity) := by
  intro op stack elements based allowed
  have length := represents_length based.toRepresents
  have done {method : Method T Unit} {after : List T} (held : Based config (run access method stack).2 after) :=
    answered (fun _ => (.done : Answer (Slot T))) .done rfl held
  cases op with
  | push value => exact done (emplace_based value based allowed)
  | emplace value => exact done (emplace_based value based allowed)
  | tryPush value => exact tried length based (emplace_based value based)
  | pop => exact done (pop_based based (Nat.pos_iff_ne_zero.mpr allowed))
  | tryPop =>
    obtain ⟨answer, popped⟩ := tryPop_based based
    exact answered .element (.element elements.getLast?) (congrArg Answer.element answer) popped
  | clear => exact done (stackClear_based based.based).1
  | top => exact ⟨congrArg Answer.element (based_last based (Nat.pos_iff_ne_zero.mpr allowed)).symm, based⟩
  | size => exact ⟨congrArg Answer.count length, based⟩
  | capacity => exact ⟨rfl, based⟩
  | empty => exact ⟨congrArg Answer.flag (empty_isEmpty length), based⟩
  | full => exact ⟨congrArg (fun count => Answer.flag (count == config.capacity)) length, based⟩

theorem vector_refines : Refines (T := T) (Based config) (vectorAllowed config) (vectorPerform config)
    (vectorUpdate config.capacity) := by
  intro op vector elements based allowed
  have length := represents_length based.toRepresents
  have done {method : Method T Unit} {after : List T} (held : Based config (run access method vector).2 after) :=
    answered (fun _ => (.done : Answer (Slot T))) .done rfl held
  cases op with
  | pushBack value => exact done (emplace_based value based allowed)
  | emplaceBack value => exact done (emplace_based value based allowed)
  | tryPushBack value => exact tried length based (emplace_based value based)
  | popBack => exact done (pop_based based (Nat.pos_iff_ne_zero.mpr allowed))
  | tryPopBack =>
    obtain ⟨answer, popped⟩ := tryPop_based based
    exact answered .element (.element elements.getLast?) (congrArg Answer.element answer) popped
  | clear => exact done (stackClear_based based.based).1
  | get i => exact ⟨congrArg Answer.element (based_get based allowed).symm, based⟩
  | front => exact ⟨congrArg Answer.element (based_first based (Nat.pos_iff_ne_zero.mpr allowed)).symm, based⟩
  | back => exact ⟨congrArg Answer.element (based_last based (Nat.pos_iff_ne_zero.mpr allowed)).symm, based⟩
  | size => exact ⟨congrArg Answer.count length, based⟩
  | capacity => exact ⟨rfl, based⟩
  | empty => exact ⟨congrArg Answer.flag (empty_isEmpty length), based⟩
  | full => exact ⟨congrArg (fun count => Answer.flag (count == config.capacity)) length, based⟩

end Operations

/-! ## Copies and moves -/

/-- What the special member functions of a class are made of: a member function that empties an object,
and the loops that fill an empty object from another one. -/
structure Transfers (config : Config) (holds : Object T → List T → Prop) (clear : Method T Unit)
    (copyFrom moveFrom : {N : Type} → N → N → Code N T Unit) : Prop where
  nil : ∀ {object}, object.front = 0 → object.size = 0 → holds object []
  clear : ∀ {object elements}, holds object elements →
    (run access clear object).2.front = 0 ∧ (run access clear object).2.size = 0
  copies : ∀ {N : Type} [DecidableEq N] {this other : N} {start : N → Object T} {elements : List T},
    this ≠ other → holds (start other) elements → (start this).front = 0 → (start this).size = 0 →
      let after := (run (family access) (copyFrom this other) start).2
      holds (after this) elements ∧ ∀ name, name ≠ this → after name = start name
  moves : ∀ {N : Type} [DecidableEq N] {this other : N} {start : N → Object T} {elements : List T},
    this ≠ other → holds (start other) elements → (start this).front = 0 → (start this).size = 0 →
      let after := (run (family access) (moveFrom this other) start).2
      holds (after this) elements ∧ holds (after other) [] ∧
        ∀ name, name ≠ this → name ≠ other → after name = start name

section Loops
variable {N T : Type} [DecidableEq N] {config : Config} {this other : N} {elements : List T}
  {fetch : Nat → Method T (Slot T)} {start : N → Object T}

theorem ring_transfers : Transfers config (Represents config) (CircularBuffer.clear config : Method T Unit)
    (CircularBuffer.copyConstructFrom config) (CircularBuffer.moveConstructFrom config) where
  nil := represents_nil
  clear := fun _ => ⟨clear_front, clear_size⟩
  copies := by
    intro N _ this other start elements different represents front size
    obtain ⟨copied, _, apart⟩ := copyConstructFrom_represents different represents front size
    exact ⟨copied, apart⟩
  moves := by
    intro N _ this other start elements different represents front size
    obtain ⟨received, _, left, apart⟩ := moveConstructFrom_represents different represents front size
    exact ⟨received, left, apart⟩

/-- From a source that starts at the first slot the two loops do the same. -/
theorem constructFrom_agrees (different : this ≠ other) (fetches : Fetches fetch)
    (based : Based config (start other) elements) :
    run (family access) (InplaceStack.constructFrom fetch this other) start =
      run (family access) (CircularBuffer.constructFrom config fetch this other) start := by
  simp only [InplaceStack.constructFrom, CircularBuffer.constructFrom, InplaceStack.size, CircularBuffer.size,
    run_bind, run_on, run_perform, access, Function.update_eq_self]
  refine (run_times_congr (fun states : N → Object T => (states other).front = 0) ?_ based.based).1
  intro i below states front
  have slot : ((states other).front + i) % config.capacity = i := by
    rw [front, Nat.zero_add, Nat.mod_eq_of_lt (Nat.lt_of_lt_of_le below based.size)]
  obtain ⟨slots, fetched, _⟩ := fetches i (states other)
  simp only [run_bind, run_on, run_indexOf, slot, fetched, run_perform, access]
  refine ⟨trivial, ?_⟩
  rw [Function.update_of_ne different.symm, Function.update_self]
  exact front

theorem stack_transfers : Transfers config (Based config) (InplaceStack.clear config : Method T Unit)
    InplaceStack.copyConstructFrom (InplaceStack.moveConstructFrom config) where
  nil := based_nil
  clear := fun based => (stackClear_based based.based).2
  copies := by
    intro N _ this other start elements different based front size
    obtain ⟨copied, copiedFront, apart⟩ := copyConstructFrom_represents different based.toRepresents front size
    have agrees : run (family access) (InplaceStack.copyConstructFrom this other) start =
        run (family access) (CircularBuffer.copyConstructFrom config this other) start :=
      constructFrom_agrees different read_fetches based
    rw [agrees]
    exact ⟨⟨copied, copiedFront⟩, apart⟩
  moves := by
    intro N _ this other start elements different based front size
    have copying := constructFrom_copies different take_fetches based.toRepresents front size
    have built := copying.built
    rw [List.take_length] at built
    simp only [InplaceStack.moveConstructFrom, run_bind, run_on]
    rw [constructFrom_agrees different take_fetches based]
    refine ⟨?_, ?_, fun name notThis notOther => ?_⟩
    · rw [Function.update_of_ne different]
      exact ⟨built, copying.based⟩
    · rw [Function.update_self]
      exact (stackClear_based (copying.front.trans based.based)).1
    · rw [Function.update_of_ne notOther]
      exact copying.apart name notThis notOther

end Loops

/-- What a class makes of its lists: its operations, its constructors and its assignments. -/
structure Faithful (config : Config) (container : Container T) (holds : Object T → List T → Prop)
    (update : container.Operation → List T → Answer T × List T) : Prop where
  nil : holds .initial []
  perform : Refines holds container.allowed container.perform update
  copyConstruct : ∀ {N : Type} [DecidableEq N] {this other : N} {start : N → Object T} {elements : List T},
    this ≠ other → holds (start other) elements →
      let after := (run (family access) (container.copyConstruct this other) start).2
      holds (after this) elements ∧ ∀ name, name ≠ this → after name = start name
  moveConstruct : ∀ {N : Type} [DecidableEq N] {this other : N} {start : N → Object T} {elements : List T},
    this ≠ other → holds (start other) elements →
      let after := (run (family access) (container.moveConstruct this other) start).2
      holds (after this) elements ∧ holds (after other) (if config.triviallyCopyable then elements else []) ∧
        ∀ name, name ≠ this → name ≠ other → after name = start name
  copyAssign : ∀ {N : Type} [DecidableEq N] {this other : N} {start : N → Object T} {replaced elements : List T},
    holds (start this) replaced → holds (start other) elements →
      let after := (run (family access) (container.copyAssign this other) start).2
      holds (after this) elements ∧ ∀ name, name ≠ this → after name = start name
  moveAssign : ∀ {N : Type} [DecidableEq N] {this other : N} {start : N → Object T} {replaced elements : List T},
    this ≠ other → holds (start this) replaced → holds (start other) elements →
      let after := (run (family access) (container.moveAssign this other) start).2
      holds (after this) elements ∧ holds (after other) (if config.triviallyCopyable then elements else []) ∧
        ∀ name, name ≠ this → name ≠ other → after name = start name
  itself : ∀ {N : Type} [DecidableEq N] {this : N} {start : N → Object T},
    (run (family access) (container.moveAssign this this) start).2 = start

section Members
variable {N T : Type} [DecidableEq N] {config : Config} {holds : Object T → List T → Prop} {clear : Method T Unit}
  {copyFrom moveFrom : {N : Type} → N → N → Code N T Unit} {this other : N} {start : N → Object T}
  {replaced elements : List T}

/-- The bytes of the source, which keeps its elements. -/
theorem bitwise_holds (this : N) (held : holds (start other) elements) :
    let after := (run (family access) (CircularBuffer.bitwiseFrom this other) start).2
    holds (after this) elements ∧ ∀ name, name ≠ this → after name = start name := by
  simp only [run_bitwiseFrom]
  refine ⟨?_, fun name notThis => Function.update_of_ne notThis _ _⟩
  rw [Function.update_self]
  exact held

/-- The other object is as before, or has the elements still. -/
theorem bitwise_kept (different : this ≠ other) (held : holds (start other) elements) :
    let after := (run (family access) (CircularBuffer.bitwiseFrom this other) start).2
    holds (after this) elements ∧ holds (after other) elements ∧
      ∀ name, name ≠ this → name ≠ other → after name = start name := by
  obtain ⟨copied, apart⟩ := bitwise_holds this held
  exact ⟨copied, (apart other different.symm).symm ▸ held, fun name notThis _ => apart name notThis⟩

section Elementwise
variable (transfers : Transfers config holds clear copyFrom moveFrom)
include transfers

/-- An assignment destroys what it replaces. -/
theorem cleared_holds (different : this ≠ other) (old : holds (start this) replaced)
    (held : holds (start other) elements) :
    let cleared := (run (family access) (clear.on this) start).2
    holds (cleared other) elements ∧ (cleared this).front = 0 ∧ (cleared this).size = 0 ∧
      ∀ name, name ≠ this → cleared name = start name := by
  simp only [run_on]
  rw [Function.update_of_ne different.symm, Function.update_self]
  exact ⟨held, (transfers.clear old).1, (transfers.clear old).2,
    fun name notThis => Function.update_of_ne notThis _ _⟩

theorem copyConstruct_holds (different : this ≠ other) (held : holds (start other) elements) :
    let after := (run (family access) (do
      (InplaceStorage.perform (.setBytes .initial)).on this
      if config.triviallyCopyable then CircularBuffer.bitwiseFrom this other else copyFrom this other) start).2
    holds (after this) elements ∧ ∀ name, name ≠ this → after name = start name := by
  simp only [run_bind, run_on, run_perform, access]
  have source : Function.update start this .initial other = start other := Function.update_of_ne different.symm _ _
  have apart (name : N) (notThis : name ≠ this) : Function.update start this .initial name = start name :=
    Function.update_of_ne notThis _ _
  rw [← source] at held
  split
  case isTrue bitwise =>
    obtain ⟨copied, same⟩ := bitwise_holds this held
    exact ⟨copied, fun name notThis => (same name notThis).trans (apart name notThis)⟩
  case isFalse elementwise =>
    obtain ⟨copied, same⟩ := transfers.copies different held (by rw [Function.update_self]; rfl)
      (by rw [Function.update_self]; rfl)
    exact ⟨copied, fun name notThis => (same name notThis).trans (apart name notThis)⟩

theorem moveConstruct_holds (different : this ≠ other) (held : holds (start other) elements) :
    let after := (run (family access) (do
      (InplaceStorage.perform (.setBytes .initial)).on this
      if config.triviallyCopyable then CircularBuffer.bitwiseFrom this other else moveFrom this other) start).2
    holds (after this) elements ∧ holds (after other) (if config.triviallyCopyable then elements else []) ∧
      ∀ name, name ≠ this → name ≠ other → after name = start name := by
  simp only [run_bind, run_on, run_perform, access]
  have source : Function.update start this .initial other = start other := Function.update_of_ne different.symm _ _
  have apart (name : N) (notThis : name ≠ this) : Function.update start this .initial name = start name :=
    Function.update_of_ne notThis _ _
  rw [← source] at held
  split
  case isTrue bitwise =>
    obtain ⟨copied, kept, same⟩ := bitwise_kept different held
    exact ⟨copied, kept, fun name notThis notOther => (same name notThis notOther).trans (apart name notThis)⟩
  case isFalse elementwise =>
    obtain ⟨received, left, same⟩ := transfers.moves different held (by rw [Function.update_self]; rfl)
      (by rw [Function.update_self]; rfl)
    exact ⟨received, left, fun name notThis notOther => (same name notThis notOther).trans (apart name notThis)⟩

theorem copyAssign_holds (old : holds (start this) replaced) (held : holds (start other) elements) :
    let after := (run (family access)
      (if config.triviallyCopyable then CircularBuffer.bitwiseFrom this other
        else if this ≠ other then do clear.on this; copyFrom this other else pure ()) start).2
    holds (after this) elements ∧ ∀ name, name ≠ this → after name = start name := by
  split
  case isTrue bitwise => exact bitwise_holds this held
  case isFalse elementwise =>
    split
    case isTrue different =>
      obtain ⟨kept, front, size, apart⟩ := cleared_holds transfers different old held
      obtain ⟨copied, same⟩ := transfers.copies different kept front size
      rw [run_bind]
      exact ⟨copied, fun name notThis => (same name notThis).trans (apart name notThis)⟩
    case isFalse self =>
      cases not_not.mp self
      exact ⟨held, fun _ _ => rfl⟩

theorem moveAssign_holds (different : this ≠ other) (old : holds (start this) replaced)
    (held : holds (start other) elements) :
    let after := (run (family access)
      (if config.triviallyCopyable then CircularBuffer.bitwiseFrom this other
        else if this ≠ other then do clear.on this; moveFrom this other else pure ()) start).2
    holds (after this) elements ∧ holds (after other) (if config.triviallyCopyable then elements else []) ∧
      ∀ name, name ≠ this → name ≠ other → after name = start name := by
  split
  case isTrue bitwise => exact bitwise_kept different held
  case isFalse elementwise =>
    obtain ⟨kept, front, size, apart⟩ := cleared_holds transfers different old held
    obtain ⟨received, left, same⟩ := transfers.moves different kept front size
    rw [run_bind]
    exact ⟨received, left, fun name notThis notOther => (same name notThis notOther).trans (apart name notThis)⟩

end Elementwise

end Members

section Classes
variable {T : Type} {config : Config}

/-- A class with the special member functions of `circular_buffer`. -/
theorem ring_faithful (operations : Type) (allowed : operations → Object T → Prop)
    (perform : operations → Method T (Answer (Slot T))) (update : operations → List T → Answer T × List T)
    (refines : Refines (Represents config) allowed perform update) :
    Faithful config { Kind.circularBuffer.container T config with Operation := operations, allowed, perform }
      (Represents config) update where
  nil := represents_nil rfl rfl
  perform := refines
  copyConstruct := copyConstruct_holds ring_transfers
  moveConstruct := moveConstruct_holds ring_transfers
  copyAssign := copyAssign_holds ring_transfers
  moveAssign := moveAssign_holds ring_transfers
  itself := by
    intro N _ this start
    show (run (family access) (CircularBuffer.moveAssign config this this) start).2 = start
    unfold CircularBuffer.moveAssign
    split
    · rw [run_bitwiseFrom, Function.update_eq_self]
    · rw [if_neg (not_not.mpr rfl)]
      rfl

/-- A class with the special member functions of `inplace_stack`. -/
theorem stack_faithful (operations : Type) (allowed : operations → Object T → Prop)
    (perform : operations → Method T (Answer (Slot T))) (update : operations → List T → Answer T × List T)
    (refines : Refines (Based config) allowed perform update) :
    Faithful config { Kind.inplaceStack.container T config with Operation := operations, allowed, perform }
      (Based config) update where
  nil := based_nil rfl rfl
  perform := refines
  copyConstruct := copyConstruct_holds stack_transfers
  moveConstruct := moveConstruct_holds stack_transfers
  copyAssign := copyAssign_holds stack_transfers
  moveAssign := moveAssign_holds stack_transfers
  itself := by
    intro N _ this start
    show (run (family access) (InplaceStack.moveAssign config this this) start).2 = start
    unfold InplaceStack.moveAssign
    split
    · show (run (family access) (CircularBuffer.bitwiseFrom this this) start).2 = start
      rw [run_bitwiseFrom, Function.update_eq_self]
    · rw [if_neg (not_not.mpr rfl)]
      rfl

/-- What an object holds that has a list for its elements. -/
def Holds (config : Config) : Kind → Object T → List T → Prop
  | .circularBuffer => Represents config
  | .inplaceQueue => Represents config
  | .inplaceStack => Based config
  | .inplaceVector => Based config

theorem container_faithful (kind : Kind) :
    Faithful config (kind.container T config) (Holds config kind) (listUpdate T config kind) := by
  cases kind with
  | circularBuffer => exact ring_faithful _ _ _ _ buffer_refines
  | inplaceQueue => exact ring_faithful _ _ _ _ queue_refines
  | inplaceStack => exact stack_faithful _ _ _ _ stack_refines
  | inplaceVector => exact stack_faithful _ _ _ _ vector_refines

end Classes

/-! ## Scripts -/

section Scripts
variable {N T : Type} [DecidableEq N] {config : Config}

/-- The command on the lists. -/
def lists (config : Config) (kind : Kind) : InplaceScripts.Command N (kind.container T config).Operation →
    (N → List T) → Answer (Slot T) × (N → List T)
  | .operate this op, elements =>
    let (answer, after) := listUpdate T config kind op (elements this)
    (answer.map .live, Function.update elements this after)
  | .construct this, elements => (.done, Function.update elements this [])
  | .copyConstruct this other _, elements => (.done, Function.update elements this (elements other))
  | .moveConstruct this other _, elements => (.done, moved config this other elements)
  | .copyAssign this other, elements => (.done, Function.update elements this (elements other))
  | .moveAssign this other, elements =>
    (.done, if this = other then elements else moved config this other elements)

/-- Every object holds its list. -/
def Related (config : Config) (kind : Kind) (objects : N → Object T) (elements : N → List T) : Prop :=
  ∀ name, Holds config kind (objects name) (elements name)

variable {kind : Kind} {objects after : N → Object T} {elements : N → List T} {this other : N}

theorem related_update {object : Object T} {list : List T} (related : Related config kind objects elements)
    (held : Holds config kind object list) :
    Related config kind (Function.update objects this object) (Function.update elements this list) := by
  intro name
  by_cases same : name = this
  · subst same
    rw [Function.update_self, Function.update_self]
    exact held
  · rw [Function.update_of_ne same, Function.update_of_ne same]
    exact related name

theorem related_copied (related : Related config kind objects elements)
    (copied : Holds config kind (after this) (elements other) ∧ ∀ name, name ≠ this → after name = objects name) :
    Related config kind after (Function.update elements this (elements other)) := by
  intro name
  by_cases same : name = this
  · subst same
    rw [Function.update_self]
    exact copied.1
  · rw [Function.update_of_ne same, copied.2 name same]
    exact related name

theorem related_moved (related : Related config kind objects elements)
    (received : Holds config kind (after this) (elements other) ∧
      Holds config kind (after other) (if config.triviallyCopyable then elements other else []) ∧
      ∀ name, name ≠ this → name ≠ other → after name = objects name) :
    Related config kind after (moved config this other elements) := by
  obtain ⟨taken, left, apart⟩ := received
  intro name
  rw [moved]
  by_cases same : name = this
  · subst same
    rw [Function.update_self]
    exact taken
  · rw [Function.update_of_ne same]
    by_cases source : name = other
    · subst source
      rw [Function.update_self]
      exact left
    · rw [Function.update_of_ne source, apart name same source]
      exact related name

/-- One command on the objects is one command on the lists. -/
theorem machine_refines (command : InplaceScripts.Command N (kind.container T config).Operation)
    (allowed : command.Allowed (kind.container T config) objects) (related : Related config kind objects elements) :
    (InplaceScripts.machine (kind.container T config) command objects).1 = (lists config kind command elements).1 ∧
      Related config kind (InplaceScripts.machine (kind.container T config) command objects).2
        (lists config kind command elements).2 := by
  have faithful := @container_faithful T config kind
  -- what has been in an object that is destroyed does not matter
  have destroyed (this other : N) (different : this ≠ other) :
      (run (family access) ((kind.container T config).destructor.on this) objects).2 other = objects other := by
    rw [run_on]
    exact Function.update_of_ne different.symm _ _
  cases command with
  | operate this op =>
    obtain ⟨answer, held⟩ := faithful.perform op _ _ (related this) allowed
    simp only [InplaceScripts.machine, InplaceScripts.code, run_on]
    exact ⟨answer, related_update related held⟩
  | construct this =>
    simp only [InplaceScripts.machine, InplaceScripts.code, run_bind, run_on, run_perform, access,
      Function.update_idem]
    exact ⟨rfl, related_update related faithful.nil⟩
  | copyConstruct this other different =>
    have source := destroyed this other different
    have held := related other
    rw [← source] at held
    obtain ⟨copied, apart⟩ := faithful.copyConstruct different held
    simp only [InplaceScripts.machine, InplaceScripts.code, run_bind]
    refine ⟨rfl, related_copied related ⟨copied, fun name notThis => ?_⟩⟩
    exact (apart name notThis).trans (destroyed this name (Ne.symm notThis))
  | moveConstruct this other different =>
    have source := destroyed this other different
    have held := related other
    rw [← source] at held
    obtain ⟨received, left, apart⟩ := faithful.moveConstruct different held
    simp only [InplaceScripts.machine, InplaceScripts.code, run_bind]
    refine ⟨rfl, related_moved related ⟨received, left, fun name notThis notOther => ?_⟩⟩
    exact (apart name notThis notOther).trans (destroyed this name (Ne.symm notThis))
  | copyAssign this other =>
    simp only [InplaceScripts.machine, InplaceScripts.code, run_bind]
    exact ⟨rfl, related_copied related (faithful.copyAssign (related this) (related other))⟩
  | moveAssign this other =>
    simp only [InplaceScripts.machine, InplaceScripts.code, run_bind, lists]
    refine ⟨rfl, ?_⟩
    by_cases self : this = other
    · subst self
      rw [if_pos rfl, faithful.itself]
      exact related
    · rw [if_neg self]
      exact related_moved related (faithful.moveAssign self (related this) (related other))

end Scripts

/-- A push onto a full stack, a copy, a pop from the source and a move back into it. -/
def testingCommands :
    List (InplaceScripts.Command Bool (Kind.inplaceStack.container UInt8 testingConfig).Operation) :=
  [.operate true (StackOperation.push 1), .operate true (StackOperation.push 2),
    .operate true (StackOperation.tryPush 3), .copyConstruct false true Bool.false_ne_true,
    .operate true StackOperation.pop, .operate true StackOperation.top, .moveAssign true false,
    .operate true StackOperation.tryPop, .operate false StackOperation.size]

end Emblib.ContainerRefinement

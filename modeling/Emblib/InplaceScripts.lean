import Emblib.Library.Machine
import Emblib.CircularBufferCopies
import Emblib.InplaceLifetimes

/-! Scripts over any number of objects of one of the four containers: operations, copies and
moves, with elements that have to be destroyed. Each command does only what the slots allow
and leaves alive exactly the slots at the logical positions; what has been constructed in a
slot is destroyed once. -/
namespace Emblib.InplaceScripts
open Programs Machines SlotLifetimes InplaceLifetimes
open CircularBufferRefinement (Answer)
open InplaceStorage hiding perform

/-! ## Copies and moves -/

/-- Every object is exact before and after the code, which asks only for what the slots allow. -/
def CodeKeeps [DecidableEq N] (config : Config) (position : Nat → Nat → Nat) (code : Code N T A)
    (states : N → Object T) : Prop :=
  Obeys (family access) (At (Legal config)) code states ∧
    ∀ name, Exact config position ((run (family access) code states).2 name)

section Copies
variable {N T A B : Type} [DecidableEq N] {config : Config} {position : Nat → Nat → Nat} {this other : N}
  {get : Nat → Method T (Slot T)} {clear : Method T Unit} {states : N → Object T}

theorem codeKeeps_bind {code : Code N T A} {next : A → Code N T B}
    (first : CodeKeeps config position code states)
    (rest : CodeKeeps config position (next (run (family access) code states).1)
      (run (family access) code states).2) :
    CodeKeeps config position (code >>= next) states := by
  unfold CodeKeeps
  rw [obeys_bind, run_bind]
  exact ⟨⟨first.1, rest.1⟩, rest.2⟩

theorem codeKeeps_pure (value : A) (exact : ∀ name, Exact config position (states name)) :
    CodeKeeps config position (.pure value : Code N T A) states :=
  ⟨trivial, exact⟩

/-- One object changes to another one that is exact. -/
theorem exact_update {object : Object T} (exact : ∀ name, Exact config position (states name))
    (after : Exact config position object) (name : N) :
    Exact config position (Function.update states this object name) := by
  by_cases same : name = this
  · rw [same, Function.update_self]
    exact after
  · rw [Function.update_of_ne same]
    exact exact name

theorem codeKeeps_on {method : Method T A} (exact : ∀ name, Exact config position (states name))
    (keeps : Keeps config position method (states this)) :
    CodeKeeps config position (method.on this) states := by
  refine ⟨(obeys_at _ _ _).mpr keeps.1, fun name => ?_⟩
  rw [run_on]
  exact exact_update exact keeps.2 name

/-- A member function that destroys all elements. -/
def Clears (config : Config) (position : Nat → Nat → Nat) (clear : Method T Unit) : Prop :=
  ∀ object, Exact config position object → Obeys access (Legal config) clear object ∧
    Cleared config position (run access clear object).2

/-- The object has no elements, and every object is exact. -/
structure Ready (config : Config) (position : Nat → Nat → Nat) (this : N) (states : N → Object T) :
    Prop where
  exact : ∀ name, Exact config position (states name)
  cleared : Cleared config position (states this)

theorem clear_ready (clears : Clears config position clear)
    (exact : ∀ name, Exact config position (states name)) :
    Obeys (family access) (At (Legal config)) (clear.on this) states ∧
      Ready config position this (run (family access) (clear.on this) states).2 := by
  obtain ⟨obeys, cleared⟩ := clears _ (exact this)
  rw [run_on, obeys_at]
  refine ⟨obeys, exact_update exact (cleared_exact cleared), ?_⟩
  simp only [Function.update_self]
  exact cleared

/-- The storage of a new object is set up. -/
theorem fresh_ready (aligned : ∀ i, i < config.capacity → position 0 i = i)
    (ready : Ready config position this states) :
    Obeys (family access) (At (Legal config))
        ((InplaceStorage.perform (.setBytes .initial)).on this) states ∧
      Ready config position this
        (run (family access) ((InplaceStorage.perform (.setBytes .initial)).on this) states).2 := by
  have initial : Cleared config position (.initial : Object T) :=
    ⟨config.positive, rfl, fun _ => rfl, aligned⟩
  rw [run_on, obeys_at, obeys_perform]
  refine ⟨⟨ready.cleared.dead, fun _ => rfl⟩, exact_update ready.exact (cleared_exact initial), ?_⟩
  simp only [Function.update_self]
  exact initial

theorem copyFrom_keeps (different : this ≠ other) (gets : Gets config position get)
    (ready : Ready config position this states) :
    CodeKeeps config position (elementwise get this other) states := by
  obtain ⟨obeys, built, source, apart⟩ :=
    elementwise_keeps different gets (ready.exact other) ready.cleared
  refine ⟨obeys, fun name => ?_⟩
  by_cases isThis : name = this
  · rw [isThis]
    exact built
  · by_cases isOther : name = other
    · rw [isOther]
      exact source
    · rw [apart name isThis isOther]
      exact ready.exact name

/-- The source of a move has no elements afterwards. -/
theorem moveFrom_keeps (different : this ≠ other) (gets : Gets config position get)
    (clears : Clears config position clear) (ready : Ready config position this states) :
    let code := do elementwise get this other; clear.on other
    CodeKeeps config position code states ∧ ((run (family access) code states).2 other).size = 0 := by
  have copied := copyFrom_keeps different gets ready
  obtain ⟨obeys, after⟩ := @clear_ready _ _ _ _ _ other _ _ clears copied.2
  refine ⟨codeKeeps_bind copied ⟨obeys, after.exact⟩, ?_⟩
  rw [run_bind]
  exact after.cleared.size

/-! Constructors set up their storage; assignments destroy what they replace. -/

theorem copyConstruct_keeps (aligned : ∀ i, i < config.capacity → position 0 i = i)
    (different : this ≠ other)
    (gets : Gets config position get) (ready : Ready config position this states) :
    CodeKeeps config position
      (do (InplaceStorage.perform (.setBytes .initial)).on this; elementwise get this other) states := by
  obtain ⟨obeys, fresh⟩ := fresh_ready aligned ready
  exact codeKeeps_bind ⟨obeys, fresh.exact⟩ (copyFrom_keeps different gets fresh)

theorem moveConstruct_keeps (aligned : ∀ i, i < config.capacity → position 0 i = i)
    (different : this ≠ other)
    (gets : Gets config position get) (clears : Clears config position clear)
    (ready : Ready config position this states) :
    let code := do
      (InplaceStorage.perform (.setBytes .initial)).on this
      elementwise get this other
      clear.on other
    CodeKeeps config position code states ∧ ((run (family access) code states).2 other).size = 0 := by
  obtain ⟨obeys, fresh⟩ := fresh_ready aligned ready
  obtain ⟨keeps, empty⟩ := moveFrom_keeps different gets clears fresh
  refine ⟨codeKeeps_bind ⟨obeys, fresh.exact⟩ keeps, ?_⟩
  rw [run_bind]
  exact empty

theorem copyAssign_keeps (gets : Gets config position get) (clears : Clears config position clear)
    (exact : ∀ name, Exact config position (states name)) :
    CodeKeeps config position
      (if this ≠ other then do clear.on this; elementwise get this other else .pure ()) states := by
  by_cases self : this = other
  · rw [if_neg (not_not.mpr self)]
    exact codeKeeps_pure () exact
  · obtain ⟨obeys, ready⟩ := clear_ready clears exact
    rw [if_pos self]
    exact codeKeeps_bind ⟨obeys, ready.exact⟩ (copyFrom_keeps self gets ready)

theorem moveAssign_keeps (gets : Gets config position get) (clears : Clears config position clear)
    (exact : ∀ name, Exact config position (states name)) :
    let code := if this ≠ other then do clear.on this; elementwise get this other; clear.on other else .pure ()
    CodeKeeps config position code states ∧
      (this ≠ other → ((run (family access) code states).2 other).size = 0) := by
  by_cases self : this = other
  · rw [if_neg (not_not.mpr self)]
    exact ⟨codeKeeps_pure () exact, fun different => absurd self different⟩
  · obtain ⟨obeys, ready⟩ := clear_ready clears exact
    obtain ⟨keeps, empty⟩ := moveFrom_keeps self gets clears ready
    rw [if_pos self]
    refine ⟨codeKeeps_bind ⟨obeys, ready.exact⟩ keeps, fun _ => ?_⟩
    rw [run_bind]
    exact empty

end Copies

section Families
variable {T : Type} {config : Config}

/-- Elements that have to be destroyed are copied one by one. -/
theorem elements_copied (nontrivial : config.triviallyDestructible = false) :
    config.triviallyCopyable = false := by
  cases bitwise : config.triviallyCopyable with
  | false => rfl
  | true => exact (config.destructible bitwise).symm.trans nontrivial

theorem ring_reads : Gets config (ring config) fun i =>
    (do InplaceStorage.perform (.read (← CircularBuffer.indexOf config i)) : Method T (Slot T)) := by
  intro i object exact below
  refine ⟨⟨⟨trivial, ⟨ring_lt _ _, ring_alive exact below⟩, trivial⟩, exact⟩, ring_alive exact below, rfl⟩

theorem ring_takes : Gets config (ring config) fun i =>
    (do InplaceStorage.perform (.take (← CircularBuffer.indexOf config i)) : Method T (Slot T)) := by
  intro i object exact below
  exact ⟨⟨⟨trivial, ⟨ring_lt _ _, ring_alive exact below⟩, trivial⟩, ring_taken exact below⟩,
    ring_alive exact below, rfl⟩

theorem linear_reads : Gets config linear fun i =>
    (InplaceStorage.perform (.read i) : Method T (Slot T)) := by
  intro i object exact below
  exact ⟨⟨⟨linear_alive exact below, trivial⟩, exact⟩, (linear_alive exact below).2, rfl⟩

theorem linear_takes : Gets config linear fun i =>
    (InplaceStorage.perform (.take i) : Method T (Slot T)) := by
  intro i object exact below
  exact ⟨⟨⟨linear_alive exact below, trivial⟩, linear_taken exact below⟩, (linear_alive exact below).2, rfl⟩

end Families

/-! ## The containers -/

/-- What a script uses of a class: how its operations are called and when they may be, its
destructor, its other constructors and its assignments. -/
structure Container (T : Type) where
  Operation : Type
  position : Nat → Nat → Nat
  allowed : Operation → Object T → Prop
  perform : Operation → Method T (Answer (Slot T))
  destructor : Method T Unit
  copyConstruct : {N : Type} → N → N → Code N T Unit
  moveConstruct : {N : Type} → N → N → Code N T Unit
  copyAssign : {N : Type} → [DecidableEq N] → N → N → Code N T Unit
  moveAssign : {N : Type} → [DecidableEq N] → N → N → Code N T Unit

inductive QueueOperation (T : Type) where
  | push (value : T)
  | emplace (value : T)
  | tryPush (value : T)
  | pop
  | tryPop
  | clear
  | front
  | back
  | size
  | capacity
  | empty
  | full

inductive StackOperation (T : Type) where
  | push (value : T)
  | emplace (value : T)
  | tryPush (value : T)
  | pop
  | tryPop
  | clear
  | top
  | size
  | capacity
  | empty
  | full

inductive VectorOperation (T : Type) where
  | pushBack (value : T)
  | emplaceBack (value : T)
  | tryPushBack (value : T)
  | popBack
  | tryPopBack
  | clear
  | get (i : Nat)
  | front
  | back
  | size
  | capacity
  | empty
  | full

open CircularBufferRefinement (Operation)

/-- The `ASSUME`s of the source, by operation. -/
def bufferAllowed : Operation T → Object T → Prop
  | .popFront, object => object.size ≠ 0
  | .popBack, object => object.size ≠ 0
  | .front, object => object.size ≠ 0
  | .back, object => object.size ≠ 0
  | .get i, object => i < object.size
  | _, _ => True

def queueAllowed (config : Config) : QueueOperation T → Object T → Prop
  | .push _, object => object.size ≠ config.capacity
  | .emplace _, object => object.size ≠ config.capacity
  | .pop, object => object.size ≠ 0
  | .front, object => object.size ≠ 0
  | .back, object => object.size ≠ 0
  | _, _ => True

def stackAllowed (config : Config) : StackOperation T → Object T → Prop
  | .push _, object => object.size ≠ config.capacity
  | .emplace _, object => object.size ≠ config.capacity
  | .pop, object => object.size ≠ 0
  | .top, object => object.size ≠ 0
  | _, _ => True

def vectorAllowed (config : Config) : VectorOperation T → Object T → Prop
  | .pushBack _, object => object.size ≠ config.capacity
  | .emplaceBack _, object => object.size ≠ config.capacity
  | .popBack, object => object.size ≠ 0
  | .get i, object => i < object.size
  | .front, object => object.size ≠ 0
  | .back, object => object.size ≠ 0
  | _, _ => True

def queuePerform (config : Config) : QueueOperation T → Method T (Answer (Slot T))
  | .push value => do InplaceQueue.push config (.outside value); return .done
  | .emplace value => do InplaceQueue.emplace config (.outside value); return .done
  | .tryPush value => do return .flag (← InplaceQueue.tryPush config (.outside value))
  | .pop => do InplaceQueue.pop config; return .done
  | .tryPop => do return .element (← InplaceQueue.tryPop config)
  | .clear => do InplaceQueue.clear config; return .done
  | .front => do return .element (some (← InplaceQueue.front))
  | .back => do return .element (some (← InplaceQueue.back config))
  | .size => do return .count (← InplaceQueue.size)
  | .capacity => do return .count (← InplaceQueue.capacity config)
  | .empty => do return .flag (← InplaceQueue.empty)
  | .full => do return .flag (← InplaceQueue.full config)

def stackPerform (config : Config) : StackOperation T → Method T (Answer (Slot T))
  | .push value => do InplaceStack.push config (.outside value); return .done
  | .emplace value => do InplaceStack.emplace config (.outside value); return .done
  | .tryPush value => do return .flag (← InplaceStack.tryPush config (.outside value))
  | .pop => do InplaceStack.pop config; return .done
  | .tryPop => do return .element (← InplaceStack.tryPop config)
  | .clear => do InplaceStack.clear config; return .done
  | .top => do return .element (some (← InplaceStack.top))
  | .size => do return .count (← InplaceStack.size)
  | .capacity => do return .count (← InplaceStack.capacity config)
  | .empty => do return .flag (← InplaceStack.empty)
  | .full => do return .flag (← InplaceStack.full config)

def vectorPerform (config : Config) : VectorOperation T → Method T (Answer (Slot T))
  | .pushBack value => do InplaceVector.pushBack config (.outside value); return .done
  | .emplaceBack value => do InplaceVector.emplaceBack config (.outside value); return .done
  | .tryPushBack value => do return .flag (← InplaceVector.tryPushBack config (.outside value))
  | .popBack => do InplaceVector.popBack config; return .done
  | .tryPopBack => do return .element (← InplaceVector.tryPopBack config)
  | .clear => do InplaceVector.clear config; return .done
  | .get i => do return .element (some (← InplaceVector.get i))
  | .front => do return .element (some (← InplaceVector.front))
  | .back => do return .element (some (← InplaceVector.back))
  | .size => do return .count (← InplaceVector.size)
  | .capacity => do return .count (← InplaceVector.capacity config)
  | .empty => do return .flag (← InplaceVector.empty)
  | .full => do return .flag (← InplaceVector.full config)

inductive Kind where
  | circularBuffer
  | inplaceQueue
  | inplaceStack
  | inplaceVector

def Kind.container (T : Type) (config : Config) : Kind → Container T
  | .circularBuffer =>
    { Operation := Operation T, position := ring config, allowed := bufferAllowed
      perform := CircularBufferRefinement.perform config
      destructor := CircularBuffer.destructor config
      copyConstruct := CircularBuffer.copyConstruct config
      moveConstruct := CircularBuffer.moveConstruct config
      copyAssign := CircularBuffer.copyAssign config
      moveAssign := CircularBuffer.moveAssign config }
  | .inplaceQueue =>
    { Operation := QueueOperation T, position := ring config, allowed := queueAllowed config
      perform := queuePerform config
      destructor := InplaceQueue.destructor config
      copyConstruct := InplaceQueue.copyConstruct config
      moveConstruct := InplaceQueue.moveConstruct config
      copyAssign := InplaceQueue.copyAssign config
      moveAssign := InplaceQueue.moveAssign config }
  | .inplaceStack =>
    { Operation := StackOperation T, position := linear, allowed := stackAllowed config
      perform := stackPerform config
      destructor := InplaceStack.destructor config
      copyConstruct := InplaceStack.copyConstruct config
      moveConstruct := InplaceStack.moveConstruct config
      copyAssign := InplaceStack.copyAssign config
      moveAssign := InplaceStack.moveAssign config }
  | .inplaceVector =>
    { Operation := VectorOperation T, position := linear, allowed := vectorAllowed config
      perform := vectorPerform config
      destructor := InplaceVector.destructor config
      copyConstruct := InplaceVector.copyConstruct config
      moveConstruct := InplaceVector.moveConstruct config
      copyAssign := InplaceVector.copyAssign config
      moveAssign := InplaceVector.moveAssign config }

/-- Every member function does only what the slots allow, and leaves alive exactly those at
the logical positions. The source of a move is left empty. -/
structure Disciplined (config : Config) (container : Container T) : Prop where
  perform : ∀ op object, Exact config container.position object → container.allowed op object →
    Keeps config container.position (container.perform op) object
  destructor : Clears config container.position container.destructor
  aligned : ∀ i, i < config.capacity → container.position 0 i = i
  copyConstruct : ∀ {N : Type} [DecidableEq N] {this other : N} {states : N → Object T}, this ≠ other →
    Ready config container.position this states →
      CodeKeeps config container.position (container.copyConstruct this other) states
  moveConstruct : ∀ {N : Type} [DecidableEq N] {this other : N} {states : N → Object T}, this ≠ other →
    Ready config container.position this states →
      CodeKeeps config container.position (container.moveConstruct this other) states ∧
        ((run (family access) (container.moveConstruct this other) states).2 other).size = 0
  copyAssign : ∀ {N : Type} [DecidableEq N] {this other : N} {states : N → Object T},
    (∀ name, Exact config container.position (states name)) →
      CodeKeeps config container.position (container.copyAssign this other) states
  moveAssign : ∀ {N : Type} [DecidableEq N] {this other : N} {states : N → Object T},
    (∀ name, Exact config container.position (states name)) →
      CodeKeeps config container.position (container.moveAssign this other) states ∧
        (this ≠ other → ((run (family access) (container.moveAssign this other) states).2 other).size = 0)

section Disciplined
variable {T : Type} {config : Config} (nontrivial : config.triviallyDestructible = false)
include nontrivial

theorem ring_clears : Clears config (ring config) (CircularBuffer.clear config : Method T Unit) :=
  fun _ exact => clear_cleared nontrivial exact

theorem stack_clears : Clears config linear (InplaceStack.clear config : Method T Unit) :=
  fun _ exact => stackClear_cleared nontrivial exact

/-- A container with the special member functions of `circular_buffer`. -/
theorem ring_disciplined (operations : Type) (allowed : operations → Object T → Prop)
    (perform : operations → Method T (Answer (Slot T)))
    (keeps : ∀ op object, Exact config (ring config) object → allowed op object →
      Keeps config (ring config) (perform op) object) :
    Disciplined config
      { Kind.circularBuffer.container T config with Operation := operations, allowed, perform } where
  perform := keeps
  destructor := by
    simp only [Kind.container, CircularBuffer.destructor, nontrivial]
    exact ring_clears nontrivial
  aligned := fun i below => ring_aligned below
  copyConstruct := fun different ready => by
    simp only [Kind.container, CircularBuffer.copyConstruct, elements_copied nontrivial]
    exact copyConstruct_keeps (fun i below => ring_aligned below) different ring_reads ready
  moveConstruct := fun different ready => by
    simp only [Kind.container, CircularBuffer.moveConstruct, elements_copied nontrivial]
    exact moveConstruct_keeps (fun i below => ring_aligned below) different ring_takes
      (ring_clears nontrivial) ready
  copyAssign := fun exact => by
    simp only [Kind.container, CircularBuffer.copyAssign, elements_copied nontrivial]
    exact copyAssign_keeps ring_reads (ring_clears nontrivial) exact
  moveAssign := fun exact => by
    simp only [Kind.container, CircularBuffer.moveAssign, elements_copied nontrivial]
    exact moveAssign_keeps ring_takes (ring_clears nontrivial) exact

/-- A container with the special member functions of `inplace_stack`. -/
theorem stack_disciplined (operations : Type) (allowed : operations → Object T → Prop)
    (perform : operations → Method T (Answer (Slot T)))
    (keeps : ∀ op object, Exact config linear object → allowed op object →
      Keeps config linear (perform op) object) :
    Disciplined config
      { Kind.inplaceStack.container T config with Operation := operations, allowed, perform } where
  perform := keeps
  destructor := by
    simp only [Kind.container, InplaceStack.destructor, nontrivial]
    exact stack_clears nontrivial
  aligned := fun i _ => rfl
  copyConstruct := fun different ready => by
    simp only [Kind.container, InplaceStack.copyConstruct, elements_copied nontrivial]
    exact copyConstruct_keeps (fun i _ => rfl) different linear_reads ready
  moveConstruct := fun different ready => by
    simp only [Kind.container, InplaceStack.moveConstruct, elements_copied nontrivial]
    exact moveConstruct_keeps (fun i _ => rfl) different linear_takes (stack_clears nontrivial) ready
  copyAssign := fun exact => by
    simp only [Kind.container, InplaceStack.copyAssign, elements_copied nontrivial]
    exact copyAssign_keeps linear_reads (stack_clears nontrivial) exact
  moveAssign := fun exact => by
    simp only [Kind.container, InplaceStack.moveAssign, elements_copied nontrivial]
    exact moveAssign_keeps linear_takes (stack_clears nontrivial) exact

theorem buffer_keeps (op : Operation T) (object : Object T) (exact : Exact config (ring config) object)
    (allowed : bufferAllowed op object) :
    Keeps config (ring config) (CircularBufferRefinement.perform config op) object := by
  have done {A : Type} {method : Method T A} (answer : A → Answer (Slot T))
      (keeps : Keeps config (ring config) method object) := keeps_answer answer keeps
  cases op with
  | pushBack value => exact done (fun _ => .done) (pushBack_keeps nontrivial value exact)
  | pushFront value => exact done (fun _ => .done) (pushFront_keeps nontrivial value exact)
  | emplaceBack value => exact done (fun _ => .done) (pushBack_keeps nontrivial value exact)
  | emplaceFront value => exact done (fun _ => .done) (pushFront_keeps nontrivial value exact)
  | tryPushBack value =>
    exact done .flag (keeps_try rfl ⟨trivial, trivial⟩ exact fun _ => pushBack_keeps nontrivial value exact)
  | tryPushFront value =>
    exact done .flag (keeps_try rfl ⟨trivial, trivial⟩ exact fun _ => pushFront_keeps nontrivial value exact)
  | popFront => exact done (fun _ => .done) (popFront_keeps nontrivial exact allowed)
  | popBack => exact done (fun _ => .done) (popBack_keeps nontrivial exact allowed)
  | tryPopFront => exact done .element (tryPopFront_keeps nontrivial exact)
  | tryPopBack => exact done .element (tryPopBack_keeps nontrivial exact)
  | fill value => exact done (fun _ => .done) (fill_keeps nontrivial value exact)
  | clear => exact done (fun _ => .done) (clear_keeps nontrivial exact)
  | front => exact done (fun found => .element (some found)) (front_keeps exact allowed)
  | back => exact done (fun found => .element (some found)) (back_keeps exact allowed)
  | get i => exact done (fun found => .element (some found)) (get_keeps exact allowed)
  | size => exact ⟨⟨trivial, trivial⟩, exact⟩
  | capacity => exact ⟨trivial, exact⟩
  | empty => exact ⟨⟨trivial, trivial⟩, exact⟩
  | full => exact ⟨⟨trivial, trivial⟩, exact⟩

theorem queue_keeps (op : QueueOperation T) (object : Object T)
    (exact : Exact config (ring config) object)
    (allowed : queueAllowed config op object) :
    Keeps config (ring config) (queuePerform config op) object := by
  have done {A : Type} {method : Method T A} (answer : A → Answer (Slot T))
      (keeps : Keeps config (ring config) method object) := keeps_answer answer keeps
  cases op with
  | push value => exact done (fun _ => .done) (queueEmplace_keeps value exact allowed)
  | emplace value => exact done (fun _ => .done) (queueEmplace_keeps value exact allowed)
  | tryPush value =>
    refine done .flag (keeps_try rfl ⟨trivial, trivial⟩ exact fun room => ?_)
    exact queueEmplace_keeps value exact (beq_eq_false_iff_ne.mp room)
  | pop => exact done (fun _ => .done) (popFront_keeps nontrivial exact allowed)
  | tryPop => exact done .element (tryPopFront_keeps nontrivial exact)
  | clear => exact done (fun _ => .done) (clear_keeps nontrivial exact)
  | front => exact done (fun found => .element (some found)) (front_keeps exact allowed)
  | back => exact done (fun found => .element (some found)) (back_keeps exact allowed)
  | size => exact ⟨⟨trivial, trivial⟩, exact⟩
  | capacity => exact ⟨trivial, exact⟩
  | empty => exact ⟨⟨trivial, trivial⟩, exact⟩
  | full => exact ⟨⟨trivial, trivial⟩, exact⟩

theorem stack_keeps (op : StackOperation T) (object : Object T) (exact : Exact config linear object)
    (allowed : stackAllowed config op object) : Keeps config linear (stackPerform config op) object := by
  have done {A : Type} {method : Method T A} (answer : A → Answer (Slot T))
      (keeps : Keeps config linear method object) := keeps_answer answer keeps
  cases op with
  | push value => exact done (fun _ => .done) (emplace_keeps value exact allowed)
  | emplace value => exact done (fun _ => .done) (emplace_keeps value exact allowed)
  | tryPush value =>
    refine done .flag (keeps_try rfl ⟨trivial, trivial⟩ exact fun room => ?_)
    exact emplace_keeps value exact (beq_eq_false_iff_ne.mp room)
  | pop => exact done (fun _ => .done) (pop_keeps nontrivial exact allowed)
  | tryPop => exact done .element (tryPop_keeps nontrivial exact)
  | clear => exact done (fun _ => .done) (stackClear_keeps nontrivial exact)
  | top => exact done (fun found => .element (some found)) (top_keeps exact allowed)
  | size => exact ⟨⟨trivial, trivial⟩, exact⟩
  | capacity => exact ⟨trivial, exact⟩
  | empty => exact ⟨⟨trivial, trivial⟩, exact⟩
  | full => exact ⟨⟨trivial, trivial⟩, exact⟩

theorem vector_keeps (op : VectorOperation T) (object : Object T) (exact : Exact config linear object)
    (allowed : vectorAllowed config op object) :
    Keeps config linear (vectorPerform config op) object := by
  have done {A : Type} {method : Method T A} (answer : A → Answer (Slot T))
      (keeps : Keeps config linear method object) := keeps_answer answer keeps
  cases op with
  | pushBack value => exact done (fun _ => .done) (emplace_keeps value exact allowed)
  | emplaceBack value => exact done (fun _ => .done) (emplace_keeps value exact allowed)
  | tryPushBack value =>
    refine done .flag (keeps_try rfl ⟨trivial, trivial⟩ exact fun room => ?_)
    exact emplace_keeps value exact (beq_eq_false_iff_ne.mp room)
  | popBack => exact done (fun _ => .done) (pop_keeps nontrivial exact allowed)
  | tryPopBack => exact done .element (tryPop_keeps nontrivial exact)
  | clear => exact done (fun _ => .done) (stackClear_keeps nontrivial exact)
  | get i => exact done (fun found => .element (some found)) (vectorGet_keeps exact allowed)
  | front => exact done (fun found => .element (some found)) (vectorFront_keeps exact allowed)
  | back => exact done (fun found => .element (some found)) (top_keeps exact allowed)
  | size => exact ⟨⟨trivial, trivial⟩, exact⟩
  | capacity => exact ⟨trivial, exact⟩
  | empty => exact ⟨⟨trivial, trivial⟩, exact⟩
  | full => exact ⟨⟨trivial, trivial⟩, exact⟩

theorem container_disciplined (kind : Kind) : Disciplined config (kind.container T config) := by
  cases kind with
  | circularBuffer => exact ring_disciplined nontrivial _ _ _ (buffer_keeps nontrivial)
  | inplaceQueue => exact ring_disciplined nontrivial _ _ _ (queue_keeps nontrivial)
  | inplaceStack => exact stack_disciplined nontrivial _ _ _ (stack_keeps nontrivial)
  | inplaceVector => exact stack_disciplined nontrivial _ _ _ (vector_keeps nontrivial)

end Disciplined
/-! ## Scripts -/

/-- An object is not constructed from itself. -/
inductive Command (N O : Type) where
  | operate (this : N) (op : O)
  | construct (this : N)
  | copyConstruct (this other : N) (different : this ≠ other)
  | moveConstruct (this other : N) (different : this ≠ other)
  | copyAssign (this other : N)
  | moveAssign (this other : N)

section Scripts
variable {N T : Type} [DecidableEq N] {config : Config}

/-- The command. An object that is constructed anew has been destroyed before. -/
def code (container : Container T) : Command N container.Operation → Code N T (Answer (Slot T))
  | .operate this op => (container.perform op).on this
  | .construct this => do
    container.destructor.on this
    (InplaceStorage.perform (.setBytes .initial)).on this
    return .done
  | .copyConstruct this other _ => do
    container.destructor.on this
    container.copyConstruct this other
    return .done
  | .moveConstruct this other _ => do
    container.destructor.on this
    container.moveConstruct this other
    return .done
  | .copyAssign this other => do container.copyAssign this other; return .done
  | .moveAssign this other => do container.moveAssign this other; return .done

def Command.Allowed (container : Container T) :
    Command N container.Operation → (N → Object T) → Prop
  | .operate this op, states => container.allowed op (states this)
  | _, _ => True

def machine (container : Container T) (command : Command N container.Operation) (states : N → Object T) :
    Answer (Slot T) × (N → Object T) :=
  run (family access) (code container command) states

/-- The commands in turn. -/
def script (container : Container T) : List (Command N container.Operation) → Code N T Unit
  | [] => .pure ()
  | command :: commands => do
    let _ ← code container command
    script container commands

/-- New objects. -/
def fresh (_ : N) : Object T := .initial

variable {container : Container T} {states : N → Object T}

theorem done_keeps {code : Code N T Unit} (keeps : CodeKeeps config container.position code states) :
    CodeKeeps config container.position (do code; return (.done : Answer (Slot T))) states :=
  codeKeeps_bind keeps (codeKeeps_pure _ keeps.2)

/-- One command. -/
theorem code_keeps (disciplined : Disciplined config container) (command : Command N container.Operation)
    (exact : ∀ name, Exact config container.position (states name))
    (allowed : command.Allowed container states) :
    CodeKeeps config container.position (code container command) states := by
  cases command with
  | operate this op => exact codeKeeps_on exact (disciplined.perform op _ (exact this) allowed)
  | construct this =>
    obtain ⟨destroys, ready⟩ := @clear_ready _ _ _ _ _ this _ _ disciplined.destructor exact
    obtain ⟨obeys, after⟩ := fresh_ready disciplined.aligned ready
    exact codeKeeps_bind ⟨destroys, ready.exact⟩ (done_keeps ⟨obeys, after.exact⟩)
  | copyConstruct this other different =>
    obtain ⟨destroys, ready⟩ := clear_ready disciplined.destructor exact
    exact codeKeeps_bind ⟨destroys, ready.exact⟩ (done_keeps (disciplined.copyConstruct different ready))
  | moveConstruct this other different =>
    obtain ⟨destroys, ready⟩ := clear_ready disciplined.destructor exact
    exact codeKeeps_bind ⟨destroys, ready.exact⟩ (done_keeps (disciplined.moveConstruct different ready).1)
  | copyAssign this other => exact done_keeps (disciplined.copyAssign exact)
  | moveAssign this other => exact done_keeps (disciplined.moveAssign exact).1

/-- All commands of a script. -/
theorem script_keeps (disciplined : Disciplined config container)
    (commands : List (Command N container.Operation))
    (exact : ∀ name, Exact config container.position (states name))
    (respects : Respects (machine container) (Command.Allowed container) commands states) :
    CodeKeeps config container.position (script container commands) states := by
  induction commands generalizing states with
  | nil => exact codeKeeps_pure () exact
  | cons command commands ih =>
    have first := code_keeps disciplined command exact respects.1
    exact codeKeeps_bind first (ih first.2 respects.2)

theorem respects_earlier {earlier commands : List (Command N container.Operation)}
    (prior : earlier <+: commands)
    (respects : Respects (machine container) (Command.Allowed container) commands states) :
    Respects (machine container) (Command.Allowed container) earlier states := by
  induction earlier generalizing states commands with
  | nil => trivial
  | cons command earlier ih =>
    obtain ⟨rest, rfl⟩ := prior
    exact ⟨respects.1, ih (List.prefix_append _ _) respects.2⟩

/-- The source of a move. -/
theorem moved_empty (disciplined : Disciplined config container) {this other : N}
    (different : this ≠ other) (exact : ∀ name, Exact config container.position (states name)) :
    ((machine container (.moveConstruct this other different) states).2 other).size = 0 ∧
      ((machine container (.moveAssign this other) states).2 other).size = 0 := by
  obtain ⟨_, ready⟩ := @clear_ready _ _ _ _ _ this _ _ disciplined.destructor exact
  simp only [machine, code, run_bind]
  exact ⟨(disciplined.moveConstruct different ready).2, (disciplined.moveAssign exact).2 different⟩

/-- **Slot lifetimes are exact.** Whatever a script does with objects of one of the four
classes, within the preconditions: every element is constructed in a dead slot, and every
element that is destroyed, read or moved from is alive, the destructor at the end included;
at every boundary between commands the slots that are alive are exactly those at the logical
positions; an object that has been moved from is empty; and when an object is destroyed, the
history of each of its slots is constructions each followed by its destruction. -/
theorem slot_lifetimes_exact (nontrivial : config.triviallyDestructible = false) (kind : Kind)
    (commands : List (Command N (kind.container T config).Operation))
    (respects : Respects (machine (kind.container T config)) (Command.Allowed (kind.container T config))
      commands fresh) (last : N) :
    let container := kind.container T config
    let whole : Code N T Unit := do script container commands; container.destructor.on last
    Obeys (family access) (At (Legal config)) whole fresh ∧
      (∀ earlier, earlier <+: commands →
        let after := (run (family access) (script container earlier) fresh).2
        (∀ name, (after name).size ≤ config.capacity ∧ ∀ k, (after name).slots k ≠ .dead ↔
          ∃ i, i < (after name).size ∧ container.position (after name).front i = k) ∧
        ∀ this other (different : this ≠ other),
          ((machine container (.moveConstruct this other different) after).2 other).size = 0 ∧
            ((machine container (.moveAssign this other) after).2 other).size = 0) ∧
      ∀ k, ((run (family access) whole fresh).2 last).slots k = .dead ∧
        ∃ count, history last k (requests (family access) whole fresh) =
          (List.replicate count [Event.constructed, .destroyed]).flatten := by
  intro container whole
  have disciplined : Disciplined config container := container_disciplined nontrivial kind
  have initial : Cleared config container.position (.initial : Object T) :=
    ⟨config.positive, rfl, fun _ => rfl, disciplined.aligned⟩
  have exact : ∀ name : N, Exact config container.position (fresh name : Object T) :=
    fun _ => cleared_exact initial
  have keeps := script_keeps disciplined commands exact respects
  obtain ⟨destroys, ready⟩ := @clear_ready _ _ _ _ _ last _ _ disciplined.destructor keeps.2
  have obeys : Obeys (family access) (At (Legal config)) whole fresh :=
    (obeys_bind _ _ _).mpr ⟨keeps.1, destroys⟩
  have dead : ∀ k, ((run (family access) whole fresh).2 last).slots k = .dead := by
    simp only [whole, run_bind]
    exact ready.cleared.dead
  refine ⟨obeys, fun earlier prior => ?_, fun k => ⟨dead k, ?_⟩⟩
  · have before := script_keeps disciplined earlier exact (respects_earlier prior respects)
    exact ⟨fun name => ⟨(before.2 name).size, (before.2 name).holds⟩,
      fun this other different => moved_empty disciplined different before.2⟩
  · have tracked := history_tracked last k whole fresh obeys
    rw [dead k] at tracked
    exact track_paired _ tracked

end Scripts

/-- A push onto a full buffer, a copy, a pop, a move of what wraps around and a self-assignment. -/
def testingCommands :
    List (Command Bool (Kind.circularBuffer.container UInt8 CircularBufferCopies.testingConfig).Operation) :=
  [.operate true (Operation.pushBack 1), .operate true (Operation.pushBack 2),
    .operate true (Operation.pushBack 3), .copyConstruct false true (by decide),
    .operate true Operation.popFront, .moveAssign false true, .copyAssign false false]

theorem slot_lifetimes_exact_testing :
    let container := Kind.circularBuffer.container UInt8 CircularBufferCopies.testingConfig
    let whole : Code Bool UInt8 Unit := do
      script container testingCommands
      container.destructor.on false
    Obeys (family access) (At (Legal CircularBufferCopies.testingConfig)) whole fresh ∧
      history false 0 (requests (family access) whole fresh) =
        [.constructed, .destroyed, .constructed, .destroyed] := by
  have respects : Respects (machine (Kind.circularBuffer.container UInt8 CircularBufferCopies.testingConfig))
      (Command.Allowed _) testingCommands fresh :=
    ⟨trivial, trivial, trivial, trivial, Nat.succ_ne_zero 1, trivial, trivial, trivial⟩
  exact ⟨(slot_lifetimes_exact rfl .circularBuffer testingCommands respects false).1, rfl⟩

end Emblib.InplaceScripts
